import LayerGraph.Proofs.ShapeRules
/-!
# Positions of a sliding window

The size that a window leaves is computed by one division. It is the number of positions at which
the kernel fits into the padded dimension.

* `Window.FitsAt w size k`: the kernel fits, `k` steps into the padded dimension. It does exactly for
  `k` below the computed number (`Window.IsCount`), and no value on the way to this number leaves the
  signed words (`Window.fits_values`).
* `Window.Covers w k i`: the kernel at position `k` lies over element `i` of the dimension itself.
  With a padding of at most half the kernel every position covers an element
  (`Window.exists_covers`), since the padding is less than the kernel at either end.
* `window_positions`: so a pooling node never pools over padding alone.
-/

namespace LayerGraph
set_option autoImplicit false

namespace Window

variable {w : Window} {size positions : Int}

/-- What the parameters of a node are held to. -/
structure IsProper (w : Window) : Prop where
  kernel : 1 ≤ w.kernel
  stride : 1 ≤ w.stride
  padding : 0 ≤ w.padding

/-- The kernel fits into the padded dimension when it starts `k` steps from its beginning. -/
def FitsAt (w : Window) (size : Int) (k : Nat) : Prop :=
  k * w.stride + w.kernel ≤ size + 2 * w.padding

/-- The kernel at position `k` lies over element `i`; the elements stand behind the first padding. -/
def Covers (w : Window) (k : Nat) (i : Int) : Prop :=
  k * w.stride ≤ w.padding + i ∧ w.padding + i < k * w.stride + w.kernel

/-- All values that are computed on the way to the number of positions, and this number. -/
def values (w : Window) (size : Int) : List Int :=
  [2 * w.padding, size + 2 * w.padding, size + 2 * w.padding - w.kernel,
   (size + 2 * w.padding - w.kernel) / w.stride,
   (size + 2 * w.padding - w.kernel) / w.stride + 1]

/-- The number counts the positions at which the kernel fits: the last of them still fits and the
next one does not. -/
structure IsCount (w : Window) (size positions : Int) : Prop where
  one_le : 1 ≤ positions
  last_le : (positions - 1) * w.stride + w.kernel ≤ size + 2 * w.padding
  lt_next : size + 2 * w.padding < positions * w.stride + w.kernel
  fitsAt_iff : ∀ k : Nat, w.FitsAt size k ↔ k < positions

/-! ## The computed number -/

theorem padded?_eq_some_iff {padded : Int} :
    w.padded? size = some padded ↔
      Word.Fits (2 * w.padding) ∧ Word.Fits (size + 2 * w.padding) ∧
        padded = size + 2 * w.padding := by
  rw [padded?, Option.bind_eq_some_iff, Int.mul_comm]
  simp only [Word.checked_eq_some_iff]
  constructor
  · rintro ⟨_, ⟨hpadding, rfl⟩, hpadded, rfl⟩
    exact ⟨hpadding, hpadded, rfl⟩
  · rintro ⟨hpadding, hpadded, rfl⟩
    exact ⟨_, ⟨hpadding, rfl⟩, hpadded, rfl⟩

/-- When a window has a number of positions, and which number. -/
theorem count_eq_ok_iff :
    w.count size = .ok positions ↔
      Word.Fits (2 * w.padding) ∧ Word.Fits (size + 2 * w.padding) ∧
        Word.Fits (size + 2 * w.padding - w.kernel) ∧ w.kernel ≤ size + 2 * w.padding ∧
        1 ≤ w.stride ∧ positions = (size + 2 * w.padding - w.kernel) / w.stride + 1 := by
  rw [count]
  cases hpadded : w.padded? size with
  | none =>
    have hfits : Word.Fits (2 * w.padding) → ¬ Word.Fits (size + 2 * w.padding) := fun h h' => by
      rw [padded?_eq_some_iff.2 ⟨h, h', rfl⟩] at hpadded
      cases hpadded
    exact ⟨(nomatch ·), fun ⟨h, h', _⟩ => absurd h' (hfits h)⟩
  | some padded =>
    obtain ⟨hpadding, hfits, rfl⟩ := padded?_eq_some_iff.1 hpadded
    simp only [hpadding, hfits, true_and]
    cases hchecked : Word.checked (size + 2 * w.padding - w.kernel) with
    | none => simp [Word.checked_eq_none_iff.1 hchecked]
    | some span =>
      obtain ⟨hspan, rfl⟩ := Word.checked_eq_some_iff.1 hchecked
      simp only [refuse_eq_ok_iff, Int.not_lt, Int.sub_nonneg, Except.ok.injEq, hspan, true_and,
        eq_comm (a := positions)]

theorem one_le_of_count (h : w.count size = .ok positions) : 1 ≤ positions := by
  obtain ⟨-, -, -, hkernel, hstride, rfl⟩ := count_eq_ok_iff.1 h
  have hquotient : 0 ≤ (size + 2 * w.padding - w.kernel) / w.stride :=
    Int.ediv_nonneg (by omega) (by omega)
  omega

/-- A kernel of at least one element takes no more than it fits into. -/
theorem IsProper.count_eq_ok_iff (hw : w.IsProper) :
    w.count size = .ok positions ↔
      (Word.Fits (2 * w.padding) ∧ Word.Fits (size + 2 * w.padding) ∧
        w.kernel ≤ size + 2 * w.padding) ∧
        positions = (size + 2 * w.padding - w.kernel) / w.stride + 1 := by
  have hkernel := hw.kernel
  rw [Window.count_eq_ok_iff]
  constructor
  · rintro ⟨hpadding, hfits, -, hle, -, hpositions⟩
    exact ⟨⟨hpadding, hfits, hle⟩, hpositions⟩
  · rintro ⟨⟨hpadding, hfits, hle⟩, hpositions⟩
    refine ⟨hpadding, hfits, ?_, hle, hw.stride, hpositions⟩
    unfold Word.Fits Word.least Word.greatest at hfits ⊢
    omega

/-- The quotient is at most the span, which is a word below the greatest one. -/
theorem IsProper.fits_values (hw : w.IsProper) (h : w.count size = .ok positions) :
    ∀ value ∈ w.values size, Word.Fits value := by
  obtain ⟨⟨hpadding, hfits, hle⟩, -⟩ := hw.count_eq_ok_iff.1 h
  have hkernel := hw.kernel
  have hspan : 0 ≤ size + 2 * w.padding - w.kernel := by omega
  have hquotient : 0 ≤ (size + 2 * w.padding - w.kernel) / w.stride :=
    Int.ediv_nonneg hspan (by have := hw.stride; omega)
  have hquotient' : (size + 2 * w.padding - w.kernel) / w.stride ≤
      size + 2 * w.padding - w.kernel := Int.ediv_le_self _ hspan
  simp only [values, List.forall_mem_cons, List.not_mem_nil, false_imp_iff, implies_true, and_true]
  refine ⟨hpadding, hfits, ?_, ?_, ?_⟩ <;>
    · unfold Word.Fits Word.least Word.greatest at hfits ⊢
      omega

/-! ## The positions -/

/-- The division finds the last position: a step fits as long as it does not exceed the span. -/
theorem fitsAt_iff_lt (hstride : 1 ≤ w.stride) (k : Nat) :
    w.FitsAt size k ↔ k < (size + 2 * w.padding - w.kernel) / w.stride + 1 := by
  rw [FitsAt, Int.lt_add_one_iff, Int.le_ediv_iff_mul_le (by omega)]
  omega

theorem isCount_of_count (h : w.count size = .ok positions) : w.IsCount size positions := by
  obtain ⟨-, -, -, -, hstride, hpositions⟩ := count_eq_ok_iff.1 h
  have hone := one_le_of_count h
  have hfits : ∀ k : Nat, w.FitsAt size k ↔ k < positions :=
    fun k => hpositions ▸ fitsAt_iff_lt hstride k
  -- The two bounds are the positions next to each other where fitting ends.
  obtain ⟨last, hlast⟩ : ∃ last : Nat, positions = last + 1 :=
    ⟨(positions - 1).toNat, by omega⟩
  have hlast' := (hfits last).2 (by omega)
  have hnext := mt (hfits (last + 1)).1 (by omega)
  rw [FitsAt] at hlast' hnext
  subst hlast
  exact ⟨hone, by rwa [Int.add_sub_cancel], by push_cast at hnext; omega, hfits⟩

/-! ## Padding -/

/-- A kernel that is larger than the padding reaches the dimension from before it, and one that fits
does not start behind it. -/
theorem exists_covers (hw : w.IsProper) (hhalf : 2 * w.padding ≤ w.kernel) (hsize : 1 ≤ size)
    {k : Nat} (hk : w.FitsAt size k) : ∃ i, 0 ≤ i ∧ i < size ∧ w.Covers k i := by
  obtain ⟨hkernel, hstride, hpadding⟩ := hw
  have hstart : 0 ≤ k * w.stride := Int.mul_nonneg (Int.natCast_nonneg k) (by omega)
  rw [FitsAt] at hk
  refine ⟨max 0 (k * w.stride - w.padding), by omega, by omega, ?_, ?_⟩ <;> omega

theorem apply_fixed_eq_ok_iff {d : Dim} :
    w.apply (.fixed size) = .ok d ↔
      ∃ positions, w.count size = .ok positions ∧ .fixed positions = d := map_eq_ok_iff

end Window

/-! ## Pooling -/

namespace Rule

/-- The window of a pooling node. -/
def poolWindow? (params : Params) : Option Window := do
  let kernel ← params.int? "kernel_size"
  let padding ← params.int? "padding"
  some ⟨kernel, (params.int? "stride").getD kernel, padding⟩

variable {params : Params} {inputs : List Shape} {result : RuleResult} {spatial : Nat}

theorem poolWindow?_eq_some_iff {w : Window} :
    poolWindow? params = some w ↔
      params.int? "kernel_size" = some w.kernel ∧ params.int? "padding" = some w.padding ∧
        w.stride = (params.int? "stride").getD w.kernel := by
  obtain ⟨kernel, stride, padding⟩ := w
  simp only [poolWindow?, Option.bind_eq_bind, Option.bind_eq_some_iff, Option.some.injEq,
    Window.mk.injEq]
  constructor
  · rintro ⟨_, hkernel, _, hpadding, rfl, rfl, rfl⟩
    exact ⟨hkernel, hpadding, rfl⟩
  · rintro ⟨hkernel, hpadding, hstride⟩
    exact ⟨kernel, hkernel, padding, hpadding, rfl, hstride.symm, rfl⟩

/-- Pooling leaves the first two dimensions and slides its window over the others, with a padding of
at most half the kernel. -/
theorem exists_window_of_pool (h : (pool spatial).apply params inputs = .ok result) :
    ∃ input w, inputs = [input] ∧ poolWindow? params = some w ∧ 2 * w.padding ≤ w.kernel ∧
      ∃ first channels rest slid, input.dims = first :: channels :: rest ∧
        result.shape.dims = first :: channels :: slid ∧ slide w rest = .ok slid := by
  obtain ⟨input, rfl, hpool⟩ := exists_of_onlyInput h
  simp only [poolShape, bind_eq_ok_iff] at hpool
  obtain ⟨⟨first, channels, rest⟩, hdims, kernel, hkernel, padding, hpadding, hpool⟩ := hpool
  split at hpool
  · rename_i hhalf
    obtain ⟨slid, hslid, hpool⟩ := bind_eq_ok_iff.1 hpool
    obtain rfl := Except.ok.inj hpool
    obtain ⟨total, htotal, hle⟩ := (Option.any_eq_true _ _).1 hhalf
    obtain ⟨-, rfl⟩ := Word.checked_eq_some_iff.1 htotal
    have hle' : 2 * padding ≤ kernel := Int.mul_comm 2 padding ▸ of_decide_eq_true hle
    exact ⟨input, ⟨kernel, (params.int? "stride").getD kernel, padding⟩, rfl,
      poolWindow?_eq_some_iff.2 ⟨intParam_eq_ok_iff.1 hkernel, intParam_eq_ok_iff.1 hpadding, rfl⟩,
      hle', first, channels, rest, slid, (channelled_eq_ok hdims).2, rfl, hslid⟩
  · cases hpool

/-- What pooling makes of a dimension that it slides over. -/
theorem exists_count_of_pool (h : (pool spatial).apply params inputs = .ok result) {w : Window}
    (hw : poolWindow? params = some w) :
    ∃ input, inputs = [input] ∧ 2 * w.padding ≤ w.kernel ∧
      ∀ axis size, 2 ≤ axis → input.get? axis = some (.fixed size) →
        ∃ positions, result.shape.get? axis = some (.fixed positions) ∧
          w.count size = .ok positions := by
  obtain ⟨input, w', rfl, hw', hhalf, first, channels, rest, slid, hdims, hresult, hslid⟩ :=
    exists_window_of_pool h
  obtain rfl := Option.some.inj (hw.symm.trans hw')
  refine ⟨input, rfl, hhalf, fun axis size haxis hsize => ?_⟩
  obtain ⟨axis, rfl⟩ := Nat.exists_eq_add_of_le' haxis
  rw [Shape.get?, hdims] at hsize
  have hrest : rest[axis]? = some (.fixed size) := hsize
  obtain ⟨hlt, hget⟩ := List.getElem?_eq_some_iff.1 hrest
  have hslides := slide_eq_ok_iff.1 hslid
  have hlt' : axis < slid.length := hslides.length_eq ▸ hlt
  have happly : w.apply rest[axis] = .ok slid[axis] := hslides.get hlt hlt'
  rw [hget] at happly
  obtain ⟨positions, hcount, hpositions⟩ := Window.apply_fixed_eq_ok_iff.1 happly
  refine ⟨positions, ?_, hcount⟩
  rw [Shape.get?, hresult, hpositions]
  exact List.getElem?_eq_getElem hlt'

def isPool : Rule → Bool
  | pool _ => true
  | _ => false

end Rule

/-- The parameters of a pooling operator are held to a proper window. -/
theorem Operator.isProper_poolWindow {o : Operator} (ho : o ∈ Architecture.all) {spatial : Nat}
    (hrule : o.rule = .pool spatial) {params : Params} (hproblems : o.problems params = []) :
    ∃ w, Rule.poolWindow? (o.resolve params) = some w ∧ w.IsProper := by
  have hall : ∀ o ∈ Architecture.all, o.rule.isPool = true →
      ParamDecl.int "kernel_size" 2 (some 1) none ∈ o.params ∧
        (ParamDecl.int "stride" 2 (some 1) none).optional ∈ o.params ∧
        ParamDecl.int "padding" 0 (some 0) none ∈ o.params := by decide
  obtain ⟨hkernel, hstride, hpadding⟩ := hall o ho (by rw [hrule]; rfl)
  have hdeclared := wellDeclared .architecture ho
  obtain ⟨kernel, hkernel, hkernelle⟩ := exists_int hdeclared hproblems hkernel
  obtain ⟨padding, hpadding, hpaddingle⟩ := exists_int hdeclared hproblems hpadding
  have hstridele : 1 ≤ ((o.resolve params).int? "stride").getD kernel := by
    cases hget : (o.resolve params).get? "stride" with
    | none => simpa [Params.int?, hget] using hkernelle
    | some value =>
      obtain ⟨stride, hint, hle⟩ :=
        ParamDecl.le_of_checks_int rfl (checks_resolve hdeclared hproblems hstride hget)
      simpa [Params.int?, hget, hint] using hle
  exact ⟨⟨kernel, _, padding⟩, Rule.poolWindow?_eq_some_iff.2 ⟨hkernel, hpadding, rfl⟩,
    hkernelle, hstridele, hpaddingle⟩

/-! ## Windows over dimensions -/

/-- A window has a number of positions exactly when the padding leaves a signed word into which the
kernel fits. The number is that of the positions at which it fits, and all that is computed on the
way are signed words. The window of a pooling node is proper when its parameters have no problems,
and each of its positions lies over an element of the input, not over padding alone. -/
theorem window_positions :
    (∀ (w : Window) (size : Int), w.IsProper →
      ((∃ d, w.apply (.fixed size) = .ok d) ↔
        Word.Fits (2 * w.padding) ∧ Word.Fits (size + 2 * w.padding) ∧
          w.kernel ≤ size + 2 * w.padding) ∧
      ∀ d, w.apply (.fixed size) = .ok d →
        ∃ positions, d = .fixed positions ∧ w.IsCount size positions ∧
          (w.values size).getLast? = some positions ∧
          ∀ value ∈ w.values size, Word.Fits value) ∧
    (∀ o ∈ Operator.Architecture.all, ∀ spatial, o.rule = .pool spatial →
      ∀ params, o.problems params = [] →
        ∃ w, Rule.poolWindow? (o.resolve params) = some w ∧ w.IsProper) ∧
    ∀ (spatial : Nat) (params : Params) (w : Window) (inputs : List Shape) (result : RuleResult),
      Rule.poolWindow? params = some w → w.IsProper →
      (Rule.pool spatial).apply params inputs = .ok result →
      ∃ input, inputs = [input] ∧
        ∀ axis size, 2 ≤ axis → input.get? axis = some (.fixed size) → 1 ≤ size →
          ∃ positions, result.shape.get? axis = some (.fixed positions) ∧
            w.IsCount size positions ∧
            ∀ k : Nat, k < positions → ∃ i, 0 ≤ i ∧ i < size ∧ w.Covers k i := by
  refine ⟨fun w size hw => ⟨?_, fun d hd => ?_⟩,
    fun o ho spatial hrule params hproblems => Operator.isProper_poolWindow ho hrule hproblems,
    fun spatial params w inputs result hwindow hw h => ?_⟩
  · simp only [Window.apply_fixed_eq_ok_iff, hw.count_eq_ok_iff]
    constructor
    · rintro ⟨-, positions, ⟨hfits, -⟩, -⟩
      exact hfits
    · exact fun hfits => ⟨_, _, ⟨hfits, rfl⟩, rfl⟩
  · obtain ⟨positions, hcount, rfl⟩ := Window.apply_fixed_eq_ok_iff.1 hd
    exact ⟨positions, rfl, Window.isCount_of_count hcount,
      congrArg some (hw.count_eq_ok_iff.1 hcount).2.symm, hw.fits_values hcount⟩
  · obtain ⟨input, rfl, hhalf, hslid⟩ := Rule.exists_count_of_pool h hwindow
    refine ⟨input, rfl, fun axis size haxis hget hsize => ?_⟩
    obtain ⟨positions, hpositions, hcount⟩ := hslid axis size haxis hget
    have hisCount := Window.isCount_of_count hcount
    exact ⟨positions, hpositions, hisCount, fun k hk =>
      Window.exists_covers hw hhalf hsize ((hisCount.fitsAt_iff k).2 hk)⟩

/-- The largest dimension has as many positions as elements. Pooling that begins and ends in the
padding has four positions over seven elements, and one over a single element. -/
theorem window_positions_padded :
    (∃ positions, Window.apply ⟨1, 1, 0⟩ (.fixed Word.greatest) = .ok (.fixed positions) ∧
      Window.IsCount ⟨1, 1, 0⟩ Word.greatest positions) ∧
    ∃ result, (Rule.pool 2).apply
        (.ofList [("kernel_size", .int 3), ("stride", .int 2), ("padding", .int 1)])
        [⟨[.batch, .fixed 16, .fixed 7, .fixed 1]⟩] = .ok result ∧
      result.shape = ⟨[.batch, .fixed 16, .fixed 4, .fixed 1]⟩ ∧
      ∀ k : Nat, k < 4 → ∃ i, 0 ≤ i ∧ i < 7 ∧ Window.Covers ⟨3, 2, 1⟩ k i := by
  obtain ⟨hwindow, -, hpool⟩ := window_positions
  constructor
  · obtain ⟨hiff, hcount⟩ := hwindow ⟨1, 1, 0⟩ Word.greatest ⟨by decide, by decide, by decide⟩
    obtain ⟨d, hd⟩ := hiff.2 (by decide)
    obtain ⟨positions, rfl, hpositions, -⟩ := hcount d hd
    exact ⟨positions, hd, hpositions⟩
  · have hresult : (Rule.pool 2).apply
        (.ofList [("kernel_size", .int 3), ("stride", .int 2), ("padding", .int 1)])
        [⟨[.batch, .fixed 16, .fixed 7, .fixed 1]⟩] =
          .ok ⟨⟨[.batch, .fixed 16, .fixed 4, .fixed 1]⟩, []⟩ := by decide
    refine ⟨_, hresult, rfl, ?_⟩
    obtain ⟨input, hinput, hcovers⟩ :=
      hpool 2 _ ⟨3, 2, 1⟩ _ _ (by decide) ⟨by decide, by decide, by decide⟩ hresult
    obtain rfl := (List.cons.inj hinput).1
    obtain ⟨positions, hpositions, -, hall⟩ := hcovers 2 7 (by decide) rfl (by decide)
    obtain rfl : 4 = positions := Dim.fixed.inj (Option.some.inj hpositions)
    exact fun k hk => hall k (by omega)

end LayerGraph
