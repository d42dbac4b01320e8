import LayerGraph.Proofs.Flattening
import LayerGraph.Proofs.SizedShapes
/-!
# Sizes are signed words

What is read from a document, or was computed before, has sizes that are signed words and no more
dimensions than a signed word counts (`Shape.InWords`, `Params.InWords`). So has what a rule makes of
it (`Rule.inWords_of_apply`): most sums and products are checked. The number of positions of a window
is not, and fits because the kernel covers at least one element (`Window.fits_of_count`).
-/

namespace LayerGraph
set_option autoImplicit false

/-! ## Words -/

namespace Word

variable {a b : Int}

theorem fits_ediv (ha : Fits a) (hnonneg : 0 ≤ a) (hb : 1 ≤ b) : Fits (a / b) := by
  have hquotient : 0 ≤ a / b := Int.ediv_nonneg hnonneg (by omega)
  have hle : a / b ≤ a := Int.ediv_le_self b hnonneg
  unfold Fits least greatest at *
  omega

/-- A quotient leaves room for one more unless it is the greatest word, undivided. -/
theorem fits_ediv_add_one_iff (ha : Fits a) (hnonneg : 0 ≤ a) (hb : 1 ≤ b) :
    Fits (a / b + 1) ↔ ¬ (b = 1 ∧ a = greatest) := by
  have hquotient : 0 ≤ a / b := Int.ediv_nonneg hnonneg (by omega)
  unfold Fits least greatest at *
  by_cases hone : b = 1
  · rw [hone, Int.ediv_one]
    omega
  · -- A divisor of two or more halves the number.
    have hdouble : a / b * 2 ≤ a / b * b := Int.mul_le_mul_of_nonneg_left (by omega) hquotient
    have hle : a / b * b ≤ a := Int.ediv_mul_le a (by omega)
    omega

end Word

/-- A size, if there is one, is a signed word. -/
def Dim.InWords (d : Dim) : Prop := ∀ size ∈ d.size?, Word.Fits size

theorem Dim.inWords_fixed {size : Int} : (Dim.fixed size).InWords ↔ Word.Fits size := by
  simp [Dim.InWords, Dim.size?]

theorem Dim.inWords_unknown : Dim.unknown.InWords := by
  intro size hsize
  cases hsize

/-- The sizes are signed words, and a signed word counts the dimensions, as it does those of any list
in memory. -/
structure Shape.InWords (s : Shape) : Prop where
  dims : ∀ d ∈ s.dims, d.InWords
  rank : Word.Fits s.rank

/-- The integers among the parameters are signed words. -/
def Params.InWords (params : Params) : Prop :=
  ∀ name i, params.int? name = some i → Word.Fits i

/-- The shape is in signed words, and so are the sizes that are learned. -/
structure RuleResult.InWords (r : RuleResult) : Prop where
  shape : r.shape.InWords
  learned : ∀ entry ∈ r.learned, ∃ size, entry.2 = .int size ∧ Word.Fits size

instance (d : Dim) : Decidable d.InWords := inferInstanceAs (Decidable (∀ size ∈ d.size?, _))

instance (s : Shape) : Decidable s.InWords :=
  decidable_of_iff ((∀ d ∈ s.dims, d.InWords) ∧ Word.Fits s.rank)
    ⟨fun h => ⟨h.1, h.2⟩, fun h => ⟨h.dims, h.rank⟩⟩

theorem Params.inWords_ofList {entries : List (String × ParamValue)}
    (h : ∀ entry ∈ entries, ∀ i ∈ entry.2.int?, Word.Fits i) :
    Params.InWords (Table.ofList entries) := by
  intro name i hint
  obtain ⟨value, hvalue, hint⟩ := Option.bind_eq_some_iff.1 hint
  exact h (name, value) (Table.mem_of_get?_ofList hvalue) i hint

theorem Params.InWords.overlay {base top : Params} (hbase : base.InWords) (htop : top.InWords) :
    Params.InWords (base.overlay top) := by
  intro name i hint
  obtain ⟨value, hvalue, hint⟩ := Option.bind_eq_some_iff.1 hint
  rw [Table.get?_overlay, Option.or_eq_some_iff] at hvalue
  rcases hvalue with hset | ⟨-, hdefault⟩
  · exact htop name i (Option.bind_eq_some_iff.2 ⟨value, hset, hint⟩)
  · exact hbase name i (Option.bind_eq_some_iff.2 ⟨value, hdefault, hint⟩)

/-- The defaults of an operator are in signed words, so what stands over them may be as well. -/
theorem Operator.inWords_resolve {o : Operator} (ho : o ∈ Architecture.all) {params : Params}
    (hparams : params.InWords) : (o.resolve params).InWords := by
  have hall : ∀ o ∈ Architecture.all, ∀ decl ∈ o.params, ∀ value ∈ decl.default,
      ∀ i ∈ value.int?, Word.Fits i := by decide +kernel
  refine (Params.inWords_ofList fun entry hentry i hint => ?_).overlay hparams
  obtain ⟨decl, hdecl, hpair⟩ := List.mem_filterMap.1 hentry
  obtain ⟨default, hset, rfl⟩ := Option.map_eq_some_iff.1 hpair
  exact hall o ho decl hdecl default hset i hint

/-! ## Windows -/

/-- The parameters that hold the size of a kernel are at least one. -/
def Params.HasKernel (params : Params) : Prop :=
  ∀ kernel, params.int? "kernel_size" = some kernel → 1 ≤ kernel

theorem Operator.hasKernel_resolve {o : Operator} (ho : o ∈ Architecture.all) {params : Params}
    (hproblems : o.problems params = []) : (o.resolve params).HasKernel := by
  have hall : ∀ o ∈ Architecture.all, ∀ decl ∈ o.params, decl.name = "kernel_size" →
      decl.kind = .int (some 1) none := by decide +kernel
  intro kernel hkernel
  obtain ⟨value, hvalue, hint⟩ := Option.bind_eq_some_iff.1 hkernel
  obtain ⟨decl, hdecl, hname⟩ := exists_decl_of_resolve hproblems hvalue
  rw [← hname] at hvalue
  have hchecks := checks_resolve (wellDeclared .architecture ho) hproblems hdecl hvalue
  obtain ⟨i, hi, hle⟩ := ParamDecl.le_of_checks_int (hall o ho decl hdecl hname) hchecks
  exact Option.some.inj (hi.symm.trans hint) ▸ hle

namespace Window

variable {w : Window} {size positions : Int}

/-- A kernel of at least one element leaves a span below the greatest word. -/
theorem fits_of_count (hkernel : 1 ≤ w.kernel) (h : w.count size = .ok positions) :
    Word.Fits positions := by
  obtain ⟨-, hpadded, hspan, hle, hstride, rfl⟩ := count_eq_ok_iff.1 h
  have hnonneg : 0 ≤ size + 2 * w.padding - w.kernel := by omega
  have hne : size + 2 * w.padding - w.kernel ≠ Word.greatest := by
    unfold Word.Fits at hpadded
    omega
  rw [Word.fits_ediv_add_one_iff hspan hnonneg hstride]
  exact fun heq => hne heq.2

theorem inWords_of_apply {d d' : Dim} (hkernel : 1 ≤ w.kernel) (hd : d.InWords)
    (h : w.apply d = .ok d') : d'.InWords := by
  cases d with
  | fixed size =>
    obtain ⟨positions, hcount, rfl⟩ := apply_fixed_eq_ok_iff.1 h
    exact Dim.inWords_fixed.2 (fits_of_count hkernel hcount)
  | batch =>
    obtain rfl := Except.ok.inj h
    exact hd
  | unknown =>
    obtain rfl := Except.ok.inj h
    exact hd

end Window

/-! ## Rules -/

namespace Rule

variable {params : Params} {inputs : List Shape} {result : RuleResult}

theorem inWords_of_collapse {whole : Shape} {dims : List Dim} {size : Int} {isUnknown : Bool}
    (hsize : Word.Fits size) {d : Dim} (h : collapse whole size isUnknown dims = .ok d) :
    d.InWords := by
  obtain ⟨-, hfits, rfl⟩ := (collapse_eq_ok_iff hsize).1 h
  split
  · exact Dim.inWords_unknown
  · exact Dim.inWords_fixed.2 (hfits dims List.prefix_rfl)

theorem fits_of_branchChannels {names : List String} {sum total : Int} (hsum : Word.Fits sum)
    (h : branchChannels params sum names = .ok total) : Word.Fits total := by
  induction names generalizing sum with
  | nil => exact Except.ok.inj h ▸ hsum
  | cons name rest ih =>
    obtain ⟨channels, -, h⟩ := bind_eq_ok_iff.1 h
    split at h
    · rename_i next hnext
      obtain ⟨hfits, rfl⟩ := Word.checked_eq_some_iff.1 hnext
      exact ih hfits h
    · cases h

/-- Every way to make a dimension stays within the signed words. -/
theorem inWords_of_makes {d : Dim} (h : Makes params inputs d) (hparams : params.InWords)
    (hkernel : params.HasKernel) (hinputs : ∀ s ∈ inputs, s.InWords) : d.InWords := by
  cases h with
  | image hfound hd =>
    have hall : ∀ found ∈ Dataset.all, ∀ d ∈ found.shape.dims, d.InWords := by decide
    exact hall _ hfound d hd
  | kept hs hd => exact (hinputs _ hs).dims d hd
  | given hname hsize => exact Dim.inWords_fixed.2 (hparams _ _ hsize)
  | @slid s w _ _ hs hd hwindow hslid =>
    have hone : 1 ≤ w.kernel := hwindow.elim (fun hthree => by omega) (hkernel w.kernel)
    exact Window.inWords_of_apply hone ((hinputs _ hs).dims _ hd) hslid
  | collapsed hs hcollapsed => exact inWords_of_collapse (by decide) hcollapsed
  | joined hsome hsum =>
    have hfits := (extendAll_eq_ok hsum).2.1 (by decide)
    rw [AxisSum.dim]
    split
    · exact Dim.inWords_unknown
    · exact Dim.inWords_fixed.2 hfits
  | branched htotal => exact Dim.inWords_fixed.2 (fits_of_branchChannels (by decide) htotal)

/-- What is learned is a dimension of an input. -/
theorem learned_inWords {rule : Rule} (h : rule.apply params inputs = .ok result)
    (hinputs : ∀ s ∈ inputs, s.InWords) :
    ∀ entry ∈ result.learned, ∃ size, entry.2 = .int size ∧ Word.Fits size := by
  intro entry hentry
  cases hname : rule.learnedName? with
  | none =>
    rw [learned_eq_nil h hname] at hentry
    cases hentry
  | some name =>
    obtain ⟨input, dim, rfl, hdim, hlearned⟩ := learned_of_apply h hname
    have hwords := (hinputs input (List.mem_singleton_self _)).dims dim
      (Network.mem_dims_of_learnedDim? hdim)
    rw [hlearned] at hentry
    cases dim with
    | fixed size =>
      obtain rfl := List.mem_singleton.1 hentry
      exact ⟨size, rfl, Dim.inWords_fixed.1 hwords⟩
    | batch => cases hentry
    | unknown => cases hentry

/-- A rule makes shapes in signed words of shapes in signed words. -/
theorem inWords_of_apply {rule : Rule} (h : rule.apply params inputs = .ok result)
    (hparams : params.InWords) (hkernel : params.HasKernel) (hinputs : ∀ s ∈ inputs, s.InWords) :
    result.InWords := by
  obtain ⟨hmakes, hrank⟩ := isMade_of_apply h
  refine ⟨⟨fun d hd => inWords_of_makes (hmakes d hd) hparams hkernel hinputs, ?_⟩,
    learned_inWords h hinputs⟩
  obtain hfour | ⟨s, hs, hle⟩ := hrank
  · unfold Word.Fits Word.least Word.greatest
    omega
  · have hfits := (hinputs s hs).rank
    unfold Word.Fits Word.least Word.greatest at hfits ⊢
    omega

end Rule
end LayerGraph
