import LayerGraph.Proofs.ShapeRules
/-!
# Flattening

`Rule.flattenShape` multiplies the sizes from its start on, one after the other, and refuses a product
that is no signed word even where a later size is zero.

* `Dim.volume`: the product of the sizes. What a list of dimensions collapses into is
  `Dim.collapsed`.
* `collapse_eq_ok_iff`: every prefix of the dimensions has a volume in the words, and no dimension is
  the batch.
* `flatten_eq_ok_iff`: when a flattening succeeds (`Shape.Flattens`), and with what
  (`Shape.flattened`).
* `flatten_composes`: what is flattened from a later start on may be flattened again from an earlier
  one. No product is new: a prefix that ends before the later start is a prefix of the shape, and the
  whole has the volume of the whole shape.
-/

namespace LayerGraph
set_option autoImplicit false

/-! ## Volumes -/

namespace Dim

/-- What a dimension contributes to a product of sizes. -/
def factor (d : Dim) : Int := d.size?.getD 1

/-- The product of the sizes; symbolic dimensions are passed over. -/
def volume (dims : List Dim) : Int := (dims.map factor).prod

/-- The one dimension that stands for several. -/
def collapsed (dims : List Dim) : Dim := if .unknown ∈ dims then .unknown else .fixed (volume dims)

theorem volume_nil : volume [] = 1 := rfl

theorem volume_cons (d : Dim) (dims : List Dim) : volume (d :: dims) = d.factor * volume dims := by
  rw [volume, List.map_cons, List.prod_cons, volume]

theorem volume_append (front back : List Dim) :
    volume (front ++ back) = volume front * volume back := by
  rw [volume, List.map_append, List.prod_append, volume, volume]

theorem volume_singleton (d : Dim) : volume [d] = d.factor := by
  rw [volume_cons, volume_nil, Int.mul_one]

theorem collapsed_ne_batch (dims : List Dim) : collapsed dims ≠ .batch := by
  unfold collapsed
  split <;> simp

theorem collapsed_eq_unknown_iff {dims : List Dim} : collapsed dims = .unknown ↔ .unknown ∈ dims := by
  unfold collapsed
  split <;> simp [*]

theorem collapsed_eq_fixed {dims : List Dim} (h : .unknown ∉ dims) :
    collapsed dims = .fixed (volume dims) := if_neg h

/-- The volume stays when dimensions at the end collapse. -/
theorem volume_append_collapsed (front : List Dim) {back : List Dim} (h : .unknown ∉ back) :
    volume (front ++ [collapsed back]) = volume (front ++ back) := by
  rw [volume_append, volume_append, volume_singleton, collapsed_eq_fixed h]
  rfl

/-- Dimensions collapse alike when some of them at the end have collapsed before. -/
theorem collapsed_append_collapsed (front back : List Dim) :
    collapsed (front ++ [collapsed back]) = collapsed (front ++ back) := by
  have hunknown : .unknown ∈ front ++ [collapsed back] ↔ .unknown ∈ front ++ back := by
    rw [List.mem_append, List.mem_append, List.mem_singleton, eq_comm, collapsed_eq_unknown_iff]
  by_cases h : .unknown ∈ front ++ back
  · rw [collapsed_eq_unknown_iff.2 h, collapsed_eq_unknown_iff.2 (hunknown.2 h)]
  · have hback : .unknown ∉ back := fun hmem => h (List.mem_append_right _ hmem)
    rw [collapsed_eq_fixed h, collapsed_eq_fixed (mt hunknown.1 h), volume_append_collapsed _ hback]

end Dim

/-! ## Collapsing -/

theorem forall_prefix_cons {α : Type} {holds : List α → Prop} {a : α} {list : List α} :
    (∀ front, front <+: a :: list → holds front) ↔
      holds [] ∧ ∀ front, front <+: list → holds (a :: front) := by
  constructor
  · intro h
    exact ⟨h [] List.nil_prefix, fun front hfront =>
      h _ (List.cons_prefix_cons.2 ⟨rfl, hfront⟩)⟩
  · rintro ⟨hnil, hcons⟩ front hfront
    rcases List.prefix_cons_iff.1 hfront with rfl | ⟨rest, rfl, hrest⟩
    · exact hnil
    · exact hcons rest hrest

namespace Rule

/-- The product is checked behind every size, so each prefix of the dimensions has to fit. -/
theorem collapse_eq_ok_iff {whole : Shape} {size : Int} {isUnknown : Bool} {dims : List Dim} {d : Dim}
    (hsize : Word.Fits size) :
    collapse whole size isUnknown dims = .ok d ↔
      .batch ∉ dims ∧ (∀ front, front <+: dims → Word.Fits (size * Dim.volume front)) ∧
        d = if isUnknown ∨ .unknown ∈ dims then .unknown else .fixed (size * Dim.volume dims) := by
  induction dims generalizing size isUnknown with
  | nil => simp [collapse, Dim.volume_nil, hsize, eq_comm]
  | cons first rest ih =>
    rw [forall_prefix_cons]
    cases first with
    | batch => simp [collapse]
    | unknown =>
      rw [collapse, ih hsize]
      simp [Dim.volume_cons, Dim.volume_nil, Dim.factor, Dim.size?, hsize]
    | fixed n =>
      rw [collapse]
      cases hchecked : Word.checked (size * n) with
      | none =>
        have hnot : ¬ Word.Fits (size * Dim.volume [.fixed n]) := by
          rw [Dim.volume_singleton]
          exact Word.checked_eq_none_iff.1 hchecked
        constructor
        · intro h
          cases h
        · rintro ⟨-, ⟨-, hfits⟩, -⟩
          exact absurd (hfits [] List.nil_prefix) hnot
      | some product =>
        obtain ⟨hfits, rfl⟩ := Word.checked_eq_some_iff.1 hchecked
        simp only [ih hfits]
        simp [Dim.volume_cons, Dim.volume_nil, Dim.factor, Dim.size?, hsize, Int.mul_assoc]

end Rule

/-! ## Flattening -/

namespace Shape

variable {s : Shape} {start later : Nat}

/-- The shape with the dimensions from `start` on collapsed. -/
def flattened (s : Shape) (start : Nat) : Shape :=
  ⟨s.dims.take start ++ [Dim.collapsed (s.dims.drop start)]⟩

/-- The product of the sizes from `start` on. -/
def volume (s : Shape) (start : Nat) : Int := Dim.volume (s.dims.drop start)

/-- The dimensions from `start` on can be collapsed. -/
structure Flattens (s : Shape) (start : Nat) : Prop where
  start_lt : start < s.rank
  notBatch : .batch ∉ s.dims.drop start
  fits : ∀ front, front <+: s.dims.drop start → Word.Fits (Dim.volume front)

/-- Between two starts the dimensions stay. -/
theorem drop_eq_append (hle : start ≤ later) (dims : List Dim) :
    dims.drop start = (dims.take later).drop start ++ dims.drop later := by
  rcases Nat.le_total later dims.length with hlater | hlater
  · rw [← List.drop_append_of_le_length (by rw [List.length_take]; omega), List.take_append_drop]
  · rw [List.take_of_length_le hlater, List.drop_of_length_le hlater, List.append_nil]

theorem le_length_take (hle : start ≤ later) (hlt : later < s.rank) :
    start ≤ (s.dims.take later).length := by
  unfold rank at hlt
  rw [List.length_take]
  omega

theorem drop_flattened (hle : start ≤ later) (hlt : later < s.rank) :
    (s.flattened later).dims.drop start =
      (s.dims.take later).drop start ++ [Dim.collapsed (s.dims.drop later)] :=
  List.drop_append_of_le_length (le_length_take hle hlt)

theorem flattened_flattened (hle : start ≤ later) (hlt : later < s.rank) :
    (s.flattened later).flattened start = s.flattened start := by
  have htake : (s.flattened later).dims.take start = s.dims.take start := by
    rw [flattened, List.take_append_of_le_length (le_length_take hle hlt), List.take_take,
      Nat.min_eq_left hle]
  rw [flattened, htake, drop_flattened hle hlt, Dim.collapsed_append_collapsed,
    ← drop_eq_append hle, flattened]

theorem volume_flattened (hle : start ≤ later) (hlt : later < s.rank)
    (hknown : .unknown ∉ s.dims.drop start) : (s.flattened later).volume start = s.volume start := by
  rw [drop_eq_append hle] at hknown
  have hback : .unknown ∉ s.dims.drop later := fun hmem => hknown (List.mem_append_right _ hmem)
  rw [volume, drop_flattened hle hlt, Dim.volume_append_collapsed _ hback, ← drop_eq_append hle,
    volume]

/-- The products that are computed again are products of the shape itself. -/
theorem Flattens.flattened (h : s.Flattens start) (hle : start ≤ later) (hlt : later < s.rank) :
    (s.flattened later).Flattens start where
  start_lt := by
    unfold Shape.flattened rank at *
    rw [List.length_append, List.length_take, List.length_singleton]
    omega
  notBatch := by
    have hbatch := h.notBatch
    rw [drop_eq_append hle, List.mem_append] at hbatch
    rw [drop_flattened hle hlt, List.mem_append, List.mem_singleton]
    rintro (hmem | heq)
    · exact hbatch (.inl hmem)
    · exact Dim.collapsed_ne_batch _ heq.symm
  fits := by
    intro front hfront
    have hfits := h.fits
    rw [drop_eq_append hle] at hfits
    rw [drop_flattened hle hlt, List.prefix_concat_iff] at hfront
    rcases hfront with rfl | hfront
    · by_cases hback : .unknown ∈ s.dims.drop later
      · -- The unknown dimension contributes nothing to the product before it.
        rw [Dim.collapsed_eq_unknown_iff.2 hback, Dim.volume_append, Dim.volume_singleton]
        have hbefore := hfits _ (List.prefix_append _ _)
        rwa [show Dim.unknown.factor = 1 from rfl, Int.mul_one]
      · rw [Dim.volume_append_collapsed _ hback]
        exact hfits _ List.prefix_rfl
    · exact hfits front (hfront.trans (List.prefix_append _ _))

end Shape

theorem Rule.flatten_eq_ok_iff {params : Params} {start : Nat}
    (hstart : params.int? "start_dim" = some ↑start) {s : Shape} {result : RuleResult} :
    Rule.flatten.apply params [s] = .ok result ↔
      s.Flattens start ∧ result = ⟨s.flattened start, []⟩ := by
  have hone : Word.Fits 1 := by decide
  have happly : Rule.flatten.apply params [s] = flattenShape params s := rfl
  simp only [happly, flattenShape, bind_eq_ok_iff, intParam_eq_ok_iff, hstart, Option.some_inj,
    exists_eq_left', refuse_eq_ok_iff, collapse_eq_ok_iff hone, Int.toNat_natCast, Int.one_mul]
  constructor
  · rintro ⟨-, hlt, _, ⟨hbatch, hfits, rfl⟩, hresult⟩
    refine ⟨⟨Nat.lt_of_not_le hlt, hbatch, hfits⟩, ?_⟩
    simpa [Shape.flattened, Dim.collapsed] using (Except.ok.inj hresult).symm
  · rintro ⟨⟨hlt, hbatch, hfits⟩, rfl⟩
    refine ⟨by omega, Nat.not_le.2 hlt, _, ⟨hbatch, hfits, rfl⟩, ?_⟩
    simp [Shape.flattened, Dim.collapsed]

/-- Flattening composes: what is flattened from a later start on is flattened from an earlier one on
as the shape itself is, so flattening again changes nothing. Where no dimension is unknown the
product of the sizes stays. -/
theorem flatten_composes (shape : Shape) (start later : Nat) (hle : start ≤ later)
    (outer inner : Params) (houter : outer.int? "start_dim" = some ↑start)
    (hinner : inner.int? "start_dim" = some ↑later) (x y : RuleResult)
    (hx : Rule.flatten.apply inner [shape] = .ok x)
    (hy : Rule.flatten.apply outer [shape] = .ok y) :
    Rule.flatten.apply outer [x.shape] = .ok y ∧ Rule.flatten.apply outer [y.shape] = .ok y ∧
      (.unknown ∉ shape.dims.drop start →
        y.shape.dims = shape.dims.take start ++ [.fixed (shape.volume start)] ∧
          y.shape.volume start = shape.volume start ∧
          x.shape.volume start = shape.volume start) := by
  obtain ⟨hflattens, rfl⟩ := (Rule.flatten_eq_ok_iff houter).1 hy
  obtain ⟨⟨hlt, -, -⟩, rfl⟩ := (Rule.flatten_eq_ok_iff hinner).1 hx
  have hagain : ∀ between, start ≤ between → between < shape.rank →
      Rule.flatten.apply outer [shape.flattened between] = .ok ⟨shape.flattened start, []⟩ := by
    intro between hbetween hrank
    rw [Rule.flatten_eq_ok_iff houter, Shape.flattened_flattened hbetween hrank]
    exact ⟨hflattens.flattened hbetween hrank, rfl⟩
  refine ⟨hagain later hle hlt, hagain start (Nat.le_refl _) hflattens.start_lt, fun hknown => ?_⟩
  refine ⟨?_, Shape.volume_flattened (Nat.le_refl _) hflattens.start_lt hknown,
    Shape.volume_flattened hle hlt hknown⟩
  rw [Shape.flattened, Dim.collapsed_eq_fixed hknown, Shape.volume]

/-- Sizes whose product is the least word, one of them negative. -/
theorem flatten_composes_least :
    let shape : Shape := ⟨[.batch, .fixed (-2), .fixed (2 ^ 31), .fixed (2 ^ 31)]⟩
    let outer : Params := .ofList [("start_dim", .int 1)]
    let inner : Params := .ofList [("start_dim", .int 2)]
    ∃ x y : RuleResult, Rule.flatten.apply inner [shape] = .ok x ∧
      x.shape = ⟨[.batch, .fixed (-2), .fixed (2 ^ 62)]⟩ ∧
      Rule.flatten.apply outer [x.shape] = .ok y ∧ Rule.flatten.apply outer [y.shape] = .ok y ∧
      y.shape = ⟨[.batch, .fixed Word.least]⟩ ∧ y.shape.volume 1 = shape.volume 1 := by
  intro shape outer inner
  obtain ⟨x, hx, hshape⟩ : ∃ x : RuleResult, Rule.flatten.apply inner [shape] = .ok x ∧
      x.shape = ⟨[.batch, .fixed (-2), .fixed (2 ^ 62)]⟩ := ⟨_, rfl, rfl⟩
  obtain ⟨y, hy⟩ : ∃ y : RuleResult, Rule.flatten.apply outer [shape] = .ok y := ⟨_, rfl⟩
  obtain ⟨hcomposed, hagain, hvolumes⟩ :=
    flatten_composes shape 1 2 (by decide) outer inner rfl rfl x y hx hy
  obtain ⟨hdims, hvolume, -⟩ := hvolumes (by decide)
  exact ⟨x, y, hx, hshape, hcomposed, hagain, congrArg Shape.mk hdims, hvolume⟩

/-- A zero that is collapsed first hides a product that leaves the words, so a shape need not be
flattened where its partly flattened form is. -/
example :
    let shape : Shape := ⟨[.batch, .fixed (2 ^ 40), .fixed (2 ^ 40), .fixed 0]⟩
    let partly : Shape := ⟨[.batch, .fixed (2 ^ 40), .fixed 0]⟩
    let outer : Params := .ofList [("start_dim", .int 1)]
    let inner : Params := .ofList [("start_dim", .int 2)]
    Rule.flatten.apply inner [shape] = .ok ⟨partly, []⟩ ∧
      Rule.flatten.apply outer [partly] = .ok ⟨⟨[.batch, .fixed 0]⟩, []⟩ ∧
      Rule.flatten.apply outer [shape] = .error (.flattenOverflow shape) := ⟨rfl, rfl, rfl⟩

end LayerGraph
