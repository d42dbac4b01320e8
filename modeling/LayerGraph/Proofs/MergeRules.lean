import LayerGraph.Proofs.ShapeRules
/-!
# Sums and concatenations without order

`Rule.addShape` and `Rule.concatShape` go through their inputs from the first to the last. On sized
inputs their results can be said without an order:

* `addShape_eq_ok_iff`: all inputs are the output.
* `concatShape_eq_ok_iff`: beside the axis all inputs are as the output, which has the sum of their
  sizes on the axis (`Shape.Joins`). No partial sum overflows unless the whole sum does.

So a merge does not depend on the order of its inputs (`apply_perm`).
-/

namespace LayerGraph
set_option autoImplicit false

/-! ## Sized shapes -/

/-- The batch, or a size of at least one. -/
def Dim.IsSized (d : Dim) : Prop := d = .batch ∨ ∃ size, d = .fixed size ∧ 1 ≤ size

@[simp] theorem Dim.isSized_fixed {size : Int} : (Dim.fixed size).IsSized ↔ 1 ≤ size := by
  simp [Dim.IsSized]

@[simp] theorem Dim.isSized_batch : Dim.batch.IsSized := .inl rfl

@[simp] theorem Dim.not_isSized_unknown : ¬ Dim.unknown.IsSized := by simp [Dim.IsSized]

/-- Every dimension is the batch or has a size. -/
def Shape.IsSized (s : Shape) : Prop := ∀ d ∈ s.dims, d.IsSized

theorem Shape.IsSized.of_get? {s : Shape} (hs : s.IsSized) {axis : Nat} {d : Dim}
    (h : s.get? axis = some d) : d.IsSized := hs d (List.mem_of_getElem? h)

theorem Dim.IsSized.ne_unknown {d : Dim} (h : d.IsSized) : d ≠ .unknown := fun heq =>
  Dim.not_isSized_unknown (heq ▸ h)

theorem Dim.IsSized.isNonneg {d : Dim} (h : d.IsSized) : d.IsNonneg := fun size hsize => by
  have hone := Dim.isSized_fixed.1 (hsize ▸ h)
  omega

theorem Shape.IsSized.isNonneg {s : Shape} (h : s.IsSized) : s.IsNonneg := fun d hd =>
  (h d hd).isNonneg

/-! ## Sums -/

namespace Rule

/-- The search for an input unlike the first finds none. -/
theorem find?_zipIdx_eq_none_iff {first : Shape} {start : Nat} {inputs : List Shape} :
    (inputs.zipIdx start).find? (·.1 ≠ first) = none ↔ ∀ s ∈ inputs, s = first := by
  have hfst : (inputs.zipIdx start).map Prod.fst = inputs := List.zipIdx_map_fst start inputs
  rw [List.find?_eq_none]
  constructor
  · intro h s hs
    rw [← hfst] at hs
    obtain ⟨pair, hpair, rfl⟩ := List.mem_map.1 hs
    simpa using h pair hpair
  · intro h pair hpair
    have hfirst := h pair.1 (hfst ▸ List.mem_map_of_mem hpair)
    simpa using hfirst

theorem addShape_eq_ok_iff {inputs : List Shape} {result : RuleResult} :
    addShape inputs = .ok result ↔
      2 ≤ inputs.length ∧ (∀ s ∈ inputs, s = result.shape) ∧ result.learned = [] := by
  match inputs with
  | [] => simp [addShape]
  | [_] => simp [addShape]
  | first :: second :: rest =>
    rw [addShape]
    cases hfound : ((second :: rest).zipIdx 1).find? (·.1 ≠ first) with
    | none =>
      have hsame := find?_zipIdx_eq_none_iff.1 hfound
      simp only [List.length_cons, Except.ok.injEq]
      constructor
      · rintro rfl
        refine ⟨by omega, fun s hs => ?_, rfl⟩
        rcases List.mem_cons.1 hs with rfl | hs
        · rfl
        · exact hsame s hs
      · rintro ⟨-, hshape, hlearned⟩
        obtain ⟨shape, learned⟩ := result
        obtain rfl : first = shape := hshape first List.mem_cons_self
        obtain rfl : learned = [] := hlearned
        rfl
    | some found =>
      refine ⟨(nomatch ·), fun ⟨_, hshape, _⟩ => ?_⟩
      have hnone : ((second :: rest).zipIdx 1).find? (·.1 ≠ first) = none :=
        find?_zipIdx_eq_none_iff.2 fun s hs =>
          (hshape s (List.mem_cons_of_mem _ hs)).trans (hshape first List.mem_cons_self).symm
      rw [hfound] at hnone
      cases hnone

end Rule

/-! ## Concatenations -/

/-- The shapes agree beside the axis, and the joined shape has their sizes together on it. -/
structure Shape.Joins (axis : Nat) (shapes : List Shape) (joined : Shape) : Prop where
  beside : ∀ s ∈ shapes, s.dims.set axis .unknown = joined.dims.set axis .unknown
  fixed : ∀ s ∈ shapes, ∃ size, s.get? axis = some (.fixed size)
  sum : joined.get? axis = some (.fixed (total axis shapes))
  fits : total axis shapes ≤ Word.greatest

/-- The joined shape is any of the shapes with the whole size set on the axis. -/
theorem Shape.Joins.dims_eq {axis : Nat} {shapes : List Shape} {joined : Shape}
    (h : Joins axis shapes joined) {s : Shape} (hs : s ∈ shapes) :
    s.dims.set axis (.fixed (total axis shapes)) = joined.dims := by
  obtain ⟨hlt, hsum⟩ := List.getElem?_eq_some_iff.1 h.sum
  rw [← List.set_set .unknown, h.beside s hs, List.set_set, ← hsum]
  exact List.set_getElem_self hlt

theorem Shape.joins_set {axis : Nat} {shapes : List Shape} {first : Shape}
    (haxis : axis < first.rank)
    (hall : ∀ s ∈ shapes, s.dims.set axis .unknown = first.dims.set axis .unknown ∧
      ∃ size, s.get? axis = some (.fixed size))
    (hfits : total axis shapes ≤ Word.greatest) :
    Joins axis shapes ⟨first.dims.set axis (.fixed (total axis shapes))⟩ where
  beside := by
    intro s hs
    rw [List.set_set]
    exact (hall s hs).1
  fixed := fun s hs => (hall s hs).2
  sum := List.getElem?_set_self haxis
  fits := hfits

theorem Shape.Joins.perm {axis : Nat} {shapes shapes' : List Shape} {joined : Shape}
    (h : Joins axis shapes joined) (hperm : shapes.Perm shapes') : Joins axis shapes' joined := by
  have htotal := (total_perm axis hperm).symm
  refine ⟨fun s hs => h.beside s (hperm.mem_iff.2 hs), fun s hs => h.fixed s (hperm.mem_iff.2 hs),
    ?_, ?_⟩
  · rw [htotal]
    exact h.sum
  · rw [htotal]
    exact h.fits

/-- Sized shapes that agree beside the axis are the same there. -/
theorem Shape.AgreesBeside.set_eq {axis : Nat} {a b : Shape} (h : a.AgreesBeside axis b)
    (hrank : a.rank = b.rank) (ha : a.IsSized) (hb : b.IsSized) (d : Dim) :
    a.dims.set axis d = b.dims.set axis d := by
  refine List.ext_getElem (by simpa [rank] using hrank) fun i hi hi' => ?_
  rw [List.length_set] at hi hi'
  rw [List.getElem_set, List.getElem_set]
  split
  · rfl
  · rename_i hne
    exact h i (Ne.symm hne) _ _ (List.getElem?_eq_getElem hi) (List.getElem?_eq_getElem hi')
      (ha _ (List.getElem_mem hi)).ne_unknown (hb _ (List.getElem_mem hi')).ne_unknown

theorem Shape.agreesBeside_of_set_eq {axis : Nat} {a b : Shape} {d : Dim}
    (h : a.dims.set axis d = b.dims.set axis d) : a.AgreesBeside axis b := by
  intro i hi e e' he he' _ _
  have hset : ∀ s : Shape, (s.dims.set axis d)[i]? = s.get? i := fun s =>
    List.getElem?_set_ne (Ne.symm hi)
  refine Option.some.inj ?_
  calc some e = (a.dims.set axis d)[i]? := he.symm.trans (hset a).symm
    _ = (b.dims.set axis d)[i]? := by rw [h]
    _ = some e' := (hset b).trans he'

theorem Shape.joinedDim_of_isSized {axis : Nat} {shapes : List Shape}
    (h : ∀ s ∈ shapes, s.IsSized) : joinedDim axis shapes = .fixed (total axis shapes) :=
  if_neg fun hunknown => by
    obtain ⟨s, hs, hget⟩ := mem_dimsAt.1 hunknown
    exact ((h s hs).of_get? hget).ne_unknown rfl

/-- On the axis there are sizes. -/
theorem Shape.Stacks.exists_size {dim : Int} {axis rank : Nat} {shapes : List Shape}
    (h : Stacks dim axis rank shapes) {s : Shape} (hs : s ∈ shapes) (hsized : s.IsSized) :
    ∃ size, s.get? axis = some (.fixed size) := by
  have hlt : axis < s.dims.length := Nat.lt_of_lt_of_eq h.axis_lt (h.rank_eq s hs).symm
  have hget : s.get? axis = some s.dims[axis] := List.getElem?_eq_getElem hlt
  rcases hsized.of_get? hget with hbatch | ⟨size, hsize, -⟩
  · exact absurd (hbatch ▸ hget) (h.notBatch s hs)
  · exact ⟨size, hsize ▸ hget⟩

namespace Rule

/-- Of sized shapes a concatenation is what the sizes on the axis say, in whatever order the shapes
come. -/
theorem concatShape_eq_ok_iff {params : Params} {inputs : List Shape}
    (hinputs : ∀ s ∈ inputs, s.IsSized) {result : RuleResult} :
    concatShape params inputs = .ok result ↔
      2 ≤ inputs.length ∧ result.learned = [] ∧
        ∃ (dim : Int) (axis : Nat), params.int? "dim" = some dim ∧
          (axis : Int) = (if dim < 0 then result.shape.rank + dim else dim) ∧
          Shape.Joins axis inputs result.shape := by
  constructor
  · intro h
    obtain ⟨dim, axis, first, hfirst, hdim, hstacks, hagrees, rfl⟩ := concatShape_eq_ok h
    have hsized := hinputs first (List.mem_of_mem_head? hfirst)
    rw [Shape.joinedDim_of_isSized hinputs]
    refine ⟨hstacks.several, rfl, dim, axis, hdim, ?_,
      Shape.joins_set hstacks.axis_lt (fun s hs => ⟨?_, ?_⟩) hstacks.fits⟩
    · rw [hstacks.axis_eq]
      simp [Shape.rank]
    · exact (hagrees s hs).set_eq (hstacks.rank_eq s hs) (hinputs s hs) hsized _
    · exact hstacks.exists_size hs (hinputs s hs)
  · rintro ⟨hseveral, hlearned, dim, axis, hdim, haxis, hjoins⟩
    cases inputs with
    | nil => cases hseveral
    | cons first rest =>
      have hrank : ∀ s ∈ first :: rest, s.rank = result.shape.rank := fun s hs => by
        simpa [Shape.rank] using congrArg List.length (hjoins.beside s hs)
      obtain ⟨hlt, -⟩ := List.getElem?_eq_some_iff.1 hjoins.sum
      have hstacks : Shape.Stacks dim axis first.rank (first :: rest) := by
        rw [hrank first List.mem_cons_self]
        refine ⟨hseveral, hrank, haxis, hlt, fun s hs => ?_, hjoins.fits⟩
        obtain ⟨size, hsize⟩ := hjoins.fixed s hs
        simp [hsize]
      have hagrees : ∀ s ∈ first :: rest, s.AgreesBeside axis first := fun s hs =>
        Shape.agreesBeside_of_set_eq
          ((hjoins.beside s hs).trans (hjoins.beside first List.mem_cons_self).symm)
      rw [concatShape_of_stacks hdim hstacks (fun s hs => (hinputs s hs).isNonneg) hagrees,
        Shape.joinedDim_of_isSized hinputs, hjoins.dims_eq List.mem_cons_self]
      obtain ⟨shape, learned⟩ := result
      obtain rfl : learned = [] := hlearned
      rfl

/-- A merge of sized shapes does not depend on their order. -/
theorem apply_perm {rule : Rule} (hrule : rule.isMerge = true) (params : Params)
    {inputs inputs' : List Shape} (hperm : inputs.Perm inputs') (hinputs : ∀ s ∈ inputs, s.IsSized)
    {result : RuleResult} :
    rule.apply params inputs = .ok result ↔ rule.apply params inputs' = .ok result := by
  have hinputs' : ∀ s ∈ inputs', s.IsSized := fun s hs => hinputs s (hperm.mem_iff.2 hs)
  cases rule with
  | add =>
    rw [apply, apply, addShape_eq_ok_iff, addShape_eq_ok_iff, hperm.length_eq]
    simp only [hperm.mem_iff]
  | concat =>
    have hjoins : ∀ axis, Shape.Joins axis inputs result.shape ↔
        Shape.Joins axis inputs' result.shape :=
      fun axis => ⟨fun h => h.perm hperm, fun h => h.perm hperm.symm⟩
    rw [apply, apply, concatShape_eq_ok_iff hinputs, concatShape_eq_ok_iff hinputs',
      hperm.length_eq]
    simp only [hjoins]
  | _ => cases hrule

end Rule
end LayerGraph
