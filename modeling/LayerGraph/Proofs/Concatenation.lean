import LayerGraph.Proofs.Drawing
import LayerGraph.Shape.Rule
import Mathlib.Algebra.BigOperators.Group.List.Basic
import Mathlib.Algebra.Order.BigOperators.Group.List
import Mathlib.Algebra.Ring.Int.Defs
/-!
# Concatenation along an axis

`Rule.concatShape` goes through its inputs once. Each is compared with the first beside the axis,
and adds its size on it.

* `joinDims_eq_ok_iff`, `joinShapes_eq_ok_iff`: the comparisons and the additions apart. What is
  compared is `Shape.AgreesBeside`, and the additions are a fold of `AxisSum.extend`.
* `extendAll_eq_ok`: a fold that succeeds met no batch, and its sum is the whole sum. When no size
  is negative it succeeds as soon as the whole sum fits (`extendAll_of_le`).
* `Shape.Stacks`: what the inputs must be without a comparison. It does not depend on their order
  (`Shape.Stacks.perm`).
* `concatShape_eq_ok`, `concatShape_of_stacks`: when a concatenation succeeds, and with what.
* `concatenation_law`: an unknown size agrees with any, so two inputs may agree with the first and
  not with each other. They all agree with each other exactly when no order is refused.
-/

namespace LayerGraph
set_option autoImplicit false

/-! ## Sizes on the axis -/

/-- The dimension has no negative size. -/
def Dim.IsNonneg (d : Dim) : Prop := ∀ size, d = .fixed size → 0 ≤ size

def Shape.IsNonneg (s : Shape) : Prop := ∀ d ∈ s.dims, d.IsNonneg

/-- What a dimension adds on the axis. -/
def Dim.extent (d : Dim) : Int := d.size?.getD 0

theorem Dim.isNonneg_iff {d : Dim} : d.IsNonneg ↔ 0 ≤ d.extent := by
  cases d with
  | fixed size => exact ⟨fun h => h size rfl, fun h _ hsize => Dim.fixed.inj hsize ▸ h⟩
  | batch => exact ⟨fun _ => Int.le_refl 0, fun _ => nofun⟩
  | unknown => exact ⟨fun _ => Int.le_refl 0, fun _ => nofun⟩

instance (d : Dim) : Decidable d.IsNonneg := decidable_of_iff _ Dim.isNonneg_iff.symm

instance (s : Shape) : Decidable s.IsNonneg := List.decidableBAll Dim.IsNonneg s.dims

namespace Shape

/-- The size along an axis, if there is one. -/
def sizeAt (s : Shape) (axis : Nat) : Int := ((s.get? axis).bind Dim.size?).getD 0

theorem sizeAt_eq_extent {s : Shape} {axis : Nat} {d : Dim} (h : s.get? axis = some d) :
    s.sizeAt axis = d.extent := by
  rw [sizeAt, h]
  rfl

/-- The sizes of shapes along an axis together. -/
def total (axis : Nat) (shapes : List Shape) : Int := (shapes.map (·.sizeAt axis)).sum

theorem total_cons (axis : Nat) (s : Shape) (rest : List Shape) :
    total axis (s :: rest) = s.sizeAt axis + total axis rest := by
  rw [total, total, List.map_cons, List.sum_cons]

theorem total_perm (axis : Nat) {shapes shapes' : List Shape} (h : shapes.Perm shapes') :
    total axis shapes = total axis shapes' := (h.map _).sum_eq

/-- The dimensions of the shapes on the axis. -/
def dimsAt (axis : Nat) (shapes : List Shape) : List Dim := shapes.filterMap (·.get? axis)

theorem mem_dimsAt {axis : Nat} {shapes : List Shape} {d : Dim} :
    d ∈ dimsAt axis shapes ↔ ∃ s ∈ shapes, s.get? axis = some d := List.mem_filterMap

theorem dimsAt_cons {axis : Nat} {s : Shape} {d : Dim} (h : s.get? axis = some d)
    (rest : List Shape) : dimsAt axis (s :: rest) = d :: dimsAt axis rest :=
  List.filterMap_cons_some h

theorem total_eq_sum_extent (axis : Nat) (shapes : List Shape) :
    total axis shapes = ((dimsAt axis shapes).map Dim.extent).sum := by
  induction shapes with
  | nil => rfl
  | cons s rest ih =>
    rw [total_cons, ih]
    cases hget : s.get? axis with
    | none =>
      have hnone : dimsAt axis (s :: rest) = dimsAt axis rest := List.filterMap_cons_none hget
      rw [hnone, sizeAt, hget]
      exact Int.zero_add _
    | some d => rw [dimsAt_cons hget, sizeAt_eq_extent hget, List.map_cons, List.sum_cons]

/-- The size of a concatenation on the axis: the sizes together, unless one of them is unknown. -/
def joinedDim (axis : Nat) (shapes : List Shape) : Dim :=
  if .unknown ∈ dimsAt axis shapes then .unknown else .fixed (total axis shapes)

/-- At every position but the axis the shapes have one dimension, as far as both know it. -/
def AgreesBeside (axis : Nat) (a b : Shape) : Prop :=
  ∀ i ≠ axis, ∀ d e, a.get? i = some d → b.get? i = some e → d ≠ .unknown → e ≠ .unknown → d = e

theorem AgreesBeside.symm {axis : Nat} {a b : Shape} (h : a.AgreesBeside axis b) :
    b.AgreesBeside axis a := fun i hi d e hd he hknown hknown' =>
  (h i hi e d he hd hknown' hknown).symm

/-- The shapes can be put one behind the other along `axis`, the position that `dim` means, as long
as they are not compared. -/
structure Stacks (dim : Int) (axis rank : Nat) (shapes : List Shape) : Prop where
  several : 2 ≤ shapes.length
  rank_eq : ∀ s ∈ shapes, s.rank = rank
  axis_eq : (axis : Int) = if dim < 0 then rank + dim else dim
  axis_lt : axis < rank
  notBatch : ∀ s ∈ shapes, s.get? axis ≠ some .batch
  fits : total axis shapes ≤ Word.greatest

theorem Stacks.perm {dim : Int} {axis rank : Nat} {shapes shapes' : List Shape}
    (h : Stacks dim axis rank shapes) (hperm : shapes.Perm shapes') :
    Stacks dim axis rank shapes' where
  several := hperm.length_eq ▸ h.several
  rank_eq := fun s hs => h.rank_eq s (hperm.mem_iff.2 hs)
  axis_eq := h.axis_eq
  axis_lt := h.axis_lt
  notBatch := fun s hs => h.notBatch s (hperm.mem_iff.2 hs)
  fits := total_perm axis hperm ▸ h.fits

theorem Stacks.axis_unique {dim : Int} {axis axis' rank : Nat} {shapes shapes' : List Shape}
    (h : Stacks dim axis rank shapes) (h' : Stacks dim axis' rank shapes') : axis = axis' :=
  Int.ofNat.inj (h.axis_eq.trans h'.axis_eq.symm)

/-- The shapes agree with each other, whichever two are compared. -/
def AllAgree (axis : Nat) (shapes : List Shape) : Prop :=
  ∀ a ∈ shapes, ∀ b ∈ shapes, a.AgreesBeside axis b

/-- What the first shape does not know beside the axis is all that two others may differ in. -/
theorem allAgree_of_known {axis : Nat} {shapes : List Shape} {first : Shape}
    (hrank : ∀ s ∈ shapes, s.rank = first.rank) (hknown : ∀ i ≠ axis, first.get? i ≠ some .unknown)
    (h : ∀ s ∈ shapes, s.AgreesBeside axis first) : AllAgree axis shapes := by
  intro a ha b hb i hi d e hd he hd' he'
  obtain ⟨hlt, -⟩ := List.getElem?_eq_some_iff.1 hd
  have hlt' : i < first.dims.length := Nat.lt_of_lt_of_eq hlt (hrank a ha)
  have hfirst : first.get? i = some first.dims[i] := List.getElem?_eq_getElem hlt'
  have hne : first.dims[i] ≠ .unknown := fun heq => hknown i hi (heq ▸ hfirst)
  calc d = first.dims[i] := h a ha i hi d _ hd hfirst hd' hne
    _ = e := (h b hb i hi e _ he hfirst he' hne).symm

end Shape

namespace Rule

/-! ## Additions -/

theorem extend_eq_ok_iff {sum sum' : AxisSum} {d : Dim} :
    sum.extend d = .ok sum' ↔
      d ≠ .batch ∧ (∀ size, d = .fixed size → Word.Fits (sum.sum + size)) ∧
        sum' = ⟨sum.sum + d.extent, sum.isUnknown || d = .unknown⟩ := by
  cases d with
  | batch => simp [AxisSum.extend]
  | unknown => simp [AxisSum.extend, Dim.extent, Dim.size?, eq_comm]
  | fixed size =>
    rw [AxisSum.extend]
    cases hchecked : Word.checked (sum.sum + size) with
    | none => simp [Word.checked_eq_none_iff.1 hchecked]
    | some value =>
      obtain ⟨hfits, rfl⟩ := Word.checked_eq_some_iff.1 hchecked
      simp [hfits, Dim.extent, Dim.size?, eq_comm]

/-- What the dimensions on the axis come to. -/
theorem extendAll_eq_ok {dims : List Dim} {sum sum' : AxisSum}
    (h : dims.foldlM AxisSum.extend sum = .ok sum') :
    .batch ∉ dims ∧ (Word.Fits sum.sum → Word.Fits sum'.sum) ∧
      sum' = ⟨sum.sum + (dims.map Dim.extent).sum, sum.isUnknown || decide (.unknown ∈ dims)⟩ := by
  induction dims generalizing sum with
  | nil =>
    obtain rfl := Except.ok.inj h
    simp
  | cons d rest ih =>
    rw [List.foldlM_cons] at h
    obtain ⟨next, hnext, h⟩ := bind_eq_ok_iff.1 h
    obtain ⟨hbatch, hfits, rfl⟩ := extend_eq_ok_iff.1 hnext
    obtain ⟨hbatch', hfits', rfl⟩ := ih h
    refine ⟨List.not_mem_cons_of_ne_of_not_mem hbatch.symm hbatch', fun hsum => hfits' ?_, ?_⟩
    · cases d with
      | fixed size => exact hfits size rfl
      | batch => exact absurd rfl hbatch
      | unknown => rwa [show (Dim.unknown).extent = 0 from rfl, Int.add_zero]
    · simp only [List.map_cons, List.sum_cons, List.mem_cons, Int.add_assoc, Bool.or_assoc,
        Bool.decide_or, eq_comm]

/-- With sizes that are not negative, every partial sum fits when the whole sum does. -/
theorem extendAll_of_le {dims : List Dim} (hbatch : .batch ∉ dims) (hdims : ∀ d ∈ dims, d.IsNonneg)
    {sum : AxisSum} (hleast : 0 ≤ sum.sum)
    (hgreatest : sum.sum + (dims.map Dim.extent).sum ≤ Word.greatest) :
    ∃ sum', dims.foldlM AxisSum.extend sum = .ok sum' := by
  induction dims generalizing sum with
  | nil => exact ⟨sum, rfl⟩
  | cons d rest ih =>
    obtain ⟨hne, hbatch'⟩ := List.ne_and_not_mem_of_not_mem_cons hbatch
    obtain ⟨hd, hrest⟩ := List.forall_mem_cons.1 hdims
    have hextent := Dim.isNonneg_iff.1 hd
    have htail : 0 ≤ (rest.map Dim.extent).sum := List.sum_nonneg fun extent hextent => by
      obtain ⟨other, hother, rfl⟩ := List.mem_map.1 hextent
      exact Dim.isNonneg_iff.1 (hrest other hother)
    rw [List.map_cons, List.sum_cons, ← Int.add_assoc] at hgreatest
    have hnext : sum.extend d = .ok ⟨sum.sum + d.extent, sum.isUnknown || d = .unknown⟩ := by
      refine extend_eq_ok_iff.2 ⟨hne.symm, fun size hsize => ?_, rfl⟩
      obtain rfl := hsize
      have hsize : (Dim.fixed size).extent = size := rfl
      unfold Word.Fits Word.least
      omega
    obtain ⟨sum', hsum'⟩ : ∃ sum', rest.foldlM AxisSum.extend
        ⟨sum.sum + d.extent, sum.isUnknown || d = .unknown⟩ = .ok sum' :=
      ih hbatch' hrest (Int.add_nonneg hleast hextent) hgreatest
    exact ⟨sum', by rw [List.foldlM_cons, hnext]; exact hsum'⟩

/-! ## Comparisons -/

theorem compatible_iff {d e : Dim} :
    compatible d e = true ↔ (d ≠ .unknown → e ≠ .unknown → d = e) := by
  simp only [compatible, Bool.or_eq_true, decide_eq_true_eq]
  tauto

/-- The dimensions beside the axis are compared, and those on it are added up. -/
theorem joinDims_eq_ok_iff {axis index : Nat} {entries : List ((Dim × Dim) × Nat)}
    {sum sum' : AxisSum} :
    joinDims axis index sum entries = .ok sum' ↔
      (∀ entry ∈ entries, entry.2 ≠ axis → compatible entry.1.1 entry.1.2 = true) ∧
        ((entries.filter (·.2 = axis)).map (·.1.1)).foldlM AxisSum.extend sum = .ok sum' := by
  induction entries generalizing sum with
  | nil => simp [joinDims, pure, Except.pure]
  | cons entry rest ih =>
    obtain ⟨⟨d, first⟩, position⟩ := entry
    rw [joinDims, List.forall_mem_cons]
    by_cases hposition : position = axis
    · rw [if_pos hposition, List.filter_cons_of_pos (by simpa using hposition), List.map_cons,
        List.foldlM_cons, bind_eq_ok_iff, bind_eq_ok_iff]
      simp only [ih]
      constructor
      · rintro ⟨next, hnext, hbeside, hall⟩
        exact ⟨⟨fun hne => absurd hposition hne, hbeside⟩, next, hnext, hall⟩
      · rintro ⟨⟨-, hbeside⟩, next, hnext, hall⟩
        exact ⟨next, hnext, hbeside, hall⟩
    · rw [if_neg hposition, List.filter_cons_of_neg (by simpa using hposition)]
      by_cases hsame : compatible d first = true
      · rw [if_pos hsame, ih]
        simp [hsame]
      · rw [if_neg hsame]
        simp [hsame, hposition]

/-- Of a list with its positions one entry is at a position of the list. -/
theorem filter_zipIdx {α : Type} (start : Nat) {list : List α} {i : Nat} {a : α}
    (h : list[i]? = some a) :
    (list.zipIdx start).filter (·.2 = start + i) = [(a, start + i)] := by
  induction list generalizing start i with
  | nil => cases h
  | cons head rest ih =>
    rw [List.zipIdx_cons]
    cases i with
    | zero =>
      obtain rfl := Option.some.inj h
      have hrest : (rest.zipIdx (start + 1)).filter (·.2 = start + 0) = [] := by
        refine List.filter_eq_nil_iff.2 fun entry hentry => ?_
        have hle := List.le_snd_of_mem_zipIdx hentry
        simp only [decide_eq_true_eq]
        omega
      rw [List.filter_cons_of_pos (by simp), hrest]
      rfl
    | succ i =>
      have hrest := ih (start + 1) h
      rw [List.filter_cons_of_neg (by simp), show start + (i + 1) = start + 1 + i by omega]
      exact hrest

/-- One input is compared with the first beside the axis, and adds its dimension on it. -/
theorem joinDims_dims_iff {axis index : Nat} {s first : Shape} (hrank : s.rank = first.rank)
    {d : Dim} (hd : s.get? axis = some d) {sum sum' : AxisSum} :
    joinDims axis index sum (s.dims.zip first.dims).zipIdx = .ok sum' ↔
      s.AgreesBeside axis first ∧ sum.extend d = .ok sum' := by
  obtain ⟨haxis, -⟩ := List.getElem?_eq_some_iff.1 hd
  have hfirst : axis < first.dims.length := Nat.lt_of_lt_of_eq haxis hrank
  have hentry : (s.dims.zip first.dims)[axis]? = some (d, first.dims[axis]) :=
    List.getElem?_zip_eq_some.2 ⟨hd, List.getElem?_eq_getElem hfirst⟩
  have hfilter := filter_zipIdx 0 hentry
  rw [Nat.zero_add] at hfilter
  rw [joinDims_eq_ok_iff, hfilter]
  refine and_congr ⟨fun h i hi a b ha hb => ?_, fun h entry hmem hne => ?_⟩ ?_
  · have hmem : ((a, b), i) ∈ (s.dims.zip first.dims).zipIdx :=
      List.mem_zipIdx_iff_getElem?.2 (List.getElem?_zip_eq_some.2 ⟨ha, hb⟩)
    exact compatible_iff.1 (h _ hmem hi)
  · obtain ⟨ha, hb⟩ := List.getElem?_zip_eq_some.1 (List.mem_zipIdx_iff_getElem?.1 hmem)
    exact compatible_iff.2 (h _ hne _ _ ha hb)
  · rw [List.map_singleton, List.foldlM_cons, bind_eq_ok_iff]
    simp [pure, Except.pure]

/-- One after the other, the inputs are compared with the first and add up. -/
theorem joinShapes_eq_ok_iff {axis : Nat} (start : Nat) {first : Shape} (haxis : axis < first.rank)
    {inputs : List Shape} {sum sum' : AxisSum} :
    joinShapes axis first sum (inputs.zipIdx start) = .ok sum' ↔
      (∀ s ∈ inputs, s.rank = first.rank ∧ s.AgreesBeside axis first) ∧
        (Shape.dimsAt axis inputs).foldlM AxisSum.extend sum = .ok sum' := by
  induction inputs generalizing sum start with
  | nil => simp [joinShapes, Shape.dimsAt, pure, Except.pure]
  | cons s rest ih =>
    rw [List.zipIdx_cons, joinShapes, List.forall_mem_cons]
    by_cases hrank : s.rank = first.rank
    · obtain ⟨d, hd⟩ : ∃ d, s.get? axis = some d :=
        ⟨_, List.getElem?_eq_getElem (Nat.lt_of_lt_of_eq haxis hrank.symm)⟩
      rw [if_pos hrank, Shape.dimsAt_cons hd, List.foldlM_cons, bind_eq_ok_iff, bind_eq_ok_iff]
      simp only [joinDims_dims_iff hrank hd, ih]
      constructor
      · rintro ⟨next, ⟨hbeside, hnext⟩, hall, hfold⟩
        exact ⟨⟨⟨hrank, hbeside⟩, hall⟩, next, hnext, hfold⟩
      · rintro ⟨⟨⟨-, hbeside⟩, hall⟩, next, hnext, hfold⟩
        exact ⟨next, ⟨hbeside, hnext⟩, hall, hfold⟩
    · rw [if_neg hrank]
      simp [hrank]

/-! ## Concatenations -/

theorem intParam_eq_ok_iff {params : Params} {name : String} {i : Int} :
    intParam params name = .ok i ↔ params.int? name = some i := by
  unfold intParam
  cases params.int? name <;> simp

theorem dim_axisSum (axis : Nat) (shapes : List Shape) :
    AxisSum.dim ⟨0 + ((Shape.dimsAt axis shapes).map Dim.extent).sum,
      false || decide (.unknown ∈ Shape.dimsAt axis shapes)⟩ = Shape.joinedDim axis shapes := by
  rw [← Shape.total_eq_sum_extent, Int.zero_add]
  simp [AxisSum.dim, Shape.joinedDim]

/-- All that a concatenation tells of its inputs. -/
theorem concatShape_eq_ok {params : Params} {inputs : List Shape} {result : RuleResult}
    (h : concatShape params inputs = .ok result) :
    ∃ (dim : Int) (axis : Nat), ∃ first ∈ inputs.head?, params.int? "dim" = some dim ∧
      Shape.Stacks dim axis first.rank inputs ∧ (∀ s ∈ inputs, s.AgreesBeside axis first) ∧
        result = ⟨⟨first.dims.set axis (Shape.joinedDim axis inputs)⟩, []⟩ := by
  match inputs with
  | [] => cases h
  | [_] => cases h
  | first :: second :: rest =>
    simp only [concatShape, bind_eq_ok_iff, intParam_eq_ok_iff] at h
    obtain ⟨dim, hdim, h⟩ := h
    generalize haxis : (if dim < 0 then (first.rank : Int) + dim else dim) = axis at h
    obtain ⟨hrange, h⟩ := refuse_eq_ok_iff.1 h
    rw [not_or, Int.not_lt, Int.not_le] at hrange
    have hlt : axis.toNat < first.rank := by omega
    obtain ⟨sum, hjoin, h⟩ := bind_eq_ok_iff.1 h
    obtain ⟨hall, hfold⟩ := (joinShapes_eq_ok_iff 0 hlt).1 hjoin
    obtain ⟨hbatch, hfits, rfl⟩ := extendAll_eq_ok hfold
    rw [dim_axisSum] at h
    refine ⟨dim, axis.toNat, first, rfl, hdim, ⟨by simp, fun s hs => (hall s hs).1, ?_, hlt,
      fun s hs hget => hbatch (Shape.mem_dimsAt.2 ⟨s, hs, hget⟩), ?_⟩, fun s hs => (hall s hs).2,
      (Except.ok.inj h).symm⟩
    · rw [Int.toNat_of_nonneg hrange.1, haxis]
    · have hgreatest := (hfits (by decide)).2
      rwa [Int.zero_add, ← Shape.total_eq_sum_extent] at hgreatest

/-- Without negative sizes, inputs that can be put one behind the other, and agree with the first,
are concatenated. -/
theorem concatShape_of_stacks {params : Params} {dim : Int} (hdim : params.int? "dim" = some dim)
    {first : Shape} {rest : List Shape} {axis : Nat}
    (hstacks : Shape.Stacks dim axis first.rank (first :: rest))
    (hnonneg : ∀ s ∈ first :: rest, s.IsNonneg)
    (hagrees : ∀ s ∈ first :: rest, s.AgreesBeside axis first) :
    concatShape params (first :: rest) =
      .ok ⟨⟨first.dims.set axis (Shape.joinedDim axis (first :: rest))⟩, []⟩ := by
  obtain ⟨sum, hfold⟩ : ∃ sum,
      (Shape.dimsAt axis (first :: rest)).foldlM AxisSum.extend ⟨0, false⟩ = .ok sum := by
    refine extendAll_of_le (fun hmem => ?_) (fun d hd => ?_) (Int.le_refl 0) ?_
    · obtain ⟨s, hs, hget⟩ := Shape.mem_dimsAt.1 hmem
      exact hstacks.notBatch s hs hget
    · obtain ⟨s, hs, hget⟩ := Shape.mem_dimsAt.1 hd
      exact hnonneg s hs d (List.mem_of_getElem? hget)
    · rw [← Shape.total_eq_sum_extent, Int.zero_add]
      exact hstacks.fits
  obtain ⟨-, -, rfl⟩ := extendAll_eq_ok hfold
  have hjoin := (joinShapes_eq_ok_iff 0 hstacks.axis_lt).2
    ⟨fun s hs => ⟨hstacks.rank_eq s hs, hagrees s hs⟩, hfold⟩
  match rest with
  | [] => exact absurd hstacks.several (by simp)
  | second :: rest =>
    have hlt := hstacks.axis_lt
    simp only [concatShape, bind_eq_ok_iff, intParam_eq_ok_iff]
    refine ⟨dim, hdim, ?_⟩
    rw [← hstacks.axis_eq, refuse_eq_ok_iff, bind_eq_ok_iff, Int.toNat_natCast]
    exact ⟨by omega, _, hjoin, by rw [dim_axisSum]⟩

/-- Shapes that can be put one behind the other, and all agree, are concatenated. -/
theorem exists_concatShape_of_allAgree {params : Params} {dim : Int}
    (hdim : params.int? "dim" = some dim) {shapes : List Shape} (hshapes : ∀ s ∈ shapes, s.IsNonneg)
    {axis rank : Nat} (hstacks : Shape.Stacks dim axis rank shapes)
    (hall : Shape.AllAgree axis shapes) : ∃ result, concatShape params shapes = .ok result := by
  match shapes with
  | [] => exact absurd hstacks.several (by simp)
  | first :: rest =>
    obtain rfl := hstacks.rank_eq first List.mem_cons_self
    exact ⟨_, concatShape_of_stacks hdim hstacks hshapes fun s hs =>
      hall s hs first List.mem_cons_self⟩

/-- Each of the shapes comes first in some order, and is compared with all others there. -/
theorem allAgree_of_orders {params : Params} {dim : Int} (hdim : params.int? "dim" = some dim)
    {shapes : List Shape}
    (h : ∀ order, order.Perm shapes → ∃ result, concatShape params order = .ok result) :
    ∃ rank axis, Shape.Stacks dim axis rank shapes ∧ Shape.AllAgree axis shapes := by
  obtain ⟨_, hself⟩ := h shapes (.refl shapes)
  obtain ⟨dim', axis, first, -, hdim', hstacks, -, -⟩ := concatShape_eq_ok hself
  obtain rfl := Option.some.inj (hdim'.symm.trans hdim)
  refine ⟨first.rank, axis, hstacks, fun a ha b hb => ?_⟩
  -- with `a` in front, `b` is compared with it
  have hperm := List.perm_cons_erase ha
  obtain ⟨_, horder⟩ := h _ hperm.symm
  obtain ⟨dim, axis', first', hfirst', hdim, hstacks', hagrees, -⟩ := concatShape_eq_ok horder
  obtain rfl := Option.some.inj hfirst'
  obtain rfl := Option.some.inj (hdim.symm.trans hdim')
  rw [hstacks.rank_eq a ha] at hstacks'
  obtain rfl := hstacks.axis_unique hstacks'
  exact (hagrees b (hperm.mem_iff.1 hb)).symm

end Rule

/-! ## The law -/

open Rule in
/-- With an integer as `dim`, and inputs without negative sizes, a concatenation succeeds exactly
when the inputs can be put one behind the other and agree with the first beside the axis; it is the
first with the axis replaced. It succeeds in every order exactly when the inputs agree with each
other, and in the order that they have when, beside the axis, the first knows all its dimensions. -/
theorem concatenation_law {params : Params} {dim : Int} (hdim : params.int? "dim" = some dim)
    {shapes : List Shape} (hshapes : ∀ s ∈ shapes, s.IsNonneg) :
    (∀ result, Rule.concat.apply params shapes = .ok result ↔
      ∃ first ∈ shapes.head?, ∃ axis, Shape.Stacks dim axis first.rank shapes ∧
        (∀ s ∈ shapes, s.AgreesBeside axis first) ∧
        result = ⟨⟨first.dims.set axis (Shape.joinedDim axis shapes)⟩, []⟩) ∧
      ((∀ order, order.Perm shapes → ∃ result, Rule.concat.apply params order = .ok result) ↔
        ∃ rank axis, Shape.Stacks dim axis rank shapes ∧ Shape.AllAgree axis shapes) ∧
      ∀ first ∈ shapes.head?,
        (∀ i, first.get? i = some .unknown → (i : Int) = if dim < 0 then first.rank + dim else dim) →
        ((∃ result, Rule.concat.apply params shapes = .ok result) ↔
          ∃ rank axis, Shape.Stacks dim axis rank shapes ∧ Shape.AllAgree axis shapes) := by
  refine ⟨fun result => ⟨fun h => ?_, ?_⟩, ⟨allAgree_of_orders hdim, ?_⟩,
    fun first hfirst hknown => ⟨?_, ?_⟩⟩
  · obtain ⟨dim', axis, first, hfirst, hdim', hstacks, hagrees, hresult⟩ := concatShape_eq_ok h
    obtain rfl := Option.some.inj (hdim'.symm.trans hdim)
    exact ⟨first, hfirst, axis, hstacks, hagrees, hresult⟩
  · rintro ⟨first, hfirst, axis, hstacks, hagrees, rfl⟩
    obtain ⟨rest, rfl⟩ := List.head?_eq_some_iff.1 hfirst
    exact concatShape_of_stacks hdim hstacks hshapes hagrees
  · rintro ⟨rank, axis, hstacks, hall⟩ order hperm
    exact exists_concatShape_of_allAgree hdim (fun s hs => hshapes s (hperm.mem_iff.1 hs))
      (hstacks.perm hperm.symm)
      fun a ha b hb => hall a (hperm.mem_iff.1 ha) b (hperm.mem_iff.1 hb)
  · rintro ⟨result, h⟩
    obtain ⟨dim', axis, first', hfirst', hdim', hstacks, hagrees, -⟩ := concatShape_eq_ok h
    obtain rfl := Option.some.inj (hdim'.symm.trans hdim)
    obtain rfl := Option.some.inj (hfirst.symm.trans hfirst')
    refine ⟨first.rank, axis, hstacks, Shape.allAgree_of_known hstacks.rank_eq ?_ hagrees⟩
    intro i hi hunknown
    exact hi (Int.ofNat.inj ((hknown i hunknown).trans hstacks.axis_eq.symm))
  · rintro ⟨rank, axis, hstacks, hall⟩
    exact exists_concatShape_of_allAgree hdim hshapes hstacks hall

/-- Channels are joined whichever branch does not know its own. -/
theorem concatenation_law_unknownChannels :
    (∃ rank axis,
      Shape.Stacks (-2) axis rank
        [⟨[.batch, .unknown, .fixed 8]⟩, ⟨[.batch, .fixed 3, .fixed 8]⟩] ∧
      Shape.AllAgree axis [⟨[.batch, .unknown, .fixed 8]⟩, ⟨[.batch, .fixed 3, .fixed 8]⟩]) ∧
    ∀ order : List Shape,
      order.Perm [⟨[.batch, .unknown, .fixed 8]⟩, ⟨[.batch, .fixed 3, .fixed 8]⟩] →
        ∃ result, Rule.concat.apply (.ofList [("dim", .int (-2))]) order = .ok result := by
  have hdim : Params.int? (.ofList [("dim", .int (-2))]) "dim" = some (-2) := by decide
  have hnonneg : ∀ s ∈ ([⟨[.batch, .unknown, .fixed 8]⟩, ⟨[.batch, .fixed 3, .fixed 8]⟩] :
      List Shape), s.IsNonneg := by decide
  obtain ⟨-, hall, hknown⟩ := concatenation_law hdim hnonneg
  have hlaw := (hknown _ rfl fun i hi => ?_).1 ⟨⟨⟨[.batch, .unknown, .fixed 8]⟩, []⟩, by decide⟩
  · exact ⟨hlaw, hall.2 hlaw⟩
  · match i with
    | 0 => cases hi
    | 1 => rfl
    | 2 => cases hi
    | _ + 3 => cases hi

/-- The first branch does not know its height, and the others have different ones. They are joined
in this order, and refused when another branch comes first. -/
theorem not_allAgree_of_concat :
    let branches : List Shape := [⟨[.batch, .fixed 5, .unknown, .fixed 32]⟩,
      ⟨[.batch, .fixed 3, .fixed 32, .fixed 32]⟩, ⟨[.batch, .fixed 5, .fixed 9, .fixed 32]⟩]
    let params : Params := .ofList [("dim", .int 1)]
    (params.int? "dim" = some 1 ∧ ∀ s ∈ branches, s.IsNonneg) ∧
      Rule.concat.apply params branches =
        .ok ⟨⟨[.batch, .fixed 13, .unknown, .fixed 32]⟩, []⟩ ∧
      (¬ ∃ rank axis, Shape.Stacks 1 axis rank branches ∧ Shape.AllAgree axis branches) ∧
      Rule.concat.apply params branches.reverse =
        .error (.concatMismatch 2 (.fixed 9) 1 (.fixed 32)) := by
  refine ⟨⟨by decide, by decide⟩, by decide, ?_, by decide⟩
  rintro ⟨rank, axis, hstacks, hall⟩
  have haxis : axis = 1 := Int.ofNat.inj hstacks.axis_eq
  have hheight := hall ⟨[.batch, .fixed 3, .fixed 32, .fixed 32]⟩ (by decide)
    ⟨[.batch, .fixed 5, .fixed 9, .fixed 32]⟩ (by decide) 2 (by omega) _ _ rfl rfl nofun nofun
  exact absurd hheight (by decide)

end LayerGraph
