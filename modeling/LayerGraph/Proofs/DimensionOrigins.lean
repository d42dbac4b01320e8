import LayerGraph.Proofs.ShapeRules
/-!
# Where the dimensions of an output come from

A rule keeps dimensions of its inputs, sets sizes that are parameters, and computes the others: it
slides a window, collapses dimensions into one, adds up an axis or adds up branches. The output of
a dataset is an image.

* `Rule.Makes params inputs d`: one of these ways leads to the dimension `d`.
* `Rule.isMade_of_apply`: every dimension of an output is made in one of these ways, and the output
  has no more dimensions than an input, or than an image.

What is to hold of all outputs is shown for each way, not for each rule.
-/

namespace LayerGraph
set_option autoImplicit false

/-- The parameters that become sizes of the output. -/
def sizeNames : List String :=
  ["out_features", "out_channels", "output_size", "out_1x1", "out_3x3", "out_5x5", "pool_proj"]

namespace Rule

/-- How a dimension of an output is made. -/
inductive Makes (params : Params) (inputs : List Shape) : Dim → Prop
  | image {found : Dataset} {d : Dim} (hfound : found ∈ Dataset.all) (hd : d ∈ found.shape.dims) :
    Makes params inputs d
  | kept {s : Shape} {d : Dim} (hs : s ∈ inputs) (hd : d ∈ s.dims) : Makes params inputs d
  | given {name : String} {size : Int} (hname : name ∈ sizeNames)
    (hsize : params.int? name = some size) : Makes params inputs (.fixed size)
  /-- The kernel is that of a residual block, or a parameter. -/
  | slid {s : Shape} {w : Window} {d d' : Dim} (hs : s ∈ inputs) (hd : d ∈ s.dims)
    (hkernel : w.kernel = 3 ∨ params.int? "kernel_size" = some w.kernel)
    (hslid : w.apply d = .ok d') : Makes params inputs d'
  | collapsed {s : Shape} {start : Nat} {d : Dim} (hs : s ∈ inputs)
    (hcollapsed : collapse s 1 false (s.dims.drop start) = .ok d) : Makes params inputs d
  | joined {axis : Nat} {sum : AxisSum} (hsome : Shape.dimsAt axis inputs ≠ [])
    (hsum : (Shape.dimsAt axis inputs).foldlM AxisSum.extend ⟨0, false⟩ = .ok sum) :
    Makes params inputs sum.dim
  | branched {total : Int}
    (htotal : branchChannels params 0 ["out_1x1", "out_3x3", "out_5x5", "pool_proj"] = .ok total) :
    Makes params inputs (.fixed total)

/-- The output is made of the inputs and as long as one of them at most, or as an image. -/
structure IsMade (params : Params) (inputs : List Shape) (output : Shape) : Prop where
  makes : ∀ d ∈ output.dims, Makes params inputs d
  rank_le : output.rank ≤ 4 ∨ ∃ s ∈ inputs, output.rank ≤ s.rank

variable {params : Params} {input : Shape} {inputs : List Shape} {result : RuleResult}
  {first channels channels' : Dim} {rest rest' : List Dim} {spatial : Nat}

theorem isMade_of_mem {s : Shape} (hs : s ∈ inputs) : IsMade params inputs s :=
  ⟨fun _ hd => .kept hs hd, .inr ⟨s, hs, Nat.le_refl _⟩⟩

/-! ## One input -/

theorem isMade_datasetShape (h : datasetShape params = .ok result) :
    IsMade params inputs result.shape := by
  unfold datasetShape at h
  split at h
  · cases h
  · split at h
    · cases h
    · rename_i found hfound
      obtain rfl := Except.ok.inj h
      exact ⟨fun d hd => .image (List.mem_of_find?_eq_some hfound) hd, .inl (Nat.le_refl 4)⟩

theorem isMade_linearShape (h : linearShape params input = .ok result) (hinput : input ∈ inputs) :
    IsMade params inputs result.shape := by
  simp only [linearShape, refuse_eq_ok_iff] at h
  obtain ⟨hrank, h⟩ := h
  split at h
  · cases h
  · obtain ⟨features, hfeatures, h⟩ := bind_eq_ok_iff.1 h
    obtain rfl := Except.ok.inj h
    refine ⟨fun d hd => ?_, .inr ⟨input, hinput, ?_⟩⟩
    · rcases List.mem_append.1 hd with hd | hd
      · exact .kept hinput (List.mem_of_mem_dropLast hd)
      · rw [List.mem_singleton.1 hd]
        exact .given (by decide) (intParam_eq_ok_iff.1 hfeatures)
    · simp only [Shape.rank, List.length_append, List.length_dropLast, List.length_singleton]
        at hrank ⊢
      omega

/-- A batch and channels stand in front of what is left of the input. -/
theorem isMade_of_channelled {what : String} {ranks : List Nat}
    (h : channelled what ranks input = .ok (first, channels, rest)) (hinput : input ∈ inputs)
    (hchannels : Makes params inputs channels') (hrest : ∀ d ∈ rest', Makes params inputs d)
    (hlength : rest'.length = rest.length) :
    IsMade params inputs ⟨first :: channels' :: rest'⟩ := by
  have hdims := (channelled_eq_ok h).2
  refine ⟨?_, .inr ⟨input, hinput, ?_⟩⟩
  · have hfirst : Makes params inputs first := .kept hinput (hdims ▸ List.mem_cons_self)
    exact List.forall_mem_cons.2 ⟨hfirst, List.forall_mem_cons.2 ⟨hchannels, hrest⟩⟩
  · simp only [Shape.rank, hdims, List.length_cons, hlength, Nat.le_refl]

theorem kept_of_channelled {what : String} {ranks : List Nat}
    (h : channelled what ranks input = .ok (first, channels, rest)) (hinput : input ∈ inputs) :
    Makes params inputs channels ∧ ∀ d ∈ rest, Makes params inputs d := by
  have hdims := (channelled_eq_ok h).2
  refine ⟨.kept hinput (hdims ▸ List.mem_cons_of_mem _ List.mem_cons_self), fun d hd => ?_⟩
  exact .kept hinput (hdims ▸ List.mem_cons_of_mem _ (List.mem_cons_of_mem _ hd))

theorem slid_of_channelled {what : String} {ranks : List Nat} {w : Window} {slid : List Dim}
    (h : channelled what ranks input = .ok (first, channels, rest)) (hinput : input ∈ inputs)
    (hkernel : w.kernel = 3 ∨ params.int? "kernel_size" = some w.kernel)
    (hslid : slide w rest = .ok slid) :
    (∀ d ∈ slid, Makes params inputs d) ∧ slid.length = rest.length := by
  refine ⟨fun d' hd' => ?_, (slide_eq_ok_iff.1 hslid).length_eq.symm⟩
  obtain ⟨d, hd, happly⟩ := exists_of_mem_slide hslid hd'
  have hmem : d ∈ input.dims := by
    rw [(channelled_eq_ok h).2]
    exact List.mem_cons_of_mem _ (List.mem_cons_of_mem _ hd)
  exact .slid hinput hmem hkernel happly

theorem isMade_convShape (h : convShape spatial params input = .ok result)
    (hinput : input ∈ inputs) : IsMade params inputs result.shape := by
  simp only [convShape, bind_eq_ok_iff] at h
  obtain ⟨⟨first, channels, rest⟩, hdims, out, hout, kernel, hkernel, stride, -, padding, -, slid,
    hslid, h⟩ := h
  obtain rfl := Except.ok.inj h
  obtain ⟨hrest, hlength⟩ :=
    slid_of_channelled hdims hinput (.inr (intParam_eq_ok_iff.1 hkernel)) hslid
  exact isMade_of_channelled hdims hinput (.given (by decide) (intParam_eq_ok_iff.1 hout)) hrest
    hlength

theorem isMade_poolShape (h : poolShape spatial params input = .ok result)
    (hinput : input ∈ inputs) : IsMade params inputs result.shape := by
  simp only [poolShape, bind_eq_ok_iff] at h
  obtain ⟨⟨first, channels, rest⟩, hdims, kernel, hkernel, padding, -, h⟩ := h
  split at h
  · obtain ⟨slid, hslid, h⟩ := bind_eq_ok_iff.1 h
    obtain rfl := Except.ok.inj h
    obtain ⟨hrest, hlength⟩ :=
      slid_of_channelled hdims hinput (.inr (intParam_eq_ok_iff.1 hkernel)) hslid
    exact isMade_of_channelled hdims hinput (kept_of_channelled hdims hinput).1 hrest hlength
  · cases h

theorem isMade_adaptivePoolShape (h : adaptivePoolShape params input = .ok result)
    (hinput : input ∈ inputs) : IsMade params inputs result.shape := by
  simp only [adaptivePoolShape, bind_eq_ok_iff] at h
  obtain ⟨⟨first, channels, rest⟩, hdims, size, hsize, h⟩ := h
  obtain rfl := Except.ok.inj h
  have hfirst : Makes params inputs first :=
    .kept hinput ((channelled_eq_ok hdims).2 ▸ List.mem_cons_self)
  have hchannels : Makes params inputs channels := (kept_of_channelled hdims hinput).1
  have hsquare : Makes params inputs (.fixed size) :=
    .given (by decide) (intParam_eq_ok_iff.1 hsize)
  refine ⟨?_, .inl (Nat.le_refl 4)⟩
  simp only [List.forall_mem_cons, List.not_mem_nil, false_imp_iff, implies_true, and_true]
  exact ⟨hfirst, hchannels, hsquare, hsquare⟩

theorem isMade_flattenShape (h : flattenShape params input = .ok result)
    (hinput : input ∈ inputs) : IsMade params inputs result.shape := by
  simp only [flattenShape, bind_eq_ok_iff, refuse_eq_ok_iff] at h
  obtain ⟨start, -, -, hrank, collapsed, hcollapsed, h⟩ := h
  obtain rfl := Except.ok.inj h
  refine ⟨fun d hd => ?_, .inr ⟨input, hinput, ?_⟩⟩
  · rcases List.mem_append.1 hd with hd | hd
    · exact .kept hinput (List.mem_of_mem_take hd)
    · rw [List.mem_singleton.1 hd]
      exact .collapsed hinput hcollapsed
  · simp only [Shape.rank, List.length_append, List.length_take, List.length_singleton] at hrank ⊢
    omega

theorem isMade_residualShape (h : residualShape params input = .ok result)
    (hinput : input ∈ inputs) : IsMade params inputs result.shape := by
  simp only [residualShape, bind_eq_ok_iff] at h
  obtain ⟨⟨first, channels, rest⟩, hdims, out, hout, stride, -, slid, hslid, h⟩ := h
  obtain rfl := Except.ok.inj h
  obtain ⟨hrest, hlength⟩ := slid_of_channelled hdims hinput (.inl rfl) hslid
  exact isMade_of_channelled hdims hinput (.given (by decide) (intParam_eq_ok_iff.1 hout)) hrest
    hlength

theorem isMade_inceptionShape (h : inceptionShape params input = .ok result)
    (hinput : input ∈ inputs) : IsMade params inputs result.shape := by
  simp only [inceptionShape, bind_eq_ok_iff] at h
  obtain ⟨⟨first, channels, rest⟩, hdims, total, htotal, h⟩ := h
  obtain rfl := Except.ok.inj h
  exact isMade_of_channelled hdims hinput (.branched htotal) (kept_of_channelled hdims hinput).2 rfl

/-! ## Several inputs -/

/-- The dimension on the axis is replaced by the sum of what the inputs have there. -/
theorem isMade_concatShape (h : concatShape params inputs = .ok result) :
    IsMade params inputs result.shape := by
  match inputs with
  | [] => cases h
  | [_] => cases h
  | first :: second :: rest =>
    simp only [concatShape, bind_eq_ok_iff] at h
    obtain ⟨dim, -, h⟩ := h
    generalize (if dim < 0 then (first.rank : Int) + dim else dim) = axis at h
    obtain ⟨hrange, h⟩ := refuse_eq_ok_iff.1 h
    rw [not_or, Int.not_lt, Int.not_le] at hrange
    have hlt : axis.toNat < first.rank := by omega
    obtain ⟨sum, hjoin, h⟩ := bind_eq_ok_iff.1 h
    obtain ⟨-, hsum⟩ := (joinShapes_eq_ok_iff 0 hlt).1 hjoin
    obtain rfl := Except.ok.inj h
    have hsome : Shape.dimsAt axis.toNat (first :: second :: rest) ≠ [] := by
      rw [Shape.dimsAt_cons (List.getElem?_eq_getElem hlt)]
      exact List.cons_ne_nil _ _
    refine ⟨fun d hd => ?_, .inr ⟨first, List.mem_cons_self, ?_⟩⟩
    · rcases List.mem_or_eq_of_mem_set hd with hd | rfl
      · exact .kept List.mem_cons_self hd
      · exact .joined hsome hsum
    · simp only [Shape.rank, List.length_set, Nat.le_refl]

/-! ## All rules -/

theorem isMade_of_apply {rule : Rule} (h : rule.apply params inputs = .ok result) :
    IsMade params inputs result.shape := by
  have hone : ∀ {f : Shape → Except RuleFault RuleResult}, onlyInput inputs >>= f = .ok result →
      ∃ input ∈ inputs, f input = .ok result := by
    intro f hbind
    obtain ⟨input, rfl, hshape⟩ := exists_of_onlyInput hbind
    exact ⟨input, List.mem_singleton_self _, hshape⟩
  cases rule with
  | dataset => exact isMade_datasetShape h
  | preserve =>
    obtain ⟨input, hinput, rfl⟩ := map_eq_ok_iff.1 h
    obtain rfl := onlyInput_eq_ok_iff.1 hinput
    exact isMade_of_mem (List.mem_singleton_self _)
  | scalar =>
    obtain ⟨input, -, rfl⟩ := map_eq_ok_iff.1 h
    exact ⟨fun d hd => (nomatch hd), .inl (Nat.zero_le 4)⟩
  | linear =>
    obtain ⟨input, hinput, hshape⟩ := hone h
    exact isMade_linearShape hshape hinput
  | conv spatial =>
    obtain ⟨input, hinput, hshape⟩ := hone h
    exact isMade_convShape hshape hinput
  | pool spatial =>
    obtain ⟨input, hinput, hshape⟩ := hone h
    exact isMade_poolShape hshape hinput
  | adaptivePool =>
    obtain ⟨input, hinput, hshape⟩ := hone h
    exact isMade_adaptivePoolShape hshape hinput
  | flatten =>
    obtain ⟨input, hinput, hshape⟩ := hone h
    exact isMade_flattenShape hshape hinput
  | batchNorm ranks =>
    obtain ⟨input, hinput, hshape⟩ := hone h
    exact shape_batchNormShape hshape ▸ isMade_of_mem hinput
  | layerNorm =>
    obtain ⟨input, hinput, hshape⟩ := hone h
    exact shape_layerNormShape hshape ▸ isMade_of_mem hinput
  | add => exact isMade_of_mem (shape_addShape h)
  | concat => exact isMade_concatShape h
  | block kind =>
    cases kind with
    | residual =>
      obtain ⟨input, hinput, hshape⟩ := hone h
      exact isMade_residualShape hshape hinput
    | inception =>
      obtain ⟨input, hinput, hshape⟩ := hone h
      exact isMade_inceptionShape hshape hinput

end Rule
end LayerGraph
