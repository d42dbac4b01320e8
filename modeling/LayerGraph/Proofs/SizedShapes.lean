import LayerGraph.Proofs.DimensionOrigins
import LayerGraph.Proofs.MergeRules
import LayerGraph.Proofs.NodeShapes
import LayerGraph.Proofs.WindowPositions
import LayerGraph.Proofs.WriteBack
/-!
# The form of propagated shapes

No way to make a dimension leads from sized ones to an unknown or an empty one
(`Rule.isSized_of_makes`), since the parameters that become sizes are at least one
(`Operator.hasSizes_resolve`). A shape without dimensions is passed on as it is or refused, and it
starts at a criterion.

* `Network.IsFormed net id shape`: what this says of the shape of an id. It passes through every
  rule (`Network.IsPropagation.isFormed`).
* `form_of_propagatePartial` puts it into words, together with the form of what is learned.
-/

namespace LayerGraph
set_option autoImplicit false
open Relation

/-! ## Sizes of outputs -/

/-- The parameters that become sizes of the output are at least one. -/
def Params.HasSizes (params : Params) : Prop :=
  ∀ name ∈ sizeNames, ∀ size, params.int? name = some size → 1 ≤ size

namespace Rule

variable {params : Params} {inputs : List Shape} {result : RuleResult}

theorem isSized_of_window {w : Window} {d d' : Dim} (hd : d.IsSized) (h : w.apply d = .ok d') :
    d'.IsSized := by
  cases d with
  | unknown => exact absurd hd Dim.not_isSized_unknown
  | batch =>
    obtain rfl := Except.ok.inj h
    exact hd
  | fixed size =>
    obtain ⟨positions, hcount, rfl⟩ := Window.apply_fixed_eq_ok_iff.1 h
    exact Dim.isSized_fixed.2 (Window.one_le_of_count hcount)

theorem isSized_of_collapse {whole : Shape} {dims : List Dim} (hdims : ∀ d ∈ dims, d.IsSized)
    {size : Int} (hsize : 1 ≤ size) {d : Dim} (h : collapse whole size false dims = .ok d) :
    d.IsSized := by
  induction dims generalizing size with
  | nil =>
    obtain rfl := Except.ok.inj h
    exact Dim.isSized_fixed.2 hsize
  | cons first rest ih =>
    have hfirst := hdims first List.mem_cons_self
    cases first with
    | unknown => exact absurd hfirst Dim.not_isSized_unknown
    | batch => cases h
    | fixed n =>
      have hn := Dim.isSized_fixed.1 hfirst
      rw [collapse] at h
      split at h
      · rename_i product hproduct
        obtain ⟨-, rfl⟩ := Word.checked_eq_some_iff.1 hproduct
        have hpositive : 0 < size * n := Int.mul_pos (by omega) (by omega)
        exact ih (fun other hother => hdims other (List.mem_cons_of_mem _ hother)) hpositive h
      · cases h

theorem one_le_of_branchChannels {names : List String}
    (hsizes : ∀ name ∈ names, ∀ size, params.int? name = some size → 1 ≤ size) {sum total : Int}
    (hsum : 0 ≤ sum) (h : branchChannels params sum names = .ok total) (hnames : names ≠ []) :
    1 ≤ total := by
  induction names generalizing sum with
  | nil => exact absurd rfl hnames
  | cons name rest ih =>
    obtain ⟨channels, hchannels, h⟩ := bind_eq_ok_iff.1 h
    have hone := hsizes name List.mem_cons_self channels (intParam_eq_ok_iff.1 hchannels)
    split at h
    · rename_i next hnext
      obtain ⟨-, rfl⟩ := Word.checked_eq_some_iff.1 hnext
      by_cases hrest : rest = []
      · subst hrest
        obtain rfl := Except.ok.inj h
        omega
      · exact ih (fun other hother => hsizes other (List.mem_cons_of_mem _ hother)) (by omega) h
          hrest
    · cases h

/-- Sizes that are added up are at least one, so their sum is. -/
theorem isSized_of_extendAll {dims : List Dim} (hsome : dims ≠ []) (hdims : ∀ d ∈ dims, d.IsSized)
    {sum : AxisSum} (h : dims.foldlM AxisSum.extend ⟨0, false⟩ = .ok sum) : sum.dim.IsSized := by
  obtain ⟨hbatch, -, rfl⟩ := extendAll_eq_ok h
  have hextents : ∀ d ∈ dims, 1 ≤ d.extent := by
    intro d hd
    rcases hdims d hd with rfl | ⟨size, rfl, hsize⟩
    · exact absurd hd hbatch
    · exact hsize
  have hknown : .unknown ∉ dims := fun hunknown => (hdims _ hunknown).ne_unknown rfl
  obtain ⟨first, rest, rfl⟩ := List.exists_cons_of_ne_nil hsome
  obtain ⟨hfirst, hrest⟩ := List.forall_mem_cons.1 hextents
  have htail : 0 ≤ (rest.map Dim.extent).sum := List.sum_nonneg fun extent hextent => by
    obtain ⟨d, hd, rfl⟩ := List.mem_map.1 hextent
    exact Int.le_trans Int.one_nonneg (hrest d hd)
  have htotal : 1 ≤ 0 + ((first :: rest).map Dim.extent).sum := by
    rw [List.map_cons, List.sum_cons]
    omega
  simpa [AxisSum.dim, hknown] using htotal

/-- Every way to make a dimension makes sized ones of sized inputs. -/
theorem isSized_of_makes {d : Dim} (h : Makes params inputs d) (hinputs : ∀ s ∈ inputs, s.IsSized)
    (hsizes : params.HasSizes) : d.IsSized := by
  cases h with
  | image hfound hd =>
    have hall : ∀ d ∈ Dataset.all, 1 ≤ d.channels ∧ 1 ≤ d.height ∧ 1 ≤ d.width := by decide
    obtain ⟨hchannels, hheight, hwidth⟩ := hall _ hfound
    simp only [Dataset.shape, Shape.image, List.mem_cons, List.not_mem_nil, or_false] at hd
    rcases hd with rfl | rfl | rfl | rfl
    · exact Dim.isSized_batch
    · exact Dim.isSized_fixed.2 hchannels
    · exact Dim.isSized_fixed.2 hheight
    · exact Dim.isSized_fixed.2 hwidth
  | kept hs hd => exact hinputs _ hs d hd
  | given hname hsize => exact Dim.isSized_fixed.2 (hsizes _ hname _ hsize)
  | slid hs hd _ hslid => exact isSized_of_window (hinputs _ hs _ hd) hslid
  | collapsed hs hcollapsed =>
    exact isSized_of_collapse (fun d hd => hinputs _ hs d (List.mem_of_mem_drop hd))
      (Int.le_refl 1) hcollapsed
  | joined hsome hsum =>
    refine isSized_of_extendAll hsome (fun d hd => ?_) hsum
    obtain ⟨s, hs, hget⟩ := Shape.mem_dimsAt.1 hd
    exact (hinputs s hs).of_get? hget
  | branched htotal =>
    have hbranches : ∀ name ∈ ["out_1x1", "out_3x3", "out_5x5", "pool_proj"], name ∈ sizeNames := by
      decide
    exact Dim.isSized_fixed.2 (one_le_of_branchChannels
      (fun name hname => hsizes name (hbranches name hname)) (Int.le_refl 0) htotal
      (List.cons_ne_nil _ _))

/-- Every rule makes sized shapes of sized shapes. -/
theorem isSized_of_apply {rule : Rule} (h : rule.apply params inputs = .ok result)
    (hinputs : ∀ s ∈ inputs, s.IsSized) (hsizes : params.HasSizes) :
    result.shape.IsSized := fun d hd =>
  isSized_of_makes ((isMade_of_apply h).makes d hd) hinputs hsizes

/-! ## Scalars -/

/-- A rule that reads a scalar passes it on. -/
theorem dims_eq_nil_of_apply {rule : Rule} (h : rule.apply params inputs = .ok result)
    (hinputs : ∀ s ∈ inputs, s.IsSized) (hrule : rule ≠ .dataset) {s : Shape} (hs : s ∈ inputs)
    (hempty : s.dims = []) : result.shape.dims = [] := by
  -- Six of the rules want a batch and channels.
  have hrefused : ∀ {what : String} {ranks : List Nat}
      {f : Dim × Dim × List Dim → Except RuleFault RuleResult},
      channelled what ranks s >>= f ≠ .ok result := by
    intro what ranks f hbind
    obtain ⟨dims, hdims, -⟩ := bind_eq_ok_iff.1 hbind
    have hcons := (channelled_eq_ok hdims).2
    rw [hempty] at hcons
    cases hcons
  have hone : ∀ {f : Shape → Except RuleFault RuleResult}, onlyInput inputs >>= f = .ok result →
      f s = .ok result := by
    intro f hbind
    obtain ⟨input, rfl, hshape⟩ := exists_of_onlyInput hbind
    exact List.mem_singleton.1 hs ▸ hshape
  cases rule with
  | dataset => exact absurd rfl hrule
  | preserve =>
    obtain ⟨input, hinput, rfl⟩ := map_eq_ok_iff.1 h
    obtain rfl := onlyInput_eq_ok_iff.1 hinput
    exact List.mem_singleton.1 hs ▸ hempty
  | scalar =>
    obtain ⟨input, -, rfl⟩ := map_eq_ok_iff.1 h
    rfl
  | linear =>
    have hshape := hone h
    simp [linearShape, Shape.rank, hempty] at hshape
  | conv spatial => exact absurd (hone h) hrefused
  | pool spatial => exact absurd (hone h) hrefused
  | adaptivePool => exact absurd (hone h) hrefused
  | flatten =>
    have hshape := hone h
    simp only [flattenShape, bind_eq_ok_iff, refuse_eq_ok_iff, Shape.rank, hempty] at hshape
    obtain ⟨start, -, -, hrank, -⟩ := hshape
    exact absurd (Nat.zero_le _) hrank
  | batchNorm ranks => exact absurd (hone h) hrefused
  | layerNorm =>
    have hshape := hone h
    simp [layerNormShape, Shape.last?, hempty] at hshape
  | add => rw [← (addShape_eq_ok_iff.1 h).2.1 s hs, hempty]
  | concat =>
    obtain ⟨-, -, dim, axis, -, -, hjoins⟩ := (concatShape_eq_ok_iff hinputs).1 h
    obtain ⟨size, hsize⟩ := hjoins.fixed s hs
    simp [Shape.get?, hempty] at hsize
  | block kind =>
    cases kind with
    | residual => exact absurd (hone h) hrefused
    | inception => exact absurd (hone h) hrefused

end Rule

/-! ## Declared sizes -/

theorem Table.mem_of_get?_ofList {α : Type} {pairs : List (String × α)} {name : String} {value : α}
    (h : (Table.ofList pairs).get? name = some value) : (name, value) ∈ pairs := by
  rw [Table.get?_ofList, List.lookup_eq_some_iff] at h
  obtain ⟨before, after, hpairs, -⟩ := h
  exact List.mem_reverse.1 (hpairs ▸ List.mem_append_right _ List.mem_cons_self)

namespace Operator

variable {o : Operator} {params : Params} {name : String}

theorem param?_eq_some_iff (hnodup : (o.params.map ParamDecl.name).Nodup) {decl : ParamDecl} :
    o.param? name = some decl ↔ decl ∈ o.params ∧ decl.name = name := by
  constructor
  · intro h
    exact ⟨List.mem_of_find?_eq_some h, by simpa using List.find?_some h⟩
  · rintro ⟨hdecl, rfl⟩
    have hfound : (o.param? decl.name).isSome = true := by
      rw [param?, List.find?_isSome]
      exact ⟨decl, hdecl, beq_self_eq_true decl.name⟩
    obtain ⟨other, hother⟩ := Option.isSome_iff_exists.1 hfound
    have hname : other.name = decl.name := by simpa using List.find?_some hother
    rw [hother, List.inj_on_of_nodup_map hnodup (List.mem_of_find?_eq_some hother) hdecl hname]

theorem exists_decl_of_resolve (hproblems : o.problems params = []) {value : ParamValue}
    (hvalue : (o.resolve params).get? name = some value) : ∃ decl ∈ o.params, decl.name = name := by
  rw [resolve, Table.get?_overlay, Option.or_eq_some_iff] at hvalue
  rcases hvalue with hset | ⟨-, hdefault⟩
  · have hdeclared := (problems_eq_nil_iff.1 hproblems).2 name (by simp [hset])
    rw [param?, List.find?_isSome] at hdeclared
    simpa using hdeclared
  · obtain ⟨decl, hdecl, hpair⟩ := List.mem_filterMap.1 (Table.mem_of_get?_ofList hdefault)
    obtain ⟨default, -, hpair⟩ := Option.map_eq_some_iff.1 hpair
    exact ⟨decl, hdecl, (Prod.mk.inj hpair).1⟩

/-- Parameters without problems that become sizes are at least one. -/
theorem hasSizes_resolve (ho : o ∈ Architecture.all) (hproblems : o.problems params = []) :
    (o.resolve params).HasSizes := by
  have hall : ∀ o ∈ Architecture.all, ∀ decl ∈ o.params, decl.name ∈ sizeNames →
      decl.kind = .int (some 1) none := by decide +kernel
  intro name hname size hsize
  obtain ⟨value, hvalue, hint⟩ := Option.bind_eq_some_iff.1 hsize
  obtain ⟨decl, hdecl, rfl⟩ := exists_decl_of_resolve hproblems hvalue
  have hchecks := checks_resolve (wellDeclared .architecture ho) hproblems hdecl hvalue
  obtain ⟨i, hi, hle⟩ := ParamDecl.le_of_checks_int (hall o ho decl hdecl hname) hchecks
  exact Option.some.inj (hi.symm.trans hint) ▸ hle

end Operator

/-- A sized shape that is batched has positive sizes behind the batch. -/
theorem Shape.IsSized.exists_sizes {shape : Shape} (hsized : shape.IsSized)
    (hbatched : shape.IsBatched) : ∃ sizes : List Int, sizes ≠ [] ∧ (∀ size ∈ sizes, 1 ≤ size) ∧
      shape.dims = .batch :: sizes.map .fixed := by
  obtain ⟨rest, hdims, hne, hfixed⟩ := hbatched
  have hsame : ∀ d ∈ rest, Dim.fixed (d.size?.getD 0) = d := by
    intro d hd
    obtain ⟨size, rfl⟩ := hfixed d hd
    rfl
  refine ⟨rest.map fun d => d.size?.getD 0, by simpa using hne, fun size hsize => ?_, ?_⟩
  · obtain ⟨d, hd, rfl⟩ := List.mem_map.1 hsize
    apply Dim.isSized_fixed.1
    rw [hsame d hd]
    exact hsized d (hdims ▸ List.mem_cons_of_mem _ hd)
  · have hrest : (rest.map fun d => d.size?.getD 0).map Dim.fixed = rest := by
      rw [List.map_map]
      exact (List.map_congr_left hsame).trans (List.map_id rest)
    rw [hdims, hrest]

/-! ## Overlays -/

namespace Network

variable {net : Network} {overlay : Propagation} {faults : List Fault}

/-- The nodes of the architecture have parameters that their operators accept. -/
def HasParams (net : Network) : Prop :=
  ∀ p ∈ net.nodes, p.node.isPipeline = false →
    p.operator ∈ Operator.Architecture.all ∧ p.operator.problems p.node.params = []

theorem IsOf.hasParams {nodes : List Node} {edges : List Edge} (h : net.IsOf nodes edges)
    (hparams : ∀ n ∈ nodes, n.isPipeline = false → ∀ o, n.operator = .ok o →
      o.problems n.params = []) : net.HasParams := by
  intro p hp hgraph
  have hoperator := h.operator p hp
  have hmode : p.node.mode = .architecture := by simp [Node.mode, hgraph]
  exact ⟨Node.mem_all_of_operator hmode hoperator,
    hparams p.node (h.node_mem hp) hgraph p.operator hoperator⟩

/-- The form of a shape: sized, and batched unless it comes down from a criterion. -/
structure IsFormed (net : Network) (id : String) (shape : Shape) : Prop where
  sized : shape.IsSized
  form : shape.IsBatched ∨ shape.dims = [] ∧
    ∃ loss ∈ net.nodes, loss.operator.isLoss = true ∧ ReflTransGen (Feeds net.edges) loss.id id

theorem IsPropagation.isFormed (h : net.IsPropagation overlay faults) (hparams : net.HasParams)
    {id : String} {shape : Shape} (hshape : overlay.shape? id = some shape) :
    net.IsFormed id shape := by
  refine h.forall_shape net.IsFormed (fun p hp hgraph inputs result hinputs happly => ?_) hshape
  obtain ⟨ho, hproblems⟩ := hparams p hp hgraph
  have hsized : ∀ input ∈ inputs, input.IsSized := by
    intro input hinput
    obtain ⟨s, -, -, hformed⟩ := hinputs input hinput
    exact hformed.sized
  refine ⟨Rule.isSized_of_apply happly hsized (Operator.hasSizes_resolve ho hproblems), ?_⟩
  by_cases hscalar : p.operator.rule = .scalar
  · rw [hscalar] at happly
    obtain ⟨input, -, rfl⟩ := map_eq_ok_iff.1 happly
    exact .inr ⟨rfl, p, hp, Operator.isLoss_of_rule ho hscalar, .refl⟩
  by_cases hdataset : p.operator.rule = .dataset
  · rw [hdataset] at happly
    exact .inl (Rule.isBatched_datasetShape happly)
  by_cases hbatched : ∀ input ∈ inputs, input.IsBatched
  · exact .inl (Rule.isBatched_of_apply happly hscalar
      (fun hflatten => Operator.exists_startDim ho hflatten hproblems) hbatched)
  · obtain ⟨input, hinput, hnot⟩ := not_forall₂.1 hbatched
    obtain ⟨s, hs, -, hformed⟩ := hinputs input hinput
    obtain ⟨hempty, loss, hloss, hisLoss, hpath⟩ := hformed.form.resolve_left hnot
    exact .inr ⟨Rule.dims_eq_nil_of_apply happly hsized hdataset hinput hempty,
      loss, hloss, hisLoss, hpath.tail (feeds_of_mem_operands hs)⟩

theorem mem_dims_of_learnedDim? {name : String} {input : Shape} {dim : Dim}
    (h : learnedDim? name input = some dim) : dim ∈ input.dims := by
  unfold learnedDim? at h
  split at h
  · exact List.mem_of_getLast? h
  · split at h
    · exact List.mem_of_getElem? h
    · cases h

/-- What is learned for a node is one size, a dimension of what the node reads. -/
theorem IsPropagation.exists_learned (h : net.IsPropagation overlay faults)
    (hsolved : net.IsSolved overlay faults) (hparams : net.HasParams) {id : String}
    {params : Params} (hlearned : overlay.learned.get? id = some params) :
    ∃ p ∈ net.nodes, p.id = id ∧ p.node.isPipeline = false ∧ ∃ name size,
      p.operator.rule.learnedName? = some name ∧ params = Table.ofList [(name, .int size)] ∧
        1 ≤ size := by
  obtain ⟨p, hp, hid, hgraph, result, hgives, hresult⟩ := (hsolved.learned id params).1 hlearned
  obtain ⟨inputs, happly, hinputs⟩ :=
    exists_inputs_of_outcome ((Propagation.outcome?_eq_ok_iff hp).2 hgives)
  obtain ⟨input, name, size, rfl, hname, hdim, hlearn⟩ :=
    Propagation.size_of_learnedOf happly hresult
  obtain ⟨s, -, hshape⟩ := hinputs input (List.mem_singleton_self _)
  have hsized := (h.isFormed hparams hshape).sized _ (mem_dims_of_learnedDim? hdim)
  exact ⟨p, hp, hid, hgraph, name, size, hname, hlearn, Dim.isSized_fixed.1 hsized⟩

end Network

/-- The form of everything that is propagated: a shape is the scalar of a criterion, or the batch
and then positive sizes; a learned parameter is a positive size that its operator declares and
accepts. -/
theorem form_of_propagatePartial (nodes : List Node) (edges : List Edge) (overlay : Propagation)
    (faults : List Fault)
    (hparams : ∀ n ∈ nodes, n.isPipeline = false → ∀ o, n.operator = .ok o →
      o.problems n.params = [])
    (h : propagatePartial nodes edges = .ok (overlay, faults)) :
    (∀ id shape, overlay.shape? id = some shape →
      (shape.dims = [] ∧ ∃ loss ∈ nodes, ∃ o, loss.operator = .ok o ∧ o.isLoss = true ∧
        ReflTransGen (Feeds edges) loss.id id) ∨
      ∃ sizes : List Int, sizes ≠ [] ∧ (∀ size ∈ sizes, 1 ≤ size) ∧
        shape.dims = .batch :: sizes.map .fixed) ∧
    ∀ id params, overlay.learned.get? id = some params → ∀ name value,
      params.get? name = some value →
        ∃ n ∈ nodes, n.id = id ∧ ∃ o decl size, n.operator = .ok o ∧ o.param? name = some decl ∧
          decl.check value = .ok () ∧ value = .int size ∧ 1 ≤ size := by
  obtain ⟨net, hnet, hall⟩ := bind_eq_ok_iff.1 h
  have hisOf := Network.isOf_of_ofGraph hnet
  have hpropagation := Network.isPropagation_of_propagateAll hall
  have hnetParams := hisOf.hasParams hparams
  refine ⟨fun id shape hshape => ?_, fun id params hlearned name value hvalue => ?_⟩
  · obtain ⟨hsized, hform⟩ := hpropagation.isFormed hnetParams hshape
    rcases hform with hbatched | ⟨hempty, loss, hloss, hisLoss, hpath⟩
    · exact .inr (hsized.exists_sizes hbatched)
    · refine .inl ⟨hempty, loss.node, hisOf.node_mem hloss, loss.operator,
        hisOf.operator loss hloss, hisLoss, ?_⟩
      exact path_mono (fun e he => hisOf.edge_mem he) hpath
  · obtain ⟨p, hp, rfl, hgraph, learned, size, hname, rfl, hsize⟩ :=
      hpropagation.exists_learned (Network.isSolved_of_propagateAll hall) hnetParams hlearned
    obtain ⟨ho, -⟩ := hnetParams p hp hgraph
    rw [get?_single] at hvalue
    split at hvalue
    · rename_i heq
      subst heq
      obtain rfl := Option.some.inj hvalue
      have hdecl := Operator.inputSize_mem ho hname
      have hdeclared := (Operator.wellDeclared .architecture ho).1
      refine ⟨p.node, hisOf.node_mem hp, rfl, p.operator, Operator.Architecture.inputSize name, size,
        hisOf.operator p hp, ?_, Operator.checks_inputSize_iff.2 hsize, rfl, hsize⟩
      exact Operator.param?_eq_some_iff hdeclared |>.2 ⟨hdecl, rfl⟩
    · cases hvalue

/-- A criterion feeds a layer, and the layers behind read an image. -/
def Graph.behindLoss : Graph where
  nodes :=
    [{ id := "data", operatorId := "dataset" },
     { id := "loss", operatorId := "mseloss" },
     { id := "scalar", operatorId := "relu" },
     { id := "conv", operatorId := "conv2d" },
     { id := "double", operatorId := "concat", params := .ofList [("dim", .int (-1))] },
     { id := "flat", operatorId := "flatten" },
     { id := "head", operatorId := "linear" },
     { id := "wide", operatorId := "maxpool2d", params := .ofList [("kernel_size", .int 64)] }]
  edges :=
    [{ id := "1", source := "data", target := "loss" },
     { id := "2", source := "loss", target := "scalar" },
     { id := "3", source := "data", target := "conv" },
     { id := "4", source := "conv", target := "double" },
     { id := "5", source := "conv", target := "double", kind := .residual },
     { id := "6", source := "double", target := "flat" },
     { id := "7", source := "flat", target := "head" },
     { id := "8", source := "data", target := "wide" }]

theorem form_behindLoss :
    ∃ (overlay : Propagation) (faults : List Fault),
      propagatePartial Graph.behindLoss.nodes Graph.behindLoss.edges = .ok (overlay, faults) ∧
      faults.length = 1 ∧ overlay.shape? "scalar" = some ⟨[]⟩ ∧
      overlay.shape? "double" = some ⟨[.batch, .fixed 32, .fixed 26, .fixed 52]⟩ ∧
      ∃ sizes : List Int, (∀ size ∈ sizes, 1 ≤ size) ∧
        [Dim.batch, .fixed 32, .fixed 26, .fixed 52] = .batch :: sizes.map .fixed := by
  have hvalue : (propagatePartial Graph.behindLoss.nodes Graph.behindLoss.edges).toOption.any
      (fun found => decide (found.2.length = 1 ∧ found.1.shape? "scalar" = some ⟨[]⟩ ∧
        found.1.shape? "double" = some ⟨[.batch, .fixed 32, .fixed 26, .fixed 52]⟩)) = true := by
    decide +kernel
  have hparams : ∀ n ∈ Graph.behindLoss.nodes, n.isPipeline = false → ∀ o, n.operator = .ok o →
      o.problems n.params = [] := by
    have hall : ∀ n ∈ Graph.behindLoss.nodes,
        n.operator.toOption.all (fun o => (o.problems n.params).isEmpty) = true := by
      decide +kernel
    intro n hn _ o ho
    exact List.isEmpty_iff.1 (of_toOption_all (hall n hn) ho)
  obtain ⟨⟨overlay, faults⟩, hfound, hshapes⟩ := exists_of_toOption_any hvalue
  obtain ⟨hfaults, hscalar, hdouble⟩ := of_decide_eq_true hshapes
  obtain ⟨hform, -⟩ := form_of_propagatePartial _ _ overlay faults hparams hfound
  obtain ⟨hempty, -⟩ | ⟨sizes, -, hsizes, hdims⟩ := hform "double" _ hdouble
  · cases hempty
  · exact ⟨overlay, faults, hfound, hfaults, hscalar, hdouble, sizes, hsizes, hdims⟩

end LayerGraph
