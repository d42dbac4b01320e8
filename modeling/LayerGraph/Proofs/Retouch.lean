import LayerGraph.Proofs.Agreement
import LayerGraph.Proofs.ShapeRules
/-!
# Retouched nodes

A change of nodes that keeps their ids, their operators and their graphs commutes with everything
that is made of the drawing: `Node.Keeps g` is such a change, and there is one `_change` lemma for
each function of networks.

A change is unseen when in addition no parameter that a rule reads is changed (`Node.Agrees`). Then
the propagated overlay is the same (`propagatePartial_map`), and a graph without faults stays so
unless the parameters themselves are refused, or the number of features that a dense layer has is
not the one provided (`IsSound.faults_map_iff`).
-/

namespace LayerGraph
set_option autoImplicit false

/-! ## Changes -/

/-- The change keeps what places a node. -/
structure Node.Keeps (g : Node → Node) : Prop where
  id : ∀ n, (g n).id = n.id
  operatorId : ∀ n, (g n).operatorId = n.operatorId
  isPipeline : ∀ n, (g n).isPipeline = n.isPipeline

theorem Node.Keeps.mode {g : Node → Node} (h : Node.Keeps g) (n : Node) :
    (g n).mode = n.mode := by
  rw [Node.mode, Node.mode, h.isPipeline]

theorem Node.Keeps.operator {g : Node → Node} (h : Node.Keeps g) (n : Node) :
    (g n).operator = n.operator := by
  rw [Node.operator, Node.operator, h.mode, h.operatorId, h.id]

def Placed.change (g : Node → Node) (p : Placed) : Placed := { p with node := g p.node }

def Ends.change (g : Node → Node) (ends : Ends) : Ends where
  source := ends.source.change g
  target := ends.target.change g

def Emission.change (g : Node → Node) (order : Emission) : Emission :=
  { order with
    root := order.root.change g
    nodes := order.nodes.map (Placed.change g)
    loss := order.loss.map (Placed.change g)
    unreachable := order.unreachable.map (Placed.change g) }

@[simp] theorem Placed.operator_change (g : Node → Node) (p : Placed) :
    (p.change g).operator = p.operator := rfl

section Change

variable {g : Node → Node} (h : Node.Keeps g) {nodes : List Node} {edges : List Edge}
include h

theorem Placed.id_change (p : Placed) : (p.change g).id = p.id := h.id p.node

theorem Placed.map_id_change (placed : List Placed) :
    (placed.map (Placed.change g)).map Placed.id = placed.map Placed.id := by
  rw [List.map_map]
  apply List.map_congr_left
  intro p _
  exact Placed.id_change h p

omit h in
theorem Placed.filter_change {keep : Placed → Bool} (hkeep : ∀ p, keep (p.change g) = keep p)
    (placed : List Placed) :
    (placed.map (Placed.change g)).filter keep = (placed.filter keep).map (Placed.change g) := by
  rw [List.filter_map]
  exact congrArg (List.map (Placed.change g)) (List.filter_congr fun p _ => hkeep p)

namespace Network

/-- The network with its nodes changed. -/
def change (net : Network) : Network where
  nodes := net.nodes.map (Placed.change g)
  edges := net.edges
  nodup_ids := by
    rw [Placed.map_id_change h]
    exact net.nodup_ids
  ends_mem := by
    rw [Placed.map_id_change h]
    exact net.ends_mem

variable (net : Network)

theorem ids_change : (net.change h).ids = net.ids := Placed.map_id_change h net.nodes

theorem find?_change (id : String) :
    (net.change h).find? id = (net.find? id).map (Placed.change g) := by
  have hkey : ((·.id == id) : Placed → Bool) ∘ Placed.change g = (·.id == id) := by
    funext p
    exact congrArg (· == id) (Placed.id_change h p)
  rw [find?, find?, change, List.find?_map, hkey]

theorem isMerge_change (id : String) : (net.change h).isMerge id = net.isMerge id := by
  rw [isMerge, isMerge, find?_change]
  cases net.find? id <;> rfl

theorem operands_change (id : String) : (net.change h).operands id = net.operands id := by
  rw [operands, operands, isMerge_change]
  rfl

theorem roots_change : (net.change h).roots = net.roots.map (Placed.change g) := by
  rw [roots, roots, change, List.filter_map]
  rfl

theorem root_change : (net.change h).root = net.root.map (Placed.change g) := by
  rw [root, root, roots_change]
  cases net.roots <;> rfl

theorem cycleNode?_change : (net.change h).cycleNode? = net.cycleNode? := by
  rw [cycleNode?, cycleNode?, ids_change]
  rfl

theorem checkAcyclic_change : (net.change h).checkAcyclic = net.checkAcyclic := by
  rw [checkAcyclic, checkAcyclic, cycleNode?_change]

theorem drain_change (pending queue : List String) :
    (net.change h).drain pending queue = net.drain pending queue := by
  fun_induction net.drain pending queue with
  | case1 => rw [drain]
  | case2 pending id queue hid left ih =>
    rw [drain, if_pos hid]
    exact congrArg (id :: ·) ih
  | case3 pending id queue hid ih => rw [drain, if_neg hid, ih]

theorem topological_change : (net.change h).topological = net.topological := by
  have hsourceless : (net.change h).sourceless = net.sourceless := by
    rw [sourceless, sourceless, ids_change]
    rfl
  simp only [topological, checkAcyclic_change, ids_change, hsourceless, drain_change]

theorem reachable_change (id : String) : (net.change h).reachable id = net.reachable id := by
  rw [reachable, reachable, ids_change]
  rfl

theorem sourcesOfKind_change (kind : EdgeKind) (id : String) :
    (net.change h).sourcesOfKind kind id = net.sourcesOfKind kind id := by
  rw [sourcesOfKind, sourcesOfKind, change, List.flatMap_map]
  apply List.flatMap_congr
  intro p _
  rw [Placed.id_change h]
  rfl

theorem addends_change (kind : EdgeKind) : (net.change h).addends kind = net.addends kind := by
  have hat : ∀ p : Placed,
      (net.change h).addendsAt? kind (p.change g) = net.addendsAt? kind p := by
    intro p
    rw [addendsAt?, addendsAt?, Placed.id_change h, sourcesOfKind_change]
    rfl
  rw [addends, addends]
  refine congrArg Table.ofList ?_
  rw [change, List.filterMap_map]
  exact List.filterMap_congr fun p _ => hat p

theorem filterMap_find?_change (ids : List String) :
    ids.filterMap (net.change h).find? = (ids.filterMap net.find?).map (Placed.change g) := by
  rw [List.map_filterMap]
  apply List.filterMap_congr
  intro id _
  exact find?_change h net id

theorem emissionFrom_change (root : Placed) :
    (net.change h).emissionFrom (root.change g) = (net.emissionFrom root).change g := by
  let emitted := (net.drain (net.reachable root.id) [root.id]).filterMap net.find?
  have hnodes : ((emitted.map (Placed.change g)).filter fun q =>
      decide (q.id ≠ root.id ∧ ¬ q.operator.isLoss)) =
        (emitted.filter fun q => decide (q.id ≠ root.id ∧ ¬ q.operator.isLoss)).map
          (Placed.change g) := by
    apply Placed.filter_change
    intro q
    rw [Placed.id_change h, Placed.operator_change]
  have hunreached : (net.nodes.map (Placed.change g)).filter
      (fun q => decide (q.id ∉ net.reachable root.id)) =
        (net.nodes.filter fun q => decide (q.id ∉ net.reachable root.id)).map
          (Placed.change g) := by
    apply Placed.filter_change
    intro q
    rw [Placed.id_change h]
  have hinputs : ∀ placed : List Placed,
      (placed.map (Placed.change g)).map (fun p => (p.id, net.operands p.id)) =
        placed.map fun p => (p.id, net.operands p.id) := by
    intro placed
    rw [List.map_map]
    apply List.map_congr_left
    intro p _
    rw [Function.comp_apply, Placed.id_change h]
  have hloss : (net.nodes.map (Placed.change g)).find? (·.operator.isLoss) =
      (net.nodes.find? (·.operator.isLoss)).map (Placed.change g) := List.find?_map
  have hplaced : (net.change h).nodes = net.nodes.map (Placed.change g) := rfl
  simp only [emissionFrom, Emission.change, reachable_change, drain_change,
    filterMap_find?_change, Placed.id_change h, addends_change, operands_change, hplaced, hnodes,
    hunreached, hinputs, hloss, emitted]

theorem emission_change :
    (net.change h).emission = net.emission.map (Emission.change g) := by
  rw [emission_eq, emission_eq, root_change]
  cases net.root with
  | error fault => rfl
  | ok root =>
    simp only [Except.map, bind, Except.bind, checkAcyclic_change]
    cases net.checkAcyclic with
    | error fault => rfl
    | ok _ => exact congrArg Except.ok (emissionFrom_change h net root)

omit h in
theorem eq_of_isOf {net net' : Network} (h : net.IsOf nodes edges) (h' : net'.IsOf nodes edges) :
    net = net' := by
  have hnodes := h.nodes_eq_of_isOf h'
  have hedges : net.edges = net'.edges := by rw [h.edges_eq, h'.edges_eq, ids, ids, hnodes]
  cases net
  cases net'
  cases hnodes
  cases hedges
  rfl

omit h in
/-- A network of drawn nodes and edges is the one that they make. -/
theorem IsOf.ofGraph_eq {net : Network} (hnet : net.IsOf nodes edges) :
    ofGraph nodes edges = .ok net := by
  obtain ⟨net', hnet'⟩ := hnet.exists_ofGraph edges
  rw [hnet', eq_of_isOf (isOf_of_ofGraph hnet') hnet]

theorem IsOf.change {net : Network} (hnet : net.IsOf nodes edges) :
    (net.change h).IsOf (nodes.map g) edges where
  nodes_eq := by
    rw [← hnet.nodes_eq, Network.change, List.map_map, List.map_map]
    rfl
  operator := by
    intro q hq
    obtain ⟨p, hp, rfl⟩ := List.mem_map.1 hq
    exact (h.operator p.node).trans (hnet.operator p hp)
  edges_eq := by
    rw [ids_change]
    exact hnet.edges_eq

theorem ofGraph_map {net : Network} (hnet : ofGraph nodes edges = .ok net) :
    ofGraph (nodes.map g) edges = .ok (net.change h) :=
  ((isOf_of_ofGraph hnet).change h).ofGraph_eq

end Network

end Change

/-! ## Parameters that no rule reads -/

/-- The parameters are the same but for those that are learned from shapes. -/
def Params.Agrees (a b : Params) : Prop :=
  ∀ name, name ∉ learnedNames → a.get? name = b.get? name

theorem Params.Agrees.int? {a b : Params} (h : a.Agrees b) {name : String}
    (hname : name ∉ learnedNames) : a.int? name = b.int? name := by
  rw [Params.int?, Params.int?, h name hname]

theorem Params.Agrees.resolve {a b : Params} (h : a.Agrees b) (o : Operator) :
    (o.resolve a).Agrees (o.resolve b) := by
  intro name hname
  rw [Operator.resolve, Operator.resolve, Table.get?_overlay, Table.get?_overlay, h name hname]

namespace Rule

theorem intParam_congr {a b : Params} (h : a.Agrees b) {name : String}
    (hname : name ∉ learnedNames) : intParam a name = intParam b name := by
  rw [intParam, intParam, h.int? hname]

theorem branchChannels_congr {a b : Params} (h : a.Agrees b) {names : List String}
    (hnames : ∀ name ∈ names, name ∉ learnedNames) (sum : Int) :
    branchChannels a sum names = branchChannels b sum names := by
  induction names generalizing sum with
  | nil => rfl
  | cons name rest ih =>
    have hrest := ih fun other hother => hnames other (List.mem_cons_of_mem _ hother)
    simp only [branchChannels, intParam_congr h (hnames name List.mem_cons_self), hrest]

/-- No rule reads the parameters that are learned from shapes. -/
theorem apply_congr {a b : Params} (h : a.Agrees b) (rule : Rule) (inputs : List Shape) :
    rule.apply a inputs = rule.apply b inputs := by
  have hint : ∀ {name}, name ∉ learnedNames → intParam a name = intParam b name :=
    fun hname => intParam_congr h hname
  have hout : intParam a "out_channels" = intParam b "out_channels" := hint (by decide)
  have hkernel : intParam a "kernel_size" = intParam b "kernel_size" := hint (by decide)
  have hstride : intParam a "stride" = intParam b "stride" := hint (by decide)
  have hpadding : intParam a "padding" = intParam b "padding" := hint (by decide)
  cases rule with
  | dataset =>
    have hdataset : a.get? "dataset" = b.get? "dataset" := h "dataset" (by decide)
    simp only [apply, datasetShape, Params.text?, hdataset]
  | linear =>
    have hfeatures : intParam a "out_features" = intParam b "out_features" := hint (by decide)
    have hrule : linearShape a = linearShape b := by
      funext input
      simp only [linearShape, hfeatures]
    simp only [apply, hrule]
  | conv spatial =>
    have hrule : convShape spatial a = convShape spatial b := by
      funext input
      simp only [convShape, hout, hkernel, hstride, hpadding]
    simp only [apply, hrule]
  | pool spatial =>
    have hrule : poolShape spatial a = poolShape spatial b := by
      funext input
      have hset : a.int? "stride" = b.int? "stride" := h.int? (by decide)
      simp only [poolShape, hkernel, hset, hpadding]
    simp only [apply, hrule]
  | adaptivePool =>
    have hsize : intParam a "output_size" = intParam b "output_size" := hint (by decide)
    have hrule : adaptivePoolShape a = adaptivePoolShape b := by
      funext input
      simp only [adaptivePoolShape, hsize]
    simp only [apply, hrule]
  | flatten =>
    have hstart : intParam a "start_dim" = intParam b "start_dim" := hint (by decide)
    have hrule : flattenShape a = flattenShape b := by
      funext input
      simp only [flattenShape, hstart]
    simp only [apply, hrule]
  | concat =>
    have hdim : intParam a "dim" = intParam b "dim" := hint (by decide)
    have hrule : concatShape a = concatShape b := by
      funext inputs
      simp only [concatShape.eq_def, hdim]
    simp only [apply, hrule]
  | block kind =>
    cases kind with
    | residual =>
      have hrule : residualShape a = residualShape b := by
        funext input
        simp only [residualShape, hout, hstride]
      simp only [apply, hrule]
    | inception =>
      have hbranches : branchChannels a 0 ["out_1x1", "out_3x3", "out_5x5", "pool_proj"] =
          branchChannels b 0 ["out_1x1", "out_3x3", "out_5x5", "pool_proj"] :=
        branchChannels_congr h (by decide) 0
      have hrule : inceptionShape a = inceptionShape b := by
        funext input
        simp only [inceptionShape, hbranches]
      simp only [apply, hrule]
  | preserve | scalar | batchNorm | layerNorm | add => rfl

end Rule

/-! ## Propagation -/

section Unseen

variable {g : Node → Node} (h : Node.Keeps g) {nodes : List Node} {edges : List Edge}
  {net : Network} {p : Placed}
include h

namespace Propagation

/-- What a rule gives depends on the parameters over the defaults. -/
theorem outcome?_change
    (hp : (p.operator.resolve (g p.node).params).Agrees (p.operator.resolve p.node.params))
    (overlay : Propagation) :
    overlay.outcome? (net.change h) (p.change g) = overlay.outcome? net p := by
  have hinputs : overlay.inputs? (net.change h) (p.change g) = overlay.inputs? net p := by
    simp only [inputs?, Placed.id_change h, Network.operands_change, Placed.operator_change]
  have hrule : ∀ inputs,
      p.operator.rule.apply (p.operator.resolve (g p.node).params) inputs =
        p.operator.rule.apply (p.operator.resolve p.node.params) inputs :=
    Rule.apply_congr hp p.operator.rule
  have hparams : (p.change g).node.params = (g p.node).params := rfl
  simp only [outcome?, hinputs, Placed.operator_change, Placed.id_change h, hparams, hrule]

theorem advance_change
    (hp : (p.operator.resolve (g p.node).params).Agrees (p.operator.resolve p.node.params))
    (state : Propagation × List Fault) :
    advance (net.change h) state (p.change g) = advance net state p := by
  have hgraph : (p.change g).node.isPipeline = p.node.isPipeline := h.isPipeline p.node
  have htypes : state.1.recordTypes (p.change g) = state.1.recordTypes p := by
    simp only [recordTypes, Placed.id_change h, Placed.operator_change]
  have hrecord : ∀ result, state.1.record (p.change g) result = state.1.record p result := by
    intro result
    simp only [record, htypes, Placed.id_change h]
  simp only [advance, hgraph, htypes, outcome?_change h hp, hrecord]

end Propagation

theorem Network.propagateAll_change
    (hnodes : ∀ p ∈ net.nodes,
      (p.operator.resolve (g p.node).params).Agrees (p.operator.resolve p.node.params)) :
    (net.change h).propagateAll = net.propagateAll := by
  simp only [propagateAll, topological_change, filterMap_find?_change, List.foldl_map]
  apply congrArg (net.topological >>= ·)
  funext order
  apply congrArg Except.ok
  apply List.foldl_ext
  intro state p hp
  exact Propagation.advance_change h (hnodes p (mem_filterMap_find?.1 hp).1) state

/-- A change that no rule sees leaves the overlay as it is. -/
theorem propagatePartial_map (hnet : Network.ofGraph nodes edges = .ok net)
    (hnodes : ∀ n ∈ nodes, (g n).params.Agrees n.params) :
    propagatePartial (nodes.map g) edges = propagatePartial nodes edges := by
  rw [propagatePartial_eq (Network.ofGraph_map h hnet), propagatePartial_eq hnet]
  apply Network.propagateAll_change h
  intro p hp
  exact (hnodes p.node ((Network.isOf_of_ofGraph hnet).node_mem hp)).resolve p.operator

theorem propagate_map (hnet : Network.ofGraph nodes edges = .ok net)
    (hnodes : ∀ n ∈ nodes, (g n).params.Agrees n.params) :
    propagate (nodes.map g) edges = propagate nodes edges := by
  rw [propagate, propagate, propagatePartial_map h hnet hnodes]

/-! ## Edges -/

variable {e : Edge} {ends : Ends} {others : List Edge}

theorem findEnd_map (role : EndRole) (id : String) :
    findEnd (nodes.map g) role id = (findEnd nodes role id).map g := by
  have hkey : ((·.id == id) : Node → Bool) ∘ g = (·.id == id) := by
    funext n
    exact congrArg (· == id) (h.id n)
  rw [findEnd, findEnd, List.find?_map, hkey]
  cases nodes.find? (·.id == id) <;> rfl

theorem resolveEnds_map (e : Edge) :
    resolveEnds e (nodes.map g) = (resolveEnds e nodes).map (Ends.change g) := by
  rw [resolveEnds, resolveEnds, findEnd_map h, findEnd_map h]
  cases findEnd nodes .source e.source with
  | error fault => rfl
  | ok source =>
    cases findEnd nodes .target e.target with
    | error fault => rfl
    | ok target =>
      simp only [Except.map, bind, Except.bind, h.isPipeline, h.id, h.mode, h.operator]
      split
      · rfl
      · split
        · rfl
        · cases source.operator with
          | error fault => rfl
          | ok producer => cases target.operator <;> rfl

omit h in
theorem declaredLayout?_change (hp : (g p.node).params.Agrees p.node.params) :
    declaredLayout? (p.change g) = declaredLayout? p := by
  have hparams : (p.change g).node.params = (g p.node).params := rfl
  have hstart : (p.operator.resolve (g p.node).params).int? "start_dim" =
      (p.operator.resolve p.node.params).int? "start_dim" :=
    (hp.resolve p.operator).int? (by decide)
  have hdataset : (g p.node).params.get? "dataset" = p.node.params.get? "dataset" :=
    hp "dataset" (by decide)
  simp only [declaredLayout?, Placed.operator_change, hparams, hstart, Params.text?, hdataset]

theorem checkLayout_change (layout : Layout) (shape : Option Shape) :
    checkLayout layout shape (ends.change g) = checkLayout layout shape ends := by
  simp only [checkLayout, Ends.change, Placed.id_change h, Placed.operator_change]

theorem checkConnection_change
    (hsource : (g ends.source.node).params.Agrees ends.source.node.params) :
    checkConnection e (ends.change g) others = checkConnection e ends others := by
  have hgraph : (ends.change g).source.node.isPipeline = ends.source.node.isPipeline :=
    h.isPipeline ends.source.node
  have hlayout : declaredLayout? (ends.change g).source = declaredLayout? ends.source :=
    declaredLayout?_change hsource
  have hsourceid : (ends.change g).source.id = ends.source.id := Placed.id_change h ends.source
  have htargetid : (ends.change g).target.id = ends.target.id := Placed.id_change h ends.target
  have hproducer : (ends.change g).source.operator = ends.source.operator := rfl
  have hconsumer : (ends.change g).target.operator = ends.target.operator := rfl
  simp only [checkConnection, checkWorkflow, checkArchitecture, hgraph, hlayout, hsourceid,
    htargetid, hproducer, hconsumer, checkLayout_change h]

theorem checkDrawn_map (hnodes : ∀ n ∈ nodes, (g n).params.Agrees n.params) :
    checkDrawn (nodes.map g) edges e = checkDrawn nodes edges e := by
  rw [checkDrawn, checkDrawn, resolveEnds_map h]
  cases hends : resolveEnds e nodes with
  | error fault => rfl
  | ok ends =>
    obtain ⟨⟨hsource, -⟩, -⟩ := resolveEnds_eq_ok_iff.1 hends
    exact checkConnection_change h (hnodes _ (List.mem_of_find?_eq_some hsource))

theorem checkRule_change
    (htarget : (g ends.target.node).params.Agrees ends.target.node.params)
    (inputs : List Shape) : checkRule (ends.change g) inputs = checkRule ends inputs := by
  have hrule := Rule.apply_congr (htarget.resolve ends.target.operator)
    ends.target.operator.rule inputs
  have hid : (ends.change g).target.id = ends.target.id := Placed.id_change h ends.target
  have hoperator : (ends.change g).target.operator = ends.target.operator := rfl
  have hparams : (ends.change g).target.node.params = (g ends.target.node).params := rfl
  simp only [checkRule, hid, hoperator, hparams, hrule]

/-- Of the tests with shapes only that of the number of features can come out otherwise. -/
theorem checkShapes_change_iff {overlay : Propagation}
    (hsource : (g ends.source.node).params.Agrees ends.source.node.params)
    (htarget : (g ends.target.node).params.Agrees ends.target.node.params)
    (hok : checkShapes e ends others overlay = .ok ()) :
    checkShapes e (ends.change g) others overlay = .ok () ↔
      (e.kind = .normal → ends.target.operator.rule = .linear → ∀ produced,
        overlay.shape? ends.source.id = some produced →
          checkFeatures produced (ends.change g) = .ok ()) := by
  have hsourceid : (ends.change g).source.id = ends.source.id := Placed.id_change h ends.source
  have htargetid : (ends.change g).target.id = ends.target.id := Placed.id_change h ends.target
  by_cases hoperand : e.kind = .normal ∨ ends.target.operator.isMerge = true
  · have hlayout : ∀ produced,
        checkProducedLayout (ends.change g) produced = checkProducedLayout ends produced := by
      intro produced
      have hdeclared : declaredLayout? (ends.change g).source = declaredLayout? ends.source :=
        declaredLayout?_change hsource
      simp only [checkProducedLayout, hdeclared, checkLayout_change h]
    have hinputs : ∀ produced, checkInputs e (ends.change g) others overlay produced =
        checkInputs e ends others overlay produced := by
      intro produced
      simp only [checkInputs, checkRule_change h htarget]
      rfl
    have hchange : checkShapes e (ends.change g) others overlay = .ok () ↔ _ :=
      checkShapes_operand_iff hoperand
    rw [hchange]
    have hall := (checkShapes_operand_iff hoperand).1 hok
    constructor
    · intro hshapes hkind hlinear produced hproduced
      exact (hshapes produced (hsourceid ▸ hproduced)).2.1 hlinear
    · intro hfeatures produced hproduced
      rw [hsourceid] at hproduced
      obtain ⟨hproducedLayout, -, hproducedInputs⟩ := hall produced hproduced
      rw [hlayout, hinputs]
      refine ⟨hproducedLayout, fun hlinear => hfeatures ?_ hlinear produced hproduced,
        hproducedInputs⟩
      apply hoperand.resolve_right
      have hrule : ends.target.operator.rule = .linear := hlinear
      simp [Operator.isMerge, Rule.isMerge, hrule]
  · obtain ⟨hkind, hmerge⟩ := not_or.1 hoperand
    have hnot := Bool.eq_false_iff.2 hmerge
    have hchange : checkShapes e (ends.change g) others overlay = .ok () ↔ _ :=
      checkShapes_addend_iff hkind hnot
    rw [hchange, hsourceid, htargetid]
    exact ⟨fun _ hnormal => absurd hnormal hkind,
      fun _ => (checkShapes_addend_iff hkind hnot).1 hok⟩

/-! ## Reports -/

theorem operandReport_change (order : Emission) (p : Placed) :
    operandReport (order.change g) (p.change g) = operandReport order p := by
  have hinputs : ∀ id, (order.change g).inputsOf id = order.inputsOf id := fun _ => rfl
  simp only [operandReport, hinputs, Placed.id_change h, Placed.operator_change]

theorem outsideReport_change (order : Emission) (e : Edge) :
    outsideReport (order.change g) e = outsideReport order e := by
  have hany : ∀ (placed : List Placed) (id : String),
      (placed.map (Placed.change g)).any (·.id == id) = placed.any (·.id == id) := by
    intro placed id
    rw [List.any_map]
    congr 1
    funext p
    exact congrArg (· == id) (Placed.id_change h p)
  simp only [outsideReport, Emission.change, hany, Placed.id_change h]

/-- The dense layers still have the numbers of features that are provided. -/
def FeaturesFit (nodes : List Node) (edges : List Edge) (overlay : Propagation)
    (g : Node → Node) : Prop :=
  ∀ e ∈ edges, e.kind = .normal → ∀ ends, resolveEnds e nodes = .ok ends →
    ends.target.operator.rule = .linear → ∀ produced,
      overlay.shape? ends.source.id = some produced →
        checkFeatures produced (ends.change g) = .ok ()

omit h in
theorem agrees_of_resolveEnds (hnodes : ∀ n ∈ nodes, (g n).params.Agrees n.params)
    {e : Edge} {ends : Ends} (hresolved : resolveEnds e nodes = .ok ends) :
    (g ends.source.node).params.Agrees ends.source.node.params ∧
      (g ends.target.node).params.Agrees ends.target.node.params := by
  obtain ⟨⟨hsource, -⟩, ⟨htarget, -⟩, -⟩ := resolveEnds_eq_ok_iff.1 hresolved
  exact ⟨hnodes _ (List.mem_of_find?_eq_some hsource),
    hnodes _ (List.mem_of_find?_eq_some htarget)⟩

theorem resolveEnds_change {e : Edge} {ends : Ends} (hresolved : resolveEnds e nodes = .ok ends) :
    resolveEnds e (nodes.map g) = .ok (ends.change g) := by
  rw [resolveEnds_map h, hresolved]
  rfl

/-- A sound architecture stays sound, with the same overlay. -/
theorem IsSound.change {order : Emission} {overlay : Propagation}
    (hsound : IsSound nodes edges net order overlay)
    (hnodes : ∀ n ∈ nodes, (g n).params.Agrees n.params)
    (hproper : ∀ n ∈ nodes, (g n).IsProper .architecture)
    (hfeatures : FeaturesFit nodes edges overlay g) :
    IsSound (nodes.map g) edges (net.change h) (order.change g) overlay where
  proper := by
    intro n hn
    obtain ⟨m, hm, rfl⟩ := List.mem_map.1 hn
    exact hproper m hm
  ofGraph := Network.ofGraph_map h hsound.ofGraph
  drawn := by
    intro e he
    rw [checkDrawn_map h hnodes]
    exact hsound.drawn e he
  emission := by
    rw [Network.emission_change, hsound.emission]
    rfl
  operands := by
    intro q hq
    obtain ⟨p, hp, rfl⟩ := List.mem_map.1 hq
    rw [operandReport_change h]
    exact hsound.operands p hp
  inside := by
    intro e he
    rw [outsideReport_change h]
    exact hsound.inside e he
  nonempty := by
    intro hempty
    exact hsound.nonempty (List.map_eq_nil_iff.1 hempty)
  propagate := (propagate_map h hsound.ofGraph hnodes).trans hsound.propagate
  shapes := by
    intro e he
    obtain ⟨ends, hresolved, hshapes⟩ := checkDrawnShapes_eq_ok_iff.1 (hsound.shapes e he)
    obtain ⟨hsource, htarget⟩ := agrees_of_resolveEnds hnodes hresolved
    refine checkDrawnShapes_eq_ok_iff.2 ⟨ends.change g, resolveEnds_change h hresolved, ?_⟩
    apply (checkShapes_change_iff h hsource htarget hshapes).2
    intro hkind
    exact hfeatures e he hkind ends hresolved

theorem IsSound.featuresFit {order changed : Emission} {overlay : Propagation} {net' : Network}
    (hsound : IsSound nodes edges net order overlay)
    (hnodes : ∀ n ∈ nodes, (g n).params.Agrees n.params)
    (hchanged : IsSound (nodes.map g) edges net' changed overlay) :
    FeaturesFit nodes edges overlay g := by
  intro e he hkind ends hresolved
  obtain ⟨ends', hends', hshapes⟩ := checkDrawnShapes_eq_ok_iff.1 (hsound.shapes e he)
  obtain rfl := Except.ok.inj (hends'.symm.trans hresolved)
  obtain ⟨found, hfound, hshapes'⟩ := checkDrawnShapes_eq_ok_iff.1 (hchanged.shapes e he)
  obtain rfl := Except.ok.inj ((resolveEnds_change h hresolved).symm.trans hfound)
  obtain ⟨hsource, htarget⟩ := agrees_of_resolveEnds hnodes hresolved
  exact (checkShapes_change_iff h hsource htarget hshapes).1 hshapes' hkind

/-- When a change is unseen by the rules, an architecture without faults stays so exactly when its
parameters stay in order and its dense layers still have the features that are provided. -/
theorem IsSound.faults_map_iff {order : Emission} {overlay : Propagation}
    (hsound : IsSound nodes edges net order overlay)
    (hnodes : ∀ n ∈ nodes, (g n).params.Agrees n.params) :
    (architectureReport (nodes.map g) edges).faults = [] ↔
      (∀ n ∈ nodes, (g n).IsProper .architecture) ∧ FeaturesFit nodes edges overlay g := by
  rw [architectureReport_isValid_iff]
  constructor
  · rintro ⟨net', changed, overlay', hchanged⟩
    have hpropagate := (propagate_map h hsound.ofGraph hnodes).trans hsound.propagate
    obtain rfl := Except.ok.inj (hchanged.propagate.symm.trans hpropagate)
    exact ⟨fun n hn => hchanged.proper (g n) (List.mem_map_of_mem hn),
      hsound.featuresFit h hnodes hchanged⟩
  · rintro ⟨hproper, hfeatures⟩
    exact ⟨_, _, _, hsound.change h hnodes hproper hfeatures⟩

end Unseen

end LayerGraph
