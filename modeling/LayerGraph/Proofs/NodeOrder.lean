import LayerGraph.Proofs.Applied
import LayerGraph.Proofs.ListingOrder
import LayerGraph.Proofs.NamedModel
/-!
# The order of the nodes in a drawing

Listing the nodes of an architecture in another order, beside the same edges, cannot be seen in its
program but in one place: the additions that edges of one kind bring to one node stand in the order of
the nodes from which they come.

* `Network.Reorders net net'`: the same edges between the same nodes, in some order. Nodes are drained
  alike (`Reorders.drain_eq`), since pending nodes are only asked for membership.
* `Emission.Reorders order order'`: the same nodes are emitted in the same order, with the same
  operands. A second root or loss could be taken for the first.
* `Reordered body body'`: neighbouring additions of one kind to one variable have changed places.
* `IsSound.reorders`: what is valid in one order is valid in the other, with the same overlay.
* `nodes_reordered` says so of the report, the emission order and the model.
-/

namespace LayerGraph
set_option autoImplicit false
open Relation

/-! ## Finding an element in another order -/

theorem find?_eq_of_perm {α : Type} {items items' : List α} {keep : α → Bool}
    (h : items.Perm items') (hone : (items.filter keep).length ≤ 1) :
    items.find? keep = items'.find? keep := by
  rw [← List.head?_filter, ← List.head?_filter,
    Network.eq_of_perm_of_length_le_one (h.filter keep) hone]

theorem length_filter_id_le_one {nodes : List Node} (h : (nodes.map Node.id).Nodup) (id : String) :
    (nodes.filter (·.id == id)).length ≤ 1 := by
  have hsame : ∀ n ∈ (nodes.filter (·.id == id)).map Node.id, n = id := by
    intro name hname
    obtain ⟨n, hn, rfl⟩ := List.mem_map.1 hname
    simpa using (List.mem_filter.1 hn).2
  have hnodup : ((nodes.filter (·.id == id)).map Node.id).Nodup :=
    (List.filter_sublist.map Node.id).nodup h
  rw [List.eq_replicate_of_mem hsame, List.nodup_replicate, List.length_map] at hnodup
  exact hnodup

theorem resolveEnds_perm {nodes nodes' : List Node} (h : nodes.Perm nodes')
    (hids : (nodes.map Node.id).Nodup) (e : Edge) : resolveEnds e nodes = resolveEnds e nodes' := by
  have hfind : ∀ role id, findEnd nodes role id = findEnd nodes' role id := by
    intro role id
    rw [findEnd, findEnd, find?_eq_of_perm h (length_filter_id_le_one hids id)]
  simp only [resolveEnds, hfind]

/-! ## Networks -/

namespace Network

variable {net net' : Network}

/-- The same edges between the same nodes, in some order. -/
structure Reorders (net net' : Network) : Prop where
  nodes : net.nodes.Perm net'.nodes
  edges : net.edges = net'.edges

namespace Reorders

theorem find?_eq (h : net.Reorders net') : net.find? = net'.find? := by
  funext id
  apply Option.ext
  intro p
  rw [find?_eq_some_iff, find?_eq_some_iff, h.nodes.mem_iff]

theorem targets_eq (h : net.Reorders net') : net.targets = net'.targets := by
  funext id
  rw [targets, targets, outgoing, outgoing, h.edges]

theorem sources_eq (h : net.Reorders net') : net.sources = net'.sources := by
  funext id
  rw [sources, sources, incoming, incoming, h.edges]

theorem operands_eq (h : net.Reorders net') : net.operands = net'.operands := by
  funext id
  have hmerge : net.isMerge id = net'.isMerge id := by rw [isMerge, isMerge, h.find?_eq]
  have hincoming : net.incoming id = net'.incoming id := by rw [incoming, incoming, h.edges]
  rw [operands, operands, hmerge, hincoming]

theorem mem_reachable_iff (h : net.Reorders net') {root : Placed} (hroot : root ∈ net.nodes)
    (id : String) : id ∈ net.reachable root.id ↔ id ∈ net'.reachable root.id := by
  rw [mem_reachable (id_mem_ids hroot), mem_reachable (id_mem_ids (h.nodes.mem_iff.1 hroot)),
    h.edges]

theorem sourcesOfKind_perm (h : net.Reorders net') (kind : EdgeKind) (id : String) :
    (net.sourcesOfKind kind id).Perm (net'.sourcesOfKind kind id) := by
  have houtgoing : net.outgoing = net'.outgoing := by
    funext id
    rw [outgoing, outgoing, h.edges]
  rw [sourcesOfKind, sourcesOfKind, houtgoing]
  exact h.nodes.flatMap_right _

/-! ### Draining -/

theorem released_eq (h : net.Reorders net') {pending pending' : List String}
    (hpending : ∀ id, id ∈ pending ↔ id ∈ pending') (id : String) :
    net.released pending id = net'.released pending' id := by
  simp only [released, h.targets_eq, h.sources_eq, hpending]

/-- Draining asks which nodes are pending, not in which order they are listed. -/
theorem drain_eq (h : net.Reorders net') {pending pending' : List String}
    (hpending : ∀ id, id ∈ pending ↔ id ∈ pending') (queue : List String) :
    net.drain pending queue = net'.drain pending' queue := by
  fun_induction drain net pending queue generalizing pending'
  case case1 => rw [drain]
  case case2 pending first queue hfirst left ih =>
    have hleft : ∀ id, id ∈ left ↔ id ∈ Search.without pending' first := by
      intro id
      rw [Search.mem_without, Search.mem_without, hpending]
    rw [drain, if_pos ((hpending first).1 hfirst), ih hleft, h.released_eq hleft]
  case case3 pending first queue hfirst ih =>
    rw [drain, if_neg fun hmem => hfirst ((hpending first).2 hmem), ih hpending]

end Reorders
end Network

/-! ## Emission orders -/

/-- The same nodes are emitted in the same order, with the same operands. -/
structure Emission.Reorders (order order' : Emission) : Prop where
  root : order.root = order'.root
  nodes : order.nodes = order'.nodes
  inputs : order.inputs = order'.inputs
  loss : order.loss = order'.loss
  addends : ∀ p ∈ order.nodes, ∀ kind,
    (order.addendsOf kind p.id).Perm (order'.addendsOf kind p.id)
  unreachable : order.unreachable.Perm order'.unreachable

namespace Network

variable {net net' : Network}

theorem Reorders.emissionFrom (h : net.Reorders net') (hacyclic : Acyclic net.edges)
    {root : Placed} (hroot : net.roots.head? = some root)
    (hroot' : net'.roots.head? = some root)
    (hloss : (net.nodes.filter (·.operator.isLoss)).length ≤ 1) :
    (net.emissionFrom root).Reorders (net'.emissionFrom root) := by
  have hreachable := h.mem_reachable_iff (root_mem_of_head? hroot).1
  have hnodes : (net.emissionFrom root).nodes = (net'.emissionFrom root).nodes := by
    simp only [Network.emissionFrom, h.drain_eq hreachable, h.find?_eq]
  have hemission := isEmission_emissionFrom hacyclic hroot
  have hemission' := isEmission_emissionFrom (h.edges ▸ hacyclic) hroot'
  refine ⟨rfl, hnodes, ?_, find?_eq_of_perm h.nodes hloss, fun p hp kind => ?_, ?_⟩
  · have hinputs : (net.emissionFrom root).inputs =
        Table.ofList ((net.emissionFrom root).nodes.map fun p => (p.id, net.operands p.id)) := rfl
    rw [hinputs, hnodes, h.operands_eq]
    rfl
  · by_cases hkind : kind = .normal
    · rw [hkind]
      exact .refl _
    · have hmem := hemission.mem_net hp
      rw [hemission.addendsOf p hmem kind hkind,
        hemission'.addendsOf p (h.nodes.mem_iff.1 hmem) kind hkind]
      split
      · exact .refl _
      · exact h.sourcesOfKind_perm kind p.id
  · simp only [Network.emissionFrom, hreachable]
    exact h.nodes.filter _

theorem Reorders.exists_emission (h : net.Reorders net') {order : Emission}
    (horder : net.emission = .ok order) (hroots : net.roots.length ≤ 1)
    (hloss : (net.nodes.filter (·.operator.isLoss)).length ≤ 1) :
    ∃ order', net'.emission = .ok order' ∧ order.Reorders order' := by
  obtain ⟨root, hroot, hacyclic, rfl⟩ := emission_eq_ok_iff.1 horder
  have hroot' : net'.roots.head? = some root := by
    rw [roots, ← eq_of_perm_of_length_le_one (h.nodes.filter _) hroots]
    exact hroot
  exact ⟨net'.emissionFrom root,
    emission_eq_ok_iff.2 ⟨root, hroot', h.edges ▸ hacyclic, rfl⟩,
    h.emissionFrom hacyclic hroot hroot' hloss⟩

end Network

/-! ## Statements -/

/-- Neighbouring additions of one kind to one variable have changed places. -/
inductive Reordered : List Stmt → List Stmt → Prop
  | refl (body : List Stmt) : Reordered body body
  | cons (stmt : Stmt) {body body' : List Stmt} (h : Reordered body body') :
    Reordered (stmt :: body) (stmt :: body')
  | swap (target first second : String) (kind : EdgeKind) (body : List Stmt) :
    Reordered (.accumulate target first kind :: .accumulate target second kind :: body)
      (.accumulate target second kind :: .accumulate target first kind :: body)
  | trans {body body' body'' : List Stmt} (h : Reordered body body')
    (h' : Reordered body' body'') : Reordered body body''

namespace Reordered

variable {body body' rest rest' : List Stmt}

theorem append_left (body : List Stmt) (h : Reordered rest rest') :
    Reordered (body ++ rest) (body ++ rest') := by
  induction body with
  | nil => exact h
  | cons stmt body ih => exact ih.cons stmt

theorem append_right (h : Reordered body body') (rest : List Stmt) :
    Reordered (body ++ rest) (body' ++ rest) := by
  induction h with
  | refl body => exact .refl _
  | cons stmt _ ih => exact ih.cons stmt
  | swap target first second kind body => exact .swap target first second kind (body ++ rest)
  | trans _ _ ih ih' => exact ih.trans ih'

theorem append (h : Reordered body body') (h' : Reordered rest rest') :
    Reordered (body ++ rest) (body' ++ rest') :=
  (h.append_right rest).trans (h'.append_left body')

theorem additions (target : String) (kind : EdgeKind) {operands operands' : List String}
    (h : operands.Perm operands') :
    Reordered (additions target kind operands) (additions target kind operands') := by
  induction h with
  | nil => exact .refl _
  | cons _ _ ih => exact ih.cons _
  | swap first second rest => exact .swap target second first kind _
  | trans _ _ ih ih' => exact ih.trans ih'

theorem flatMap {α : Type} {items : List α} {f g : α → List Stmt}
    (h : ∀ a ∈ items, Reordered (f a) (g a)) : Reordered (items.flatMap f) (items.flatMap g) := by
  induction items with
  | nil => exact .refl _
  | cons a rest ih =>
    have hrest := ih fun b hb => h b (List.mem_cons_of_mem _ hb)
    exact (h a List.mem_cons_self).append hrest

end Reordered

/-! ## Models -/

namespace Emission.Reorders

variable {order order' : Emission} {overlay : Propagation} {nameOf : String → String}

theorem inputsOf_eq (h : order.Reorders order') (id : String) :
    order.inputsOf id = order'.inputsOf id := by
  rw [inputsOf, inputsOf, h.inputs]

theorem names_eq (h : order.Reorders order') : order.names = order'.names := by
  rw [names, names, h.nodes]

theorem field_eq (h : order.Reorders order') (p : Placed) :
    (order.textWith overlay nameOf p).field = (order'.textWith overlay nameOf p).field := by
  rw [textWith, textWith, h.inputsOf_eq, h.root]

theorem statements (h : order.Reorders order') {p : Placed} (hp : p ∈ order.nodes) :
    Reordered (order.textWith overlay nameOf p).statements
      (order'.textWith overlay nameOf p).statements := by
  rw [textWith, textWith, h.inputsOf_eq, h.root]
  apply Reordered.cons
  apply Reordered.append
  · exact .additions _ _ ((h.addends p hp .residual).map _)
  · exact .additions _ _ ((h.addends p hp .sum).map _)

/-- With the same names the fields and blocks are the same, and the bodies up to the order of
additions. -/
theorem modelWith (h : order.Reorders order') (overlay : Propagation) (nameOf : String → String) :
    (order.modelWith overlay nameOf).fields = (order'.modelWith overlay nameOf).fields ∧
      (order.modelWith overlay nameOf).blocks = (order'.modelWith overlay nameOf).blocks ∧
      Reordered (order.modelWith overlay nameOf).forward
        (order'.modelWith overlay nameOf).forward := by
  refine ⟨?_, ?_, ?_⟩
  · simp only [Emission.modelWith, List.filterMap_map, ← h.nodes]
    exact List.filterMap_congr fun p _ => h.field_eq p
  · simp only [Emission.modelWith, h.nodes]
  · have hlast : order.last? = order'.last? := by rw [last?, last?, h.nodes]
    simp only [Emission.modelWith, List.flatMap_map, hlast, ← h.nodes]
    exact (Reordered.flatMap fun p hp => h.statements hp).append_right _

end Emission.Reorders

/-! ## Architectures -/

/-- A dataset of the architecture. -/
def Node.isDataset (n : Node) : Bool :=
  !n.isPipeline && n.operator.toOption.any Operator.isRoot

/-- A loss of the architecture. -/
def Node.isLoss (n : Node) : Bool :=
  !n.isPipeline && n.operator.toOption.any Operator.isLoss

namespace IsSound

variable {nodes nodes' : List Node} {edges : List Edge} {net : Network} {order : Emission}
  {overlay : Propagation}

theorem isDataset_eq (h : IsSound nodes edges net order overlay) {p : Placed}
    (hp : p ∈ net.nodes) : p.node.isDataset = p.operator.isRoot := by
  rw [Node.isDataset, h.isPipeline_eq_false hp, h.isOf.operator p hp]
  rfl

theorem isLoss_eq (h : IsSound nodes edges net order overlay) {p : Placed}
    (hp : p ∈ net.nodes) : p.node.isLoss = p.operator.isLoss := by
  rw [Node.isLoss, h.isPipeline_eq_false hp, h.isOf.operator p hp]
  rfl

theorem length_roots (h : IsSound nodes edges net order overlay) :
    net.roots.length = (nodes.filter Node.isDataset).length := by
  rw [← h.isOf.nodes_eq, List.filter_map, List.length_map, Network.roots]
  exact congrArg List.length (List.filter_congr fun p hp => (h.isDataset_eq hp).symm)

theorem length_losses (h : IsSound nodes edges net order overlay) :
    (net.nodes.filter (·.operator.isLoss)).length = (nodes.filter Node.isLoss).length := by
  rw [← h.isOf.nodes_eq, List.filter_map, List.length_map]
  exact congrArg List.length (List.filter_congr fun p hp => (h.isLoss_eq hp).symm)

theorem length_normal_le_one (h : IsSound nodes edges net order overlay)
    (hids : (edges.map Edge.id).Nodup) {n : Node} (hn : n ∈ nodes) {o : Operator}
    (ho : n.operator = .ok o) (hmerge : o.isMerge = false) :
    (edges.filter fun e => e.target = n.id ∧ e.kind = .normal).length ≤ 1 := by
  have hwired : Graph.IsWired ⟨nodes, edges⟩ := by
    apply IsSound.isWired_iff (g := ⟨nodes, edges⟩) h |>.2
    apply (List.pairwise_map.1 hids).imp
    intro d e hne heq
    exact absurd heq hne
  obtain ⟨p, hp, rfl⟩ := h.exists_placed hn
  obtain rfl := Except.ok.inj ((h.isOf.operator p hp).symm.trans ho)
  exact hwired.single p.id p (h.isOf.denotes_iff.2 (Network.find?_eq_some_iff.2 ⟨hp, rfl⟩))
    ⟨h.isPipeline_eq_false hp, hmerge⟩

/-- The nodes in another order give the same overlay. -/
theorem propagate_perm (h : IsSound nodes edges net order overlay) (hnodes : nodes.Perm nodes')
    (hids : (edges.map Edge.id).Nodup) : LayerGraph.propagate nodes' edges = .ok overlay := by
  have hpartial := propagate_eq_ok_iff.1 h.propagate
  obtain ⟨⟨overlay', faults⟩, hpartial'⟩ :=
    Network.exists_propagatePartial_of_perm hnodes (.refl edges) ⟨_, hpartial⟩
  obtain ⟨net', hnet', hall'⟩ := bind_eq_ok_iff.1 hpartial'
  rw [propagatePartial_eq h.ofGraph] at hpartial
  have hpermutes : net.Permutes net' := by
    apply Network.permutes_of_isOf hnodes (.refl edges) ?_ h.isOf (Network.isOf_of_ofGraph hnet')
    exact fun n hn _ o ho hmerge => h.length_normal_le_one hids hn ho hmerge
  have hsolved' := Network.isSolved_of_propagateAll hall'
  have hsized : ∀ id shape, overlay.shape? id = some shape → shape.IsSized :=
    fun id shape hshape => (h.isPropagation.isFormed h.hasParams hshape).sized
  have hshapes := hpermutes.shape?_eq h.isPropagation
    (Network.isPropagation_of_propagateAll hall') hsized
  have htypes := hpermutes.types_eq h.isSolved hsolved' hshapes
  have hlearned := hpermutes.learned_eq h.isSolved hsolved' hsized hshapes
  have hoverlay : overlay = overlay' := Propagation.eq_of_reads hpartial hall' hshapes
    (fun id => (htypes id).1) (fun id => (htypes id).2) hlearned
  have hfaults := hpermutes.perm_faults h.isSolved hsolved' hsized hshapes
  have hnone : faults = [] := List.map_eq_nil_iff.1 hfaults.nil_eq.symm
  rw [hoverlay, propagate_eq_ok_iff, hpartial', hnone]

/-- What is valid in one order of the nodes is valid in another. -/
theorem reorders (h : IsSound nodes edges net order overlay) (hnodes : nodes.Perm nodes')
    (hids : (edges.map Edge.id).Nodup) (hdataset : (nodes.filter Node.isDataset).length ≤ 1)
    (hloss : (nodes.filter Node.isLoss).length ≤ 1) :
    ∃ net' order', IsSound nodes' edges net' order' overlay ∧ order.Reorders order' := by
  have hproper : ∀ n ∈ nodes', n.IsProper .architecture := fun n hn =>
    h.proper n (hnodes.mem_iff.2 hn)
  have hnodup := h.isOf.nodup_ids
  obtain ⟨net', hnet'⟩ :=
    exists_ofGraph_of_proper ((hnodes.map Node.id).nodup_iff.1 hnodup) hproper edges
  have hisOf' := Network.isOf_of_ofGraph hnet'
  have hends := resolveEnds_perm hnodes hnodup
  have hdrawn : ∀ e ∈ edges, checkDrawn nodes' edges e = .ok () := fun e he => by
    rw [checkDrawn, ← hends]
    exact h.drawn e he
  have hreorders : net.Reorders net' := by
    refine ⟨?_, ?_⟩
    · apply (List.perm_ext_iff_of_nodup net.nodup_ids.of_map net'.nodup_ids.of_map).2
      intro p
      rw [h.isOf.mem_nodes, hisOf'.mem_nodes, hnodes.mem_iff]
    · rw [h.edges_eq]
      exact (hisOf'.edges_eq_of_resolveEnds fun e he =>
        (checkDrawn_eq_ok_iff.1 (hdrawn e he)).imp fun _ => And.left).symm
  obtain ⟨order', horder', hsame⟩ := hreorders.exists_emission h.emission
    (h.length_roots.trans_le hdataset) (h.length_losses.trans_le hloss)
  refine ⟨net', order', ⟨hproper, hnet', hdrawn, horder', fun p hp => ?_, fun e he => ?_,
    hsame.nodes ▸ h.nonempty, h.propagate_perm hnodes hids, fun e he => ?_⟩, hsame⟩
  · rw [operandReport, ← hsame.inputsOf_eq]
    exact h.operands p (hsame.nodes ▸ hp)
  · have hany : order.unreachable.any (·.id == e.source) =
        order'.unreachable.any (·.id == e.source) := hsame.unreachable.any_eq
    rw [outsideReport, ← hsame.nodes, ← hsame.root, ← hany]
    exact h.inside e he
  · rw [checkDrawnShapes, ← hends]
    exact h.shapes e he

end IsSound

/-! ## Projects -/

/-- The project with other nodes in its architecture. -/
def Project.withNodes (p : Project) (nodes : List Node) : Project :=
  p.withGraph .architecture { p.architecture with nodes }

theorem Project.isValid_withNodes (p : Project) {nodes : List Node}
    (hperm : p.architecture.nodes.Perm nodes)
    (hids : (p.architecture.edges.map Edge.id).Nodup)
    (hdataset : (p.architecture.nodes.filter Node.isDataset).length ≤ 1)
    (hloss : (p.architecture.nodes.filter Node.isLoss).length ≤ 1)
    (hvalid : p.report.isValid = true) : (p.withNodes nodes).report.isValid = true := by
  have hboth := (p.isValid_withGraph_iff p.architecture).1 hvalid
  obtain ⟨net, order, overlay, h⟩ := architectureReport_isValid_iff.1 hboth.1
  obtain ⟨net', order', h', -⟩ := h.reorders hperm hids hdataset hloss
  exact (p.isValid_withGraph_iff _).2
    ⟨architectureReport_isValid_iff.2 ⟨net', order', overlay, h'⟩, hboth.2⟩

/-- The nodes of an architecture with one dataset, at most one loss and distinct edge ids may be
listed in any order. The project is valid in all of them or in none, and if it is, the same nodes are
emitted in the same order with the same operands and the same loss. Fields and blocks of the model are
the same, and so is the forward method but for the order in which edges of one kind add to one node.

Without a dataset a project is not valid in any order, so that case need not be left out. -/
theorem nodes_reordered (p : Project) (nodes : List Node)
    (hperm : p.architecture.nodes.Perm nodes)
    (hdataset : (p.architecture.nodes.filter Node.isDataset).length ≤ 1)
    (hloss : (p.architecture.nodes.filter Node.isLoss).length ≤ 1)
    (hids : (p.architecture.edges.map Edge.id).Nodup) :
    (p.report.isValid = true ↔ (p.withNodes nodes).report.isValid = true) ∧
      (p.report.isValid = true → ∃ net net' order order' overlay model model',
        Network.ofGraph p.architecture.nodes p.architecture.edges = .ok net ∧
        Network.ofGraph nodes p.architecture.edges = .ok net' ∧
        net.emission = .ok order ∧ net'.emission = .ok order' ∧
        propagate p.architecture.nodes p.architecture.edges = .ok overlay ∧
        propagate nodes p.architecture.edges = .ok overlay ∧
        order.model overlay = .ok model ∧ order'.model overlay = .ok model' ∧
        order.root = order'.root ∧ order.nodes = order'.nodes ∧ order.inputs = order'.inputs ∧
        order.loss = order'.loss ∧ model.fields = model'.fields ∧ model.blocks = model'.blocks ∧
        Reordered model.forward model'.forward) := by
  refine ⟨⟨p.isValid_withNodes hperm hids hdataset hloss, fun hvalid => ?_⟩, fun hvalid => ?_⟩
  · have hback := (p.withNodes nodes).isValid_withNodes hperm.symm hids
      ((hperm.filter _).length_eq ▸ hdataset) ((hperm.filter _).length_eq ▸ hloss) hvalid
    exact hback
  · have hboth := (p.isValid_withGraph_iff p.architecture).1 hvalid
    obtain ⟨net, order, overlay, h⟩ := architectureReport_isValid_iff.1 hboth.1
    obtain ⟨net', order', h', hsame⟩ := h.reorders hperm hids hdataset hloss
    obtain ⟨hfields, hblocks, hforward⟩ := hsame.modelWith overlay order.names.nameOf
    refine ⟨net, net', order, order', overlay, _, _, h.ofGraph, h'.ofGraph, h.emission,
      h'.emission, h.propagate, h'.propagate, h.model_eq, h'.model_eq, hsame.root, hsame.nodes,
      hsame.inputs, hsame.loss, ?_⟩
    rw [← hsame.names_eq]
    exact ⟨hfields, hblocks, hforward⟩

/-- Two residual edges into one layer. -/
def Project.twoResiduals : Project where
  architecture :=
    { nodes :=
        [{ id := "data", operatorId := "dataset" },
         { id := "left", operatorId := "relu" },
         { id := "right", operatorId := "relu" },
         { id := "last", operatorId := "relu" }]
      edges :=
        [{ id := "1", source := "data", target := "left" },
         { id := "2", source := "data", target := "right" },
         { id := "3", source := "left", target := "last" },
         { id := "4", source := "data", target := "last", kind := .residual },
         { id := "5", source := "right", target := "last", kind := .residual }] }

/-- In the reverse order of the nodes the two additions change places, and nothing else does. -/
theorem nodes_reordered_twoResiduals :
    Project.twoResiduals.architecture.brings? "last_out" = .ok ["left_out", "x", "right_out"] ∧
      (Project.twoResiduals.withNodes
        Project.twoResiduals.architecture.nodes.reverse).architecture.brings? "last_out" =
          .ok ["left_out", "right_out", "x"] ∧
      (Project.twoResiduals.withNodes
        Project.twoResiduals.architecture.nodes.reverse).report.isValid = true ∧
      ∃ (order order' : Emission) (overlay : Propagation) (model model' : Model),
        order.model overlay = .ok model ∧ order'.model overlay = .ok model' ∧
        order.nodes = order'.nodes ∧ model.fields = model'.fields ∧
        Reordered model.forward model'.forward := by
  have hvalid : Project.twoResiduals.report.isValid = true := by decide +kernel
  obtain ⟨hsame, hmodels⟩ := nodes_reordered Project.twoResiduals
    Project.twoResiduals.architecture.nodes.reverse (List.reverse_perm _).symm (by decide +kernel)
    (by decide +kernel) (by decide +kernel)
  obtain ⟨-, -, order, order', overlay, model, model', -, -, -, -, -, -, hmodel, hmodel', -, hnodes,
    -, -, hfields, -, hforward⟩ := hmodels hvalid
  exact ⟨by decide +kernel, by decide +kernel, hsame.1 hvalid, order, order', overlay, model, model',
    hmodel, hmodel', hnodes, hfields, hforward⟩

end LayerGraph
