import LayerGraph.Proofs.EdgeRules
import LayerGraph.Proofs.Findings
/-!
# Graphs without faults

What the tests of `IsSound` mean for the parts of an architecture:

* every edge is an edge of the network, and its ends satisfy the rules (`IsSound.exists_ends`);
* an edge into an emitted node comes from the root or from an emitted node
  (`IsSound.source_emitted`), never from a criterion or into a dataset;
* an emitted node has the operands that it needs (`IsSound.operands_of_isMerge`,
  `IsSound.operands_of_not_isMerge`).

`IsSoundPipeline pipeline net` lists the tests that a pipeline passes, together with its network.
-/

namespace LayerGraph
set_option autoImplicit false
open Relation

variable {nodes : List Node} {edges : List Edge} {net : Network}

/-! ## The tests of one edge -/

theorem checkDrawn_eq_ok_iff {e : Edge} :
    checkDrawn nodes edges e = .ok () ↔
      ∃ ends, resolveEnds e nodes = .ok ends ∧
        checkConnection e ends (otherEdges e edges) = .ok () := by
  rw [checkDrawn, bind_eq_ok_iff]

theorem checkDrawnShapes_eq_ok_iff {e : Edge} {overlay : Propagation} :
    checkDrawnShapes nodes edges overlay e = .ok () ↔
      ∃ ends, resolveEnds e nodes = .ok ends ∧
        checkShapes e ends (otherEdges e edges) overlay = .ok () := by
  rw [checkDrawnShapes, bind_eq_ok_iff]

theorem propagate_eq_ok_iff {overlay : Propagation} :
    propagate nodes edges = .ok overlay ↔ propagatePartial nodes edges = .ok (overlay, []) := by
  rw [propagate, bind_eq_ok_iff]
  constructor
  · rintro ⟨⟨found, faults⟩, hfound, h⟩
    cases faults with
    | nil => exact Except.ok.inj h ▸ hfound
    | cons fault rest => cases h
  · exact fun h => ⟨_, h, rfl⟩

theorem propagatePartial_eq (hnet : Network.ofGraph nodes edges = .ok net) :
    propagatePartial nodes edges = net.propagateAll := by
  rw [propagatePartial, hnet]
  rfl

namespace IsSound

variable {order : Emission} {overlay : Propagation}

theorem isOf (h : IsSound nodes edges net order overlay) : net.IsOf nodes edges :=
  Network.isOf_of_ofGraph h.ofGraph

theorem isEmission (h : IsSound nodes edges net order overlay) : net.IsEmission order :=
  Network.isEmission_of_emission h.emission

theorem isPropagation (h : IsSound nodes edges net order overlay) :
    net.IsPropagation overlay [] := by
  have hpropagate := propagate_eq_ok_iff.1 h.propagate
  rw [propagatePartial_eq h.ofGraph] at hpropagate
  exact Network.isPropagation_of_propagateAll hpropagate

theorem isPipeline_eq_false (h : IsSound nodes edges net order overlay) {p : Placed}
    (hp : p ∈ net.nodes) : p.node.isPipeline = false := h.isOf.isPipeline_eq_false h.proper hp

theorem mem_all (h : IsSound nodes edges net order overlay) {p : Placed} (hp : p ∈ net.nodes) :
    p.operator ∈ Operator.Architecture.all := h.isOf.mem_operators h.proper hp

theorem problems_eq_nil (h : IsSound nodes edges net order overlay) {p : Placed}
    (hp : p ∈ net.nodes) : p.operator.problems p.node.params = [] :=
  h.isOf.problems_eq_nil h.proper hp

/-! ## Edges -/

/-- The ends of an edge satisfy the rules, without shapes and with them. -/
theorem exists_ends (h : IsSound nodes edges net order overlay) {e : Edge} (he : e ∈ edges) :
    ∃ ends : Ends, net.find? e.source = some ends.source ∧ net.find? e.target = some ends.target ∧
      e.source ≠ e.target ∧
      (∀ d ∈ otherEdges e edges, d.source = e.source → d.target ≠ e.target) ∧
      checkArchitecture e ends (otherEdges e edges) = .ok () ∧
      checkShapes e ends (otherEdges e edges) overlay = .ok () := by
  obtain ⟨ends, hends, hconnection⟩ := checkDrawn_eq_ok_iff.1 (h.drawn e he)
  obtain ⟨ends', hends', hshapes⟩ := checkDrawnShapes_eq_ok_iff.1 (h.shapes e he)
  obtain rfl := Except.ok.inj (hends'.symm.trans hends)
  obtain ⟨hsource, htarget, -, hne⟩ := h.isOf.resolveEnds_iff.1 hends
  have hgraph : ends'.source.node.isPipeline = false :=
    h.isPipeline_eq_false (Network.find?_eq_some_iff.1 hsource).1
  rw [checkConnection_eq_ok_iff, hgraph, if_neg Bool.false_ne_true] at hconnection
  exact ⟨ends', hsource, htarget, hne, hconnection.1, hconnection.2, hshapes⟩

theorem edges_eq (h : IsSound nodes edges net order overlay) : net.edges = edges :=
  h.isOf.edges_eq_of_resolveEnds fun e he =>
    (checkDrawn_eq_ok_iff.1 (h.drawn e he)).imp fun _ => And.left

theorem acyclic (h : IsSound nodes edges net order overlay) : Acyclic edges :=
  h.edges_eq ▸ h.isEmission.acyclic

theorem isRoot_target (h : IsSound nodes edges net order overlay) {e : Edge} (he : e ∈ edges)
    {p : Placed} (hp : net.find? e.target = some p) : p.operator.isRoot = false := by
  obtain ⟨ends, -, htarget, -, -, hrules, -⟩ := h.exists_ends he
  obtain rfl := Option.some.inj (htarget.symm.trans hp)
  exact (checkArchitecture_eq_ok_iff.1 hrules).1

theorem isLoss_source (h : IsSound nodes edges net order overlay) {e : Edge} (he : e ∈ edges)
    {p : Placed} (hp : net.find? e.source = some p) : p.operator.isLoss = false := by
  obtain ⟨ends, hsource, htarget, -, -, hrules, -⟩ := h.exists_ends he
  obtain rfl := Option.some.inj (hsource.symm.trans hp)
  obtain ⟨-, -, haccepts, -⟩ := checkArchitecture_eq_ok_iff.1 hrules
  refine Bool.eq_false_iff.2 fun hloss => ?_
  have hproducer := h.mem_all (Network.find?_eq_some_iff.1 hsource).1
  have hconsumer := h.mem_all (Network.find?_eq_some_iff.1 htarget).1
  rw [(Operator.rule_of_isLoss hproducer hloss).2, Operator.not_accepts_loss hconsumer] at haccepts
  cases haccepts

/-- An edge into an emitted node comes from the root or from an emitted node. -/
theorem source_emitted (h : IsSound nodes edges net order overlay) {e : Edge} (he : e ∈ edges)
    {p : Placed} (hp : p ∈ order.nodes) (htarget : e.target = p.id) :
    order.Emits e.source := by
  obtain ⟨ends, hsource, -⟩ := h.exists_ends he
  obtain ⟨hnode, hid⟩ := Network.find?_eq_some_iff.1 hsource
  have hreached : ReflTransGen (Feeds net.edges) order.root.id e.source := by
    refine Classical.byContradiction fun hnot => ?_
    have houtside : ends.source ∈ order.unreachable :=
      (h.isEmission.mem_unreachable _).2 ⟨hnode, hid ▸ hnot⟩
    have hinside := h.inside e he
    rw [outsideReport, if_pos] at hinside
    · cases hinside
    · exact ⟨List.any_eq_true.2 ⟨p, hp, by simp [htarget]⟩,
        List.any_eq_true.2 ⟨ends.source, houtside, by simp [hid]⟩⟩
  by_cases hroot : e.source = order.root.id
  · exact .inl hroot
  · exact .inr ⟨ends.source, (h.isEmission.mem_nodes _).2
      ⟨hnode, hid ▸ hreached, hid ▸ hroot, h.isLoss_source he hsource⟩, hid⟩

/-! ## Nodes -/

theorem isRoot_emitted (h : IsSound nodes edges net order overlay) {p : Placed}
    (hp : p ∈ order.nodes) : p.operator.isRoot = false := by
  obtain ⟨hnode, hreached, hne, -⟩ := (h.isEmission.mem_nodes p).1 hp
  rcases ReflTransGen.cases_tail hreached with heq | ⟨s, -, e, he, -, htarget⟩
  · exact absurd heq hne
  · rw [h.edges_eq] at he
    exact h.isRoot_target he (Network.find?_eq_some_iff.2 ⟨hnode, htarget.symm⟩)

theorem rule_ne_dataset (h : IsSound nodes edges net order overlay) {p : Placed}
    (hp : p ∈ order.nodes) : p.operator.rule ≠ .dataset := fun hrule => by
  have hroot := (Operator.isRoot_iff (h.mem_all (h.isEmission.mem_net hp))).2 hrule
  rw [h.isRoot_emitted hp] at hroot
  cases hroot

theorem rule_ne_scalar (h : IsSound nodes edges net order overlay) {p : Placed}
    (hp : p ∈ order.nodes) : p.operator.rule ≠ .scalar := fun hrule => by
  have hloss := Operator.isLoss_of_rule (h.mem_all (h.isEmission.mem_net hp)) hrule
  rw [((h.isEmission.mem_nodes p).1 hp).2.2.2] at hloss
  cases hloss

theorem operands_of_isMerge (h : IsSound nodes edges net order overlay) {p : Placed}
    (hp : p ∈ order.nodes) (hmerge : p.operator.isMerge = true) :
    2 ≤ (net.operands p.id).length := by
  have hoperands := h.operands p hp
  rw [operandReport, h.isEmission.inputsOf p hp, if_pos hmerge] at hoperands
  refine Nat.le_of_not_lt fun hlt => ?_
  rw [if_pos hlt] at hoperands
  cases hoperands

theorem operands_of_not_isMerge (h : IsSound nodes edges net order overlay) {p : Placed}
    (hp : p ∈ order.nodes) (hmerge : p.operator.isMerge = false) :
    ∃ e ∈ edges, e.target = p.id ∧ e.kind = .normal ∧ net.operands p.id = [e.source] := by
  have hoperands := h.operands p hp
  rw [operandReport, h.isEmission.inputsOf p hp, hmerge, if_neg Bool.false_ne_true] at hoperands
  have hne : net.operands p.id ≠ [] := fun heq => by
    rw [if_pos (List.length_eq_zero_iff.2 heq)] at hoperands
    cases hoperands
  rw [← h.edges_eq]
  exact Network.exists_edge_of_operands_ne_nil (h.isEmission.mem_net hp) hmerge hne

theorem operand_emitted (h : IsSound nodes edges net order overlay) {p : Placed}
    (hp : p ∈ order.nodes) {s : String} (hs : s ∈ net.operands p.id) :
    order.Emits s := by
  obtain ⟨e, he, rfl, htarget⟩ := Network.feeds_of_mem_operands hs
  exact h.source_emitted (h.edges_eq ▸ he) hp htarget

end IsSound
/-! ## Pipelines -/

/-- The tests that a pipeline passes. -/
structure IsSoundPipeline (pipeline : Graph) (net : Network) : Prop where
  proper : ∀ n ∈ pipeline.nodes, n.IsProper .pipeline
  drawn : ∀ e ∈ pipeline.edges, checkDrawn pipeline.nodes pipeline.edges e = .ok ()
  ofGraph : Network.ofGraph pipeline.nodes pipeline.edges = .ok net
  acyclic : Acyclic net.edges

theorem exists_isSoundPipeline {p : Project} (h : (p.graphReport .pipeline).faults = []) :
    ∃ net, IsSoundPipeline p.pipeline net := by
  obtain ⟨hproper, hdrawn, net, hnet, hacyclic⟩ :=
    pipelineReport_isValid_iff.1 (faults_pipelineReport_eq_nil h)
  exact ⟨net, hproper, hdrawn, hnet, hacyclic⟩

namespace IsSoundPipeline

variable {pipeline : Graph}

theorem faults_eq_nil (h : IsSoundPipeline pipeline net) :
    (pipelineReport pipeline.nodes pipeline.edges).faults = [] :=
  pipelineReport_isValid_iff.2 ⟨h.proper, h.drawn, net, h.ofGraph, h.acyclic⟩

theorem isOf (h : IsSoundPipeline pipeline net) : net.IsOf pipeline.nodes pipeline.edges :=
  Network.isOf_of_ofGraph h.ofGraph

theorem mem_all (h : IsSoundPipeline pipeline net) {p : Placed} (hp : p ∈ net.nodes) :
    p.operator ∈ Operator.Pipeline.all := h.isOf.mem_operators h.proper hp

theorem problems_eq_nil (h : IsSoundPipeline pipeline net) {p : Placed} (hp : p ∈ net.nodes) :
    p.operator.problems p.node.params = [] := h.isOf.problems_eq_nil h.proper hp

theorem exists_ends (h : IsSoundPipeline pipeline net) {e : Edge} (he : e ∈ pipeline.edges) :
    ∃ ends, resolveEnds e pipeline.nodes = .ok ends :=
  (checkDrawn_eq_ok_iff.1 (h.drawn e he)).imp fun _ => And.left

theorem edges_eq (h : IsSoundPipeline pipeline net) : net.edges = pipeline.edges :=
  h.isOf.edges_eq_of_resolveEnds fun _ => h.exists_ends

/-- A pipeline with edges has nodes. -/
theorem nodes_ne_nil (h : IsSoundPipeline pipeline net)
    (hdrawn : pipeline.nodes ≠ [] ∨ pipeline.edges ≠ []) : pipeline.nodes ≠ [] := by
  refine hdrawn.elim id fun hedges hnodes => ?_
  obtain ⟨e, he⟩ := List.exists_mem_of_ne_nil _ hedges
  obtain ⟨ends, hends⟩ := h.exists_ends he
  have hsource := (resolveEnds_eq_ok_iff.1 hends).1.1
  rw [hnodes] at hsource
  cases hsource

end IsSoundPipeline

end LayerGraph
