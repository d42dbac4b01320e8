import LayerGraph.Proofs.Gate
import LayerGraph.Proofs.ShapeRules
/-!
# Shapes of emitted nodes

* `IsSound.exists_result`: every emitted node has inputs with shapes, and the shape that its rule
  makes of them. This is shown along the edges, since what a node reads is the root or emitted.
* `IsSound.shape_of_addend`: what is added to an output has its shape.
-/

namespace LayerGraph
set_option autoImplicit false
open Relation

/-! ## Shapes of nodes -/

theorem exists_mapM_shape? {overlay : Propagation} {ids : List String}
    (h : ∀ id ∈ ids, ∃ shape, overlay.shape? id = some shape) :
    ∃ shapes, ids.mapM overlay.shape? = some shapes := by
  induction ids with
  | nil => exact ⟨[], rfl⟩
  | cons id rest ih =>
    obtain ⟨shape, hshape⟩ := h id List.mem_cons_self
    obtain ⟨shapes, hshapes⟩ := ih fun other hother => h other (List.mem_cons_of_mem _ hother)
    exact ⟨shape :: shapes, by rw [List.mapM_cons, hshape, hshapes]; rfl⟩

namespace IsSound

variable {nodes : List Node} {edges : List Edge} {net : Network} {order : Emission}
  {overlay : Propagation}

/-- What the propagation has for a node: inputs, and what the rule makes of them. -/
structure HasResult (net : Network) (overlay : Propagation) (p : Placed) (inputs : List Shape)
    (result : RuleResult) : Prop where
  read : (net.operands p.id).mapM overlay.shape? = some inputs
  apply : p.operator.rule.apply (p.operator.resolve p.node.params) inputs = .ok result
  shape : overlay.shape? p.id = some result.shape
  learned : overlay.learned.get? p.id = Propagation.learnedOf result

theorem result_of_outcome (h : IsSound nodes edges net order overlay) {p : Placed}
    (hp : p ∈ net.nodes) {outcome : Except Fault RuleResult}
    (houtcome : overlay.outcome? net p = some outcome) :
    ∃ result, outcome = .ok result ∧ overlay.shape? p.id = some result.shape ∧
      overlay.learned.get? p.id = Propagation.learnedOf result := by
  have hgraph := h.isPipeline_eq_false hp
  cases outcome with
  | error fault =>
    exact absurd ((h.isPropagation.faults fault).2 ⟨p, hp, hgraph, houtcome⟩) List.not_mem_nil
  | ok result =>
    exact ⟨result, rfl,
      (Propagation.holds_of_ok houtcome).1 (h.isPropagation.holds p hp hgraph)⟩

theorem exists_shape_root (h : IsSound nodes edges net order overlay) :
    ∃ shape, overlay.shape? order.root.id = some shape ∧ shape.IsBatched := by
  have hroot := h.isEmission.root_mem
  have hrule := (Operator.isRoot_iff (h.mem_all hroot)).1 h.isEmission.isRoot_root
  obtain ⟨result, hresult, hshape, -⟩ :=
    h.result_of_outcome hroot (Propagation.outcome?_of_dataset hrule)
  exact ⟨result.shape, hshape, Rule.isBatched_datasetShape (mapError_eq_ok_iff.1 hresult)⟩

theorem exists_result_of_operands (h : IsSound nodes edges net order overlay) {p : Placed}
    (hp : p ∈ order.nodes)
    (hoperands : ∀ s ∈ net.operands p.id, ∃ shape, overlay.shape? s = some shape ∧ shape.IsBatched) :
    ∃ inputs result, HasResult net overlay p inputs result ∧ (∀ s ∈ inputs, s.IsBatched) ∧
      result.shape.IsBatched := by
  have hnode := h.isEmission.mem_net hp
  obtain ⟨inputs, hinputs⟩ := exists_mapM_shape? fun s hs => (hoperands s hs).imp fun _ => And.left
  have hbatched : ∀ s ∈ inputs, s.IsBatched := fun s hs => by
    obtain ⟨id, hid, hshape⟩ := mem_of_mapM_eq_some hinputs hs
    obtain ⟨shape, hshape', hshaped⟩ := hoperands id hid
    exact Option.some.inj (hshape'.symm.trans hshape) ▸ hshaped
  have hread : overlay.inputs? net p = some inputs := by
    refine Propagation.inputs?_eq_some_iff.2 ⟨fun hempty => ?_, h.operands_of_isMerge hp, hinputs⟩
    cases hmerge : p.operator.isMerge with
    | true =>
      have htwo := h.operands_of_isMerge hp hmerge
      simp [hempty] at htwo
    | false =>
      obtain ⟨e, -, -, -, hone⟩ := h.operands_of_not_isMerge hp hmerge
      simp [hempty] at hone
  obtain ⟨result, hresult, hshape, hlearned⟩ := h.result_of_outcome hnode
    ((Propagation.outcome?_of_not_dataset (h.rule_ne_dataset hp)).2 ⟨inputs, hread, rfl⟩)
  have happly := mapError_eq_ok_iff.1 hresult
  refine ⟨inputs, result, ⟨hinputs, happly, hshape, hlearned⟩, hbatched,
    Rule.isBatched_of_apply happly (h.rule_ne_scalar hp) (fun hrule => ?_) hbatched⟩
  exact Operator.exists_startDim (h.mem_all hnode) hrule (h.problems_eq_nil hnode)

theorem exists_shape (h : IsSound nodes edges net order overlay) {id : String}
    (hid : order.Emits id) :
    ∃ shape, overlay.shape? id = some shape ∧ shape.IsBatched := by
  -- Induction along the edges: the operands of a node lie before it.
  revert hid
  refine h.acyclic.wellFounded.induction (C := fun id =>
    order.Emits id →
      ∃ shape, overlay.shape? id = some shape ∧ shape.IsBatched) id fun id ih hid => ?_
  rcases hid with rfl | ⟨p, hp, rfl⟩
  · exact h.exists_shape_root
  · obtain ⟨inputs, result, hresult, -, hbatched⟩ := h.exists_result_of_operands hp fun s hs =>
      ih s (h.edges_eq ▸ Network.feeds_of_mem_operands hs) (h.operand_emitted hp hs)
    exact ⟨result.shape, hresult.shape, hbatched⟩

/-- Every emitted node has the shape that its rule makes of the shapes of its operands. -/
theorem exists_result (h : IsSound nodes edges net order overlay) {p : Placed}
    (hp : p ∈ order.nodes) :
    ∃ inputs result, HasResult net overlay p inputs result ∧ (∀ s ∈ inputs, s.IsBatched) ∧
      result.shape.IsBatched :=
  h.exists_result_of_operands hp fun _ hs => h.exists_shape (h.operand_emitted hp hs)

/-! ## Additions -/

theorem shape_of_addend (h : IsSound nodes edges net order overlay) {p : Placed}
    (hp : p ∈ order.nodes) (hmerge : p.operator.isMerge = false) {e : Edge} (he : e ∈ edges)
    (htarget : e.target = p.id) (hkind : e.kind ≠ .normal) :
    overlay.shape? e.source = overlay.shape? p.id := by
  obtain ⟨ends, hsource, hfound, -, -, -, hcheck⟩ := h.exists_ends he
  rw [htarget, Network.find?_eq_some_iff.2 ⟨h.isEmission.mem_net hp, rfl⟩] at hfound
  obtain rfl := Option.some.inj hfound
  have hsourceid := (Network.find?_eq_some_iff.1 hsource).2
  obtain ⟨produced, hproduced, -⟩ := h.exists_shape (h.source_emitted he hp htarget)
  obtain ⟨output, houtput, -⟩ := h.exists_shape (Emission.emits_of_mem hp)
  have hequal := (checkShapes_addend_iff hkind hmerge).1 hcheck produced output
    (hsourceid ▸ hproduced) houtput
  rw [hproduced, houtput, hequal]

end IsSound
end LayerGraph
