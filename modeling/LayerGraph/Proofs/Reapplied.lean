import LayerGraph.Proofs.WriteBack
/-!
# Propagating over written nodes

An overlay that is written into the nodes it was propagated from is the overlay of the written
nodes, and writing it again changes nothing.

* `Network.IsSolved.learned_cases`: what an overlay has for the parameters of a node is nothing, or
  the one size that the rule of the node learns.
* `Network.IsSolved.agrees_applyTo`: so no parameter changes that some rule reads.
* `Node.IsWritten` says what becomes of a node: derived fields are replaced, whatever they were, and
  of the parameters at most the learned one.
* `propagatePartial_written` says so for all graphs that have an overlay, with or without faults.
-/

namespace LayerGraph
set_option autoImplicit false

/-! ## Written nodes -/

namespace Propagation

variable {overlay : Propagation} {n : Node}

theorem applyTo_params (h : overlay.learned.get? n.id = none) :
    (overlay.applyTo n).params = n.params := by
  apply Table.ext_get?
  intro key
  rw [Node.get?_applyTo, h]
  rfl

theorem get?_applyTo_of_learned {name : String} {size : Int}
    (hlearned : overlay.learned.get? n.id = some (Table.ofList [(name, .int size)]))
    (key : String) : (overlay.applyTo n).params.get? key =
      if key = name then some (.int size) else n.params.get? key := by
  rw [Node.get?_applyTo, hlearned, Option.bind_some, get?_single]
  split <;> rfl

theorem applyTo_applyTo (overlay : Propagation) (n : Node) :
    overlay.applyTo (overlay.applyTo n) = overlay.applyTo n := by
  have hparams : (overlay.applyTo (overlay.applyTo n)).params = (overlay.applyTo n).params := by
    apply Table.ext_get?
    intro key
    have hid : (overlay.applyTo n).id = n.id := rfl
    rw [Node.get?_applyTo, Node.get?_applyTo, hid]
    cases (overlay.learned.get? n.id).bind (·.get? key) <;> rfl
  exact congrArg (fun params => { overlay.applyTo n with params := params }) hparams

theorem apply_apply (overlay : Propagation) (nodes : List Node) :
    overlay.apply (overlay.apply nodes) = overlay.apply nodes := by
  rw [apply, apply, List.map_map]
  apply List.map_congr_left
  intro n _
  exact overlay.applyTo_applyTo n

end Propagation

/-! ## What an overlay has for a node -/

namespace Network

variable {net : Network} {overlay : Propagation} {faults : List Fault} {p : Placed}

/-- What is learned for a node is one size, and the node has a shape. -/
theorem IsSolved.learned_cases (h : net.IsSolved overlay faults) (hp : p ∈ net.nodes) :
    overlay.learned.get? p.id = none ∨ ∃ name size, p.operator.rule.learnedName? = some name ∧
      overlay.learned.get? p.id = some (Table.ofList [(name, .int size)]) ∧
      overlay.shape? p.id ≠ none := by
  cases hlearned : overlay.learned.get? p.id with
  | none => exact .inl rfl
  | some params =>
    obtain ⟨q, hq, hid, hgraph, result, hgives, hresult⟩ := (h.learned p.id params).1 hlearned
    obtain rfl := List.inj_on_of_nodup_map net.nodup_ids hq hp hid
    obtain ⟨inputs, happly⟩ := hgives.exists_apply
    obtain ⟨-, name, size, -, hname, -, rfl⟩ := Propagation.size_of_learnedOf happly hresult
    have hshape := (h.solves q.id result.shape).2 ⟨q, hq, rfl, hgraph, result, hgives, rfl⟩
    exact .inr ⟨name, size, hname, rfl, by simp [hshape]⟩

theorem IsSolved.agrees_applyTo (h : net.IsSolved overlay faults) (hp : p ∈ net.nodes) :
    (overlay.applyTo p.node).params.Agrees p.node.params := by
  intro key hkey
  obtain hnone | ⟨name, size, hname, hlearned, -⟩ := h.learned_cases hp
  · rw [Propagation.applyTo_params hnone]
  · have hne : key ≠ name := fun heq => hkey (heq ▸ Rule.learnedName?_mem hname)
    rw [Propagation.get?_applyTo_of_learned hlearned, if_neg hne]

end Network

/-! ## Writing an overlay -/

/-- What writing an overlay makes of a node. -/
structure Node.IsWritten (overlay : Propagation) (before after : Node) : Prop where
  id : after.id = before.id
  operatorId : after.operatorId = before.operatorId
  label : after.label = before.label
  isPipeline : after.isPipeline = before.isPipeline
  position : after.position = before.position
  outputShape : after.outputShape = overlay.shape? before.id
  outputType : after.outputType = overlay.types.get? before.id
  outputTypes : after.outputTypes = overlay.typesOf before.id
  /-- A node without a shape keeps nothing of what its derived fields were; in a pipeline it has its
  types. -/
  cleared : overlay.shape? before.id = none →
    after.outputShape = none ∧ after.params = before.params ∧
      (before.isPipeline = false → after.outputType = none ∧ after.outputTypes = [])
  /-- At most one parameter is set: the size that the rule of a node with a shape learns. -/
  params : after.params = before.params ∨ ∃ operator name size,
    before.operator = .ok operator ∧ operator.rule.learnedName? = some name ∧
      overlay.shape? before.id ≠ none ∧ after.params = before.params.insert name (.int size)

theorem Network.IsSolved.isWritten {net : Network} {overlay : Propagation} {faults : List Fault}
    {nodes : List Node} {edges : List Edge} (h : net.IsSolved overlay faults)
    (hnet : net.IsOf nodes edges) {n : Node} (hn : n ∈ nodes) :
    n.IsWritten overlay (overlay.applyTo n) := by
  obtain ⟨p, hp, rfl⟩ := List.mem_map.1 (hnet.nodes_eq.symm ▸ hn)
  refine ⟨rfl, rfl, rfl, rfl, rfl, rfl, rfl, rfl, fun hshape => ⟨hshape, ?_, fun hgraph => ?_⟩, ?_⟩
  · obtain hnone | ⟨-, -, -, -, hshaped⟩ := h.learned_cases hp
    · exact Propagation.applyTo_params hnone
    · exact absurd hshape hshaped
  · apply h.untyped p.id
    intro q hq hid
    obtain rfl := List.inj_on_of_nodup_map net.nodup_ids hq hp hid
    exact ⟨hgraph, hshape⟩
  · obtain hnone | ⟨name, size, hname, hlearned, hshaped⟩ := h.learned_cases hp
    · exact .inl (Propagation.applyTo_params hnone)
    · refine .inr ⟨p.operator, name, size, hnet.operator p hp, hname, hshaped, ?_⟩
      apply Table.ext_get?
      intro key
      rw [Propagation.get?_applyTo_of_learned hlearned, Table.get?_insert]

/-- Propagation is a fixpoint of its own write-back: the written nodes have the same overlay and the
same faults, the overlay is written once for all, and all that it changes are derived fields and
learned parameters. -/
theorem propagatePartial_written (nodes : List Node) (edges : List Edge) (overlay : Propagation)
    (faults : List Fault) (h : propagatePartial nodes edges = .ok (overlay, faults)) :
    propagatePartial (overlay.apply nodes) edges = .ok (overlay, faults) ∧
      overlay.apply (overlay.apply nodes) = overlay.apply nodes ∧
      List.Forall₂ (Node.IsWritten overlay) nodes (overlay.apply nodes) := by
  obtain ⟨net, hnet, hall⟩ := bind_eq_ok_iff.1 h
  have hisOf := Network.isOf_of_ofGraph hnet
  have hsolved := Network.isSolved_of_propagateAll hall
  have hagrees : ∀ n ∈ nodes, (overlay.applyTo n).params.Agrees n.params := by
    intro n hn
    obtain ⟨p, hp, rfl⟩ := List.mem_map.1 (hisOf.nodes_eq.symm ▸ hn)
    exact hsolved.agrees_applyTo hp
  have hsame := propagatePartial_map (Node.keeps_applyTo overlay) hnet hagrees
  refine ⟨hsame.trans h, overlay.apply_apply nodes, ?_⟩
  rw [Propagation.apply, List.forall₂_map_right_iff, List.forall₂_same]
  intro n hn
  exact hsolved.isWritten hisOf hn

/-- Nodes as an editor may have left them: with derived fields of an earlier drawing, a size that no
longer holds, a window that is too wide, and a node of the pipeline. -/
def Graph.stale : Graph where
  nodes :=
    [{ id := "data", operatorId := "dataset" },
     { id := "flat", operatorId := "flatten", outputShape := some ⟨[.batch, .fixed 3]⟩ },
     { id := "head", operatorId := "linear", params := .ofList [("in_features", .int 3)] },
     { id := "pool", operatorId := "maxpool2d", params := .ofList [("kernel_size", .int 64)],
       outputShape := some ⟨[.batch, .fixed 3]⟩, outputType := some .tensor },
     { id := "adam", operatorId := "adam", isPipeline := true,
       outputShape := some ⟨[.batch, .fixed 3]⟩ }]
  edges :=
    [{ id := "1", source := "data", target := "flat" },
     { id := "2", source := "flat", target := "head" },
     { id := "3", source := "data", target := "pool" }]

theorem propagatePartial_written_stale :
    ∃ overlay faults,
      propagatePartial Graph.stale.nodes Graph.stale.edges = .ok (overlay, faults) ∧
      propagatePartial (overlay.apply Graph.stale.nodes) Graph.stale.edges =
        .ok (overlay, faults) ∧
      faults.length = 1 ∧
      (overlay.apply Graph.stale.nodes).map (fun n => (n.outputShape, n.params.int? "in_features")) =
        [(some ⟨[.batch, .fixed 1, .fixed 28, .fixed 28]⟩, none),
         (some ⟨[.batch, .fixed 784]⟩, none), (some ⟨[.batch, .fixed 10]⟩, some 784),
         (none, none), (none, none)] := by
  have hvalue : (propagatePartial Graph.stale.nodes Graph.stale.edges).toOption.any
      (fun found => decide (found.2.length = 1 ∧
        (found.1.apply Graph.stale.nodes).map
            (fun n => (n.outputShape, n.params.int? "in_features")) =
          [(some ⟨[.batch, .fixed 1, .fixed 28, .fixed 28]⟩, none),
           (some ⟨[.batch, .fixed 784]⟩, none), (some ⟨[.batch, .fixed 10]⟩, some 784),
           (none, none), (none, none)])) = true := by
    decide +kernel
  obtain ⟨⟨overlay, faults⟩, hfound, hfields⟩ := exists_of_toOption_any hvalue
  obtain ⟨hagain, -, -⟩ := propagatePartial_written _ _ overlay faults hfound
  exact ⟨overlay, faults, hfound, hagain, of_decide_eq_true hfields⟩

end LayerGraph
