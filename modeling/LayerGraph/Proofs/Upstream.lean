import LayerGraph.Proofs.ListingOrder
/-!
# What a verdict depends on

Of the graph beside it a candidate is only tested with what lies before its ends: the nodes that
lead to one of them over the other edges, and the ends themselves.

* `Precedes candidate others id`: the node lies before an end of the candidate.
* `Graph.AgreesBefore g g' candidate`: in both graphs these nodes have the same operators, graphs
  and parameters, and the same edges come into them, in the same order. So the same nodes lie before
  the ends in both (`Graph.AgreesBefore.precedes_iff`).
* `verdict_upstream`: then the verdict is the same, whatever else the graphs hold.
-/

namespace LayerGraph
set_option autoImplicit false
open Relation

/-! ## What comes into a node -/

/-- The sources and the kinds of the edges into a node, in the order of the edges. -/
def entering (edges : List Edge) (id : String) : List (String × EdgeKind) :=
  (edges.filter (·.target = id)).map fun e => (e.source, e.kind)

theorem feeds_iff_mem_entering {edges : List Edge} {s id : String} :
    Feeds edges s id ↔ s ∈ (entering edges id).map Prod.fst := by
  simp only [Feeds, entering, List.map_map, List.mem_map, List.mem_filter, Function.comp_apply,
    decide_eq_true_iff]
  apply exists_congr
  intro e
  rw [and_assoc, and_comm (a := e.source = s)]

theorem any_eq_any_entering (edges : List Edge) (id : String) (keep : String × EdgeKind → Bool) :
    (edges.any fun e => decide (e.target = id) && keep (e.source, e.kind)) =
      (entering edges id).any keep := by
  rw [entering, List.any_map, List.any_filter]
  rfl

theorem otherInputs_eq_filterMap_entering (e : Edge) (others : List Edge)
    (overlay : Propagation) :
    otherInputs e others overlay =
      (entering others e.target).filterMap fun d => overlay.shape? d.1 := by
  rw [otherInputs, entering, List.filterMap_map]
  rfl

theorem Network.operands_eq_entering (net : Network) (id : String) :
    net.operands id =
      if net.isMerge id then (entering net.edges id).map Prod.fst
      else (((entering net.edges id).filter (·.2 = .normal)).take 1).map Prod.fst := by
  have hincoming : net.incoming id = net.edges.filter (·.target = id) := by
    rw [incoming]
    exact List.filter_congr fun d _ => beq_eq_decide _ _
  rw [operands, entering, hincoming, List.filter_map, ← List.map_take, List.map_map, List.map_map]
  rfl

/-- A network has the edges into its node that come from its nodes. -/
theorem Network.IsOf.entering_eq {net : Network} {nodes : List Node} {edges : List Edge}
    (h : net.IsOf nodes edges) {id : String} (hid : id ∈ net.ids) :
    entering net.edges id = (entering edges id).filter (·.1 ∈ net.ids) := by
  rw [entering, entering, h.edges_eq, List.filter_map, List.filter_filter, List.filter_filter]
  apply congrArg (List.map _)
  apply List.filter_congr
  intro e _
  by_cases he : e.target = id
  · simp [he, hid]
  · simp [he]

/-! ## What is read of a node -/

/-- The node without what no test reads: what is derived, the label and the place. -/
def Node.bare (n : Node) : Node where
  id := n.id
  operatorId := n.operatorId
  params := n.params
  isPipeline := n.isPipeline

theorem Node.keeps_bare : Node.Keeps Node.bare := ⟨fun _ => rfl, fun _ => rfl, fun _ => rfl⟩

def Graph.bare (g : Graph) : Graph := { g with nodes := g.nodes.map Node.bare }

theorem propagatePartial_bare {g : Graph} {edges : List Edge}
    (h : ∃ state, propagatePartial g.nodes edges = .ok state) :
    propagatePartial g.bare.nodes edges = propagatePartial g.nodes edges := by
  obtain ⟨state, hstate⟩ := h
  obtain ⟨net, hnet, -⟩ := bind_eq_ok_iff.1 hstate
  exact propagatePartial_map Node.keeps_bare hnet fun _ _ _ _ => rfl

theorem validateEdge_bare {g : Graph} {candidate : Edge}
    (h : ∃ state, propagatePartial g.nodes (otherEdges candidate g.edges) = .ok state) :
    validateEdge candidate g.bare.nodes g.edges = validateEdge candidate g.nodes g.edges := by
  rw [validateEdge, validateEdge, propagatePartial_bare h, Graph.bare,
    resolveEnds_map Node.keeps_bare]
  cases resolveEnds candidate g.nodes <;> rfl

/-! ## What lies before an edge -/

/-- The id leads to an end of the candidate, or is one. An id that no node has can do so too, and
the search for cycles goes through it. -/
def Precedes (candidate : Edge) (others : List Edge) (id : String) : Prop :=
  ReflTransGen (Feeds others) id candidate.source ∨ ReflTransGen (Feeds others) id candidate.target

section Precedes

variable {candidate : Edge} {others : List Edge} {s id : String}

theorem precedes_source : Precedes candidate others candidate.source := .inl .refl

theorem precedes_target : Precedes candidate others candidate.target := .inr .refl

theorem Precedes.of_feeds (h : Precedes candidate others id) (hs : Feeds others s id) :
    Precedes candidate others s := h.imp (.head hs) (.head hs)

theorem Precedes.of_mem_entering (h : Precedes candidate others id)
    {d : String × EdgeKind} (hd : d ∈ entering others id) : Precedes candidate others d.1 :=
  h.of_feeds (feeds_iff_mem_entering.2 (List.mem_map_of_mem hd))

/-- What precedes the candidate is in every set of nodes that has both ends and is closed under
sources. -/
theorem Precedes.mem {ids : List String} (h : Precedes candidate others id)
    (hsource : candidate.source ∈ ids) (htarget : candidate.target ∈ ids)
    (hclosed : ∀ e ∈ others, e.target ∈ ids → e.source ∈ ids) : id ∈ ids := by
  have hback : ∀ {first last}, last ∈ ids → ReflTransGen (Feeds others) first last →
      first ∈ ids := by
    intro first last hlast hpath
    induction hpath using ReflTransGen.head_induction_on with
    | refl => exact hlast
    | head hab _ ih =>
      obtain ⟨e, he, rfl, rfl⟩ := hab
      exact hclosed e he ih
  exact h.elim (hback hsource) (hback htarget)

end Precedes

/-- What lies before the candidate is drawn alike in both graphs, but for the ids of edges and what
is not read of a node. Edges with the id of the candidate do not count. -/
structure Graph.AgreesBefore (g g' : Graph) (candidate : Edge) : Prop where
  nodes : ∀ id, Precedes candidate (otherEdges candidate g.edges) id →
    (g.nodes.find? (·.id == id)).map Node.bare = (g'.nodes.find? (·.id == id)).map Node.bare
  entering : ∀ id, Precedes candidate (otherEdges candidate g.edges) id →
    entering (otherEdges candidate g.edges) id = entering (otherEdges candidate g'.edges) id

namespace Graph.AgreesBefore

variable {g g' : Graph} {candidate : Edge} (h : g.AgreesBefore g' candidate)
include h

/-! ### Paths -/

theorem feeds_iff {s id : String} (hid : Precedes candidate (otherEdges candidate g.edges) id) :
    Feeds (otherEdges candidate g.edges) s id ↔ Feeds (otherEdges candidate g'.edges) s id := by
  rw [feeds_iff_mem_entering, feeds_iff_mem_entering, h.entering id hid]

/-- A path to a node before the candidate goes through nodes before it only. -/
theorem leads_iff {s id : String} (hid : Precedes candidate (otherEdges candidate g.edges) id) :
    TransGen (Feeds (otherEdges candidate g.edges)) s id ↔
      TransGen (Feeds (otherEdges candidate g'.edges)) s id := by
  -- From the last edge back; that a node precedes the candidate is carried along.
  constructor
  · intro hpath
    suffices hboth : Precedes candidate (otherEdges candidate g.edges) s ∧
        TransGen (Feeds (otherEdges candidate g'.edges)) s id from hboth.2
    induction hpath using TransGen.head_induction_on with
    | single hab => exact ⟨hid.of_feeds hab, .single ((h.feeds_iff hid).1 hab)⟩
    | head hab _ ih => exact ⟨ih.1.of_feeds hab, .head ((h.feeds_iff ih.1).1 hab) ih.2⟩
  · intro hpath
    suffices hboth : Precedes candidate (otherEdges candidate g.edges) s ∧
        TransGen (Feeds (otherEdges candidate g.edges)) s id from hboth.2
    induction hpath using TransGen.head_induction_on with
    | single hab =>
      have hab := (h.feeds_iff hid).2 hab
      exact ⟨hid.of_feeds hab, .single hab⟩
    | head hab _ ih =>
      have hab := (h.feeds_iff ih.1).2 hab
      exact ⟨ih.1.of_feeds hab, .head hab ih.2⟩

/-- The same nodes lie before the candidate. -/
theorem precedes_iff {id : String} :
    Precedes candidate (otherEdges candidate g.edges) id ↔
      Precedes candidate (otherEdges candidate g'.edges) id := by
  simp only [Precedes, reflTransGen_iff_eq_or_transGen, h.leads_iff precedes_source,
    h.leads_iff precedes_target]

/-! ### Tests without shapes -/

theorem find?_bare {id : String} (hid : Precedes candidate (otherEdges candidate g.edges) id) :
    g.bare.nodes.find? (·.id == id) = g'.bare.nodes.find? (·.id == id) := by
  rw [bare, bare, List.find?_map, List.find?_map]
  exact h.nodes id hid

theorem resolveEnds_eq :
    resolveEnds candidate g.bare.nodes = resolveEnds candidate g'.bare.nodes := by
  simp only [resolveEnds, findEnd, h.find?_bare precedes_source, h.find?_bare precedes_target]

theorem any_eq (keep : String × EdgeKind → Bool) :
    ((otherEdges candidate g.edges).any fun e =>
        decide (e.target = candidate.target) && keep (e.source, e.kind)) =
      (otherEdges candidate g'.edges).any fun e =>
        decide (e.target = candidate.target) && keep (e.source, e.kind) := by
  rw [any_eq_any_entering, any_eq_any_entering, h.entering _ precedes_target]

theorem checkConnection_eq (ends : Ends) :
    checkConnection candidate ends (otherEdges candidate g.edges) =
      checkConnection candidate ends (otherEdges candidate g'.edges) := by
  have hconnected := h.any_eq fun d => decide (d.1 = candidate.source)
  have hnormal := h.any_eq fun d => decide (d.2 = .normal)
  simp only [checkConnection, checkArchitecture, Bool.decide_and,
    Bool.and_comm (decide (Edge.source _ = candidate.source)), hconnected, hnormal]

theorem closesCycle_eq (hne : candidate.source ≠ candidate.target) :
    closesCycle candidate (otherEdges candidate g.edges) =
      closesCycle candidate (otherEdges candidate g'.edges) := by
  rw [Bool.eq_iff_iff, closesCycle_iff hne, closesCycle_iff hne, h.leads_iff precedes_source]

/-! ### Shapes -/

section Networks

variable {net net' : Network} (hnet : net.IsOf g.bare.nodes (otherEdges candidate g.edges))
  (hnet' : net'.IsOf g'.bare.nodes (otherEdges candidate g'.edges))
include hnet hnet'

theorem find?_eq {id : String} (hid : Precedes candidate (otherEdges candidate g.edges) id) :
    net.find? id = net'.find? id := by
  apply Option.ext
  intro p
  rw [← hnet.find?_iff, ← hnet'.find?_iff, h.find?_bare hid]

theorem mem_ids_iff {id : String} (hid : Precedes candidate (otherEdges candidate g.edges) id) :
    id ∈ net.ids ↔ id ∈ net'.ids := by
  have hfound : ∀ {net : Network}, id ∈ net.ids ↔ ∃ p, net.find? id = some p := by
    intro net
    simp only [Network.ids, List.mem_map, Network.find?_eq_some_iff]
  rw [hfound, hfound, h.find?_eq hnet hnet' hid]

theorem operands_eq {id : String} (hid : Precedes candidate (otherEdges candidate g.edges) id)
    (hmem : id ∈ net.ids) : net.operands id = net'.operands id := by
  have hmerge : net.isMerge id = net'.isMerge id := by
    rw [Network.isMerge, Network.isMerge, h.find?_eq hnet hnet' hid]
  have hentering : LayerGraph.entering net.edges id = LayerGraph.entering net'.edges id := by
    rw [hnet.entering_eq hmem, hnet'.entering_eq ((h.mem_ids_iff hnet hnet' hid).1 hmem),
      ← h.entering id hid]
    apply List.filter_congr
    intro d hd
    exact decide_eq_decide.2 (h.mem_ids_iff hnet hnet' (hid.of_mem_entering hd))
  rw [Network.operands_eq_entering, Network.operands_eq_entering, hmerge, hentering]

/-- The nodes before the candidate have the same shapes, whatever the order of the passes. -/
theorem shape?_eq {overlay overlay' : Propagation} {faults faults' : List Fault}
    (hprop : net.IsPropagation overlay faults) (hprop' : net'.IsPropagation overlay' faults')
    {id : String} (hid : Precedes candidate (otherEdges candidate g.edges) id) :
    overlay.shape? id = overlay'.shape? id := by
  apply hprop.shape?_eq_of_outcome hprop' (Precedes candidate (otherEdges candidate g.edges)) _ _
    hid
  · intro p hp
    have hmem : ∀ {net : Network}, p ∈ net.nodes ↔ net.find? p.id = some p := by
      intro net
      rw [Network.find?_eq_some_iff]
      exact (and_iff_left rfl).symm
    rw [hmem, hmem, h.find?_eq hnet hnet' hp]
  · -- An operand feeds the node, so it lies before the candidate too.
    intro p hp hbefore _ hshapes result
    have hsame : overlay.outcome? net p = overlay'.outcome? net' p := by
      apply Propagation.outcome?_congr
        (h.operands_eq hnet hnet' hbefore (Network.id_mem_ids hp))
      intro s hs
      have hfeeds := Network.feeds_of_mem_operands hs
      exact hshapes s (hbefore.of_feeds (hfeeds.mono fun e he => hnet.edge_mem he)) hfeeds
    rw [hsame]

theorem checkShapes_eq {overlay overlay' : Propagation} {faults faults' : List Fault}
    (hprop : net.IsPropagation overlay faults) (hprop' : net'.IsPropagation overlay' faults')
    {ends : Ends} (hsource : ends.source.id = candidate.source)
    (htarget : ends.target.id = candidate.target) :
    checkShapes candidate ends (otherEdges candidate g.edges) overlay =
      checkShapes candidate ends (otherEdges candidate g'.edges) overlay' := by
  apply checkShapes_congr_of_inputs
  · rw [hsource]
    exact h.shape?_eq hnet hnet' hprop hprop' precedes_source
  · rw [otherInputs_eq_filterMap_entering, otherInputs_eq_filterMap_entering,
      ← h.entering _ precedes_target]
    apply List.filterMap_congr
    intro d hd
    exact h.shape?_eq hnet hnet' hprop hprop' (precedes_target.of_mem_entering hd)
  · intro _ _
    rw [htarget]
    exact h.shape?_eq hnet hnet' hprop hprop' precedes_target

end Networks
end Graph.AgreesBefore

/-- The verdict on a candidate, with its fault, depends on what lies before its ends only. -/
theorem verdict_upstream (g g' : Graph) (candidate : Edge) (h : g.AgreesBefore g' candidate)
    (hdrawn : ∃ state, propagatePartial g.nodes (otherEdges candidate g.edges) = .ok state)
    (hdrawn' : ∃ state, propagatePartial g'.nodes (otherEdges candidate g'.edges) = .ok state) :
    validateEdge candidate g.nodes g.edges = validateEdge candidate g'.nodes g'.edges := by
  rw [← validateEdge_bare hdrawn, ← validateEdge_bare hdrawn', validateEdge, validateEdge,
    ← h.resolveEnds_eq]
  cases hends : resolveEnds candidate g.bare.nodes with
  | error fault => rfl
  | ok ends =>
    obtain ⟨hsource, htarget, hne⟩ := ids_of_resolveEnds hends
    rw [← propagatePartial_bare hdrawn] at hdrawn
    rw [← propagatePartial_bare hdrawn'] at hdrawn'
    obtain ⟨⟨overlay, faults⟩, hpropagate⟩ := hdrawn
    obtain ⟨⟨overlay', faults'⟩, hpropagate'⟩ := hdrawn'
    obtain ⟨net, hnet, hall⟩ := bind_eq_ok_iff.1 hpropagate
    obtain ⟨net', hnet', hall'⟩ := bind_eq_ok_iff.1 hpropagate'
    have hshapes := h.checkShapes_eq (Network.isOf_of_ofGraph hnet) (Network.isOf_of_ofGraph hnet')
      (Network.isPropagation_of_propagateAll hall) (Network.isPropagation_of_propagateAll hall')
      hsource htarget
    simp only [bind, Except.bind, h.checkConnection_eq, h.closesCycle_eq hne, hpropagate,
      hpropagate', hshapes]

/-- A convolution beside an activation that has two incoming edges. -/
def Graph.branching : Graph where
  nodes :=
    [{ id := "data", operatorId := "dataset" },
     { id := "conv", operatorId := "conv2d" },
     { id := "same", operatorId := "relu" },
     { id := "act", operatorId := "relu" }]
  edges :=
    [{ id := "1", source := "data", target := "conv" },
     { id := "2", source := "data", target := "same" },
     { id := "3", source := "data", target := "act" },
     { id := "4", source := "same", target := "act", kind := .sum }]

/-- The same nodes among others: the graph is listed in another order, with other ids of edges, one
node fails, and the shortcut itself is drawn elsewhere. -/
def Graph.crowded : Graph where
  nodes :=
    [{ id := "broken", operatorId := "conv2d", params := .ofList [("kernel_size", .int 99)] },
     { id := "act", operatorId := "relu", label := "Activation" },
     { id := "tail", operatorId := "relu" },
     { id := "same", operatorId := "relu", outputShape := some ⟨[.batch]⟩ },
     { id := "other", operatorId := "dataset" },
     { id := "conv", operatorId := "conv2d" },
     { id := "data", operatorId := "dataset" }]
  edges :=
    [{ id := "a", source := "act", target := "tail" },
     { id := "b", source := "data", target := "act" },
     { id := "5", source := "tail", target := "same" },
     { id := "c", source := "same", target := "act", kind := .sum },
     { id := "d", source := "other", target := "broken" },
     { id := "e", source := "data", target := "same" },
     { id := "f", source := "data", target := "conv" }]

def Edge.shortcut : Edge where
  id := "5"
  source := "conv"
  target := "act"
  kind := .residual

theorem verdict_upstream_shortcut :
    Graph.branching.AgreesBefore .crowded .shortcut ∧
      validateEdge .shortcut Graph.branching.nodes Graph.branching.edges =
        validateEdge .shortcut Graph.crowded.nodes Graph.crowded.edges ∧
      validateEdge .shortcut Graph.branching.nodes Graph.branching.edges =
        .error (.edgeShape "act" (.addend .residual "conv"
          ⟨[.batch, .fixed 32, .fixed 26, .fixed 26]⟩
          ⟨[.batch, .fixed 1, .fixed 28, .fixed 28]⟩)) := by
  have hbefore : ∀ id, Precedes .shortcut (otherEdges .shortcut Graph.branching.edges) id →
      id ∈ ["data", "conv", "same", "act"] := fun id hid =>
    hid.mem (by decide +kernel) (by decide +kernel) (by decide +kernel)
  have hnodes : ∀ id ∈ ["data", "conv", "same", "act"],
      (Graph.branching.nodes.find? (·.id == id)).map Node.bare =
        (Graph.crowded.nodes.find? (·.id == id)).map Node.bare := by
    simp only [List.forall_mem_cons]
    exact ⟨rfl, rfl, rfl, rfl, nofun⟩
  have hentering : ∀ id ∈ ["data", "conv", "same", "act"],
      entering (otherEdges .shortcut Graph.branching.edges) id =
        entering (otherEdges .shortcut Graph.crowded.edges) id := by
    decide +kernel
  have hagrees : Graph.branching.AgreesBefore .crowded .shortcut :=
    ⟨fun id hid => hnodes id (hbefore id hid), fun id hid => hentering id (hbefore id hid)⟩
  have hdrawn : (propagatePartial Graph.branching.nodes
      (otherEdges .shortcut Graph.branching.edges)).toOption.isSome = true ∧
      (propagatePartial Graph.crowded.nodes
        (otherEdges .shortcut Graph.crowded.edges)).toOption.isSome = true := by
    decide +kernel
  refine ⟨hagrees, ?_, by decide +kernel⟩
  exact verdict_upstream .branching .crowded .shortcut hagrees
    (exists_of_isSome_toOption hdrawn.1) (exists_of_isSome_toOption hdrawn.2)

end LayerGraph
