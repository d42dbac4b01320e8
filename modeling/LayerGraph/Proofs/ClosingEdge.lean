import LayerGraph.Proofs.Agreement
/-!
# The edge that closes a cycle

The test of one edge looks for a way back from its target over the other edges. The test of a
network goes through all its nodes twice. They agree: with one more edge behind those of an acyclic
network there is a cycle exactly when the target of the edge leads to its source.

* `Network.Adds net e net'`: a network with one more edge.
* `validateEdge_eq_cycle_iff`: past the rules for connections, the verdict is a cycle exactly when
  the candidate closes one. The rules behind it have faults of shapes only.
* `closing_edge_iff`: so the verdict is a cycle exactly when the network with the candidate has one.
-/

namespace LayerGraph
set_option autoImplicit false
open Relation

variable {nodes : List Node} {edges : List Edge} {net : Network} {e : Edge} {ends : Ends}

/-- The second network is the first one with one more edge. -/
structure Network.Adds (net : Network) (e : Edge) (net' : Network) : Prop where
  nodes : net.nodes = net'.nodes
  edges : net'.edges = net.edges ++ [e]

/-- An edge can be added to a network when it joins two of its nodes. -/
theorem Network.IsOf.exists_adds (h : net.IsOf nodes edges) (hsource : e.source ∈ net.ids)
    (htarget : e.target ∈ net.ids) :
    ∃ net', ofGraph nodes (edges ++ [e]) = .ok net' ∧ net.Adds e net' := by
  obtain ⟨net', hnet'⟩ := h.exists_ofGraph (edges ++ [e])
  have h' := isOf_of_ofGraph hnet'
  have hids : net'.ids = net.ids := h'.ids_eq.trans h.ids_eq.symm
  refine ⟨net', hnet', h.nodes_eq_of_isOf h', ?_⟩
  rw [h'.edges_eq, hids, List.filter_append, ← h.edges_eq, List.filter_singleton,
    decide_eq_true ⟨hsource, htarget⟩, cond_true]

/-- Past the rules for connections the only cycle there is a verdict of is the one that the
candidate closes. -/
theorem validateEdge_eq_cycle_iff (hends : resolveEnds e nodes = .ok ends)
    (hconnection : checkConnection e ends (otherEdges e edges) = .ok ()) {fault : Fault} :
    validateEdge e nodes edges = .error fault ∧ fault.kind = .cycle ↔
      closesCycle e (otherEdges e edges) = true ∧ fault = .cycle e.target := by
  rw [validateEdge, hends]
  simp only [bind, Except.bind, hconnection]
  split
  · rename_i hcloses
    constructor
    · intro h
      exact ⟨hcloses, (Except.error.inj h.1).symm⟩
    · rintro ⟨-, rfl⟩
      exact ⟨rfl, rfl⟩
  · rename_i hcloses
    constructor
    · -- What is left are the tests with shapes.
      rintro ⟨hverdict, hkind⟩
      split at hverdict
      · cases hverdict
      · split at hverdict
        · have hshape := isShapeTest_checkShapes _ fault hverdict
          rw [hkind] at hshape
          cases hshape
        · cases hverdict
    · intro h
      exact absurd h.1 hcloses

/-- An edge that may be drawn beside an acyclic graph closes a cycle, by the test of one edge,
exactly when the graph with the edge has one, by the test of the network; the verdict names the
target. -/
theorem closing_edge_iff (nodes : List Node) (edges : List Edge) (candidate : Edge) (ends : Ends)
    (hids : (nodes.map Node.id).Nodup)
    (hoperators : ∀ n ∈ nodes, ∃ operator, n.operator = .ok operator)
    (hacyclic : Acyclic edges)
    (hjoined : ∀ e ∈ edges, e.source ∈ nodes.map Node.id ∧ e.target ∈ nodes.map Node.id)
    (hends : resolveEnds candidate nodes = .ok ends)
    (hconnection : checkConnection candidate ends (otherEdges candidate edges) = .ok ()) :
    ∃ net, Network.ofGraph nodes (otherEdges candidate edges ++ [candidate]) = .ok net ∧
      ((∃ fault, validateEdge candidate nodes edges = .error fault ∧ fault.kind = .cycle) ↔
        ∃ fault, net.checkAcyclic = .error fault) ∧
      ∀ fault, validateEdge candidate nodes edges = .error fault → fault.kind = .cycle →
        fault = .cycle candidate.target := by
  obtain ⟨others, hothers⟩ :=
    Network.exists_ofGraph (otherEdges candidate edges) hids hoperators
  have hisOf := Network.isOf_of_ofGraph hothers
  have hedges : others.edges = otherEdges candidate edges :=
    hisOf.edges_eq_of_ends fun d hd => by
      rw [hisOf.ids_eq]
      exact hjoined d (mem_otherEdges.1 hd).1
  obtain ⟨hsource, htarget⟩ := hisOf.ends_mem_of_resolveEnds hends
  obtain ⟨net, hnet, hadds⟩ := hisOf.exists_adds hsource htarget
  obtain ⟨-, -, hne⟩ := ids_of_resolveEnds hends
  have hbefore : Acyclic (otherEdges candidate edges) :=
    hacyclic.mono fun d hd => (mem_otherEdges.1 hd).1
  have hcloses : closesCycle candidate (otherEdges candidate edges) = true ↔
      ¬ Acyclic net.edges := by
    rw [closesCycle_iff hne, hadds.edges, hedges, acyclic_append_single_iff,
      reflTransGen_iff_eq_or_transGen]
    simp [hbefore, hne]
  have hfails : (∃ fault, net.checkAcyclic = .error fault) ↔ ¬ Acyclic net.edges := by
    rw [← Network.checkAcyclic_eq_ok_iff]
    cases net.checkAcyclic <;> simp
  refine ⟨net, hnet, ?_, fun fault hverdict hkind =>
    ((validateEdge_eq_cycle_iff hends hconnection).1 ⟨hverdict, hkind⟩).2⟩
  rw [hfails, ← hcloses]
  simp only [validateEdge_eq_cycle_iff hends hconnection]
  exact ⟨fun ⟨_, h, _⟩ => h, fun h => ⟨_, h, rfl⟩⟩

/-- A chain with two edges between the same ends. -/
def Graph.doubled : Graph where
  nodes :=
    [{ id := "data", operatorId := "dataset" },
     { id := "left", operatorId := "relu" },
     { id := "right", operatorId := "relu" },
     { id := "end", operatorId := "relu" }]
  edges :=
    [{ id := "1", source := "data", target := "left" },
     { id := "2", source := "left", target := "right" },
     { id := "3", source := "left", target := "right", kind := .residual },
     { id := "4", source := "right", target := "end" }]

/-- The first edge of the chain, turned to lead back from its end. -/
def Edge.turned : Edge where
  id := "1"
  source := "end"
  target := "left"

theorem closing_edge_turned :
    validateEdge .turned Graph.doubled.nodes Graph.doubled.edges = .error (.cycle "left") ∧
      ∃ net, Network.ofGraph Graph.doubled.nodes
          (otherEdges .turned Graph.doubled.edges ++ [.turned]) = .ok net ∧
        ∃ fault, net.checkAcyclic = .error fault := by
  have hacyclic : Acyclic Graph.doubled.edges := by
    apply acyclic_of_rank (["data", "left", "right", "end"].idxOf ·)
    rintro _ _ ⟨e, he, rfl, rfl⟩
    revert e
    decide +kernel
  have hoperators : ∀ n ∈ Graph.doubled.nodes, n.operator.toOption.isSome = true := by
    decide +kernel
  have hresolve : (resolveEnds .turned Graph.doubled.nodes).toOption.any (fun ends =>
      decide (checkConnection .turned ends (otherEdges .turned Graph.doubled.edges)
        = .ok ())) = true := by
    decide +kernel
  obtain ⟨ends, hends, hconnection⟩ := exists_of_toOption_any hresolve
  obtain ⟨net, hnet, hcycle, hnamed⟩ := closing_edge_iff Graph.doubled.nodes Graph.doubled.edges
    .turned ends (by decide +kernel)
    (fun n hn => exists_of_isSome_toOption (hoperators n hn)) hacyclic (by decide +kernel) hends
    (of_decide_eq_true hconnection)
  have hverdict : validateEdge .turned Graph.doubled.nodes Graph.doubled.edges =
      .error (.cycle "left") := by
    decide +kernel
  exact ⟨hverdict, net, hnet, hcycle.1 ⟨_, hverdict, rfl⟩⟩

end LayerGraph
