import LayerGraph.Proofs.ClosedWalks
import LayerGraph.Proofs.Countdown
/-!
# The topological pass over a whole drawing

The topological order is asked for after the cycle test, and found by a pass that knows nothing of
the test: it counts down the edges into each node, from the nodes without any.

* `Network.length_drain_eq_iff`: the pass lists all nodes exactly when there is no cycle, so it
  leaves none over once the test has succeeded.
* `Network.IsTopological.sublist_of_leads`: a topological order lists a node before those that it
  leads to.
* `IsDrawingOrder nodes edges order`: every node once, and the edges between nodes lead forward.
* `topological_pass`: there is a topological order exactly when no walk is closed, and it is such an
  order.
-/

namespace LayerGraph
set_option autoImplicit false
open Relation

namespace Network

variable {net : Network}

/-! ## All nodes -/

/-- How many edges lead into each node. -/
def indegrees (net : Network) : Table Nat :=
  Table.ofList (net.ids.map fun id => (id, (net.incoming id).length))

/-- All edges into a node are waited for while all nodes are pending. -/
theorem countersOf_ids : net.countersOf net.ids = net.indegrees := by
  have hwaiting : ∀ id, net.waiting net.ids id = (net.incoming id).length := by
    intro id
    have hall : ∀ s ∈ net.sources id, decide (s ∈ net.ids) = true := fun s hs =>
      decide_eq_true (source_mem_ids (mem_sources.1 hs))
    rw [waiting, List.countP_eq_length.2 hall, sources, List.length_map]
  simp only [countersOf, indegrees, hwaiting]

/-- Without the cycle test, the pass finds out as well whether there is a cycle: a list of all nodes
goes along the edges. -/
theorem length_drain_eq_iff :
    (net.drain net.ids net.sourceless).length = net.ids.length ↔ Acyclic net.edges := by
  refine ⟨fun hlength => ?_, fun hacyclic => (isTopological_drain hacyclic).perm.length_eq⟩
  have hsub : (net.drain net.ids net.sourceless).Subperm net.ids :=
    (nodup_drain _ _).subperm fun _ => mem_of_mem_drain
  have hperm := hsub.perm_of_length_le hlength.ge
  exact acyclic_of_mem_before (fun a b hab => hperm.mem_iff.2 (target_mem_ids hab))
    fun _ _ _ horder _ _ hs => mem_before_of_drain_sourceless horder hs

/-! ## Along paths -/

namespace IsTopological

variable {order : List String}

theorem nodup (h : net.IsTopological order) : order.Nodup := h.perm.nodup_iff.2 net.nodup_ids

/-- Whatever leads to a node stands before it. -/
theorem mem_before_of_leads (h : net.IsTopological order) {a b : String}
    (hab : TransGen (Feeds net.edges) a b) {before after : List String}
    (horder : order = before ++ b :: after) : a ∈ before := by
  induction hab generalizing before after with
  | single hab => exact h.mem_before before _ after horder a hab
  | tail _ hbc ih =>
    obtain ⟨first, second, rfl⟩ := List.append_of_mem (h.mem_before before _ after horder _ hbc)
    exact List.mem_append_left _ (ih (by rw [horder, List.append_assoc]; rfl))

theorem sublist_of_leads (h : net.IsTopological order) {a b : String}
    (hab : TransGen (Feeds net.edges) a b) : [a, b].Sublist order := by
  obtain ⟨c, -, hcb⟩ := TransGen.tail'_iff.1 hab
  obtain ⟨before, after, rfl⟩ := List.append_of_mem (h.perm.mem_iff.2 (target_mem_ids hcb))
  have ha : [a].Sublist before := List.singleton_sublist.2 (h.mem_before_of_leads hab rfl)
  exact ha.append (List.singleton_sublist.2 List.mem_cons_self)

end IsTopological

end Network

/-! ## The order of a drawing -/

/-- Every node of the drawing once, and each edge that joins two nodes leads forward. -/
structure IsDrawingOrder (nodes : List Node) (edges : List Edge) (order : List String) : Prop where
  perm : order.Perm (nodes.map Node.id)
  nodup : order.Nodup
  forward : ∀ e ∈ joined nodes edges, [e.source, e.target].Sublist order

theorem Network.IsTopological.isDrawingOrder {net : Network} {nodes : List Node}
    {edges : List Edge} {order : List String} (h : net.IsTopological order)
    (hnet : net.IsOf nodes edges) : IsDrawingOrder nodes edges order where
  perm := hnet.ids_eq ▸ h.perm
  nodup := h.nodup
  forward := fun _ he =>
    h.sublist_of_leads (.single (.of_mem (hnet.edges_eq_joined ▸ he)))

/-- A drawing has a topological order exactly when no walk over the edges between its nodes is
closed, and then it is an order of the drawing. The only faults are those of the cycle test: the pass
behind it, which counts down the edges into each node, lists as many nodes as there are exactly when
the test succeeds, and its list is the order. -/
theorem topological_pass (nodes : List Node) (edges : List Edge) (net : Network)
    (hnet : Network.ofGraph nodes edges = .ok net) :
    ((∃ order, net.topological = .ok order) ↔
        ¬ ∃ walk, IsClosedWalk (joined nodes edges) walk) ∧
      (∀ order, net.topological = .ok order → IsDrawingOrder nodes edges order) ∧
      (∀ fault, net.topological = .error fault ↔ net.checkAcyclic = .error fault) ∧
      ∃ listed, net.Counts net.indegrees net.sourceless listed ∧
        (net.checkAcyclic = .ok () ↔ listed.length = nodes.length) ∧
        ∀ order, net.topological = .ok order → order = listed := by
  have hisOf := Network.isOf_of_ofGraph hnet
  refine ⟨?_, fun order horder => ?_, fun fault => ?_, net.drain net.ids net.sourceless, ?_, ?_,
    fun order horder => (Network.topological_eq_ok_iff.1 horder).2.symm⟩
  · rw [← acyclic_iff_not_isClosedWalk, ← hisOf.edges_eq_joined]
    exact ⟨fun ⟨_, horder⟩ => (Network.topological_eq_ok_iff.1 horder).1,
      Network.exists_topological⟩
  · exact (Network.isTopological_of_topological horder).2.isDrawingOrder hisOf
  · rw [Network.topological_eq]
    cases net.checkAcyclic <;> simp [Except.map]
  · exact Network.countersOf_ids ▸ Network.counts_topological
  · have hlength : net.ids.length = nodes.length := by rw [hisOf.ids_eq, List.length_map]
    rw [Network.checkAcyclic_eq_ok_iff, ← Network.length_drain_eq_iff, hlength]

/-- Two edges between the same ends, a node that two paths reach, one that no edge touches, and an
edge from a node that is not drawn. -/
def Graph.braided : Graph where
  nodes :=
    [{ id := "join", operatorId := "add" },
     { id := "right", operatorId := "relu" },
     { id := "data", operatorId := "dataset" },
     { id := "alone", operatorId := "relu" },
     { id := "left", operatorId := "relu" }]
  edges :=
    [{ id := "1", source := "data", target := "left" },
     { id := "2", source := "left", target := "join" },
     { id := "3", source := "left", target := "join" },
     { id := "4", source := "data", target := "right" },
     { id := "5", source := "right", target := "join" },
     { id := "6", source := "nowhere", target := "data" }]

theorem topological_pass_braided :
    ∃ net : Network, Network.ofGraph Graph.braided.nodes Graph.braided.edges = .ok net ∧
      net.topological = .ok ["data", "alone", "left", "right", "join"] ∧
      IsDrawingOrder Graph.braided.nodes Graph.braided.edges
        ["data", "alone", "left", "right", "join"] ∧
      net.Counts net.indegrees net.sourceless ["data", "alone", "left", "right", "join"] ∧
      ¬ ∃ walk, IsClosedWalk (joined Graph.braided.nodes Graph.braided.edges) walk := by
  have hvalue : (Network.ofGraph Graph.braided.nodes Graph.braided.edges).toOption.any (fun net =>
      decide (net.topological = .ok ["data", "alone", "left", "right", "join"])) = true := by
    decide +kernel
  obtain ⟨net, hnet, hdecide⟩ := exists_of_toOption_any hvalue
  have horder := of_decide_eq_true hdecide
  obtain ⟨hacyclic, hdrawing, -, listed, hcounts, -, hlisted⟩ := topological_pass _ _ net hnet
  obtain rfl := hlisted _ horder
  exact ⟨net, hnet, horder, hdrawing _ horder, hcounts, hacyclic.1 ⟨_, horder⟩⟩

end LayerGraph
