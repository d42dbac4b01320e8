import LayerGraph.Proofs.Countdown
import LayerGraph.Proofs.Drawing
import LayerGraph.Proofs.Emission
/-!
# What is written down, and in which order

`Emission.IsOrderOf order net` says all of an emission order that does not depend on how it is
found: which nodes it holds, that it goes along the edges, and which nodes are left out. It also
says that the order is that of counting down from the root the edges that come from reached nodes.
`emission_order`: whatever is emitted is such an order.
-/

namespace LayerGraph
set_option autoImplicit false
open Relation

namespace Emission

/-- The root leads to the node, over edges of any kind. -/
def Reaches (order : Emission) (net : Network) (p : Placed) : Prop :=
  ReflTransGen (Feeds net.edges) order.root.id p.id

/-- What an emission order is to its network. -/
structure IsOrderOf (order : Emission) (net : Network) : Prop where
  /-- The root is the first dataset. -/
  root : net.nodes.find? (·.operator.isRoot) = some order.root
  nodup : (order.nodes.map Placed.id).Nodup
  mem_nodes : ∀ p, p ∈ order.nodes ↔
    p ∈ net.nodes ∧ order.Reaches net p ∧ p ≠ order.root ∧ p.operator.isLoss = false
  /-- What is not reached stands in the order of the drawing. -/
  unreachable : order.unreachable.Sublist net.nodes
  mem_unreachable : ∀ p, p ∈ order.unreachable ↔ p ∈ net.nodes ∧ ¬ order.Reaches net p
  /-- The root, the nodes, the losses that are reached and what is not reached are all nodes, each
  of them once. -/
  partition : ∃ losses : List Placed,
    (∀ p, p ∈ losses ↔ p ∈ net.nodes ∧ order.Reaches net p ∧ p.operator.isLoss = true) ∧
      (order.root :: (order.nodes ++ losses ++ order.unreachable)).Perm net.nodes
  /-- Edges lead forward. -/
  forward : ∀ p ∈ order.root :: order.nodes, ∀ q ∈ order.root :: order.nodes,
    Feeds net.edges p.id q.id → [p, q].Sublist (order.root :: order.nodes)
  /-- No edge leads from the last node to another one. -/
  last : ∀ p, order.last? = some p → ∀ q ∈ order.root :: order.nodes, ¬ Feeds net.edges p.id q.id
  /-- The nodes come in the order in which a pass from the root counts them down. -/
  counted : ∃ listed,
    net.Counts (net.countersOf (net.reachable order.root.id)) [order.root.id] listed ∧
      order.nodes = (listed.filterMap net.find?).filter fun p =>
        p.id ≠ order.root.id ∧ ¬ p.operator.isLoss

end Emission

namespace Network.IsEmission

variable {net : Network} {order : Emission}

theorem find?_isRoot (h : net.IsEmission order) :
    net.nodes.find? (·.operator.isRoot) = some order.root := by
  rw [← List.head?_filter]
  exact h.root

theorem ne_root_iff (h : net.IsEmission order) {p : Placed} (hp : p ∈ net.nodes) :
    p ≠ order.root ↔ p.id ≠ order.root.id := by
  refine not_congr ⟨fun heq => heq ▸ rfl, fun hid => ?_⟩
  exact List.inj_on_of_nodup_map net.nodup_ids hp h.root_mem hid

theorem isLoss_root (h : net.IsEmission order) : order.root.operator.isLoss = false := by
  have hroot := h.isRoot_root
  unfold Operator.isRoot Category.isRoot at hroot
  unfold Operator.isLoss
  cases hcategory : order.root.operator.category <;> simp_all

theorem reaches_of_mem (h : net.IsEmission order) {p : Placed}
    (hp : p ∈ order.root :: order.nodes) : order.Reaches net p := by
  rcases List.mem_cons.1 hp with rfl | hp
  · exact .refl
  · exact ((h.mem_nodes p).1 hp).2.1

theorem not_feeds_root (h : net.IsEmission order) {p : Placed}
    (hp : p ∈ order.root :: order.nodes) : ¬ Feeds net.edges p.id order.root.id := fun hfeeds =>
  h.acyclic order.root.id (TransGen.tail' (h.reaches_of_mem hp) hfeeds)

/-- An edge between two nodes of the order leads forward. -/
theorem sublist_of_feeds (h : net.IsEmission order) {p q : Placed}
    (hp : p ∈ order.root :: order.nodes) (hq : q ∈ order.root :: order.nodes)
    (hfeeds : Feeds net.edges p.id q.id) : [p, q].Sublist (order.root :: order.nodes) := by
  rcases List.mem_cons.1 hq with rfl | hq
  · exact absurd hfeeds (h.not_feeds_root hp)
  · rcases List.mem_cons.1 hp with rfl | hp
    · exact (List.singleton_sublist.2 hq).cons_cons order.root
    · obtain ⟨before, after, hsplit⟩ := List.append_of_mem hq
      have hbefore := h.mem_before before q after hsplit p hp hfeeds
      rw [hsplit]
      have hbehind : [q].Sublist (q :: after) := List.singleton_sublist.2 List.mem_cons_self
      exact ((List.singleton_sublist.2 hbefore).append hbehind).cons order.root

theorem not_feeds_behind_last (h : net.IsEmission order) {last q : Placed}
    (hlast : order.last? = some last) (hq : q ∈ order.root :: order.nodes) :
    ¬ Feeds net.edges last.id q.id := by
  rcases List.mem_cons.1 hq with rfl | hq
  · exact h.not_feeds_root (List.mem_cons_of_mem _ (List.mem_of_getLast? hlast))
  · exact h.not_feeds_of_last hlast hq

open Classical in
/-- Every node is the root, emitted, a loss that is reached, or not reached. -/
theorem exists_partition (h : net.IsEmission order) (hunreachable : order.unreachable.Nodup) :
    ∃ losses : List Placed,
      (∀ p, p ∈ losses ↔ p ∈ net.nodes ∧ order.Reaches net p ∧ p.operator.isLoss = true) ∧
        (order.root :: (order.nodes ++ losses ++ order.unreachable)).Perm net.nodes := by
  let losses := net.nodes.filter fun p => order.Reaches net p ∧ p.operator.isLoss = true
  have hlosses : ∀ p, p ∈ losses ↔
      p ∈ net.nodes ∧ order.Reaches net p ∧ p.operator.isLoss = true := by
    intro p
    simp only [losses, List.mem_filter, decide_eq_true_iff]
  have hnodes : net.nodes.Nodup := net.nodup_ids.of_map
  have hemitted : ∀ p ∈ order.nodes, order.Reaches net p ∧ p.operator.isLoss = false :=
    fun p hp => ⟨((h.mem_nodes p).1 hp).2.1, ((h.mem_nodes p).1 hp).2.2.2⟩
  have hreached : ∀ p ∈ order.nodes ++ losses, order.Reaches net p := by
    intro p hp
    rcases List.mem_append.1 hp with hp | hp
    · exact (hemitted p hp).1
    · exact ((hlosses p).1 hp).2.1
  refine ⟨losses, hlosses, (List.perm_ext_iff_of_nodup ?_ hnodes).2 fun p => ?_⟩
  · refine List.nodup_cons.2 ⟨fun hroot => ?_, List.nodup_append.2
      ⟨List.nodup_append.2 ⟨h.nodup_ids.of_map, hnodes.filter _, ?_⟩, hunreachable, ?_⟩⟩
    · rcases List.mem_append.1 hroot with hroot | hroot
      · rcases List.mem_append.1 hroot with hroot | hroot
        · exact h.id_ne_root hroot rfl
        · have hloss := ((hlosses _).1 hroot).2.2
          rw [h.isLoss_root] at hloss
          cases hloss
      · exact ((h.mem_unreachable _).1 hroot).2 .refl
    · rintro p hp q hq rfl
      exact Bool.false_ne_true ((hemitted p hp).2.symm.trans ((hlosses p).1 hq).2.2)
    · rintro p hp q hq rfl
      exact ((h.mem_unreachable p).1 hq).2 (hreached p hp)
  · simp only [List.mem_cons, List.mem_append, hlosses, h.mem_nodes, h.mem_unreachable]
    constructor
    · rintro (rfl | (⟨hp, -⟩ | ⟨hp, -⟩) | ⟨hp, -⟩)
      · exact h.root_mem
      all_goals exact hp
    · intro hp
      by_cases hroot : p = order.root
      · exact .inl hroot
      · by_cases hreach : order.Reaches net p
        · cases hloss : p.operator.isLoss with
          | true => exact .inr (.inl (.inr ⟨hp, hreach, rfl⟩))
          | false => exact .inr (.inl (.inl ⟨hp, hreach, (h.ne_root_iff hp).1 hroot, rfl⟩))
        · exact .inr (.inr ⟨hp, hreach⟩)

end Network.IsEmission

/-- Whatever is emitted is an order of the drawing from its first dataset. -/
theorem emission_order (nodes : List Node) (edges : List Edge) (net : Network) (order : Emission)
    (hnet : Network.ofGraph nodes edges = .ok net) (horder : net.emission = .ok order) :
    net.IsOf nodes edges ∧ order.IsOrderOf net := by
  have h := Network.isEmission_of_emission horder
  obtain ⟨root, -, hacyclic, rfl⟩ := Network.emission_eq_ok_iff.1 horder
  have hunreachable : (net.emissionFrom root).unreachable.Sublist net.nodes :=
    List.filter_sublist
  refine ⟨Network.isOf_of_ofGraph hnet, h.find?_isRoot, h.nodup_ids, fun p => ?_, hunreachable,
    h.mem_unreachable, h.exists_partition (hunreachable.nodup net.nodup_ids.of_map),
    fun p hp q hq => h.sublist_of_feeds hp hq, fun p hp q hq => h.not_feeds_behind_last hp hq,
    _, Network.counts_reachable hacyclic (Network.id_mem_ids h.root_mem), rfl⟩
  rw [h.mem_nodes]
  exact and_congr_right fun hp => and_congr_right fun _ =>
    and_congr_left fun _ => (h.ne_root_iff hp).symm

/-- Two edges join the same ends, an edge comes in from a node that is not reached, and there is a
second dataset. -/
def Graph.tangled : Graph where
  nodes :=
    [{ id := "stray", operatorId := "relu" },
     { id := "data", operatorId := "dataset" },
     { id := "right", operatorId := "relu" },
     { id := "left", operatorId := "relu" },
     { id := "join", operatorId := "add" },
     { id := "loss", operatorId := "mseloss" },
     { id := "other", operatorId := "dataset" }]
  edges :=
    [{ id := "1", source := "data", target := "left" },
     { id := "2", source := "data", target := "left", kind := .sum },
     { id := "3", source := "data", target := "right" },
     { id := "4", source := "left", target := "right", kind := .residual },
     { id := "5", source := "right", target := "join" },
     { id := "6", source := "left", target := "join" },
     { id := "7", source := "stray", target := "join" },
     { id := "8", source := "join", target := "loss" }]

theorem emission_order_tangled :
    ∃ (net : Network) (order : Emission),
      Network.ofGraph Graph.tangled.nodes Graph.tangled.edges = .ok net ∧
      net.emission = .ok order ∧ order.nodes.map Placed.id = ["left", "right", "join"] ∧
      order.unreachable.map Placed.id = ["stray", "other"] ∧
      net.IsOf Graph.tangled.nodes Graph.tangled.edges ∧ order.IsOrderOf net := by
  have hvalue : (Network.ofGraph Graph.tangled.nodes Graph.tangled.edges).toOption.any (fun net =>
      net.emission.toOption.any fun order =>
        decide (order.nodes.map Placed.id = ["left", "right", "join"] ∧
          order.unreachable.map Placed.id = ["stray", "other"])) = true := by
    decide +kernel
  obtain ⟨net, hnet, hrest⟩ := exists_of_toOption_any hvalue
  obtain ⟨order, horder, hids⟩ := exists_of_toOption_any hrest
  obtain ⟨hnodes, hunreachable⟩ := of_decide_eq_true hids
  exact ⟨net, order, hnet, horder, hnodes, hunreachable,
    emission_order _ _ net order hnet horder⟩

end LayerGraph
