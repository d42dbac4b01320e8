import LayerGraph.Proofs.Order
import LayerGraph.Validation.Edge
import Mathlib.Data.List.Forall2
import Mathlib.Data.List.Nodup
/-!
# Drawn graphs and their networks

* `Network.IsOf net nodes edges`: the network holds the drawn nodes with their operators and those
  of the edges that join two of them. `Network.ofGraph` gives it (`isOf_of_ofGraph`), and gives one
  when ids are distinct and operators known (`exists_ofGraph`).
* `Network.IsOf.resolveEnds_iff`: the ends of an edge are the nodes that it joins in the network.
-/

namespace LayerGraph
set_option autoImplicit false

/-! ## Chains of tests -/

theorem bind_eq_ok_iff {ε α β : Type} {x : Except ε α} {f : α → Except ε β} {b : β} :
    x >>= f = .ok b ↔ ∃ a, x = .ok a ∧ f a = .ok b := by
  cases x with
  | error e => exact ⟨(nomatch ·), fun ⟨_, h, _⟩ => nomatch h⟩
  | ok a => exact ⟨fun h => ⟨a, rfl, h⟩, fun ⟨_, h, hf⟩ => Except.ok.inj h ▸ hf⟩

/-- A test that refuses under a condition and goes on otherwise. -/
theorem refuse_eq_ok_iff {ε α : Type} {p : Prop} [Decidable p] {e : ε} {x : Except ε α} {a : α} :
    (if p then .error e else x) = .ok a ↔ ¬ p ∧ x = .ok a := by
  by_cases hp : p <;> simp [hp]

theorem exists_of_toOption_any {ε α : Type} {x : Except ε α} {f : α → Bool}
    (h : x.toOption.any f = true) : ∃ a, x = .ok a ∧ f a = true := by
  cases x with
  | error e => cases h
  | ok a => exact ⟨a, rfl, h⟩

theorem exists_of_isSome_toOption {ε α : Type} {x : Except ε α} (h : x.toOption.isSome = true) :
    ∃ a, x = .ok a := by
  cases x with
  | error e => cases h
  | ok a => exact ⟨a, rfl⟩

theorem of_toOption_all {ε α : Type} {x : Except ε α} {f : α → Bool}
    (h : x.toOption.all f = true) {a : α} (ha : x = .ok a) : f a = true := by
  rw [ha] at h
  exact h

theorem mapError_eq_ok_iff {ε ε' α : Type} {x : Except ε α} {f : ε → ε'} {a : α} :
    x.mapError f = .ok a ↔ x = .ok a := by
  cases x <;> simp [Except.mapError]

theorem map_eq_ok_iff {ε α β : Type} {x : Except ε α} {f : α → β} {b : β} :
    x.map f = .ok b ↔ ∃ a, x = .ok a ∧ f a = b := by
  cases x <;> simp [Except.map]

theorem exists_mapM {ε α β : Type} {f : α → Except ε β} {items : List α}
    (h : ∀ a ∈ items, ∃ b, f a = .ok b) : ∃ results, items.mapM f = .ok results := by
  induction items with
  | nil => exact ⟨[], rfl⟩
  | cons a rest ih =>
    obtain ⟨b, hb⟩ := h a List.mem_cons_self
    obtain ⟨results, hresults⟩ := ih fun other hother => h other (List.mem_cons_of_mem _ hother)
    exact ⟨b :: results, by rw [List.mapM_cons, hb, hresults]; rfl⟩

theorem mapM_eq_ok_iff {ε α β : Type} {f : α → Except ε β} {items : List α} {results : List β} :
    items.mapM f = .ok results ↔ List.Forall₂ (fun a b => f a = .ok b) items results := by
  induction items generalizing results with
  | nil =>
    rw [List.forall₂_nil_left_iff]
    exact ⟨fun h => (Except.ok.inj h).symm, fun h => congrArg Except.ok h.symm⟩
  | cons a rest ih =>
    simp only [List.mapM_cons, List.forall₂_cons_left_iff, bind_eq_ok_iff, ih]
    constructor
    · rintro ⟨b, hb, more, hmore, h⟩
      exact ⟨b, more, hb, hmore, (Except.ok.inj h).symm⟩
    · rintro ⟨b, more, hb, hmore, rfl⟩
      exact ⟨b, hb, more, hmore, rfl⟩

theorem mem_of_mapM_eq_ok {ε α β : Type} {f : α → Except ε β} {items : List α} {results : List β}
    (h : items.mapM f = .ok results) {b : β} (hb : b ∈ results) : ∃ a ∈ items, f a = .ok b := by
  induction mapM_eq_ok_iff.1 h with
  | nil => cases hb
  | cons hfirst hrest ih =>
    rcases List.mem_cons.1 hb with rfl | hb
    · exact ⟨_, List.mem_cons_self, hfirst⟩
    · obtain ⟨a, ha, heq⟩ := ih (mapM_eq_ok_iff.2 hrest) hb
      exact ⟨a, List.mem_cons_of_mem _ ha, heq⟩

namespace Network

/-- The network holds the drawn nodes and the edges between them. -/
structure IsOf (net : Network) (nodes : List Node) (edges : List Edge) : Prop where
  nodes_eq : net.nodes.map Placed.node = nodes
  operator : ∀ p ∈ net.nodes, p.node.operator = .ok p.operator
  edges_eq : net.edges = edges.filter fun e => e.source ∈ net.ids ∧ e.target ∈ net.ids

/-! ## Placing nodes -/

theorem addNode_eq_ok {placed more : Nodes} {n : Node} (h : addNode placed n = .ok more) :
    ∃ operator, n.operator = .ok operator ∧ more.1 = placed.1 ++ [⟨n, operator⟩] := by
  unfold addNode at h
  split at h
  · cases h
  · rename_i operator hoperator
    split at h
    · cases h
    · exact ⟨operator, hoperator, by rw [← Except.ok.inj h]⟩

theorem foldlM_addNode_eq_ok {nodes : List Node} {placed more : Nodes}
    (h : nodes.foldlM addNode placed = .ok more) :
    ∃ added : List Placed, more.1 = placed.1 ++ added ∧ added.map Placed.node = nodes ∧
      ∀ p ∈ added, p.node.operator = .ok p.operator := by
  induction nodes generalizing placed with
  | nil =>
    obtain rfl := Except.ok.inj h
    exact ⟨[], by simp, rfl, fun _ hp => nomatch hp⟩
  | cons n rest ih =>
    rw [List.foldlM_cons] at h
    cases hadd : addNode placed n with
    | error fault =>
      rw [hadd] at h
      cases h
    | ok next =>
      rw [hadd] at h
      obtain ⟨operator, hoperator, hnext⟩ := addNode_eq_ok hadd
      obtain ⟨added, hmore, hnodes, hoperators⟩ := ih h
      refine ⟨⟨n, operator⟩ :: added, ?_, ?_, ?_⟩
      · rw [hmore, hnext, List.append_assoc, List.singleton_append]
      · rw [List.map_cons, hnodes]
      · intro p hp
        rcases List.mem_cons.1 hp with rfl | hp
        · exact hoperator
        · exact hoperators p hp

theorem exists_foldlM_addNode {nodes : List Node} (placed : Nodes)
    (hids : (placed.1.map Placed.id ++ nodes.map Node.id).Nodup)
    (hoperators : ∀ n ∈ nodes, ∃ operator, n.operator = .ok operator) :
    ∃ more, nodes.foldlM addNode placed = .ok more := by
  induction nodes generalizing placed with
  | nil => exact ⟨placed, rfl⟩
  | cons n rest ih =>
    obtain ⟨operator, hoperator⟩ := hoperators n List.mem_cons_self
    have hnew : n.id ∉ placed.1.map Placed.id := fun hmem =>
      (List.nodup_append.1 hids).2.2 n.id hmem n.id (by simp) rfl
    have hadd : addNode placed n = .ok ⟨placed.1 ++ [⟨n, operator⟩],
        nodup_append_single (p := ⟨n, operator⟩) placed.2 hnew⟩ := by
      simp only [addNode, hoperator, hnew, dif_neg, not_false_iff]
    rw [List.foldlM_cons, hadd]
    refine ih _ ?_ fun m hm => hoperators m (List.mem_cons_of_mem _ hm)
    rw [List.map_append, List.append_assoc]
    exact hids

theorem isOf_of_ofGraph {nodes : List Node} {edges : List Edge} {net : Network}
    (h : ofGraph nodes edges = .ok net) : net.IsOf nodes edges := by
  rw [ofGraph, placeNodes] at h
  cases hplaced : nodes.foldlM addNode ⟨[], by simp⟩ with
  | error fault =>
    rw [hplaced] at h
    cases h
  | ok placed =>
    rw [hplaced] at h
    obtain rfl := Except.ok.inj h
    obtain ⟨added, hadded, hnodes, hoperators⟩ := foldlM_addNode_eq_ok hplaced
    have heq : placed.1 = added := by simpa using hadded
    subst heq
    exact ⟨hnodes, hoperators, rfl⟩

theorem exists_ofGraph {nodes : List Node} (edges : List Edge)
    (hids : (nodes.map Node.id).Nodup)
    (hoperators : ∀ n ∈ nodes, ∃ operator, n.operator = .ok operator) :
    ∃ net, ofGraph nodes edges = .ok net := by
  obtain ⟨placed, hplaced⟩ :=
    exists_foldlM_addNode ⟨[], by simp⟩ (by simpa using hids) hoperators
  exact ⟨ofNodes placed edges, by rw [ofGraph, placeNodes, hplaced]; rfl⟩

/-! ## What a network holds -/

namespace IsOf

variable {net : Network} {nodes : List Node} {edges : List Edge}

theorem ids_eq (h : net.IsOf nodes edges) : net.ids = nodes.map Node.id := by
  rw [← h.nodes_eq, List.map_map]
  rfl

theorem nodup_ids (h : net.IsOf nodes edges) : (nodes.map Node.id).Nodup :=
  h.ids_eq ▸ net.nodup_ids

theorem node_mem (h : net.IsOf nodes edges) {p : Placed} (hp : p ∈ net.nodes) :
    p.node ∈ nodes := h.nodes_eq ▸ List.mem_map_of_mem hp

/-- Nodes that have a network have one with any edges. -/
theorem exists_ofGraph (h : net.IsOf nodes edges) (edges' : List Edge) :
    ∃ net', Network.ofGraph nodes edges' = .ok net' := by
  refine Network.exists_ofGraph edges' h.nodup_ids fun n hn => ?_
  rw [← h.nodes_eq] at hn
  obtain ⟨p, hp, rfl⟩ := List.mem_map.1 hn
  exact ⟨p.operator, h.operator p hp⟩

theorem mem_edges (h : net.IsOf nodes edges) {e : Edge} :
    e ∈ net.edges ↔ e ∈ edges ∧ e.source ∈ net.ids ∧ e.target ∈ net.ids := by
  rw [h.edges_eq, List.mem_filter, decide_eq_true_iff]

theorem edge_mem (h : net.IsOf nodes edges) {e : Edge} (he : e ∈ net.edges) : e ∈ edges :=
  (h.mem_edges.1 he).1

/-- When every edge joins two nodes, the network has all of them. -/
theorem edges_eq_of_ends (h : net.IsOf nodes edges)
    (hends : ∀ e ∈ edges, e.source ∈ net.ids ∧ e.target ∈ net.ids) : net.edges = edges := by
  rw [h.edges_eq, List.filter_eq_self]
  exact fun e he => decide_eq_true (hends e he)

theorem find?_iff (h : net.IsOf nodes edges) {id : String} {p : Placed} :
    nodes.find? (·.id == id) = some p.node ∧ p.node.operator = .ok p.operator ↔
      net.find? id = some p := by
  have hfind : nodes.find? (·.id == id) = (net.find? id).map Placed.node := by
    rw [← h.nodes_eq, List.find?_map]
    rfl
  rw [hfind]
  constructor
  · rintro ⟨hnode, hoperator⟩
    obtain ⟨q, hq, hqnode⟩ := Option.map_eq_some_iff.1 hnode
    have hqoperator := h.operator q (find?_eq_some_iff.1 hq).1
    rw [hqnode, hoperator] at hqoperator
    have heq : q = p := by
      cases p
      cases q
      simp_all
    rw [hq, heq]
  · intro hp
    exact ⟨by rw [hp]; rfl, h.operator p (find?_eq_some_iff.1 hp).1⟩

end IsOf
end Network

/-! ## Ends of edges -/

theorem findEnd_eq_ok_iff {nodes : List Node} {role : EndRole} {id : String} {n : Node} :
    findEnd nodes role id = .ok n ↔ nodes.find? (·.id == id) = some n := by
  unfold findEnd
  cases nodes.find? (·.id == id) with
  | none => exact ⟨(nomatch ·), (nomatch ·)⟩
  | some m => exact ⟨fun h => congrArg some (Except.ok.inj h), fun h => by rw [Option.some.inj h]⟩

/-- The ends of an edge: two different nodes of one graph, with their operators. -/
theorem resolveEnds_eq_ok_iff {e : Edge} {nodes : List Node} {ends : Ends} :
    resolveEnds e nodes = .ok ends ↔
      (nodes.find? (·.id == e.source) = some ends.source.node ∧
        ends.source.node.operator = .ok ends.source.operator) ∧
      (nodes.find? (·.id == e.target) = some ends.target.node ∧
        ends.target.node.operator = .ok ends.target.operator) ∧
      ends.source.node.isPipeline = ends.target.node.isPipeline ∧
      ends.source.id ≠ ends.target.id := by
  simp only [resolveEnds, bind_eq_ok_iff, findEnd_eq_ok_iff]
  constructor
  · rintro ⟨source, hsource, target, htarget, h⟩
    split at h
    · cases h
    · rename_i hgraph
      split at h
      · cases h
      · rename_i hself
        obtain ⟨producer, hproducer, h⟩ := bind_eq_ok_iff.1 h
        obtain ⟨consumer, hconsumer, h⟩ := bind_eq_ok_iff.1 h
        obtain rfl := Except.ok.inj h
        exact ⟨⟨hsource, hproducer⟩, ⟨htarget, hconsumer⟩, not_not.1 hgraph, hself⟩
  · rintro ⟨⟨hsource, hproducer⟩, ⟨htarget, hconsumer⟩, hgraph, hself⟩
    have hids : ¬ ends.source.node.id = ends.target.node.id := hself
    refine ⟨_, hsource, _, htarget, ?_⟩
    rw [if_neg (not_not.2 hgraph), if_neg hids]
    exact bind_eq_ok_iff.2 ⟨_, hproducer, bind_eq_ok_iff.2 ⟨_, hconsumer, rfl⟩⟩

theorem ids_of_resolveEnds {e : Edge} {nodes : List Node} {ends : Ends}
    (h : resolveEnds e nodes = .ok ends) :
    ends.source.id = e.source ∧ ends.target.id = e.target ∧ e.source ≠ e.target := by
  obtain ⟨⟨hsource, -⟩, ⟨htarget, -⟩, -, hne⟩ := resolveEnds_eq_ok_iff.1 h
  have hsourceid : ends.source.node.id = e.source := by simpa using List.find?_some hsource
  have htargetid : ends.target.node.id = e.target := by simpa using List.find?_some htarget
  exact ⟨hsourceid, htargetid, fun heq => hne (hsourceid.trans (heq.trans htargetid.symm))⟩

/-- In a network the ends of an edge are the nodes that it joins. -/
theorem Network.IsOf.resolveEnds_iff {net : Network} {nodes : List Node} {edges : List Edge}
    (h : net.IsOf nodes edges) {e : Edge} {ends : Ends} :
    resolveEnds e nodes = .ok ends ↔
      net.find? e.source = some ends.source ∧ net.find? e.target = some ends.target ∧
        ends.source.node.isPipeline = ends.target.node.isPipeline ∧
        e.source ≠ e.target := by
  rw [resolveEnds_eq_ok_iff, h.find?_iff, h.find?_iff]
  refine and_congr_right fun hsource => and_congr_right fun htarget => and_congr_right fun _ => ?_
  rw [(find?_eq_some_iff.1 hsource).2, (find?_eq_some_iff.1 htarget).2]

/-- An edge whose ends are found joins two nodes of the network. -/
theorem Network.IsOf.ends_mem_of_resolveEnds {net : Network} {nodes : List Node}
    {edges : List Edge} (h : net.IsOf nodes edges) {e : Edge} {ends : Ends}
    (hends : resolveEnds e nodes = .ok ends) : e.source ∈ net.ids ∧ e.target ∈ net.ids := by
  obtain ⟨hsource, htarget, -⟩ := h.resolveEnds_iff.1 hends
  obtain ⟨hs, hsid⟩ := find?_eq_some_iff.1 hsource
  obtain ⟨ht, htid⟩ := find?_eq_some_iff.1 htarget
  exact ⟨hsid ▸ id_mem_ids hs, htid ▸ id_mem_ids ht⟩

theorem Network.IsOf.edges_eq_of_resolveEnds {net : Network} {nodes : List Node}
    {edges : List Edge} (h : net.IsOf nodes edges)
    (hends : ∀ e ∈ edges, ∃ ends, resolveEnds e nodes = .ok ends) : net.edges = edges :=
  h.edges_eq_of_ends fun e he => (hends e he).elim fun _ => h.ends_mem_of_resolveEnds

end LayerGraph
