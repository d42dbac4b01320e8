import LayerGraph.Proofs.Retouch
import LayerGraph.Session
/-!
# Networks without some of their nodes

* `Graph.pruned` takes out the nodes that a report calls skipped, one after the other.
* `Network.restrict net keep` is a network with the nodes that are kept and the edges between them.
* `Network.Spares net order keep`: the nodes that are reached, the losses and whatever feeds an
  emitted node are kept. Then the same nodes are emitted in the same order, with the same operands
  and addends (`Spares.emission_restrict`, `Spares.inputsOf_eq`, `Spares.addendsOf_eq`).
-/

namespace LayerGraph
set_option autoImplicit false
open Relation

/-! ## Taking out nodes -/

/-- The nodes that are left out of the program although they are no losses. -/
def Emission.skipped (order : Emission) : List String :=
  (order.unreachable.filter fun p => ¬ p.operator.isLoss).map Placed.id

/-- The id is not that of a skipped node. -/
def Emission.keeps (order : Emission) (id : String) : Bool := id ∉ order.skipped

namespace Graph

/-- The graph without the nodes of some ids and without the edges at them. -/
def removeNodes (g : Graph) (ids : List String) : Graph := ids.foldl removeNode g

/-- The graph without the nodes that its emission order skips. -/
def pruned (g : Graph) : Graph :=
  match Network.ofGraph g.nodes g.edges >>= Network.emission with
  | .ok order => g.removeNodes order.skipped
  | .error _ => g

theorem removeNodes_eq (g : Graph) (ids : List String) :
    g.removeNodes ids =
      { nodes := g.nodes.filter fun n => n.id ∉ ids
        edges := g.edges.filter fun e => decide (e.source ∉ ids) && decide (e.target ∉ ids) } := by
  induction ids generalizing g with
  | nil => simp [removeNodes]
  | cons id rest ih =>
    have hcons : g.removeNodes (id :: rest) = (g.removeNode id).removeNodes rest := rfl
    rw [hcons, ih, removeNode, List.filter_filter, List.filter_filter]
    congr 1
    · apply List.filter_congr
      intro n _
      by_cases hid : n.id = id <;> simp [hid]
    · apply List.filter_congr
      intro e _
      by_cases hsource : e.source = id <;> by_cases htarget : e.target = id <;>
        simp [hsource, htarget]

theorem pruned_eq {g : Graph} {net : Network} {order : Emission}
    (hnet : Network.ofGraph g.nodes g.edges = .ok net) (horder : net.emission = .ok order) :
    g.pruned =
      { nodes := g.nodes.filter fun n => order.keeps n.id
        edges := g.edges.filter fun e => order.keeps e.source && order.keeps e.target } := by
  have hemission : (Network.ofGraph g.nodes g.edges >>= Network.emission) = .ok order := by
    rw [hnet]
    exact horder
  rw [pruned, hemission]
  exact g.removeNodes_eq order.skipped

end Graph

/-- Elements that contribute nothing can be left out. -/
theorem flatMap_filter_of_eq_nil {α β : Type} {keep : α → Bool} {f : α → List β}
    (h : ∀ a, keep a = false → f a = []) (items : List α) :
    (items.filter keep).flatMap f = items.flatMap f := by
  induction items with
  | nil => rfl
  | cons a rest ih =>
    cases ha : keep a with
    | true => rw [List.filter_cons_of_pos ha, List.flatMap_cons, List.flatMap_cons, ih]
    | false =>
      rw [List.filter_cons_of_neg (Bool.eq_false_iff.1 ha), List.flatMap_cons, h a ha,
        List.nil_append, ih]

namespace Network

/-! ## Restricted networks -/

/-- The network without the nodes that are not kept and without the edges at them. -/
def restrict (net : Network) (keep : String → Bool) : Network where
  nodes := net.nodes.filter fun p => keep p.id
  edges := net.edges.filter fun e => keep e.source && keep e.target
  nodup_ids := (List.filter_sublist.map Placed.id).nodup net.nodup_ids
  ends_mem := by
    intro e he
    obtain ⟨he, hkeep⟩ := List.mem_filter.1 he
    obtain ⟨hsource, htarget⟩ := Bool.and_eq_true_iff.1 hkeep
    obtain ⟨hsourceMem, htargetMem⟩ := net.ends_mem e he
    have hkept : ∀ id ∈ net.nodes.map Placed.id, keep id = true →
        id ∈ (net.nodes.filter fun p => keep p.id).map Placed.id := by
      intro id hid hkeep
      obtain ⟨p, hp, rfl⟩ := List.mem_map.1 hid
      exact List.mem_map_of_mem (List.mem_filter.2 ⟨hp, hkeep⟩)
    exact ⟨hkept _ hsourceMem hsource, hkept _ htargetMem htarget⟩

section Restrict

variable (net : Network) (keep : String → Bool)

theorem ids_restrict : (net.restrict keep).ids = net.ids.filter keep := by
  rw [ids, ids, List.filter_map]
  rfl

variable {net keep}

theorem mem_nodes_restrict {p : Placed} :
    p ∈ (net.restrict keep).nodes ↔ p ∈ net.nodes ∧ keep p.id = true := List.mem_filter

theorem mem_edges_restrict {e : Edge} :
    e ∈ (net.restrict keep).edges ↔
      e ∈ net.edges ∧ keep e.source = true ∧ keep e.target = true := by
  rw [restrict, List.mem_filter, Bool.and_eq_true]

theorem feeds_restrict {a b : String} :
    Feeds (net.restrict keep).edges a b ↔
      Feeds net.edges a b ∧ keep a = true ∧ keep b = true := by
  constructor
  · rintro ⟨e, he, rfl, rfl⟩
    obtain ⟨he, hkeep⟩ := mem_edges_restrict.1 he
    exact ⟨⟨e, he, rfl, rfl⟩, hkeep⟩
  · rintro ⟨⟨e, he, rfl, rfl⟩, hkeep⟩
    exact ⟨e, mem_edges_restrict.2 ⟨he, hkeep⟩, rfl, rfl⟩

theorem find?_restrict {id : String} (hid : keep id = true) :
    (net.restrict keep).find? id = net.find? id := by
  apply Option.ext
  intro p
  rw [find?_eq_some_iff, find?_eq_some_iff, mem_nodes_restrict]
  constructor
  · rintro ⟨⟨hp, -⟩, hpid⟩
    exact ⟨hp, hpid⟩
  · rintro ⟨hp, rfl⟩
    exact ⟨⟨hp, hid⟩, rfl⟩

theorem isMerge_restrict {id : String} (hid : keep id = true) :
    (net.restrict keep).isMerge id = net.isMerge id := by
  rw [isMerge, isMerge, find?_restrict hid]

/-- A choice of edges is the same if it only takes edges between kept nodes. -/
theorem filter_edges_restrict {test : Edge → Bool}
    (h : ∀ e ∈ net.edges, test e = true → keep e.source = true ∧ keep e.target = true) :
    (net.restrict keep).edges.filter test = net.edges.filter test := by
  rw [restrict, List.filter_filter]
  apply List.filter_congr
  intro e he
  cases htest : test e with
  | false => rfl
  | true =>
    obtain ⟨hsource, htarget⟩ := h e he htest
    rw [hsource, htarget]
    rfl

/-- A kept node whose targets are kept has all of its outgoing edges. -/
theorem outgoing_restrict {id : String} (hid : keep id = true)
    (htargets : ∀ target, Feeds net.edges id target → keep target = true) :
    (net.restrict keep).outgoing id = net.outgoing id := by
  apply filter_edges_restrict
  intro e he hsource
  obtain rfl := beq_iff_eq.1 hsource
  exact ⟨hid, htargets e.target ⟨e, he, rfl, rfl⟩⟩

/-- A kept node whose sources are kept has all of its incoming edges. -/
theorem incoming_restrict {id : String} (hid : keep id = true)
    (hsources : ∀ source, Feeds net.edges source id → keep source = true) :
    (net.restrict keep).incoming id = net.incoming id := by
  apply filter_edges_restrict
  intro e he htarget
  obtain rfl := beq_iff_eq.1 htarget
  exact ⟨hsources e.source ⟨e, he, rfl, rfl⟩, hid⟩

theorem operands_restrict {id : String} (hid : keep id = true)
    (hsources : ∀ source, Feeds net.edges source id → keep source = true) :
    (net.restrict keep).operands id = net.operands id := by
  rw [operands, operands, isMerge_restrict hid, incoming_restrict hid hsources]

theorem sourcesOfKind_restrict {kind : EdgeKind} {id : String} (hid : keep id = true)
    (hsources : ∀ source, Feeds net.edges source id → keep source = true) :
    (net.restrict keep).sourcesOfKind kind id = net.sourcesOfKind kind id := by
  -- What a node that is taken out contributes is nothing, and a kept one contributes the same.
  have hedges : ∀ source, (((net.restrict keep).outgoing source).filter fun e =>
      e.target = id ∧ e.kind = kind) =
        (net.outgoing source).filter fun e => e.target = id ∧ e.kind = kind := by
    intro source
    rw [outgoing, outgoing, List.filter_filter, List.filter_filter]
    apply filter_edges_restrict
    intro e he htest
    obtain ⟨htarget, -⟩ := of_decide_eq_true (Bool.and_eq_true_iff.1 htest).1
    exact ⟨hsources e.source ⟨e, he, rfl, htarget⟩, htarget ▸ hid⟩
  have hdropped : ∀ p : Placed, keep p.id = false →
      ((net.outgoing p.id).filter fun e => e.target = id ∧ e.kind = kind) = [] := by
    intro p hp
    apply List.filter_eq_nil_iff.2
    intro e he hkind
    obtain ⟨he, hsource⟩ := List.mem_filter.1 he
    have hkept := hsources e.source ⟨e, he, rfl, (of_decide_eq_true hkind).1⟩
    rw [beq_iff_eq.1 hsource, hp] at hkept
    cases hkept
  simp only [sourcesOfKind, hedges]
  exact flatMap_filter_of_eq_nil (fun p hp => by rw [hdropped p hp, List.map_nil]) net.nodes

theorem released_restrict {pending : List String} (hpending : ∀ id ∈ pending, keep id = true)
    {id : String} (hid : keep id = true)
    (htargets : ∀ target, Feeds net.edges id target → keep target = true) :
    (net.restrict keep).released pending id = net.released pending id := by
  rw [released, released, targets, targets, outgoing_restrict hid htargets]
  apply List.filter_congr
  intro target htarget
  have hkept : keep target = true :=
    htargets target (mem_targets.1 (mem_lastOccurrences.1 htarget))
  -- A source that is taken out is not pending.
  apply Bool.eq_iff_iff.2
  simp only [List.all_eq_true, mem_sources, decide_eq_true_eq, feeds_restrict]
  constructor
  · intro h source hsource hmem
    exact h source ⟨hsource, hpending source hmem, hkept⟩ hmem
  · intro h source hsource
    exact h source hsource.1

theorem drain_restrict {pending queue : List String}
    (hpending : ∀ id ∈ pending,
      keep id = true ∧ ∀ target, Feeds net.edges id target → keep target = true) :
    (net.restrict keep).drain pending queue = net.drain pending queue := by
  fun_induction net.drain pending queue with
  | case1 => rw [drain]
  | case2 pending id queue hid left ih =>
    have hleft : ∀ other ∈ left, other ∈ pending := fun other hother =>
      (Search.mem_without.1 hother).1
    obtain ⟨hkept, htargets⟩ := hpending id hid
    rw [drain, if_pos hid]
    have hreleased : (net.restrict keep).released left id = net.released left id :=
      released_restrict (fun other hother => (hpending other (hleft other hother)).1) hkept htargets
    show id :: (net.restrict keep).drain left (queue ++ (net.restrict keep).released left id) = _
    rw [hreleased, ih fun other hother => hpending other (hleft other hother)]
  | case3 pending id queue hid ih => rw [drain, if_neg hid, ih hpending]

/-! ## Drawings of restricted networks -/

variable {nodes : List Node} {edges : List Edge}

theorem IsOf.restrict (h : net.IsOf nodes edges) (keep : String → Bool) :
    (net.restrict keep).IsOf (nodes.filter fun n => keep n.id)
      (edges.filter fun e => keep e.source && keep e.target) where
  nodes_eq := by
    rw [← h.nodes_eq, List.filter_map]
    rfl
  operator := fun p hp => h.operator p (mem_nodes_restrict.1 hp).1
  edges_eq := by
    have hedges : (net.restrict keep).edges =
        net.edges.filter fun e => keep e.source && keep e.target := rfl
    rw [hedges, h.edges_eq, List.filter_filter, List.filter_filter, ids_restrict]
    apply List.filter_congr
    intro e _
    cases hsource : keep e.source <;> cases htarget : keep e.target <;>
      simp [hsource, htarget, List.mem_filter]

end Restrict

/-! ## Restrictions that spare the emission order -/

/-- What is reached, the losses and the sources of emitted nodes are kept. -/
structure Spares (net : Network) (order : Emission) (keep : String → Bool) : Prop where
  reached : ∀ id, ReflTransGen (Feeds net.edges) order.root.id id → keep id = true
  losses : ∀ p ∈ net.nodes, p.operator.isLoss = true → keep p.id = true
  sources : ∀ p ∈ order.nodes, ∀ source, Feeds net.edges source p.id → keep source = true

namespace Spares

variable {net : Network} {order : Emission} {keep : String → Bool}

theorem reaches_iff (h : net.Spares order keep) {id : String} :
    ReflTransGen (Feeds (net.restrict keep).edges) order.root.id id ↔
      ReflTransGen (Feeds net.edges) order.root.id id := by
  constructor
  · exact path_mono fun e he => (mem_edges_restrict.1 he).1
  · intro hreached
    induction hreached with
    | refl => exact .refl
    | tail hbefore hfeeds ih =>
      exact ih.tail (feeds_restrict.2
        ⟨hfeeds, h.reached _ hbefore, h.reached _ (hbefore.tail hfeeds)⟩)

theorem root_mem (h : net.Spares order keep) (hroot : order.root ∈ net.nodes) :
    order.root ∈ (net.restrict keep).nodes :=
  mem_nodes_restrict.2 ⟨hroot, h.reached _ .refl⟩

theorem reachable_restrict (h : net.Spares order keep) (hroot : order.root ∈ net.nodes) :
    (net.restrict keep).reachable order.root.id = net.reachable order.root.id := by
  -- Both are what is reached, in the order of the nodes.
  have hfilter : ∀ net' : Network,
      net'.reachable order.root.id = net'.ids.filter (· ∈ net'.reachable order.root.id) := by
    intro net'
    simp only [reachable]
    apply List.filter_congr
    intro id hid
    simp [hid]
  rw [hfilter (net.restrict keep), hfilter net, ids_restrict, List.filter_filter]
  apply List.filter_congr
  intro id _
  rw [Bool.eq_iff_iff, Bool.and_eq_true, decide_eq_true_iff, decide_eq_true_iff,
    mem_reachable (id_mem_ids hroot), mem_reachable (id_mem_ids (h.root_mem hroot)),
    h.reaches_iff]
  exact ⟨And.left, fun hreached => ⟨hreached, h.reached id hreached⟩⟩

theorem find?_isLoss_restrict (h : net.Spares order keep) :
    (net.restrict keep).nodes.find? (·.operator.isLoss) =
      net.nodes.find? (·.operator.isLoss) := by
  rw [← List.head?_filter, ← List.head?_filter, restrict, List.filter_filter]
  apply congrArg List.head?
  apply List.filter_congr
  intro p hp
  cases hloss : p.operator.isLoss with
  | false => rfl
  | true => exact h.losses p hp hloss

theorem head?_roots_restrict (h : net.Spares order keep)
    (hroot : net.roots.head? = some order.root) :
    (net.restrict keep).roots.head? = some order.root := by
  have hroots : (net.restrict keep).roots = net.roots.filter fun p => keep p.id := by
    rw [roots, roots, restrict, List.filter_filter, List.filter_filter]
    exact List.filter_congr fun p _ => Bool.and_comm _ _
  rw [hroots]
  obtain ⟨rest, hrest⟩ := List.head?_eq_some_iff.1 hroot
  have hkept : keep order.root.id = true := h.reached _ .refl
  simp [hrest, hkept]

/-- The restricted network is emitted from the same root, with the same nodes in the same order. -/
theorem emission_restrict (h : net.Spares order keep) (horder : net.emission = .ok order) :
    ∃ order', (net.restrict keep).emission = .ok order' ∧ order'.root = order.root ∧
      order'.nodes = order.nodes ∧ order'.loss = order.loss := by
  obtain ⟨root, hhead, hacyclic, heq⟩ := emission_eq_ok_iff.1 horder
  obtain rfl : root = order.root := by rw [heq]; rfl
  have hroot := (root_mem_of_head? hhead).1
  have hrestricted : Acyclic (net.restrict keep).edges :=
    hacyclic.mono fun e he => (mem_edges_restrict.1 he).1
  refine ⟨(net.restrict keep).emissionFrom order.root,
    emission_eq_ok_iff.2 ⟨_, h.head?_roots_restrict hhead, hrestricted, rfl⟩, rfl, ?_, ?_⟩
  · have hdrain : (net.restrict keep).drain (net.reachable order.root.id) [order.root.id] =
        net.drain (net.reachable order.root.id) [order.root.id] := by
      apply drain_restrict
      intro id hid
      have hreached := (mem_reachable (id_mem_ids hroot)).1 hid
      exact ⟨h.reached id hreached, fun target hfeeds => h.reached target (hreached.tail hfeeds)⟩
    have hfind : (net.drain (net.reachable order.root.id) [order.root.id]).filterMap
          (net.restrict keep).find? =
        (net.drain (net.reachable order.root.id) [order.root.id]).filterMap net.find? := by
      apply List.filterMap_congr
      intro id hid
      exact find?_restrict (h.reached id ((mem_drain_root hacyclic hroot).1 hid))
    have hnodes : order.nodes = (net.emissionFrom order.root).nodes := congrArg Emission.nodes heq
    rw [hnodes]
    simp only [emissionFrom, h.reachable_restrict hroot, hdrain, hfind]
  · have hloss : order.loss = (net.emissionFrom order.root).loss := congrArg Emission.loss heq
    rw [hloss]
    exact h.find?_isLoss_restrict

variable {order' : Emission}

theorem keep_of_mem (h : net.Spares order keep) (hemission : net.IsEmission order) {p : Placed}
    (hp : p ∈ order.nodes) : keep p.id = true :=
  h.reached p.id ((hemission.mem_nodes p).1 hp).2.1

theorem operands_eq (h : net.Spares order keep) (hemission : net.IsEmission order) {p : Placed}
    (hp : p ∈ order.nodes) : (net.restrict keep).operands p.id = net.operands p.id :=
  operands_restrict (h.keep_of_mem hemission hp) (h.sources p hp)

theorem inputsOf_eq (h : net.Spares order keep) (hemission : net.IsEmission order)
    (hemission' : (net.restrict keep).IsEmission order') (hnodes : order'.nodes = order.nodes)
    {p : Placed} (hp : p ∈ order.nodes) : order'.inputsOf p.id = order.inputsOf p.id := by
  rw [hemission.inputsOf p hp, hemission'.inputsOf p (hnodes ▸ hp), h.operands_eq hemission hp]

theorem addendsOf_eq (h : net.Spares order keep) (hemission : net.IsEmission order)
    (hemission' : (net.restrict keep).IsEmission order') {p : Placed} (hp : p ∈ order.nodes)
    (kind : EdgeKind) : order'.addendsOf kind p.id = order.addendsOf kind p.id := by
  by_cases hkind : kind = .normal
  · rw [hkind]
    rfl
  · have hnet := hemission.mem_net hp
    have hkept := h.keep_of_mem hemission hp
    rw [hemission.addendsOf p hnet kind hkind,
      hemission'.addendsOf p (mem_nodes_restrict.2 ⟨hnet, hkept⟩) kind hkind,
      sourcesOfKind_restrict hkept (h.sources p hp)]

end Spares

end Network
end LayerGraph
