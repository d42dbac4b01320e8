import LayerGraph.Proofs.Order
/-!
# Emission orders

`Network.IsEmission net order` says what an emission order holds: the first root, the nodes that can
be reached from it but losses, each behind those that it is fed by, their operands and addends.
`Network.emission` gives such an order (`isEmission_of_emission`), and gives one for every acyclic
network with a root (`exists_emission`): it has a node for every id that it lists (`emission_eq`).
-/

namespace LayerGraph
set_option autoImplicit false
open Relation

/-! ## Ids in an order -/

namespace Emission

/-- The id is that of the root or of a node of the order. -/
def Emits (order : Emission) (id : String) : Prop :=
  id = order.root.id ∨ ∃ p ∈ order.nodes, p.id = id

theorem emits_of_mem {order : Emission} {p : Placed} (hp : p ∈ order.nodes) : order.Emits p.id :=
  .inr ⟨p, hp, rfl⟩

theorem emits_iff_mem_cons {order : Emission} {id : String} :
    order.Emits id ↔ ∃ p ∈ order.root :: order.nodes, p.id = id := by
  simp only [Emits, List.mem_cons, exists_eq_or_imp, eq_comm]

end Emission

/-- A list with at most one element for each element of another. -/
theorem flatMap_ite_singleton {α β : Type} (keep : α → Bool) (f : α → β) (items : List α) :
    items.flatMap (fun a => if keep a then [f a] else []) = (items.filter keep).map f := by
  induction items with
  | nil => rfl
  | cons a rest ih =>
    rw [List.flatMap_cons, ih, List.filter_cons]
    split <;> rfl

namespace Network

variable {net : Network}

/-! ## Emission orders -/

/-- What an emission order holds. -/
structure IsEmission (net : Network) (order : Emission) : Prop where
  acyclic : Acyclic net.edges
  root : net.roots.head? = some order.root
  mem_nodes : ∀ p, p ∈ order.nodes ↔
    p ∈ net.nodes ∧ ReflTransGen (Feeds net.edges) order.root.id p.id ∧ p.id ≠ order.root.id ∧
      p.operator.isLoss = false
  nodup_ids : (order.nodes.map Placed.id).Nodup
  mem_before : ∀ before p after, order.nodes = before ++ p :: after →
    ∀ q ∈ order.nodes, Feeds net.edges q.id p.id → q ∈ before
  inputsOf : ∀ p ∈ order.nodes, order.inputsOf p.id = net.operands p.id
  addendsOf : ∀ p ∈ net.nodes, ∀ kind, kind ≠ .normal →
    order.addendsOf kind p.id = if p.operator.isMerge then [] else net.sourcesOfKind kind p.id
  loss : order.loss = net.nodes.find? (·.operator.isLoss)
  mem_unreachable : ∀ p, p ∈ order.unreachable ↔
    p ∈ net.nodes ∧ ¬ ReflTransGen (Feeds net.edges) order.root.id p.id

/-! ## Parts of an order -/

theorem mem_of_id_mem {nodes : List Placed} (hnodes : ∀ p ∈ nodes, p ∈ net.nodes) {q : Placed}
    (hq : q ∈ net.nodes) (h : q.id ∈ nodes.map Placed.id) : q ∈ nodes := by
  obtain ⟨p, hp, hid⟩ := List.mem_map.1 h
  exact List.inj_on_of_nodup_map net.nodup_ids (hnodes p hp) hq hid ▸ hp

theorem mem_filterMap_find? {order : List String} {p : Placed} :
    p ∈ order.filterMap net.find? ↔ p ∈ net.nodes ∧ p.id ∈ order := by
  simp only [List.mem_filterMap, find?_eq_some_iff]
  constructor
  · rintro ⟨id, hid, hp, rfl⟩
    exact ⟨hp, hid⟩
  · exact fun ⟨hp, hid⟩ => ⟨p.id, hid, hp, rfl⟩

/-- Each of the ids of a network has its node. -/
theorem mapM_place {order : List String} (h : ∀ id ∈ order, id ∈ net.ids) :
    order.mapM net.place = .ok (order.filterMap net.find?) := by
  induction order with
  | nil => rfl
  | cons id rest ih =>
    obtain ⟨p, hfound⟩ := exists_find? (h id List.mem_cons_self)
    have hplace : net.place id = .ok p := by rw [place, hfound]
    have hrest := ih fun other hother => h other (List.mem_cons_of_mem _ hother)
    rw [List.mapM_cons, hplace, hrest, List.filterMap_cons_some hfound]
    rfl

/-- An element of a filtered list with what stands before it in the whole list. -/
theorem exists_split_of_filter {nodes : List Placed} {keep : Placed → Bool} {before : List Placed}
    {p : Placed} {after : List Placed} (h : nodes.filter keep = before ++ p :: after) :
    ∃ first second, nodes = first ++ p :: second ∧ ∀ q ∈ first, keep q → q ∈ before := by
  obtain ⟨first, second, rfl, rfl, hsecond⟩ := List.filter_eq_append_iff.1 h
  obtain ⟨third, fourth, rfl, hdropped, -, -⟩ := List.filter_eq_cons_iff.1 hsecond
  refine ⟨first ++ third, fourth, by simp, fun q hq hkeep => ?_⟩
  rcases List.mem_append.1 hq with hq | hq
  · exact List.mem_filter.2 ⟨hq, hkeep⟩
  · exact absurd hkeep (hdropped q hq)

theorem nodup_filterMap_fst {α : Type} {nodes : List Placed}
    (hnodes : (nodes.map Placed.id).Nodup) {f : Placed → Option (String × α)}
    (hf : ∀ p entry, f p = some entry → entry.1 = p.id) :
    ((nodes.filterMap f).map Prod.fst).Nodup := by
  induction nodes with
  | nil => exact .nil
  | cons p rest ih =>
    obtain ⟨hp, hrest⟩ := List.nodup_cons.1 hnodes
    cases hentry : f p with
    | none => simpa [hentry] using ih hrest
    | some entry =>
      rw [List.filterMap_cons_some hentry, List.map_cons]
      refine List.nodup_cons.2 ⟨fun hmem => hp ?_, ih hrest⟩
      obtain ⟨other, hother, hfst⟩ := List.mem_map.1 hmem
      obtain ⟨q, hq, hqentry⟩ := List.mem_filterMap.1 hother
      rw [← hf p entry hentry, ← hfst, hf q other hqentry]
      exact List.mem_map_of_mem hq

theorem eq_of_addendsAt?_eq_some {kind : EdgeKind} {p : Placed} {entry : String × List String}
    (h : net.addendsAt? kind p = some entry) :
    entry = (p.id, net.sourcesOfKind kind p.id) ∧ p.operator.isMerge = false := by
  unfold addendsAt? at h
  split at h
  · cases h
  · rename_i hmerge
    refine ⟨?_, by simpa using hmerge⟩
    split at h
    · cases h
    · exact (Option.some.inj h).symm

theorem get?_addends {kind : EdgeKind} {p : Placed} (hp : p ∈ net.nodes) :
    ((net.addends kind).get? p.id).getD [] =
      if p.operator.isMerge then [] else net.sourcesOfKind kind p.id := by
  have hkeys : ((net.nodes.filterMap (net.addendsAt? kind)).map Prod.fst).Nodup :=
    nodup_filterMap_fst net.nodup_ids fun q entry hentry => by
      rw [(eq_of_addendsAt?_eq_some hentry).1]
  cases hvalue : (net.addends kind).get? p.id with
  | some value =>
    obtain ⟨q, hq, hentry⟩ :=
      List.mem_filterMap.1 ((Table.get?_ofList_eq_some_iff hkeys).1 hvalue)
    obtain ⟨heq, hmerge⟩ := eq_of_addendsAt?_eq_some hentry
    obtain ⟨hid, rfl⟩ := Prod.mk.inj heq
    obtain rfl : q = p := List.inj_on_of_nodup_map net.nodup_ids hq hp hid.symm
    simp [hmerge]
  | none =>
    split
    · rfl
    · rename_i hmerge
      cases hsources : net.sourcesOfKind kind p.id with
      | nil => rfl
      | cons first rest =>
        have hentry : net.addendsAt? kind p = some (p.id, first :: rest) := by
          simp [addendsAt?, hmerge, hsources]
        have hsome := (Table.get?_ofList_eq_some_iff hkeys).2
          (List.mem_filterMap.2 ⟨p, hp, hentry⟩)
        unfold addends at hvalue
        exact absurd (hvalue.symm.trans hsome) (by simp)

/-! ## The order that is emitted -/

/-- What is emitted at a root, from the nodes that the listed ids have. -/
def emissionFrom (net : Network) (root : Placed) : Emission :=
  let reachable := net.reachable root.id
  let nodes := ((net.drain reachable [root.id]).filterMap net.find?).filter fun p =>
    p.id ≠ root.id ∧ ¬ p.operator.isLoss
  { root
    nodes
    inputs := Table.ofList (nodes.map fun p => (p.id, net.operands p.id))
    residualSources := net.addends .residual
    sumSources := net.addends .sum
    loss := net.nodes.find? (·.operator.isLoss)
    unreachable := net.nodes.filter (·.id ∉ reachable) }

theorem mem_ids_of_mem_drain {start id : String}
    (h : id ∈ net.drain (net.reachable start) [start]) : id ∈ net.ids :=
  (List.mem_filter.1 (mem_of_mem_drain h)).1

/-- No listed id vanishes: an order is refused only for want of a root or for a cycle. -/
theorem emission_eq :
    net.emission = (do
      let root ← net.root
      net.checkAcyclic
      .ok (net.emissionFrom root)) := by
  have hlisted : ∀ root : Placed,
      (net.drain (net.reachable root.id) [root.id]).mapM net.place =
        .ok ((net.drain (net.reachable root.id) [root.id]).filterMap net.find?) := fun root =>
    mapM_place fun id hid => mem_ids_of_mem_drain hid
  simp only [emission, hlisted]
  rfl

theorem emission_eq_ok_iff {order : Emission} :
    net.emission = .ok order ↔
      ∃ root, net.roots.head? = some root ∧ Acyclic net.edges ∧
        order = net.emissionFrom root := by
  rw [emission_eq, root]
  cases hroots : net.roots with
  | nil => simp [bind, Except.bind]
  | cons first rest =>
    cases hacyclic : net.checkAcyclic with
    | error fault =>
      have hnot : ¬ Acyclic net.edges := fun h => by
        rw [checkAcyclic_eq_ok_iff.2 h] at hacyclic
        cases hacyclic
      simp [bind, Except.bind, hnot]
    | ok =>
      have hok := checkAcyclic_eq_ok_iff.1 hacyclic
      simp only [bind, Except.bind, List.head?_cons, Option.some.injEq, exists_eq_left', hok,
        true_and]
      exact ⟨fun h => (Except.ok.inj h).symm, fun h => congrArg Except.ok h.symm⟩

theorem exists_emission {root : Placed} (hroot : net.roots.head? = some root)
    (hacyclic : Acyclic net.edges) : ∃ order, net.emission = .ok order :=
  ⟨_, emission_eq_ok_iff.2 ⟨root, hroot, hacyclic, rfl⟩⟩

theorem root_mem_of_head? {root : Placed} (h : net.roots.head? = some root) :
    root ∈ net.nodes ∧ root.operator.isRoot := by
  have hmem : root ∈ net.roots := List.mem_of_head? h
  exact List.mem_filter.1 hmem

theorem mem_drain_root (hacyclic : Acyclic net.edges) {root : Placed} (hroot : root ∈ net.nodes)
    {id : String} :
    id ∈ net.drain (net.reachable root.id) [root.id] ↔
      ReflTransGen (Feeds net.edges) root.id id := by
  have hroot := id_mem_ids hroot
  refine ⟨fun h => (mem_reachable hroot).1 (mem_of_mem_drain h), fun h =>
    mem_drain hacyclic (fun other hother hfree => ?_) ((mem_reachable hroot).2 h)⟩
  rcases ReflTransGen.cases_tail ((mem_reachable hroot).1 hother) with heq | ⟨s, hs, hfeeds⟩
  · exact heq ▸ List.mem_singleton_self _
  · exact absurd ((mem_reachable hroot).2 hs) (hfree s hfeeds)

theorem mem_before_of_drain_root (hacyclic : Acyclic net.edges) {root : Placed}
    (hroot : root ∈ net.nodes) {before : List String} {id : String} {after : List String}
    (horder : net.drain (net.reachable root.id) [root.id] = before ++ id :: after) {s : String}
    (hs : Feeds net.edges s id) (hreached : ReflTransGen (Feeds net.edges) root.id s) :
    s ∈ before := by
  have hroot := id_mem_ids hroot
  refine mem_before_of_drain (fun other hother t ht hmem => ?_) horder hs
    ((mem_reachable hroot).2 hreached)
  obtain rfl := List.mem_singleton.1 hother
  exact hacyclic root.id (TransGen.tail' ((mem_reachable hroot).1 hmem) ht)

theorem isEmission_emissionFrom (hacyclic : Acyclic net.edges) {root : Placed}
    (hhead : net.roots.head? = some root) : net.IsEmission (net.emissionFrom root) := by
  have hroot : root ∈ net.nodes := (root_mem_of_head? hhead).1
  let listed := net.drain (net.reachable root.id) [root.id]
  have hlisted : (listed.filterMap net.find?).map Placed.id = listed :=
    map_id_filterMap_find? fun id hid => mem_ids_of_mem_drain hid
  have hsub : ∀ p ∈ listed.filterMap net.find?, p ∈ net.nodes := fun p hp =>
    (mem_filterMap_find?.1 hp).1
  have hmem : ∀ p, p ∈ (net.emissionFrom root).nodes ↔
      p ∈ net.nodes ∧ ReflTransGen (Feeds net.edges) root.id p.id ∧ p.id ≠ root.id ∧
        p.operator.isLoss = false := by
    intro p
    simp only [emissionFrom, List.mem_filter, mem_filterMap_find?, mem_drain_root hacyclic hroot,
      and_assoc, decide_eq_true_iff, Bool.not_eq_true]
  have hnodup : ((net.emissionFrom root).nodes.map Placed.id).Nodup := by
    have hsublist : ((net.emissionFrom root).nodes.map Placed.id).Sublist listed := by
      conv => rhs; rw [← hlisted]
      exact List.filter_sublist.map _
    exact hsublist.nodup (nodup_drain _ _)
  refine ⟨hacyclic, hhead, hmem, hnodup, fun before p after horder q hq hfeeds => ?_,
    fun p hp => ?_, fun p hp kind hkind => ?_, rfl, fun p => ?_⟩
  · obtain ⟨first, second, hsplit, hbefore⟩ := exists_split_of_filter horder
    obtain ⟨hqnode, hqreached, -⟩ := (hmem q).1 hq
    have hids : listed = first.map Placed.id ++ p.id :: second.map Placed.id := by
      rw [← hlisted, ← List.map_cons, ← List.map_append]
      exact congrArg _ hsplit
    have hqid := mem_before_of_drain_root hacyclic hroot hids hfeeds hqreached
    have hfirst : ∀ r ∈ first, r ∈ net.nodes := fun r hr =>
      hsub r (hsplit ▸ List.mem_append_left _ hr)
    exact hbefore q (mem_of_id_mem hfirst hqnode hqid) (List.mem_filter.1 hq).2
  · have hkeys : (((net.emissionFrom root).nodes.map fun p =>
        (p.id, net.operands p.id)).map Prod.fst).Nodup := by
      rw [List.map_map]
      exact hnodup
    have hget : (net.emissionFrom root).inputs.get? p.id = some (net.operands p.id) :=
      (Table.get?_ofList_eq_some_iff hkeys).2 (List.mem_map_of_mem hp)
    rw [Emission.inputsOf, hget]
    rfl
  · cases kind with
    | normal => exact absurd rfl hkind
    | residual => exact get?_addends hp
    | sum => exact get?_addends hp
  · simp only [emissionFrom, List.mem_filter, decide_eq_true_iff,
      mem_reachable (id_mem_ids hroot)]

theorem isEmission_of_emission {order : Emission} (h : net.emission = .ok order) :
    net.IsEmission order := by
  obtain ⟨root, hhead, hacyclic, rfl⟩ := emission_eq_ok_iff.1 h
  exact isEmission_emissionFrom hacyclic hhead

namespace IsEmission

variable {order : Emission}

theorem root_mem (h : net.IsEmission order) : order.root ∈ net.nodes :=
  (root_mem_of_head? h.root).1

theorem isRoot_root (h : net.IsEmission order) : order.root.operator.isRoot :=
  (root_mem_of_head? h.root).2

theorem mem_net (h : net.IsEmission order) {p : Placed} (hp : p ∈ order.nodes) :
    p ∈ net.nodes := ((h.mem_nodes p).1 hp).1

theorem id_ne_root (h : net.IsEmission order) {p : Placed} (hp : p ∈ order.nodes) :
    p.id ≠ order.root.id := ((h.mem_nodes p).1 hp).2.2.1

/-- The last node feeds no emitted node. -/
theorem not_feeds_of_last (h : net.IsEmission order) {last : Placed}
    (hlast : order.last? = some last) {q : Placed} (hq : q ∈ order.nodes) :
    ¬ Feeds net.edges last.id q.id := by
  intro hfeeds
  obtain ⟨before, after, hsplit⟩ := List.append_of_mem hq
  have hbefore : last ∈ before := h.mem_before before q after hsplit last
    (List.mem_of_getLast? hlast) hfeeds
  have hbehind : last ∈ q :: after := by
    rw [Emission.last?, hsplit, List.getLast?_append_of_ne_nil _ (List.cons_ne_nil _ _)] at hlast
    exact List.mem_of_getLast? hlast
  have hnodup : (before ++ q :: after).Nodup := hsplit ▸ h.nodup_ids.of_map
  exact (List.nodup_append.1 hnodup).2.2 last hbefore last hbehind rfl

end IsEmission

end Network
end LayerGraph
