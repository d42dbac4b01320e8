import LayerGraph.Network.Order
import LayerGraph.Proofs.Links
import LayerGraph.Proofs.Search
import Mathlib.Data.List.Nodup
/-!
# Orders of a network

* `Network.checkAcyclic_eq_ok_iff`: the test for cycles succeeds exactly when there is none, and
  `Network.leads_back_of_cycleNode?`: the reported node is led back to.
* `Network.drain` lists all pending nodes of an acyclic network (`mem_drain`), each once
  (`nodup_drain`), and behind its pending sources (`mem_before_of_drain`).
* `Network.topological` therefore orders every acyclic network (`exists_topological`).
-/

namespace LayerGraph
set_option autoImplicit false
open Relation

theorem find?_id_eq_some_iff {nodes : List Placed} (hids : (nodes.map Placed.id).Nodup)
    {id : String} {p : Placed} :
    nodes.find? (·.id == id) = some p ↔ p ∈ nodes ∧ p.id = id := by
  constructor
  · intro h
    exact ⟨List.mem_of_find?_eq_some h, by simpa using List.find?_some h⟩
  · rintro ⟨hp, rfl⟩
    have hmem : (nodes.find? (·.id == p.id)).isSome := List.find?_isSome.2 ⟨p, hp, by simp⟩
    obtain ⟨q, hq⟩ := Option.isSome_iff_exists.1 hmem
    have hid : q.id = p.id := by simpa using List.find?_some hq
    rw [hq, List.inj_on_of_nodup_map hids (List.mem_of_find?_eq_some hq) hp hid]

namespace Network

variable {net : Network}

/-! ## Nodes and edges -/

theorem mem_targets {a b : String} : b ∈ net.targets a ↔ Feeds net.edges a b := by
  simp [targets, outgoing, Feeds, and_assoc]

theorem mem_sources {a b : String} : a ∈ net.sources b ↔ Feeds net.edges a b := by
  simp only [sources, incoming, Feeds, List.mem_map, List.mem_filter, beq_iff_eq]
  constructor
  · rintro ⟨e, ⟨he, htarget⟩, hsource⟩
    exact ⟨e, he, hsource, htarget⟩
  · rintro ⟨e, he, hsource, htarget⟩
    exact ⟨e, ⟨he, htarget⟩, hsource⟩

theorem linked_targets : Search.Linked net.targets = Feeds net.edges := by
  funext a b
  exact propext mem_targets

theorem linked_latestTargets : Search.Linked net.latestTargets = Feeds net.edges := by
  funext a b
  exact propext (List.mem_reverse.trans mem_targets)

theorem source_mem_ids {a b : String} (h : Feeds net.edges a b) : a ∈ net.ids := by
  obtain ⟨e, he, rfl, -⟩ := h
  exact (net.ends_mem e he).1

theorem target_mem_ids {a b : String} (h : Feeds net.edges a b) : b ∈ net.ids := by
  obtain ⟨e, he, -, rfl⟩ := h
  exact (net.ends_mem e he).2

theorem id_mem_ids {p : Placed} (h : p ∈ net.nodes) : p.id ∈ net.ids := List.mem_map_of_mem h

theorem find?_eq_some_iff {id : String} {p : Placed} :
    net.find? id = some p ↔ p ∈ net.nodes ∧ p.id = id := find?_id_eq_some_iff net.nodup_ids

theorem exists_find? {id : String} (h : id ∈ net.ids) : ∃ p, net.find? id = some p := by
  obtain ⟨p, hp, hid⟩ := List.mem_map.1 h
  exact ⟨p, find?_eq_some_iff.2 ⟨hp, hid⟩⟩

theorem map_id_filterMap_find? {order : List String} (h : ∀ id ∈ order, id ∈ net.ids) :
    (order.filterMap net.find?).map Placed.id = order := by
  induction order with
  | nil => rfl
  | cons id rest ih =>
    obtain ⟨p, hp⟩ := exists_find? (h id List.mem_cons_self)
    rw [List.filterMap_cons_some hp, List.map_cons, (find?_eq_some_iff.1 hp).2,
      ih fun other hother => h other (List.mem_cons_of_mem _ hother)]

/-! ## Cycles -/

theorem leads_back_of_cycleNode? {id : String} (h : net.cycleNode? = some id) :
    TransGen (Feeds net.edges) id id := by
  have hclosed : ∀ a ∈ net.ids, ∀ b, Search.Linked net.latestTargets a b → b ∈ net.ids :=
    fun a _ b hab => target_mem_ids (linked_latestTargets ▸ hab)
  unfold cycleNode? at h
  split at h
  · rename_i name hfinishing
    obtain rfl := Option.some.inj h
    have hloop := Search.linked_of_finishing_eq_error hclosed hfinishing
    exact .single (linked_latestTargets ▸ hloop)
  · rename_i order hfinishing
    have hsearch := Search.searching_of_finishing_eq_ok hclosed hfinishing
    obtain ⟨before, name, after, horder, hlink, hid, hne, hbefore⟩ :=
      Search.exists_of_backLink?_eq_some h
    have hfeeds : Feeds net.edges id name := mem_sources.1 hlink
    -- The source is finished before its target although it stands behind it in the order.
    have hafter : id ∈ after := by
      have hmem : id ∈ before ++ name :: after := horder ▸ hsearch.mem_order hid
      rcases List.mem_append.1 hmem with hmem | hmem
      · exact absurd hmem hbefore
      · exact (List.mem_cons.1 hmem).resolve_left hne
    obtain ⟨between, earlier, rfl⟩ := List.append_of_mem hafter
    have hfinished := hsearch.order (before ++ name :: between) id earlier
      (by rw [horder]; simp) name (by rw [linked_latestTargets]; exact hfeeds)
    rcases hfinished with hearlier | hback
    · have hnodup := hsearch.nodup
      rw [horder, List.nodup_append] at hnodup
      have hname : name ∉ between ++ id :: earlier := (List.nodup_cons.1 hnodup.2.1).1
      exact absurd (List.mem_append_right _ (List.mem_cons_of_mem _ hearlier)) hname
    · rw [linked_latestTargets] at hback
      exact TransGen.head hfeeds hback

/-- If no node is reported, the order of the first pass goes along all edges. -/
theorem acyclic_of_cycleNode?_eq_none (h : net.cycleNode? = none) : Acyclic net.edges := by
  have hclosed : ∀ a ∈ net.ids, ∀ b, Search.Linked net.latestTargets a b → b ∈ net.ids :=
    fun a _ b hab => target_mem_ids (linked_latestTargets ▸ hab)
  unfold cycleNode? at h
  split at h
  · cases h
  · rename_i order hfinishing
    have hsearch := Search.searching_of_finishing_eq_ok hclosed hfinishing
    refine acyclic_of_mem_before (fun a b hab => hsearch.mem_order (target_mem_ids hab))
      fun before b after horder hbefore a hab => ?_
    have hne : a ≠ b := fun heq =>
      hsearch.loopless b (target_mem_ids hab) List.not_mem_nil
        (linked_latestTargets ▸ (heq ▸ hab : Feeds net.edges b b))
    exact Search.mem_before_of_backLink?_eq_none h horder (target_mem_ids hab) hbefore
      (mem_sources.2 hab) (source_mem_ids hab) hne

theorem checkAcyclic_eq_ok_iff : net.checkAcyclic = .ok () ↔ Acyclic net.edges := by
  unfold checkAcyclic
  split
  · rename_i id hid
    have hback := leads_back_of_cycleNode? hid
    exact ⟨(nomatch ·), fun h => absurd hback (h id)⟩
  · rename_i hnone
    exact ⟨fun _ => acyclic_of_cycleNode?_eq_none hnone, fun _ => rfl⟩

/-! ## Reaching -/

theorem mem_reachable {start id : String} (hstart : start ∈ net.ids) :
    id ∈ net.reachable start ↔ ReflTransGen (Feeds net.edges) start id := by
  have hclosed : ∀ a ∈ net.ids, ∀ b, Search.Linked net.targets a b → b ∈ net.ids :=
    fun a _ b hab => target_mem_ids (linked_targets ▸ hab)
  have hvisit : id ∈ Search.visit net.targets net.ids [start] ↔
      ReflTransGen (Feeds net.edges) start id := by
    rw [← linked_targets]
    exact Search.mem_visit_iff hclosed hstart
  have hids : ReflTransGen (Feeds net.edges) start id → id ∈ net.ids := fun h => by
    rcases ReflTransGen.cases_tail h with rfl | ⟨b, -, hb⟩
    · exact hstart
    · exact target_mem_ids hb
  simp only [reachable, List.mem_filter, decide_eq_true_iff, hvisit]
  exact ⟨And.right, fun h => ⟨hids h, h⟩⟩

/-! ## Draining -/

theorem mem_lastOccurrences {names : List String} {name : String} :
    name ∈ lastOccurrences names ↔ name ∈ names := by
  induction names with
  | nil => exact Iff.rfl
  | cons a rest ih =>
    unfold lastOccurrences
    split
    · rename_i ha
      rw [ih, List.mem_cons]
      exact ⟨.inr, fun h => h.elim (fun heq => heq ▸ ha) id⟩
    · rw [List.mem_cons, List.mem_cons, ih]

theorem mem_released {pending : List String} {id target : String} :
    target ∈ net.released pending id ↔
      Feeds net.edges id target ∧ ∀ s, Feeds net.edges s target → s ∉ pending := by
  simp only [released, List.mem_filter, mem_lastOccurrences, mem_targets, List.all_eq_true,
    mem_sources, decide_eq_true_eq]

theorem mem_of_mem_drain {pending queue : List String} {id : String}
    (h : id ∈ net.drain pending queue) : id ∈ pending := by
  fun_induction drain net pending queue with
  | case1 => cases h
  | case2 pending first queue hfirst left ih =>
    rcases List.mem_cons.1 h with rfl | h
    · exact hfirst
    · exact (Search.mem_without.1 (ih h)).1
  | case3 _ _ _ _ ih => exact ih h

theorem nodup_drain (pending queue : List String) : (net.drain pending queue).Nodup := by
  fun_induction drain net pending queue with
  | case1 => exact .nil
  | case2 pending first queue _ left ih =>
    refine List.nodup_cons.2 ⟨fun h => ?_, ih⟩
    exact (Search.mem_without.1 (mem_of_mem_drain h)).2 rfl
  | case3 _ _ _ _ ih => exact ih

/-- A listed node stands behind its sources, if no queued node has pending ones. -/
theorem mem_before_of_drain {pending queue : List String}
    (hqueue : ∀ id ∈ queue, ∀ s, Feeds net.edges s id → s ∉ pending)
    {before : List String} {id : String} {after : List String}
    (horder : net.drain pending queue = before ++ id :: after) {s : String}
    (hs : Feeds net.edges s id) (hpending : s ∈ pending) : s ∈ before := by
  fun_induction drain net pending queue generalizing before with
  | case1 => simp at horder
  | case2 pending first queue hfirst left ih =>
    cases before with
    | nil =>
      obtain ⟨rfl, -⟩ := List.cons.inj horder
      exact absurd hpending (hqueue first List.mem_cons_self s hs)
    | cons second before =>
      obtain ⟨rfl, hrest⟩ := List.cons.inj horder
      by_cases heq : s = first
      · exact heq ▸ List.mem_cons_self
      · refine List.mem_cons_of_mem _ (ih (fun other hother t ht => ?_) hrest
          (Search.mem_without.2 ⟨hpending, heq⟩))
        rcases List.mem_append.1 hother with hother | hother
        · exact fun hleft => hqueue other (List.mem_cons_of_mem _ hother) t ht
            (Search.mem_without.1 hleft).1
        · exact (mem_released.1 hother).2 t ht
  | case3 _ _ _ _ ih =>
    exact ih (fun other hother => hqueue other (List.mem_cons_of_mem _ hother)) horder hpending

/-- Every pending node is listed, if the queue holds those without pending sources. -/
theorem mem_drain (hacyclic : Acyclic net.edges) {pending queue : List String}
    (hqueue : ∀ id ∈ pending, (∀ s, Feeds net.edges s id → s ∉ pending) → id ∈ queue)
    {id : String} (hid : id ∈ pending) : id ∈ net.drain pending queue := by
  fun_induction drain net pending queue with
  | case1 pending =>
    -- With an empty queue every pending node has a pending source, which no rank allows.
    refine absurd hid (hacyclic.wellFounded.induction (C := (· ∉ pending)) id fun id ih hid => ?_)
    exact List.not_mem_nil (hqueue id hid ih)
  | case2 pending first queue _ left ih =>
    by_cases heq : id = first
    · exact heq ▸ List.mem_cons_self
    · refine List.mem_cons_of_mem _ (ih (fun other hother hfree => ?_)
        (Search.mem_without.2 ⟨hid, heq⟩))
      obtain ⟨hpending, hne⟩ := Search.mem_without.1 hother
      by_cases hfirst : Feeds net.edges first other
      · exact List.mem_append_right _ (mem_released.2 ⟨hfirst, hfree⟩)
      · have hmem : other ∈ first :: queue := hqueue other hpending fun s hs hspending =>
          hfree s hs (Search.mem_without.2 ⟨hspending, fun h => hfirst (h ▸ hs)⟩)
        exact List.mem_append_left _ ((List.mem_cons.1 hmem).resolve_left hne)
  | case3 pending first queue hfirst ih =>
    refine ih (fun other hother hfree => ?_) hid
    have hne : other ≠ first := fun heq => hfirst (heq ▸ hother)
    exact (List.mem_cons.1 (hqueue other hother hfree)).resolve_left hne

/-! ## The topological order -/

theorem mem_sourceless {id : String} :
    id ∈ net.sourceless ↔ id ∈ net.ids ∧ ∀ s, ¬ Feeds net.edges s id := by
  simp only [sourceless, List.mem_filter, List.isEmpty_iff, ← mem_sources, sources,
    List.mem_map]
  refine and_congr_right fun _ => ⟨?_, fun h => List.eq_nil_iff_forall_not_mem.2 fun e he =>
    h e.source ⟨e, he, rfl⟩⟩
  rintro h s ⟨e, he, -⟩
  exact List.not_mem_nil (h ▸ he)

/-- All nodes once, each behind its sources. -/
structure IsTopological (net : Network) (order : List String) : Prop where
  perm : order.Perm net.ids
  mem_before : ∀ before id after, order = before ++ id :: after →
    ∀ s, Feeds net.edges s id → s ∈ before

/-- Begun with the nodes that have no source, the list has every node behind its sources. -/
theorem mem_before_of_drain_sourceless {before : List String} {id : String} {after : List String}
    (horder : net.drain net.ids net.sourceless = before ++ id :: after) {s : String}
    (hs : Feeds net.edges s id) : s ∈ before := by
  refine mem_before_of_drain (fun other hother t ht => ?_) horder hs (source_mem_ids hs)
  exact absurd ht ((mem_sourceless.1 hother).2 t)

theorem isTopological_drain (hacyclic : Acyclic net.edges) :
    net.IsTopological (net.drain net.ids net.sourceless) where
  perm := by
    refine (List.perm_ext_iff_of_nodup (nodup_drain _ _) net.nodup_ids).2 fun id => ?_
    refine ⟨mem_of_mem_drain, fun hid => mem_drain hacyclic (fun other hother hfree => ?_) hid⟩
    exact mem_sourceless.2 ⟨hother, fun s hs => hfree s hs (source_mem_ids hs)⟩
  mem_before := fun _ _ _ horder _ hs => mem_before_of_drain_sourceless horder hs

/-- In an acyclic network no node is left over. -/
theorem topological_eq (net : Network) :
    net.topological = net.checkAcyclic.map fun _ => net.drain net.ids net.sourceless := by
  cases hacyclic : net.checkAcyclic with
  | error fault =>
    rw [topological, hacyclic]
    rfl
  | ok =>
    have hlength := (isTopological_drain (checkAcyclic_eq_ok_iff.1 hacyclic)).perm.length_eq
    rw [topological, hacyclic]
    simp only [bind, Except.bind, hlength, if_true]
    rfl

theorem topological_eq_ok_iff {order : List String} :
    net.topological = .ok order ↔
      Acyclic net.edges ∧ net.drain net.ids net.sourceless = order := by
  rw [topological_eq, ← checkAcyclic_eq_ok_iff]
  cases net.checkAcyclic <;> simp [Except.map]

theorem exists_topological (hacyclic : Acyclic net.edges) :
    ∃ order, net.topological = .ok order :=
  ⟨_, topological_eq_ok_iff.2 ⟨hacyclic, rfl⟩⟩

theorem isTopological_of_topological {order : List String} (h : net.topological = .ok order) :
    Acyclic net.edges ∧ net.IsTopological order := by
  obtain ⟨hacyclic, rfl⟩ := topological_eq_ok_iff.1 h
  exact ⟨hacyclic, isTopological_drain hacyclic⟩

end Network
end LayerGraph
