import LayerGraph.Proofs.Order
/-!
# Ordering by counting down

A first-in first-out pass over a network can be run with a counter for each node, which starts at
the number of edges into the node that are waited for. A node that comes out of the queue counts
down the targets of its edges, one for each edge, and a target joins the queue when its counter
comes to zero.

* `Network.Counts net counters queue order`: the pass ends and lists the nodes in this order.
* `Network.counts_drain`: with counters for the pending nodes the pass ends with the order that
  `Network.drain` gives, which looks at the pending sources of a target and has no counters.
* `Network.counts_topological` and `Network.counts_reachable`: so it is over the whole network, and
  from one node over what this node reaches.
-/

namespace LayerGraph
set_option autoImplicit false
open Relation

namespace Network

/-! ## The pass -/

/-- Counts targets down in their order. Those whose counters come to zero join the queue; a name
without a counter is passed over. -/
def countDown (counters : Table Nat) (queue : List String) :
    List String → Table Nat × List String
  | [] => (counters, queue)
  | target :: rest =>
    match counters.get? target with
    | none => countDown counters queue rest
    | some count =>
      countDown (counters.insert target (count - 1))
        (if count - 1 = 0 then queue ++ [target] else queue) rest

/-- The pass from a queue ends, and the nodes come out of the queue in this order. -/
inductive Counts (net : Network) : Table Nat → List String → List String → Prop
  | done (counters : Table Nat) : Counts net counters [] []
  | next {counters : Table Nat} {id : String} {queue order : List String} :
      Counts net (countDown counters queue (net.targets id)).1
        (countDown counters queue (net.targets id)).2 order →
      Counts net counters (id :: queue) (id :: order)

variable {net : Network} {counters : Table Nat} {queue : List String}

/-- The pass ends in one way only. -/
theorem Counts.unique {first second : List String} (hfirst : net.Counts counters queue first)
    (hsecond : net.Counts counters queue second) : first = second := by
  induction hfirst generalizing second with
  | done =>
    cases hsecond
    rfl
  | next _ ih =>
    cases hsecond with
    | next hsecond => rw [ih hsecond]

/-! ## One node -/

theorem get?_countDown_of_notMem {targets : List String} {id : String} (hid : id ∉ targets) :
    (countDown counters queue targets).1.get? id = counters.get? id := by
  induction targets generalizing counters queue with
  | nil => rfl
  | cons target rest ih =>
    rw [List.mem_cons, not_or] at hid
    rw [countDown]
    split
    · exact ih hid.2
    · rw [ih hid.2, Table.get?_insert, if_neg hid.1]

/-- If each counter holds one for each target to come and the rest, it goes down to the rest; the
names without a rest join the queue, each at its last place. -/
theorem countDown_spec (queue : List String) {targets : List String} (rest : String → Nat)
    (hcounters : ∀ id ∈ targets, counters.get? id = some (targets.count id + rest id)) :
    (∀ id ∈ targets, (countDown counters queue targets).1.get? id = some (rest id)) ∧
      (countDown counters queue targets).2 =
        queue ++ (lastOccurrences targets).filter (rest · = 0) := by
  induction targets generalizing counters queue with
  | nil => exact ⟨fun _ hid => absurd hid List.not_mem_nil, (List.append_nil _).symm⟩
  | cons target more ih =>
    have hcount : counters.get? target = some (more.count target + rest target + 1) := by
      rw [hcounters target List.mem_cons_self, List.count_cons_self, Nat.add_right_comm]
    have hmore : ∀ id ∈ more, (counters.insert target (more.count target + rest target)).get? id =
        some (more.count id + rest id) := by
      intro id hid
      rw [Table.get?_insert]
      split
      · rename_i heq
        rw [heq]
      · rename_i hne
        rw [hcounters id (List.mem_cons_of_mem _ hid), List.count_cons_of_ne (Ne.symm hne)]
    simp only [countDown, hcount, Nat.add_sub_cancel]
    obtain ⟨hleft, hqueue⟩ :=
      ih (if more.count target + rest target = 0 then queue ++ [target] else queue) hmore
    refine ⟨fun id hid => ?_, ?_⟩
    · by_cases hid' : id ∈ more
      · exact hleft id hid'
      · obtain rfl := (List.mem_cons.1 hid).resolve_right hid'
        rw [get?_countDown_of_notMem hid', Table.get?_insert, if_pos rfl,
          List.count_eq_zero_of_not_mem hid', Nat.zero_add]
    · rw [hqueue, lastOccurrences]
      -- The counter comes to zero at the last of the places of the target.
      by_cases hagain : target ∈ more
      · have hcountpos : 0 < more.count target := List.count_pos_iff.2 hagain
        rw [if_pos hagain, if_neg (by omega)]
      · rw [if_neg hagain, List.count_eq_zero_of_not_mem hagain, Nat.zero_add, List.filter_cons]
        by_cases hzero : rest target = 0 <;> simp [hzero]

/-! ## The whole pass -/

/-- How many edges lead into a node from a list of nodes. -/
def waiting (net : Network) (pending : List String) (id : String) : Nat :=
  (net.sources id).countP (· ∈ pending)

theorem count_targets (a b : String) : (net.targets a).count b = (net.sources b).count a := by
  rw [targets, sources, List.count_eq_length_filter, List.count_eq_length_filter, List.filter_map,
    List.filter_map, List.length_map, List.length_map, outgoing, incoming, List.filter_filter,
    List.filter_filter]
  congr 1
  apply List.filter_congr
  intro e _
  exact Bool.and_comm _ _

/-- Without one node, as many edges fewer are waited for as lead from it. -/
theorem waiting_eq_add {pending : List String} {id : String} (hid : id ∈ pending) (b : String) :
    net.waiting pending b =
      (net.targets id).count b + net.waiting (Search.without pending id) b := by
  rw [count_targets, waiting, waiting]
  induction net.sources b with
  | nil => rfl
  | cons s more ih =>
    rw [List.countP_cons, List.countP_cons, List.count_cons, ih]
    by_cases heq : s = id
    · simp [heq, hid]
      omega
    · simp [heq]
      omega

theorem released_eq_filter (pending : List String) (id : String) :
    net.released pending id =
      (lastOccurrences (net.targets id)).filter (net.waiting pending · = 0) := by
  rw [released]
  apply List.filter_congr
  intro target _
  rw [waiting, Bool.eq_iff_iff]
  simp

theorem nodup_lastOccurrences (names : List String) : (lastOccurrences names).Nodup := by
  induction names with
  | nil => exact .nil
  | cons name rest ih =>
    rw [lastOccurrences]
    split
    · exact ih
    · rename_i hname
      exact List.nodup_cons.2 ⟨fun hmem => hname (mem_lastOccurrences.1 hmem), ih⟩

/-- What holds of the counters and the queue while some nodes are pending. -/
structure Counting (net : Network) (counters : Table Nat) (pending queue : List String) :
    Prop where
  counters : ∀ id ∈ pending, counters.get? id = some (net.waiting pending id)
  /-- A pending node leads to pending nodes only. -/
  closed : ∀ id ∈ pending, ∀ target, Feeds net.edges id target → target ∈ pending
  queue_mem : ∀ id ∈ queue, id ∈ pending
  queue_nodup : queue.Nodup
  queue_free : ∀ id ∈ queue, ∀ s, Feeds net.edges s id → s ∉ pending

theorem Counting.step {pending : List String} {id : String}
    (h : net.Counting counters pending (id :: queue)) :
    (countDown counters queue (net.targets id)).2 =
        queue ++ net.released (Search.without pending id) id ∧
      net.Counting (countDown counters queue (net.targets id)).1 (Search.without pending id)
        (queue ++ net.released (Search.without pending id) id) := by
  have hid : id ∈ pending := h.queue_mem id List.mem_cons_self
  obtain ⟨hnotqueue, hqueue⟩ := List.nodup_cons.1 h.queue_nodup
  obtain ⟨hleft, hjoined⟩ :=
    countDown_spec queue (net.waiting (Search.without pending id)) fun target htarget => by
      rw [h.counters target (h.closed id hid target (mem_targets.1 htarget)),
        waiting_eq_add hid target]
  have hreleased : ∀ target ∈ net.released (Search.without pending id) id,
      Feeds net.edges id target ∧ target ∈ Search.without pending id := by
    intro target htarget
    obtain ⟨hfeeds, -⟩ := mem_released.1 htarget
    refine ⟨hfeeds, Search.mem_without.2 ⟨h.closed id hid target hfeeds, ?_⟩⟩
    rintro rfl
    exact h.queue_free target List.mem_cons_self target hfeeds hid
  refine ⟨by rw [hjoined, released_eq_filter], ?_, ?_, ?_, ?_, ?_⟩
  · intro other hother
    obtain ⟨hpending, hne⟩ := Search.mem_without.1 hother
    by_cases htarget : other ∈ net.targets id
    · exact hleft other htarget
    · rw [get?_countDown_of_notMem htarget, h.counters other hpending, waiting_eq_add hid other,
        List.count_eq_zero_of_not_mem htarget, Nat.zero_add]
  · intro other hother target hfeeds
    obtain ⟨hpending, -⟩ := Search.mem_without.1 hother
    refine Search.mem_without.2 ⟨h.closed other hpending target hfeeds, ?_⟩
    rintro rfl
    exact h.queue_free target List.mem_cons_self other hfeeds hpending
  · intro other hother
    rcases List.mem_append.1 hother with hother | hother
    · have hne : other ≠ id := fun heq => hnotqueue (heq ▸ hother)
      exact Search.mem_without.2 ⟨h.queue_mem other (List.mem_cons_of_mem _ hother), hne⟩
    · exact (hreleased other hother).2
  · refine List.nodup_append.2 ⟨hqueue, (nodup_lastOccurrences _).filter _, ?_⟩
    rintro other hother released hmem rfl
    -- Whatever stood in the queue before has no edge from the node that comes out of it.
    exact h.queue_free other (List.mem_cons_of_mem _ hother) id (hreleased other hmem).1 hid
  · intro other hother s hfeeds hs
    rcases List.mem_append.1 hother with hother | hother
    · exact h.queue_free other (List.mem_cons_of_mem _ hother) s hfeeds (Search.mem_without.1 hs).1
    · exact (mem_released.1 hother).2 s hfeeds hs

/-- Counting down gives the order that looking at the pending sources gives. -/
theorem counts_drain {pending queue : List String} (counters : Table Nat)
    (h : net.Counting counters pending queue) :
    net.Counts counters queue (net.drain pending queue) := by
  revert counters
  fun_induction net.drain pending queue with
  | case1 => exact fun counters _ => .done counters
  | case2 pending id queue _ left ih =>
    intro counters h
    obtain ⟨hqueue, hstep⟩ := h.step
    apply Counts.next
    rw [hqueue]
    exact ih _ hstep
  | case3 pending id queue hid =>
    exact fun counters h => absurd (h.queue_mem id List.mem_cons_self) hid

/-- The counters of a list of nodes, each with the edges from nodes of the list. -/
def countersOf (net : Network) (pending : List String) : Table Nat :=
  Table.ofList (pending.map fun id => (id, net.waiting pending id))

theorem get?_countersOf {pending : List String} (hpending : pending.Nodup) {id : String}
    (hid : id ∈ pending) :
    (net.countersOf pending).get? id = some (net.waiting pending id) := by
  have hnames : ((pending.map fun id => (id, net.waiting pending id)).map Prod.fst).Nodup := by
    simpa [List.map_map, Function.comp_def] using hpending
  exact (Table.get?_ofList_eq_some_iff hnames).2 (List.mem_map_of_mem hid)

/-- From the nodes without edges into them, the pass goes over the whole network. -/
theorem counts_topological :
    net.Counts (net.countersOf net.ids) net.sourceless (net.drain net.ids net.sourceless) := by
  apply counts_drain
  refine ⟨fun id => get?_countersOf net.nodup_ids, fun _ _ _ => target_mem_ids, fun id hid => ?_,
    net.nodup_ids.filter _, fun id hid s hfeeds => ?_⟩
  · exact (mem_sourceless.1 hid).1
  · exact absurd hfeeds ((mem_sourceless.1 hid).2 s)

/-- From one node, the pass goes over what the node reaches. -/
theorem counts_reachable (hacyclic : Acyclic net.edges) {id : String} (hid : id ∈ net.ids) :
    net.Counts (net.countersOf (net.reachable id)) [id] (net.drain (net.reachable id) [id]) := by
  apply counts_drain
  refine ⟨fun other => get?_countersOf (net.nodup_ids.filter _),
    fun other hother target hfeeds => ?_, fun other hother => ?_, List.nodup_singleton id,
    fun other hother s hfeeds hs => ?_⟩
  · exact (mem_reachable hid).2 (((mem_reachable hid).1 hother).tail hfeeds)
  · exact List.mem_singleton.1 hother ▸ (mem_reachable hid).2 .refl
  · obtain rfl := List.mem_singleton.1 hother
    exact hacyclic other (TransGen.tail' ((mem_reachable hid).1 hs) hfeeds)

end Network
end LayerGraph
