import LayerGraph.Propagation
import LayerGraph.Proofs.Drawing
import LayerGraph.Proofs.Emission
/-!
# What propagation computes

* `Propagation.Holds overlay net p`: the overlay has for a node what the rule of the node gives over
  the overlay itself, and nothing where the rule gives nothing.
* `Network.IsPropagation net overlay faults`: this is so at every node, and the faults are those of
  the rules. `Network.propagateAll` gives such an overlay (`isPropagation_of_propagateAll`).
* `Network.IsPropagation.forall_shape`: what passes through every rule holds of all shapes.
* `Network.IsPropagation.shape?_congr`: two networks give a node the same shape if they agree on a
  part that is closed under operands.
-/

namespace LayerGraph
set_option autoImplicit false
open Relation

namespace Network

variable {net : Network}

/-! ## Operands -/

theorem isMerge_eq {p : Placed} (hp : p ∈ net.nodes) : net.isMerge p.id = p.operator.isMerge := by
  rw [isMerge, find?_eq_some_iff.2 ⟨hp, rfl⟩]
  rfl

theorem operands_of_isMerge {p : Placed} (hp : p ∈ net.nodes) (h : p.operator.isMerge = true) :
    net.operands p.id = (net.incoming p.id).map Edge.source := by
  rw [operands, isMerge_eq hp, if_pos h]

theorem operands_of_not_isMerge {p : Placed} (hp : p ∈ net.nodes)
    (h : p.operator.isMerge = false) :
    net.operands p.id =
      (((net.incoming p.id).filter (·.kind = .normal)).take 1).map Edge.source := by
  rw [operands, isMerge_eq hp, h, if_neg Bool.false_ne_true]

theorem mem_incoming {e : Edge} {id : String} :
    e ∈ net.incoming id ↔ e ∈ net.edges ∧ e.target = id := by
  rw [incoming, List.mem_filter, beq_iff_eq]

theorem exists_edge_of_mem_operands {s id : String} (h : s ∈ net.operands id) :
    ∃ e ∈ net.edges, e.source = s ∧ e.target = id ∧ (e.kind = .normal ∨ net.isMerge id = true) := by
  unfold operands at h
  split at h
  · rename_i hmerge
    obtain ⟨e, he, rfl⟩ := List.mem_map.1 h
    obtain ⟨he, htarget⟩ := mem_incoming.1 he
    exact ⟨e, he, rfl, htarget, .inr hmerge⟩
  · obtain ⟨e, he, rfl⟩ := List.mem_map.1 h
    obtain ⟨he, hkind⟩ := List.mem_filter.1 (List.mem_of_mem_take he)
    obtain ⟨he, htarget⟩ := mem_incoming.1 he
    exact ⟨e, he, rfl, htarget, .inl (of_decide_eq_true hkind)⟩

/-- A node that takes a default input, and has one, reads the source of one normal edge. -/
theorem exists_edge_of_operands_ne_nil {p : Placed} (hp : p ∈ net.nodes)
    (hmerge : p.operator.isMerge = false) (h : net.operands p.id ≠ []) :
    ∃ e ∈ net.edges, e.target = p.id ∧ e.kind = .normal ∧ net.operands p.id = [e.source] := by
  rw [operands_of_not_isMerge hp hmerge] at h ⊢
  cases hnormal : (net.incoming p.id).filter (·.kind = .normal) with
  | nil => simp [hnormal] at h
  | cons e rest =>
    have hmem : e ∈ (net.incoming p.id).filter (·.kind = .normal) := hnormal ▸ List.mem_cons_self
    obtain ⟨he, hkind⟩ := List.mem_filter.1 hmem
    obtain ⟨he, htarget⟩ := mem_incoming.1 he
    exact ⟨e, he, htarget, of_decide_eq_true hkind, rfl⟩

theorem operands_ne_nil {p : Placed} (hp : p ∈ net.nodes) (hmerge : p.operator.isMerge = false)
    {e : Edge} (he : e ∈ net.edges) (htarget : e.target = p.id) (hkind : e.kind = .normal) :
    net.operands p.id ≠ [] := by
  rw [operands_of_not_isMerge hp hmerge]
  have hmem : e ∈ (net.incoming p.id).filter (·.kind = .normal) :=
    List.mem_filter.2 ⟨mem_incoming.2 ⟨he, htarget⟩, decide_eq_true hkind⟩
  simp [List.ne_nil_of_mem hmem]

theorem feeds_of_mem_operands {s id : String} (h : s ∈ net.operands id) :
    Feeds net.edges s id := by
  obtain ⟨e, he, hsource, htarget, -⟩ := exists_edge_of_mem_operands h
  exact ⟨e, he, hsource, htarget⟩

end Network

namespace Propagation

variable {net : Network}

/-! ## What a node reads -/

theorem mapM_congr {α β : Type} {f g : α → Option β} {items : List α}
    (h : ∀ a ∈ items, f a = g a) : items.mapM f = items.mapM g := by
  induction items with
  | nil => rfl
  | cons a rest ih =>
    rw [List.mapM_cons, List.mapM_cons, h a List.mem_cons_self,
      ih fun other hother => h other (List.mem_cons_of_mem _ hother)]

theorem mapM_eq_some_iff {α β : Type} {f : α → Option β} {items : List α} {results : List β} :
    items.mapM f = some results ↔ List.Forall₂ (fun a b => f a = some b) items results := by
  induction items generalizing results with
  | nil =>
    rw [List.mapM_nil, List.forall₂_nil_left_iff]
    exact ⟨fun h => (Option.some.inj h).symm, fun h => congrArg some h.symm⟩
  | cons a rest ih =>
    simp only [List.mapM_cons, List.forall₂_cons_left_iff, Option.bind_eq_bind,
      Option.bind_eq_some_iff, ih]
    constructor
    · rintro ⟨b, hb, more, hmore, h⟩
      exact ⟨b, more, hb, hmore, (Option.some.inj h).symm⟩
    · rintro ⟨b, more, hb, hmore, rfl⟩
      exact ⟨b, hb, more, hmore, rfl⟩

theorem filterMap_eq_of_mapM_eq_some {α β : Type} {f : α → Option β} {items : List α}
    {results : List β} (h : items.mapM f = some results) : items.filterMap f = results := by
  induction mapM_eq_some_iff.1 h with
  | nil => rfl
  | cons hfirst hrest ih => rw [List.filterMap_cons_some hfirst, ih (mapM_eq_some_iff.2 hrest)]

theorem exists_of_mapM_eq_some {α β : Type} {f : α → Option β} {items : List α}
    {results : List β} (h : items.mapM f = some results) {a : α} (ha : a ∈ items) :
    ∃ b ∈ results, f a = some b := by
  induction mapM_eq_some_iff.1 h with
  | nil => cases ha
  | cons hfirst hrest ih =>
    rcases List.mem_cons.1 ha with rfl | ha
    · exact ⟨_, List.mem_cons_self, hfirst⟩
    · obtain ⟨b, hb, hfa⟩ := ih (mapM_eq_some_iff.2 hrest) ha
      exact ⟨b, List.mem_cons_of_mem _ hb, hfa⟩

/-- A node has inputs when it has enough operands and all of them have shapes. -/
theorem inputs?_eq_some_iff {overlay : Propagation} {p : Placed} {inputs : List Shape} :
    overlay.inputs? net p = some inputs ↔
      net.operands p.id ≠ [] ∧
        (p.operator.isMerge = true → 2 ≤ (net.operands p.id).length) ∧
          (net.operands p.id).mapM overlay.shape? = some inputs := by
  simp only [inputs?]
  split
  · rename_i hfew
    refine ⟨(nomatch ·), fun ⟨hne, hmerge, _⟩ => ?_⟩
    rcases hfew with hempty | ⟨hfew, hlt⟩
    · exact absurd (List.isEmpty_iff.1 hempty) hne
    · exact absurd (hmerge hfew) (Nat.not_le.2 hlt)
  · rename_i hfew
    rw [not_or, not_and] at hfew
    exact ⟨fun h => ⟨fun hempty => hfew.1 (List.isEmpty_iff.2 hempty),
      fun hmerge => Nat.not_lt.1 (hfew.2 hmerge), h⟩, fun h => h.2.2⟩

theorem outcome?_of_dataset {overlay : Propagation} {p : Placed}
    (h : p.operator.rule = .dataset) :
    overlay.outcome? net p = some ((Rule.datasetShape
      (p.operator.resolve p.node.params)).mapError (.datasetRule p.id)) := by
  rw [outcome?, if_pos h, h]
  rfl

/-- The outcome at any other node is that of its rule on its inputs. -/
theorem outcome?_of_not_dataset {overlay : Propagation} {p : Placed}
    (h : p.operator.rule ≠ .dataset) {outcome : Except Fault RuleResult} :
    overlay.outcome? net p = some outcome ↔
      ∃ inputs, overlay.inputs? net p = some inputs ∧
        (p.operator.rule.apply (p.operator.resolve p.node.params) inputs).mapError
          (.rule p.id) = outcome := by
  rw [outcome?, if_neg h, Option.map_eq_some_iff]

/-- The outcome at a node depends on its operands and their shapes only. -/
theorem outcome?_congr {net' : Network} {first second : Propagation} {p : Placed}
    (hoperands : net.operands p.id = net'.operands p.id)
    (hshapes : ∀ s ∈ net.operands p.id, first.shape? s = second.shape? s) :
    first.outcome? net p = second.outcome? net' p := by
  have hinputs : first.inputs? net p = second.inputs? net' p := by
    simp only [inputs?, ← hoperands, mapM_congr hshapes]
  simp only [outcome?, hinputs]

/-- What the overlay records of the learned parameters. -/
def learnedOf (result : RuleResult) : Option Params :=
  if result.learned.isEmpty then none else some (Table.ofList result.learned)

/-- The overlay has for a node what its rule gives over the overlay. -/
def Holds (overlay : Propagation) (net : Network) (p : Placed) : Prop :=
  match overlay.outcome? net p with
  | some (.ok result) =>
    overlay.shape? p.id = some result.shape ∧ overlay.learned.get? p.id = learnedOf result
  | _ => overlay.shape? p.id = none ∧ overlay.learned.get? p.id = none

theorem holds_of_ok {overlay : Propagation} {p : Placed} {result : RuleResult}
    (h : overlay.outcome? net p = some (.ok result)) :
    overlay.Holds net p ↔
      overlay.shape? p.id = some result.shape ∧ overlay.learned.get? p.id = learnedOf result := by
  simp only [Holds, h]

theorem holds_of_not_ok {overlay : Propagation} {p : Placed}
    (h : ∀ result, overlay.outcome? net p ≠ some (.ok result)) :
    overlay.Holds net p ↔ overlay.shape? p.id = none ∧ overlay.learned.get? p.id = none := by
  unfold Holds
  split
  · rename_i result hok
    exact absurd hok (h result)
  · exact Iff.rfl

/-! ## One node -/

/-- What is learned stands over what is set, and this over the defaults. -/
theorem get?_effectiveParams (overlay : Propagation) (p : Placed) (key : String) :
    (overlay.effectiveParams p).get? key =
      ((overlay.learned.get? p.id).bind (·.get? key)).or
        ((p.operator.resolve p.node.params).get? key) := by
  rw [effectiveParams, Table.get?_overlay]
  cases overlay.learned.get? p.id <;> rfl

theorem shape?_record (overlay : Propagation) (p : Placed) (result : RuleResult) (id : String) :
    (overlay.record p result).shape? id =
      if id = p.id then some result.shape else overlay.shape? id := by
  simp only [record, shape?, Table.get?_insert]

theorem learned_record (overlay : Propagation) (p : Placed) (result : RuleResult) (id : String) :
    (overlay.record p result).learned.get? id =
      if id = p.id then (learnedOf result).or (overlay.learned.get? id)
      else overlay.learned.get? id := by
  simp only [record, learnedOf, recordTypes]
  split <;> simp

theorem advance_of_ne (state : Propagation × List Fault) (p : Placed) {id : String}
    (h : id ≠ p.id) :
    (advance net state p).1.shape? id = state.1.shape? id ∧
      (advance net state p).1.learned.get? id = state.1.learned.get? id := by
  unfold advance
  split
  · exact ⟨rfl, rfl⟩
  · split
    · exact ⟨rfl, rfl⟩
    · exact ⟨by rw [shape?_record, if_neg h], by rw [learned_record, if_neg h]⟩
    · exact ⟨rfl, rfl⟩

/-- What holds after some nodes have been gone through: each of them has what its rule gives over
the overlay so far, no other node has anything, and the faults are those of the rules. -/
structure Progress (net : Network) (seen : List Placed) (state : Propagation × List Fault) :
    Prop where
  untouched : ∀ id, id ∉ seen.map Placed.id →
    state.1.shape? id = none ∧ state.1.learned.get? id = none
  pipeline : ∀ p ∈ seen, p.node.isPipeline = true → state.1.shape? p.id = none
  holds : ∀ p ∈ seen, p.node.isPipeline = false → state.1.Holds net p
  faults : ∀ fault, fault ∈ state.2 ↔
    ∃ p ∈ seen, p.node.isPipeline = false ∧ state.1.outcome? net p = some (.error fault)

theorem progress_nil : Progress net [] ({}, []) where
  untouched := fun _ _ => ⟨rfl, rfl⟩
  pipeline := fun _ hp => nomatch hp
  holds := fun _ hp => nomatch hp
  faults := fun fault => by simp

theorem holds_advance {seen : List Placed} {state : Propagation × List Fault} {p : Placed}
    (h : Progress net seen state) (hp : p.id ∉ seen.map Placed.id)
    (hoperands : ∀ s ∈ net.operands p.id, s ∈ seen.map Placed.id)
    (hgraph : p.node.isPipeline = false) :
    (advance net state p).1.Holds net p ∧
      (advance net state p).1.outcome? net p = state.1.outcome? net p ∧
      ∀ fault, fault ∈ (advance net state p).2 ↔
        fault ∈ state.2 ∨ state.1.outcome? net p = some (.error fault) := by
  have hsame : (advance net state p).1.outcome? net p = state.1.outcome? net p :=
    outcome?_congr rfl fun s hs =>
      (advance_of_ne state p fun heq => hp (heq ▸ hoperands s hs)).1
  obtain ⟨hshape, hlearned⟩ := h.untouched p.id hp
  cases houtcome : state.1.outcome? net p with
  | none =>
    have hstate : advance net state p = state := by
      simp only [advance, hgraph, houtcome, Bool.false_eq_true, if_false]
    rw [hstate] at hsame ⊢
    refine ⟨(holds_of_not_ok fun result => ?_).2 ⟨hshape, hlearned⟩, houtcome, fun fault => ?_⟩
    · simp [houtcome]
    · simp
  | some outcome =>
    cases outcome with
    | ok result =>
      have hstate : advance net state p = (state.1.record p result, state.2) := by
        simp only [advance, hgraph, houtcome, Bool.false_eq_true, if_false]
      rw [hstate] at hsame ⊢
      refine ⟨(holds_of_ok (hsame.trans houtcome)).2 ⟨?_, ?_⟩, hsame.trans houtcome,
        fun fault => by simp⟩
      · rw [shape?_record, if_pos rfl]
      · rw [learned_record, if_pos rfl, hlearned, Option.or_none]
    | error fault =>
      have hstate : advance net state p = (state.1, state.2 ++ [fault]) := by
        simp only [advance, hgraph, houtcome, Bool.false_eq_true, if_false]
      rw [hstate] at hsame ⊢
      refine ⟨(holds_of_not_ok fun result => ?_).2 ⟨hshape, hlearned⟩, houtcome, fun other => ?_⟩
      · simp [houtcome]
      · simp [eq_comm]

theorem Progress.step {seen : List Placed} {state : Propagation × List Fault} {p : Placed}
    (h : Progress net seen state) (hp : p.id ∉ seen.map Placed.id)
    (hoperands : ∀ q ∈ seen ++ [p], ∀ s ∈ net.operands q.id, s ∈ seen.map Placed.id) :
    Progress net (seen ++ [p]) (advance net state p) := by
  have hother : ∀ q ∈ seen, q.id ≠ p.id := fun q hq heq =>
    hp (heq ▸ List.mem_map_of_mem hq)
  have hsame : ∀ q ∈ seen, (advance net state p).1.outcome? net q = state.1.outcome? net q :=
    fun q hq => outcome?_congr rfl fun s hs =>
      (advance_of_ne state p fun heq =>
        hp (heq ▸ hoperands q (List.mem_append_left _ hq) s hs)).1
  refine ⟨fun id hid => ?_, fun q hq hgraph => ?_, fun q hq hgraph => ?_, fun fault => ?_⟩
  · rw [List.map_append, List.mem_append, not_or] at hid
    have hne : id ≠ p.id := fun heq => hid.2 (by simp [heq])
    rw [(advance_of_ne state p hne).1, (advance_of_ne state p hne).2]
    exact h.untouched id hid.1
  · rcases List.mem_append.1 hq with hq | hq
    · rw [(advance_of_ne state p (hother q hq)).1]
      exact h.pipeline q hq hgraph
    · obtain rfl := List.mem_singleton.1 hq
      rw [advance, if_pos hgraph]
      exact (h.untouched q.id hp).1
  · rcases List.mem_append.1 hq with hq | hq
    · have hholds := h.holds q hq hgraph
      rw [Holds, hsame q hq, (advance_of_ne state p (hother q hq)).1,
        (advance_of_ne state p (hother q hq)).2]
      exact hholds
    · obtain rfl := List.mem_singleton.1 hq
      exact (holds_advance h hp (hoperands q (by simp)) hgraph).1
  · by_cases hgraph : p.node.isPipeline = true
    · have hstate : (advance net state p).2 = state.2 := by rw [advance, if_pos hgraph]
      rw [hstate, h.faults]
      constructor
      · rintro ⟨q, hq, hqgraph, hfault⟩
        exact ⟨q, List.mem_append_left _ hq, hqgraph, (hsame q hq).trans hfault⟩
      · rintro ⟨q, hq, hqgraph, hfault⟩
        rcases List.mem_append.1 hq with hq | hq
        · exact ⟨q, hq, hqgraph, (hsame q hq).symm.trans hfault⟩
        · obtain rfl := List.mem_singleton.1 hq
          exact absurd (hqgraph.symm.trans hgraph) Bool.false_ne_true
    · have hgraph := Bool.eq_false_iff.2 hgraph
      obtain ⟨-, hown, hfaults⟩ := holds_advance h hp (hoperands p (by simp)) hgraph
      rw [hfaults, h.faults]
      constructor
      · rintro (⟨q, hq, hqgraph, hfault⟩ | hfault)
        · exact ⟨q, List.mem_append_left _ hq, hqgraph, (hsame q hq).trans hfault⟩
        · exact ⟨p, by simp, hgraph, hown.trans hfault⟩
      · rintro ⟨q, hq, hqgraph, hfault⟩
        rcases List.mem_append.1 hq with hq | hq
        · exact .inl ⟨q, hq, hqgraph, (hsame q hq).symm.trans hfault⟩
        · obtain rfl := List.mem_singleton.1 hq
          exact .inr (hown.symm.trans hfault)

/-- What a step keeps holds after going through nodes each of which stands behind its operands. -/
theorem foldl_advance_induction (Inv : List Placed → Propagation × List Fault → Prop)
    (hnil : Inv [] ({}, []))
    (hstep : ∀ seen state p, Inv seen state → p.id ∉ seen.map Placed.id →
      (∀ q ∈ seen ++ [p], ∀ s ∈ net.operands q.id, s ∈ seen.map Placed.id) →
        Inv (seen ++ [p]) (advance net state p))
    {order : List Placed} (hnodup : (order.map Placed.id).Nodup)
    (hoperands : ∀ before p after, order = before ++ p :: after →
      ∀ s ∈ net.operands p.id, s ∈ before.map Placed.id) :
    Inv order (order.foldl (advance net) ({}, [])) := by
  induction order using List.reverseRecOn with
  | nil => exact hnil
  | append_singleton seen p ih =>
    rw [List.map_append, List.nodup_append] at hnodup
    obtain ⟨hseen, -, hdisjoint⟩ := hnodup
    have hp : p.id ∉ seen.map Placed.id := fun hmem => hdisjoint p.id hmem p.id (by simp) rfl
    have hearlier : ∀ before q after, seen = before ++ q :: after →
        ∀ s ∈ net.operands q.id, s ∈ before.map Placed.id := by
      intro before q after hsplit
      exact hoperands before q (after ++ [p]) (by rw [hsplit]; simp)
    rw [List.foldl_append, List.foldl_cons, List.foldl_nil]
    apply hstep seen _ p (ih hseen hearlier) hp
    intro q hq s hs
    rcases List.mem_append.1 hq with hq | hq
    · obtain ⟨before, after, hsplit⟩ := List.append_of_mem hq
      rw [hsplit, List.map_append]
      exact List.mem_append_left _ (hearlier before q after hsplit s hs)
    · rw [List.mem_singleton.1 hq] at hs
      exact hoperands seen p [] rfl s hs

end Propagation

theorem mem_of_mapM_eq_some {α β : Type} {f : α → Option β} {items : List α} {results : List β}
    (h : items.mapM f = some results) {b : β} (hb : b ∈ results) : ∃ a ∈ items, f a = some b := by
  rw [← Propagation.filterMap_eq_of_mapM_eq_some h] at hb
  exact List.mem_filterMap.1 hb

namespace Network

variable {net : Network}

/-! ## The whole network -/

/-- The overlay has at every node what its rule gives over it, and these are the faults. -/
structure IsPropagation (net : Network) (overlay : Propagation) (faults : List Fault) : Prop where
  acyclic : Acyclic net.edges
  holds : ∀ p ∈ net.nodes, p.node.isPipeline = false → overlay.Holds net p
  faults : ∀ fault, fault ∈ faults ↔
    ∃ p ∈ net.nodes, p.node.isPipeline = false ∧ overlay.outcome? net p = some (.error fault)
  shaped : ∀ id shape, overlay.shape? id = some shape →
    ∃ p ∈ net.nodes, p.id = id ∧ p.node.isPipeline = false

/-- An overlay comes from going through all nodes, each behind its operands. -/
theorem exists_order_of_propagateAll {state : Propagation × List Fault}
    (h : net.propagateAll = .ok state) :
    Acyclic net.edges ∧ ∃ order : List Placed, (∀ p, p ∈ order ↔ p ∈ net.nodes) ∧
      (order.map Placed.id).Nodup ∧
      (∀ before p after, order = before ++ p :: after →
        ∀ s ∈ net.operands p.id, s ∈ before.map Placed.id) ∧
      order.foldl (Propagation.advance net) ({}, []) = state := by
  obtain ⟨order, horder, hfold⟩ := bind_eq_ok_iff.1 h
  obtain ⟨hacyclic, htopological⟩ := isTopological_of_topological horder
  have hids : (order.filterMap net.find?).map Placed.id = order :=
    map_id_filterMap_find? fun id hid => htopological.perm.mem_iff.1 hid
  refine ⟨hacyclic, order.filterMap net.find?, fun p => ?_, ?_, fun before p after hsplit s hs => ?_,
    Except.ok.inj hfold⟩
  · rw [mem_filterMap_find?]
    exact ⟨And.left, fun hp => ⟨hp, htopological.perm.mem_iff.2 (id_mem_ids hp)⟩⟩
  · rw [hids]
    exact htopological.perm.nodup_iff.2 net.nodup_ids
  · refine htopological.mem_before _ p.id (after.map Placed.id) ?_ s (feeds_of_mem_operands hs)
    rw [← hids, ← List.map_cons, ← List.map_append]
    exact congrArg _ hsplit

theorem isPropagation_of_propagateAll {overlay : Propagation} {faults : List Fault}
    (h : net.propagateAll = .ok (overlay, faults)) : net.IsPropagation overlay faults := by
  obtain ⟨hacyclic, order, hmem, hnodup, hoperands, hfold⟩ := exists_order_of_propagateAll h
  have hprogress : Propagation.Progress net order (overlay, faults) := by
    rw [← hfold]
    exact Propagation.foldl_advance_induction (Propagation.Progress net) Propagation.progress_nil
      (fun _ _ _ hseen hp hbehind => hseen.step hp hbehind) hnodup hoperands
  refine ⟨hacyclic, fun p hp => hprogress.holds p ((hmem p).2 hp), fun fault => ?_,
    fun id shape hshape => ?_⟩
  · simp only [hprogress.faults, hmem]
  · have hseen : id ∈ order.map Placed.id :=
      Classical.byContradiction fun hid => by
        rw [(hprogress.untouched id hid).1] at hshape
        cases hshape
    obtain ⟨p, hp, rfl⟩ := List.mem_map.1 hseen
    refine ⟨p, (hmem p).1 hp, rfl, Bool.eq_false_iff.2 fun hgraph => ?_⟩
    rw [hprogress.pipeline p hp hgraph] at hshape
    cases hshape

theorem exists_propagateAll (hacyclic : Acyclic net.edges) :
    ∃ overlay faults, net.propagateAll = .ok (overlay, faults) := by
  obtain ⟨order, horder⟩ := exists_topological hacyclic
  exact ⟨_, _, bind_eq_ok_iff.2 ⟨order, horder, rfl⟩⟩

/-- What comes of a rule comes of the shapes of operands. -/
theorem exists_inputs_of_outcome {overlay : Propagation} {p : Placed} {result : RuleResult}
    (h : overlay.outcome? net p = some (.ok result)) :
    ∃ inputs, p.operator.rule.apply (p.operator.resolve p.node.params) inputs = .ok result ∧
      ∀ input ∈ inputs, ∃ s ∈ net.operands p.id, overlay.shape? s = some input := by
  by_cases hrule : p.operator.rule = .dataset
  · rw [Propagation.outcome?_of_dataset hrule, Option.some_inj, mapError_eq_ok_iff] at h
    refine ⟨[], ?_, fun _ hinput => nomatch hinput⟩
    rw [hrule]
    exact h
  · obtain ⟨inputs, hinputs, happly⟩ := (Propagation.outcome?_of_not_dataset hrule).1 h
    obtain ⟨-, -, hread⟩ := Propagation.inputs?_eq_some_iff.1 hinputs
    exact ⟨inputs, mapError_eq_ok_iff.1 happly, fun _ hinput => mem_of_mapM_eq_some hread hinput⟩

namespace IsPropagation

variable {overlay : Propagation} {faults : List Fault}

/-- A shape is what the rule of a node of the architecture gives. -/
theorem shape?_eq_some_iff (h : net.IsPropagation overlay faults) {id : String} {shape : Shape} :
    overlay.shape? id = some shape ↔
      ∃ p ∈ net.nodes, p.id = id ∧ p.node.isPipeline = false ∧
        ∃ result, overlay.outcome? net p = some (.ok result) ∧ result.shape = shape := by
  constructor
  · intro hshape
    obtain ⟨p, hp, rfl, hgraph⟩ := h.shaped id shape hshape
    refine ⟨p, hp, rfl, hgraph, Classical.byContradiction fun hnone => ?_⟩
    have hholds := h.holds p hp hgraph
    unfold Propagation.Holds at hholds
    split at hholds
    · rename_i result hok
      exact hnone ⟨result, hok, Option.some.inj (hholds.1.symm.trans hshape)⟩
    · exact absurd (hholds.1.symm.trans hshape) (by simp)
  · rintro ⟨p, hp, rfl, hgraph, result, hok, rfl⟩
    exact ((Propagation.holds_of_ok hok).1 (h.holds p hp hgraph)).1

/-- Two networks give a node the same shape if they agree on a part that is closed under
operands. -/
theorem shape?_congr {net' : Network} {overlay' : Propagation} {faults' : List Fault}
    (h : net.IsPropagation overlay faults) (h' : net'.IsPropagation overlay' faults')
    (hnodes : net.nodes = net'.nodes) (scope : String → Prop)
    (hoperands : ∀ id, scope id → net.operands id = net'.operands id)
    (hclosed : ∀ id, scope id → ∀ s ∈ net.operands id, scope s) {id : String} (hid : scope id) :
    overlay.shape? id = overlay'.shape? id := by
  revert hid
  refine h.acyclic.wellFounded.induction (C := fun id =>
    scope id → overlay.shape? id = overlay'.shape? id) id fun id ih hid => ?_
  apply Option.ext
  intro shape
  rw [h.shape?_eq_some_iff, h'.shape?_eq_some_iff, ← hnodes]
  -- The outcomes at a node of this id are equal, since its operands lie in the part before it.
  refine exists_congr fun p => and_congr_right fun _ => and_congr_right fun heq => ?_
  have hsame : overlay.outcome? net p = overlay'.outcome? net' p :=
    Propagation.outcome?_congr (heq ▸ hoperands id hid) fun s hs =>
      ih s (heq ▸ feeds_of_mem_operands hs) (hclosed id hid s (heq ▸ hs))
  rw [hsame]

/-- What passes through every rule holds of all shapes. -/
theorem forall_shape (h : net.IsPropagation overlay faults) (holds : String → Shape → Prop)
    (hstep : ∀ p ∈ net.nodes, p.node.isPipeline = false → ∀ inputs result,
      (∀ input ∈ inputs, ∃ s ∈ net.operands p.id, overlay.shape? s = some input ∧ holds s input) →
      p.operator.rule.apply (p.operator.resolve p.node.params) inputs = .ok result →
      holds p.id result.shape) {id : String} {shape : Shape}
    (hshape : overlay.shape? id = some shape) : holds id shape := by
  revert shape
  -- Along the edges: whatever a node reads feeds it.
  apply h.acyclic.wellFounded.induction
    (C := fun id => ∀ {shape}, overlay.shape? id = some shape → holds id shape) id
  intro id ih shape hshape
  obtain ⟨p, hp, rfl, hgraph, result, hok, rfl⟩ := h.shape?_eq_some_iff.1 hshape
  obtain ⟨inputs, happly, hinputs⟩ := exists_inputs_of_outcome hok
  refine hstep p hp hgraph inputs result (fun input hinput => ?_) happly
  obtain ⟨s, hs, hread⟩ := hinputs input hinput
  exact ⟨s, hs, hread, ih s (feeds_of_mem_operands hs) hread⟩

end IsPropagation

end Network
end LayerGraph
