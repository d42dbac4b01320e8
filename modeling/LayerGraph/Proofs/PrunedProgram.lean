import LayerGraph.Proofs.DefaultInputs
import LayerGraph.Proofs.ListingOrder
import LayerGraph.Proofs.Pruning
import LayerGraph.Proofs.SameProgram
/-!
# Taking out what a report calls skipped

The nodes of an architecture that are kept are the emitted ones and the losses
(`IsSound.keeps_iff`). The emitted ones keep their edges, and so their shapes; a kept edge leads
from one of them to another or to a loss.

What can change is the shape of a loss, when the first of its normal edges is taken out. A loss may
have more than one of them only where the edges share an id, and it may then come to read a normal
edge beside one that adds to its output. This is the only way in which a valid project can become
invalid (`compile_pruned`, `not_valid_pruned`). A project that stays valid has the same text.
-/

namespace LayerGraph
set_option autoImplicit false
open Relation

/-! ## Tests with fewer edges -/

theorem checkConnection_mono {e : Edge} {ends : Ends} {others fewer : List Edge}
    (hfewer : ∀ d ∈ fewer, d ∈ others) (h : checkConnection e ends others = .ok ()) :
    checkConnection e ends fewer = .ok () := by
  rw [checkConnection_eq_ok_iff] at h ⊢
  obtain ⟨hsimple, hrules⟩ := h
  refine ⟨fun d hd => hsimple d (hfewer d hd), ?_⟩
  by_cases hgraph : ends.source.node.isPipeline = true
  · rw [if_pos hgraph] at hrules ⊢
    exact hrules
  · rw [if_neg hgraph, checkArchitecture_eq_ok_iff] at hrules ⊢
    obtain ⟨hroot, hsingle, htypes⟩ := hrules
    exact ⟨hroot, fun hkind hmerge d hd => hsingle hkind hmerge d (hfewer d hd), htypes⟩

/-- The test of shapes looks at those of the other edges that go into the same node. -/
theorem checkShapes_of_filter_eq {e : Edge} {ends : Ends} {others others' : List Edge}
    (h : others.filter (·.target = e.target) = others'.filter (·.target = e.target))
    (overlay : Propagation) :
    checkShapes e ends others overlay = checkShapes e ends others' overlay :=
  checkShapes_congr_of_inputs rfl (by rw [otherInputs, otherInputs, h]) fun _ _ => rfl

/-! ## Losses -/

theorem Operator.isMerge_of_isLoss {o : Operator} (ho : o ∈ Operator.Architecture.all)
    (hloss : o.isLoss = true) : o.isMerge = false := by
  rw [Operator.isMerge, (Operator.rule_of_isLoss ho hloss).1]
  rfl

/-- A loss reads one shape, if any, and takes whatever it reads. -/
theorem Propagation.outcome?_loss {overlay : Propagation} {net : Network} {p : Placed}
    (hp : p ∈ net.nodes) (hrule : p.operator.rule = .scalar)
    {outcome : Except Fault RuleResult} (h : overlay.outcome? net p = some outcome) :
    outcome = .ok ⟨⟨[]⟩, []⟩ := by
  have hmerge : p.operator.isMerge = false := by
    rw [Operator.isMerge, hrule]
    rfl
  obtain ⟨inputs, hinputs, rfl⟩ :=
    (Propagation.outcome?_of_not_dataset (by simp [hrule])).1 h
  obtain ⟨hne, -, hread⟩ := Propagation.inputs?_eq_some_iff.1 hinputs
  obtain ⟨e, -, -, -, hoperands⟩ := Network.exists_edge_of_operands_ne_nil hp hmerge hne
  rw [hoperands] at hread
  have hlength := (Propagation.mapM_eq_some_iff.1 hread).length_eq
  obtain ⟨input, rfl⟩ := List.length_eq_one_iff.1 hlength.symm
  rw [hrule]
  rfl

/-- No loss has a normal edge beside an edge that adds to its output. -/
def Graph.LossesUnmixed (g : Graph) : Prop :=
  ∀ n ∈ g.nodes, ∀ o, n.operator = .ok o → o.isLoss = true →
    ∀ d ∈ g.edges, ∀ e ∈ g.edges, d.target = n.id → e.target = n.id →
      d.kind = .normal → e.kind = .normal

namespace IsSound

variable {nodes : List Node} {edges : List Edge} {net : Network} {order : Emission}
  {overlay : Propagation}

/-- Nothing can be added to a loss that reads an emitted node, since an emitted shape is not
empty. -/
theorem not_emits_addend (h : IsSound nodes edges net order overlay) {p : Placed}
    (hp : p ∈ net.nodes) (hloss : p.operator.isLoss = true) {s : String}
    (hoperands : net.operands p.id = [s]) (hs : order.Emits s) {e : Edge} (he : e ∈ edges)
    (htarget : e.target = p.id) (hkind : e.kind ≠ .normal) : ¬ order.Emits e.source := by
  intro hsource
  have hrule := (Operator.rule_of_isLoss (h.mem_all hp) hloss).1
  have hmerge := Operator.isMerge_of_isLoss (h.mem_all hp) hloss
  obtain ⟨input, hinput, -⟩ := h.exists_shape hs
  have hread : overlay.inputs? net p = some [input] := by
    apply Propagation.inputs?_eq_some_iff.2
    simp [hoperands, hmerge, hinput]
  obtain ⟨result, hresult, hshape, -⟩ := h.result_of_outcome hp
    ((Propagation.outcome?_of_not_dataset (by simp [hrule])).2 ⟨_, hread, rfl⟩)
  rw [hrule] at hresult
  obtain rfl : (⟨⟨[]⟩, []⟩ : RuleResult) = result := Except.ok.inj hresult
  obtain ⟨ends, hfoundSource, hfound, -, -, -, hcheck⟩ := h.exists_ends he
  rw [htarget, Network.find?_eq_some_iff.2 ⟨hp, rfl⟩] at hfound
  obtain rfl := Option.some.inj hfound
  obtain ⟨produced, hproduced, hbatched⟩ := h.exists_shape hsource
  rw [← (Network.find?_eq_some_iff.1 hfoundSource).2] at hproduced
  have hequal := (checkShapes_addend_iff hkind hmerge).1 hcheck produced _ hproduced hshape
  obtain ⟨rest, hdims, -⟩ := hbatched
  rw [← hequal] at hdims
  cases hdims

end IsSound
/-! ## What is kept -/

namespace IsSound

variable {nodes : List Node} {edges : List Edge} {net : Network} {order : Emission}
  {overlay : Propagation}

theorem reached_of_emits (h : IsSound nodes edges net order overlay) {id : String}
    (hid : order.Emits id) : ReflTransGen (Feeds net.edges) order.root.id id := by
  obtain rfl | ⟨p, hp, rfl⟩ := hid
  · exact .refl
  · exact ((h.isEmission.mem_nodes p).1 hp).2.1

/-- What is kept is what is emitted, and the losses. -/
theorem keeps_iff (h : IsSound nodes edges net order overlay) {p : Placed} (hp : p ∈ net.nodes) :
    order.keeps p.id = true ↔ order.Emits p.id ∨ p.operator.isLoss = true := by
  have hskipped : p.id ∈ order.skipped ↔
      ¬ ReflTransGen (Feeds net.edges) order.root.id p.id ∧ ¬ p.operator.isLoss = true := by
    simp only [Emission.skipped, List.mem_map, List.mem_filter, h.isEmission.mem_unreachable,
      decide_eq_true_iff]
    constructor
    · rintro ⟨q, ⟨⟨hq, hreached⟩, hloss⟩, hid⟩
      obtain rfl := List.inj_on_of_nodup_map net.nodup_ids hq hp hid
      exact ⟨hreached, hloss⟩
    · rintro ⟨hreached, hloss⟩
      exact ⟨p, ⟨⟨hp, hreached⟩, hloss⟩, rfl⟩
  rw [Emission.keeps, decide_eq_true_iff, hskipped, not_and_or, not_not, not_not]
  constructor
  · rintro (hreached | hloss)
    · by_cases hroot : p.id = order.root.id
      · exact .inl (.inl hroot)
      · cases hloss : p.operator.isLoss with
        | true => exact .inr rfl
        | false =>
          exact .inl (Emission.emits_of_mem
            ((h.isEmission.mem_nodes p).2 ⟨hp, hreached, hroot, hloss⟩))
    · exact .inr hloss
  · rintro (hemits | hloss)
    · exact .inl (h.reached_of_emits hemits)
    · exact .inr hloss

theorem keeps_of_reached (h : IsSound nodes edges net order overlay) {id : String}
    (hid : ReflTransGen (Feeds net.edges) order.root.id id) : order.keeps id = true := by
  apply decide_eq_true
  intro hskipped
  obtain ⟨q, hq, rfl⟩ := List.mem_map.1 hskipped
  exact ((h.isEmission.mem_unreachable q).1 (List.mem_filter.1 hq).1).2 hid

theorem spares (h : IsSound nodes edges net order overlay) : net.Spares order order.keeps where
  reached := fun _ hid => h.keeps_of_reached hid
  losses := fun _ hp hloss => (h.keeps_iff hp).2 (.inr hloss)
  sources := by
    rintro p hp source ⟨e, he, rfl, htarget⟩
    exact h.keeps_of_reached (h.reached_of_emits (h.source_emitted (h.edges_eq ▸ he) hp htarget))

/-- A kept edge comes from an emitted node. -/
theorem source_emits_of_keeps (h : IsSound nodes edges net order overlay) {e : Edge}
    (he : e ∈ edges) (hkeeps : order.keeps e.source = true) : order.Emits e.source := by
  obtain ⟨ends, hsource, -⟩ := h.exists_ends he
  obtain ⟨hnode, hid⟩ := Network.find?_eq_some_iff.1 hsource
  rw [← hid] at hkeeps ⊢
  refine ((h.keeps_iff hnode).1 hkeeps).resolve_right fun hloss => ?_
  rw [h.isLoss_source he hsource] at hloss
  cases hloss

/-- An edge from an emitted node leads to an emitted node that is not the root, or to a loss. -/
theorem target_of_emits (h : IsSound nodes edges net order overlay) {e : Edge} (he : e ∈ edges)
    (hsource : order.Emits e.source) {p : Placed} (hp : net.find? e.target = some p) :
    p ∈ order.nodes ∨ p.operator.isLoss = true := by
  obtain ⟨hnode, hid⟩ := Network.find?_eq_some_iff.1 hp
  have hreached : ReflTransGen (Feeds net.edges) order.root.id p.id :=
    (h.reached_of_emits hsource).tail ⟨e, h.edges_eq.symm ▸ he, rfl, hid.symm⟩
  have hroot : p.id ≠ order.root.id := by
    intro heq
    obtain rfl := List.inj_on_of_nodup_map net.nodup_ids hnode h.isEmission.root_mem heq
    have hisRoot := h.isRoot_target he hp
    rw [h.isEmission.isRoot_root] at hisRoot
    cases hisRoot
  cases hloss : p.operator.isLoss with
  | true => exact .inr rfl
  | false => exact .inl ((h.isEmission.mem_nodes p).2 ⟨hnode, hreached, hroot, hloss⟩)

/-! ## The shapes that are kept -/

section Overlays

variable {overlay' : Propagation} {faults' : List Fault}

theorem mem_restrict_of_emits (h : IsSound nodes edges net order overlay) {p : Placed}
    (hid : order.Emits p.id) : p ∈ net.nodes ↔ p ∈ (net.restrict order.keeps).nodes := by
  rw [Network.mem_nodes_restrict]
  exact (and_iff_left (h.keeps_of_reached (h.reached_of_emits hid))).symm

/-- The rule of an emitted node makes the same of the same shapes. -/
theorem outcome?_restrict (h : IsSound nodes edges net order overlay) {p : Placed}
    (hp : p ∈ net.nodes) (hid : order.Emits p.id)
    (hshapes : ∀ s, order.Emits s → Feeds net.edges s p.id → overlay.shape? s = overlay'.shape? s) :
    overlay.outcome? net p = overlay'.outcome? (net.restrict order.keeps) p := by
  obtain hroot | ⟨q, hq, hqid⟩ := hid
  · obtain rfl := List.inj_on_of_nodup_map net.nodup_ids hp h.isEmission.root_mem hroot
    have hrule := (Operator.isRoot_iff (h.mem_all hp)).1 h.isEmission.isRoot_root
    rw [Propagation.outcome?_of_dataset hrule, Propagation.outcome?_of_dataset hrule]
  · obtain rfl := List.inj_on_of_nodup_map net.nodup_ids (h.isEmission.mem_net hq) hp hqid
    apply Propagation.outcome?_congr (h.spares.operands_eq h.isEmission hq).symm
    intro s hs
    exact hshapes s (h.operand_emitted hq hs) (Network.feeds_of_mem_operands hs)

theorem shape?_restrict (h : IsSound nodes edges net order overlay)
    (hprop : (net.restrict order.keeps).IsPropagation overlay' faults') {id : String}
    (hid : order.Emits id) : overlay.shape? id = overlay'.shape? id := by
  apply h.isPropagation.shape?_eq_of_outcome hprop order.Emits
    (fun p hemits => h.mem_restrict_of_emits hemits) _ hid
  intro p hp hemits _ hbefore result
  rw [h.outcome?_restrict hp hemits hbefore]

theorem learned_restrict (h : IsSound nodes edges net order overlay)
    (hprop : (net.restrict order.keeps).IsPropagation overlay' faults') {p : Placed}
    (hp : p ∈ net.nodes) (hid : order.Emits p.id) :
    overlay.learned.get? p.id = overlay'.learned.get? p.id := by
  have hgraph := h.isPipeline_eq_false hp
  have hholds := h.isPropagation.holds p hp hgraph
  have hholds' := hprop.holds p ((h.mem_restrict_of_emits hid).1 hp) hgraph
  have houtcome := h.outcome?_restrict hp hid fun s hs _ => h.shape?_restrict hprop hs
  by_cases hok : ∃ result, overlay.outcome? net p = some (.ok result)
  · obtain ⟨result, hresult⟩ := hok
    rw [((Propagation.holds_of_ok hresult).1 hholds).2,
      ((Propagation.holds_of_ok (houtcome ▸ hresult)).1 hholds').2]
  · have hnone := not_exists.1 hok
    rw [((Propagation.holds_of_not_ok hnone).1 hholds).2,
      ((Propagation.holds_of_not_ok (houtcome ▸ hnone)).1 hholds').2]

/-- No rule of the restricted network fails: those of the emitted nodes do what they did, and a loss
takes whatever it reads. -/
theorem faults_restrict (h : IsSound nodes edges net order overlay)
    (hprop : (net.restrict order.keeps).IsPropagation overlay' faults') : faults' = [] := by
  apply List.eq_nil_iff_forall_not_mem.2
  intro fault hfault
  obtain ⟨p, hp, hgraph, houtcome⟩ := (hprop.faults fault).1 hfault
  obtain ⟨hnode, hkeeps⟩ := Network.mem_nodes_restrict.1 hp
  obtain hemits | hloss := (h.keeps_iff hnode).1 hkeeps
  · rw [← h.outcome?_restrict hnode hemits fun s hs _ => h.shape?_restrict hprop hs] at houtcome
    exact List.not_mem_nil ((h.isPropagation.faults fault).2 ⟨p, hnode, hgraph, houtcome⟩)
  · have hrule := (Operator.rule_of_isLoss (h.mem_all hnode) hloss).1
    cases Propagation.outcome?_loss hp hrule houtcome

end Overlays

end IsSound

/-! ## The pruned architecture -/

namespace IsSound

variable {g : Graph} {net : Network} {order : Emission} {overlay overlay' : Propagation}
  {faults' : List Fault}

theorem mem_pruned_nodes (h : IsSound g.nodes g.edges net order overlay) {n : Node} :
    n ∈ g.pruned.nodes ↔ n ∈ g.nodes ∧ order.keeps n.id = true := by
  rw [Graph.pruned_eq h.ofGraph h.emission, List.mem_filter]

theorem mem_pruned_edges (h : IsSound g.nodes g.edges net order overlay) {e : Edge} :
    e ∈ g.pruned.edges ↔
      e ∈ g.edges ∧ order.keeps e.source = true ∧ order.keeps e.target = true := by
  rw [Graph.pruned_eq h.ofGraph h.emission, List.mem_filter, Bool.and_eq_true]

theorem isOf_pruned (h : IsSound g.nodes g.edges net order overlay) :
    (net.restrict order.keeps).IsOf g.pruned.nodes g.pruned.edges := by
  rw [Graph.pruned_eq h.ofGraph h.emission]
  exact h.isOf.restrict order.keeps

theorem edges_restrict (h : IsSound g.nodes g.edges net order overlay) :
    (net.restrict order.keeps).edges = g.pruned.edges := by
  rw [Graph.pruned_eq h.ofGraph h.emission, ← h.edges_eq]
  rfl

/-- The ends of a kept edge are the same nodes. -/
theorem resolveEnds_pruned (h : IsSound g.nodes g.edges net order overlay) {e : Edge}
    (he : e ∈ g.pruned.edges) {ends : Ends} :
    resolveEnds e g.pruned.nodes = .ok ends ↔ resolveEnds e g.nodes = .ok ends := by
  obtain ⟨-, hsource, htarget⟩ := h.mem_pruned_edges.1 he
  rw [h.isOf_pruned.resolveEnds_iff, h.isOf.resolveEnds_iff, Network.find?_restrict hsource,
    Network.find?_restrict htarget]

theorem drawn_pruned (h : IsSound g.nodes g.edges net order overlay) {e : Edge}
    (he : e ∈ g.pruned.edges) : checkDrawn g.pruned.nodes g.pruned.edges e = .ok () := by
  have hedge := (h.mem_pruned_edges.1 he).1
  obtain ⟨ends, hends, hconnection⟩ := checkDrawn_eq_ok_iff.1 (h.drawn e hedge)
  refine checkDrawn_eq_ok_iff.2 ⟨ends, (h.resolveEnds_pruned he).2 hends, ?_⟩
  refine checkConnection_mono (fun d hd => ?_) hconnection
  obtain ⟨hd, hne⟩ := mem_otherEdges.1 hd
  exact mem_otherEdges.2 ⟨(h.mem_pruned_edges.1 hd).1, hne⟩

/-- An emitted node keeps all edges into it. -/
theorem filter_otherEdges_pruned (h : IsSound g.nodes g.edges net order overlay) {e : Edge}
    {p : Placed} (hp : p ∈ order.nodes) (htarget : e.target = p.id) :
    (otherEdges e g.pruned.edges).filter (·.target = e.target) =
      (otherEdges e g.edges).filter (·.target = e.target) := by
  rw [otherEdges, otherEdges, List.filter_filter, List.filter_filter, ← h.edges_restrict,
    Network.filter_edges_restrict, h.edges_eq]
  intro d hd htest
  have hdtarget := (of_decide_eq_true (Bool.and_eq_true_iff.1 htest).1).trans htarget
  rw [hdtarget]
  exact ⟨h.spares.sources p hp d.source ⟨d, hd, rfl, hdtarget⟩,
    h.spares.keep_of_mem h.isEmission hp⟩

/-- A loss without normal edges reads nothing, and has no shape. -/
theorem shape?_loss_pruned (h : IsSound g.nodes g.edges net order overlay)
    (hprop : (net.restrict order.keeps).IsPropagation overlay' faults')
    (hunmixed : g.pruned.LossesUnmixed) {p : Placed} (hp : p ∈ net.nodes)
    (hloss : p.operator.isLoss = true) {e : Edge} (he : e ∈ g.pruned.edges)
    (htarget : e.target = p.id) (hkind : e.kind ≠ .normal) : overlay'.shape? p.id = none := by
  have hmem : p ∈ (net.restrict order.keeps).nodes :=
    Network.mem_nodes_restrict.2 ⟨hp, (h.keeps_iff hp).2 (.inr hloss)⟩
  apply Option.eq_none_iff_forall_ne_some.2
  intro shape hshape
  obtain ⟨q, hq, hid, -, result, hok, -⟩ := hprop.shape?_eq_some_iff.1 hshape
  obtain rfl := List.inj_on_of_nodup_map (net.restrict order.keeps).nodup_ids hq hmem hid
  have hrule := (Operator.rule_of_isLoss (h.mem_all hp) hloss).1
  obtain ⟨inputs, hinputs, -⟩ :=
    (Propagation.outcome?_of_not_dataset (by simp [hrule])).1 hok
  obtain ⟨d, hd, hdtarget, hdkind, -⟩ := Network.exists_edge_of_operands_ne_nil hmem
    (Operator.isMerge_of_isLoss (h.mem_all hp) hloss) (Propagation.inputs?_eq_some_iff.1 hinputs).1
  have hoperator := h.isOf_pruned.operator q hmem
  exact hkind (hunmixed q.node (h.isOf_pruned.node_mem hmem) q.operator hoperator hloss
    d (h.isOf_pruned.edge_mem hd) e he hdtarget htarget hdkind)

theorem shapes_pruned (h : IsSound g.nodes g.edges net order overlay)
    (hprop : (net.restrict order.keeps).IsPropagation overlay' faults')
    (hunmixed : g.pruned.LossesUnmixed) {e : Edge} (he : e ∈ g.pruned.edges) :
    checkDrawnShapes g.pruned.nodes g.pruned.edges overlay' e = .ok () := by
  obtain ⟨hedge, hkeeps, -⟩ := h.mem_pruned_edges.1 he
  have hemits := h.source_emits_of_keeps hedge hkeeps
  obtain ⟨ends, hends, hcheck⟩ := checkDrawnShapes_eq_ok_iff.1 (h.shapes e hedge)
  obtain ⟨-, hfound, -⟩ := h.isOf.resolveEnds_iff.1 hends
  obtain ⟨hsourceid, htargetid, -⟩ := ids_of_resolveEnds hends
  have hsource : overlay.shape? ends.source.id = overlay'.shape? ends.source.id := by
    rw [hsourceid]
    exact h.shape?_restrict hprop hemits
  refine checkDrawnShapes_eq_ok_iff.2 ⟨ends, (h.resolveEnds_pruned he).2 hends, ?_⟩
  obtain hp | hloss := h.target_of_emits hedge hemits hfound
  · -- Everything that the test looks at is emitted.
    rw [checkShapes_of_filter_eq (h.filter_otherEdges_pruned hp htargetid.symm), ← hcheck]
    refine (checkShapes_congr hsource (fun d hd hdtarget => ?_) fun _ _ => ?_).symm
    · exact h.shape?_restrict hprop
        (h.source_emitted (mem_otherEdges.1 hd).1 hp (hdtarget.trans htargetid.symm))
    · exact h.shape?_restrict hprop (Emission.emits_of_mem hp)
  · have hnode := (Network.find?_eq_some_iff.1 hfound).1
    have hmerge := Operator.isMerge_of_isLoss (h.mem_all hnode) hloss
    by_cases hkind : e.kind = .normal
    · -- A loss tests what the edge brings, without looking at other edges.
      rw [checkShapes_operand_iff (.inl hkind)] at hcheck ⊢
      rw [← hsource]
      intro produced hproduced
      obtain ⟨hlayout, hfeatures, hinputs⟩ := hcheck produced hproduced
      rw [checkInputs_of_not_isMerge hmerge] at hinputs ⊢
      exact ⟨hlayout, hfeatures, hinputs⟩
    · rw [checkShapes_addend_iff hkind hmerge,
        h.shape?_loss_pruned hprop hunmixed hnode hloss he htargetid.symm hkind]
      intro produced output _ houtput
      cases houtput

theorem inside_pruned (h : IsSound g.nodes g.edges net order overlay) {order' : Emission}
    (hemission : (net.restrict order.keeps).IsEmission order') (hroot : order'.root = order.root)
    {e : Edge} (he : e ∈ g.pruned.edges) : (outsideReport order' e).faults = [] := by
  obtain ⟨hedge, hkeeps, -⟩ := h.mem_pruned_edges.1 he
  have hreached := h.spares.reaches_iff.2
    (h.reached_of_emits (h.source_emits_of_keeps hedge hkeeps))
  rw [outsideReport, if_neg]
  rintro ⟨-, hunreachable⟩
  obtain ⟨q, hq, hid⟩ := List.any_eq_true.1 hunreachable
  have hnot := ((hemission.mem_unreachable q).1 hq).2
  rw [hroot, beq_iff_eq.1 hid] at hnot
  exact hnot hreached

theorem writtenAlike_restrict (h : IsSound g.nodes g.edges net order overlay) {order' : Emission}
    (hemission : (net.restrict order.keeps).IsEmission order') (hnodes : order'.nodes = order.nodes)
    (hprop : (net.restrict order.keeps).IsPropagation overlay' faults') {p : Placed}
    (hp : p ∈ order.nodes) : WrittenAlike order order' overlay overlay' p p where
  id := rfl
  operator := rfl
  params := by
    have hlearned := h.learned_restrict hprop (h.isEmission.mem_net hp) (Emission.emits_of_mem hp)
    rw [Propagation.effectiveParams, Propagation.effectiveParams, hlearned]
  inputs := (h.spares.inputsOf_eq h.isEmission hemission hnodes hp).symm
  addends := fun kind => (h.spares.addendsOf_eq h.isEmission hemission hp kind).symm

/-- An architecture without faults stays so when it is pruned, if no loss gets its edges mixed; and
the program is the same. -/
theorem exists_isSound_pruned (h : IsSound g.nodes g.edges net order overlay)
    (hunmixed : g.pruned.LossesUnmixed) :
    ∃ order' overlay',
      IsSound g.pruned.nodes g.pruned.edges (net.restrict order.keeps) order' overlay' ∧
        SameProgram order order' overlay overlay' := by
  have hofGraph := h.isOf_pruned.ofGraph_eq
  obtain ⟨order', horder, hroot, hnodes, hloss⟩ := h.spares.emission_restrict h.emission
  have hemission := Network.isEmission_of_emission horder
  obtain ⟨overlay', faults', hall⟩ := Network.exists_propagateAll hemission.acyclic
  have hprop := Network.isPropagation_of_propagateAll hall
  obtain rfl := h.faults_restrict hprop
  have hoverlay : LayerGraph.propagate g.pruned.nodes g.pruned.edges = .ok overlay' := by
    rw [propagate_eq_ok_iff, propagatePartial_eq hofGraph, hall]
  have hoperands : ∀ p ∈ order'.nodes, (operandReport order' p).faults = [] := by
    intro p hp
    rw [hnodes] at hp
    have hinputs := h.spares.inputsOf_eq h.isEmission hemission hnodes hp
    rw [operandReport, hinputs]
    exact h.operands p hp
  have hsound : IsSound g.pruned.nodes g.pruned.edges (net.restrict order.keeps) order' overlay' :=
    { proper := fun n hn => h.proper n (h.mem_pruned_nodes.1 hn).1
      ofGraph := hofGraph
      drawn := fun _ he => h.drawn_pruned he
      emission := horder
      operands := hoperands
      inside := fun _ he => h.inside_pruned hemission hroot he
      nonempty := hnodes ▸ h.nonempty
      propagate := hoverlay
      shapes := fun _ he => h.shapes_pruned hprop hunmixed he }
  refine ⟨order', overlay', hsound, ?_⟩
  refine { root := by rw [hroot], dataset := by rw [hroot], nodes := ?_, loss := by rw [hloss] }
  rw [hnodes]
  exact List.forall₂_same.2 fun p hp => h.writtenAlike_restrict hemission hnodes hprop hp

/-! ## When no loss gets its edges mixed -/

theorem lossesUnmixed_of_isSound (h : IsSound g.nodes g.edges net order overlay) {net' : Network}
    {order' : Emission} (h' : IsSound g.pruned.nodes g.pruned.edges net' order' overlay') :
    g.pruned.LossesUnmixed := by
  intro n hn o ho hloss d hd e he hdtarget htarget hdkind
  obtain rfl := Except.ok.inj (h.isOf_pruned.ofGraph_eq.symm.trans h'.ofGraph)
  obtain ⟨order'', horder, hroot, hnodes, -⟩ := h.spares.emission_restrict h.emission
  obtain rfl := Except.ok.inj (horder.symm.trans h'.emission)
  have hsource : ∀ e ∈ g.pruned.edges, order''.Emits e.source := by
    intro e he
    obtain ⟨hedge, hkeeps, -⟩ := h.mem_pruned_edges.1 he
    rw [Emission.Emits, hroot, hnodes]
    exact h.source_emits_of_keeps hedge hkeeps
  have hp : (⟨n, o⟩ : Placed) ∈ (net.restrict order.keeps).nodes := h'.isOf.mem_nodes.2 ⟨hn, ho⟩
  have hmerge := Operator.isMerge_of_isLoss (h'.mem_all hp) hloss
  have hedges := h'.edges_eq
  obtain ⟨a, ha, -, -, hoperands⟩ := Network.exists_edge_of_operands_ne_nil hp hmerge
    (Network.operands_ne_nil hp hmerge (hedges ▸ hd) hdtarget hdkind)
  refine Classical.byContradiction fun hkind => ?_
  exact h'.not_emits_addend hp hloss hoperands (hsource a (hedges ▸ ha)) he htarget hkind
    (hsource e he)

/-- In a wired graph the normal edge into a loss is the one that the loss read before. -/
theorem lossesUnmixed_of_isWired (h : IsSound g.nodes g.edges net order overlay)
    (hwired : g.IsWired) : g.pruned.LossesUnmixed := by
  intro n hn o ho hloss d hd e he hdtarget htarget hdkind
  obtain ⟨hdedge, hdkeeps, -⟩ := h.mem_pruned_edges.1 hd
  obtain ⟨hedge, hkeeps, -⟩ := h.mem_pruned_edges.1 he
  have hp : (⟨n, o⟩ : Placed) ∈ net.nodes :=
    h.isOf.mem_nodes.2 ⟨(h.mem_pruned_nodes.1 hn).1, ho⟩
  have hmerge := Operator.isMerge_of_isLoss (h.mem_all hp) hloss
  obtain ⟨a, ha, hatarget, hakind, hoperands⟩ := Network.exists_edge_of_operands_ne_nil hp hmerge
    (Network.operands_ne_nil hp hmerge (h.edges_eq.symm ▸ hdedge) hdtarget hdkind)
  have hdenotes : Denotes g.nodes n.id ⟨n, o⟩ :=
    h.isOf.denotes_iff.2 (Network.find?_eq_some_iff.2 ⟨hp, rfl⟩)
  have hsame : a = d := hwired.eq_of_normal hdenotes ⟨h.isPipeline_eq_false hp, hmerge⟩
    (h.edges_eq ▸ ha) hdedge hatarget hdtarget hakind hdkind
  refine Classical.byContradiction fun hkind => ?_
  refine h.not_emits_addend hp hloss hoperands ?_ hedge htarget hkind
    (h.source_emits_of_keeps hedge hkeeps)
  rw [hsame]
  exact h.source_emits_of_keeps hdedge hdkeeps

end IsSound

/-! ## Projects -/

/-- The project without the nodes of its architecture that are skipped. -/
def Project.pruned (p : Project) : Project := p.withGraph .architecture p.architecture.pruned

/-- A valid project stays valid without its skipped nodes exactly when no loss then has a normal
edge beside one that adds to its output; so it does when no two edges of its architecture with one
id clash, in particular when the ids are distinct. And then every text is the same. -/
theorem compile_pruned (p : Project) (hvalid : p.report.isValid = true) :
    (p.pruned.report.isValid = true ↔ p.pruned.architecture.LossesUnmixed) ∧
      ((p.architecture.edges.Pairwise fun d e =>
          d.id = e.id → ¬ Clash p.architecture.nodes d e) → p.pruned.report.isValid = true) ∧
      (p.pruned.report.isValid = true → ∀ settings : Settings, settings.validate = .ok () →
        ∃ text, p.compile settings = .ok text ∧ p.pruned.compile settings = .ok text) := by
  have hnone := Report.isValid_iff.1 hvalid
  have hfaults := hnone
  rw [Project.report, Report.faults_append, List.append_eq_nil_iff] at hfaults
  obtain ⟨net, order, overlay, h⟩ := architectureReport_isValid_iff.1 hfaults.1
  have hpruned : p.pruned.report.isValid = true ↔
      (architectureReport p.architecture.pruned.nodes p.architecture.pruned.edges).faults = [] :=
    (p.isValid_withGraph_iff _).trans (and_iff_left hfaults.2)
  have hiff : p.pruned.report.isValid = true ↔ p.pruned.architecture.LossesUnmixed := by
    rw [hpruned, architectureReport_isValid_iff]
    constructor
    · rintro ⟨net', order', overlay', h'⟩
      exact h.lossesUnmixed_of_isSound h'
    · intro hunmixed
      obtain ⟨order', overlay', h', -⟩ := h.exists_isSound_pruned hunmixed
      exact ⟨_, order', overlay', h'⟩
  refine ⟨hiff, fun hdistinct => ?_, fun hstays settings hsettings => ?_⟩
  · exact hiff.2 (h.lossesUnmixed_of_isWired (h.isWired_iff.2 hdistinct))
  · obtain ⟨order', overlay', h', hsame⟩ := h.exists_isSound_pruned (hiff.1 hstays)
    exact compile_congr p p.pruned rfl h h' hnone (Report.isValid_iff.1 hstays) hsame hsettings

/-- A second dataset with a layer of its own, which feeds a second loss. -/
def Project.sideBranch : Project where
  architecture :=
    { nodes :=
        [{ id := "data", operatorId := "dataset" },
         { id := "side", operatorId := "dataset" },
         { id := "stray", operatorId := "relu" },
         { id := "flat", operatorId := "flatten" },
         { id := "head", operatorId := "linear" },
         { id := "other", operatorId := "mseloss" },
         { id := "loss", operatorId := "crossentropyloss" }]
      edges :=
        [{ id := "1", source := "side", target := "stray" },
         { id := "2", source := "data", target := "flat" },
         { id := "3", source := "flat", target := "head" },
         { id := "4", source := "stray", target := "other" },
         { id := "5", source := "head", target := "loss" }] }

theorem compile_pruned_sideBranch :
    Project.sideBranch.pruned.architecture.nodes.map Node.id =
        ["data", "flat", "head", "other", "loss"] ∧
      Project.sideBranch.pruned.architecture.edges.map Edge.id = ["2", "3", "5"] ∧
      Project.sideBranch.pruned.report.isValid = true ∧
      ∃ text, Project.sideBranch.compile {} = .ok text ∧
        Project.sideBranch.pruned.compile {} = .ok text := by
  have hvalid : Project.sideBranch.report.isValid = true := by decide +kernel
  have hids : (Project.sideBranch.architecture.edges.map Edge.id).Nodup := by decide +kernel
  obtain ⟨-, hdistinct, htext⟩ := compile_pruned Project.sideBranch hvalid
  have hstays : Project.sideBranch.pruned.report.isValid = true := by
    apply hdistinct
    apply (List.pairwise_map.1 hids).imp
    intro d e hne heq
    exact absurd heq hne
  exact ⟨by decide +kernel, by decide +kernel, hstays, htext hstays {} (by decide +kernel)⟩

/-- Two normal edges with one id into a loss, the first of them from a node that is skipped, and an
edge that adds to the output of the loss. -/
def Project.skippedInput : Project where
  architecture :=
    { nodes :=
        [{ id := "data", operatorId := "dataset" },
         { id := "left", operatorId := "relu" },
         { id := "right", operatorId := "relu" },
         { id := "stray", operatorId := "relu" },
         { id := "loss", operatorId := "mseloss" }]
      edges :=
        [{ id := "1", source := "data", target := "left" },
         { id := "2", source := "data", target := "right" },
         { id := "3", source := "stray", target := "loss" },
         { id := "3", source := "left", target := "loss" },
         { id := "4", source := "right", target := "loss", kind := .residual }] }

/-- The loss has no shape as long as it reads the skipped node. Without this node it has the shape
of a scalar, to which nothing can be added. -/
theorem not_valid_pruned :
    Project.skippedInput.report.isValid = true ∧
      Project.skippedInput.report.warnings = [.skipped "stray" "data"] ∧
      Project.skippedInput.pruned.architecture.nodes.map Node.id =
        ["data", "left", "right", "loss"] ∧
      Project.skippedInput.pruned.report.isValid = false :=
  ⟨by decide +kernel, by decide +kernel, by decide +kernel, by decide +kernel⟩

end LayerGraph
