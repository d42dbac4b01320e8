import LayerGraph.Proofs.ClosingEdge
import LayerGraph.Proofs.Editing
import LayerGraph.Proofs.ListingOrder
/-!
# An accepted edge is drawn

An edge is tested before it is drawn, with the shapes that the other edges give and with the inputs
that its target would have. Once it stands behind the other edges, the graph is propagated again.

* `Network.SameBut.outcome?_eq`, `Network.SameBut.failsAt_iff`: the new edge is not seen but at its
  target and behind it.
* `Network.Adds.operands_of_addend`, `Network.Adds.exists_apply_of_default`,
  `Network.Adds.exists_apply_of_merge`: the target reads the same, or its rule accepts the inputs
  that it has now, since they are those of the test.
* `committed_edge`: so the target does not begin to fail, and what changes lies behind it.
-/

namespace LayerGraph
set_option autoImplicit false
open Relation

/-- One of the faults is that of the node. -/
def FailsAt (faults : List Fault) (id : String) : Prop :=
  ∃ fault ∈ faults, fault.complaint.node? = some id

namespace Network

variable {net net' : Network} {before after : Propagation} {faults faults' : List Fault}
  {nodes : List Node} {others : List Edge} {e : Edge} {ends : Ends}

/-- The nodes that fail are those whose rules do. -/
theorem IsPropagation.failsAt_iff (h : net.IsPropagation before faults) {id : String} :
    FailsAt faults id ↔ ∃ p ∈ net.nodes, p.id = id ∧ p.node.isPipeline = false ∧
      ∃ fault, before.outcome? net p = some (.error fault) := by
  have hnamed : ∀ p ∈ net.nodes, ∀ fault, before.outcome? net p = some (.error fault) →
      fault.complaint.node? = some p.id := by
    intro p hp fault hfault
    obtain ⟨result, -, hresult⟩ := (Propagation.outcome?_eq_some_iff hp).1 hfault
    cases result with
    | ok value => cases hresult
    | error cause =>
      rw [← Except.error.inj hresult, p.complaint_ruleFault]
      split <;> rfl
  constructor
  · rintro ⟨fault, hfault, hid⟩
    obtain ⟨p, hp, hgraph, houtcome⟩ := (h.faults fault).1 hfault
    rw [hnamed p hp fault houtcome] at hid
    exact ⟨p, hp, Option.some.inj hid, hgraph, fault, houtcome⟩
  · rintro ⟨p, hp, rfl, hgraph, fault, houtcome⟩
    exact ⟨fault, (h.faults fault).2 ⟨p, hp, hgraph, houtcome⟩, hnamed p hp fault houtcome⟩

/-- Edges that come from nowhere bring no shapes. -/
theorem IsPropagation.otherInputs_eq (h : net.IsPropagation before faults)
    (hnet : net.IsOf nodes others) (htarget : e.target ∈ net.ids) :
    otherInputs e others before =
      (net.incoming e.target).filterMap fun d => before.shape? d.source := by
  rw [otherInputs, incoming, hnet.edges_eq, List.filter_filter, List.filterMap_filter,
    List.filterMap_filter]
  apply List.filterMap_congr
  intro d _
  by_cases hd : d.target = e.target
  · by_cases hsource : d.source ∈ net.ids
    · simp [hd, hsource, htarget]
    · have hnone : before.shape? d.source = none := by
        rw [Option.eq_none_iff_forall_not_mem]
        intro shape hshape
        obtain ⟨p, hp, hid, -⟩ := h.shaped _ shape hshape
        exact hsource (hid ▸ id_mem_ids hp)
      simp [hd, hsource, hnone]
  · simp [hd]

/-! ## What does not lie behind the edge -/

namespace SameBut

variable {target : String} (h : net.SameBut target net') (hprop : net.IsPropagation before faults)
  (hprop' : net'.IsPropagation after faults')
include h hprop hprop'

theorem outcome?_eq {p : Placed} (hid : ¬ ReflTransGen (Feeds net.edges) target p.id) :
    before.outcome? net p = after.outcome? net' p := by
  apply Propagation.outcome?_congr (h.operands_of_ne fun heq => hid (heq ▸ .refl))
  intro s hs
  exact h.shape?_eq hprop hprop' fun hback => hid (hback.tail (feeds_of_mem_operands hs))

theorem learned_eq (hsolved : net.IsSolved before faults) (hsolved' : net'.IsSolved after faults')
    {id : String} (hid : ¬ ReflTransGen (Feeds net.edges) target id) :
    before.learned.get? id = after.learned.get? id := by
  apply hsolved.learned_eq_of_outcome hsolved' fun p _ => by rw [h.nodes]
  rintro p - rfl - result
  rw [h.outcome?_eq hprop hprop' hid]

theorem failsAt_iff {id : String} (hid : ¬ ReflTransGen (Feeds net.edges) target id) :
    FailsAt faults id ↔ FailsAt faults' id := by
  rw [hprop.failsAt_iff, hprop'.failsAt_iff, ← h.nodes]
  apply exists_congr
  intro p
  apply and_congr_right
  intro _
  apply and_congr_right
  rintro rfl
  rw [h.outcome?_eq hprop hprop' hid]

end SameBut

/-! ## The target -/

namespace Adds

theorem incoming_target (h : net.Adds e net') :
    net'.incoming e.target = net.incoming e.target ++ [e] := by
  rw [incoming, incoming, h.edges, List.filter_append, List.filter_singleton, beq_self_eq_true,
    cond_true]

theorem sameBut (h : net.Adds e net') : net.SameBut e.target net' where
  nodes := h.nodes
  incoming := by
    intro id hne
    rw [incoming, incoming, h.edges, List.filter_append, List.filter_singleton,
      beq_eq_false_iff_ne.2 hne.symm, cond_false, List.append_nil]

/-- An addend is not read by the rule. -/
theorem operands_of_addend (h : net.Adds e net') (hkind : e.kind ≠ .normal)
    (hmerge : net.isMerge e.target = false) :
    net.operands e.target = net'.operands e.target := by
  apply h.sameBut.operands_target hmerge
  rw [h.incoming_target, List.filter_append, List.filter_singleton, decide_eq_false hkind,
    cond_false, List.append_nil]

theorem operands_of_merge (h : net.Adds e net') (hmerge : net.isMerge e.target = true) :
    net'.operands e.target = (net.incoming e.target).map Edge.source ++ [e.source] := by
  rw [operands, ← isMerge_congr h.nodes, hmerge, if_pos rfl, h.incoming_target, List.map_append]
  rfl

/-- The first default input is the one that is read. -/
theorem operands_of_default (h : net.Adds e net') (hkind : e.kind = .normal)
    (hmerge : net.isMerge e.target = false)
    (hfirst : ∀ d ∈ net.incoming e.target, d.kind ≠ .normal) :
    net'.operands e.target = [e.source] := by
  have hnone : (net.incoming e.target).filter (·.kind = .normal) = [] := by
    rw [List.filter_eq_nil_iff]
    intro d hd
    rw [decide_eq_true_iff]
    exact hfirst d hd
  rw [operands, ← isMerge_congr h.nodes, hmerge, if_neg Bool.false_ne_true, h.incoming_target,
    List.filter_append, hnone, List.filter_singleton, decide_eq_true hkind]
  rfl

variable (h : net.Adds e net') (hprop : net.IsPropagation before faults)
  (hprop' : net'.IsPropagation after faults')
include h hprop hprop'

theorem shape?_source : before.shape? e.source = after.shape? e.source := by
  apply h.sameBut.shape?_eq hprop hprop'
  have hacyclic := hprop'.acyclic
  rw [h.edges] at hacyclic
  exact (acyclic_append_single_iff.1 hacyclic).2

/-- A default input is the one input that the target is tested with. -/
theorem exists_apply_of_default (hsource : ends.source.id = e.source)
    (htarget : ends.target.id = e.target) (hp : ends.target ∈ net.nodes) (hkind : e.kind = .normal)
    (hmerge : ends.target.operator.isMerge = false)
    (hfirst : ∀ d ∈ net.incoming e.target, d.kind ≠ .normal)
    (hcheck : checkShapes e ends others before = .ok ()) {inputs : List Shape}
    (hinputs : after.inputs? net' ends.target = some inputs) :
    ∃ result, ends.target.operator.rule.apply
      (ends.target.operator.resolve ends.target.node.params) inputs = .ok result := by
  have hnet : net.isMerge e.target = false := by rw [← htarget, isMerge_eq hp, hmerge]
  obtain ⟨-, -, hread⟩ := Propagation.inputs?_eq_some_iff.1 hinputs
  rw [htarget, h.operands_of_default hkind hnet hfirst] at hread
  obtain ⟨produced, -, hproduced⟩ :=
    Propagation.exists_of_mapM_eq_some hread (List.mem_singleton_self e.source)
  have hsingle : inputs = [produced] := by
    rw [← Propagation.filterMap_eq_of_mapM_eq_some hread, List.filterMap_cons_some hproduced,
      List.filterMap_nil]
  rw [← h.shape?_source hprop hprop', ← hsource] at hproduced
  obtain ⟨-, -, hrule⟩ := (checkShapes_operand_iff (.inl hkind)).1 hcheck produced hproduced
  rw [checkInputs_of_not_isMerge hmerge, ← hsingle] at hrule
  exact checkRule_eq_ok_iff.1 hrule

/-- Once a merge has all its inputs, they are the ones that it is tested with. -/
theorem exists_apply_of_merge (hnet : net.IsOf nodes others) (hsource : ends.source.id = e.source)
    (htarget : ends.target.id = e.target) (hp : ends.target ∈ net.nodes)
    (hmerge : ends.target.operator.isMerge = true)
    (hcheck : checkShapes e ends others before = .ok ()) {inputs : List Shape}
    (hinputs : after.inputs? net' ends.target = some inputs) :
    ∃ result, ends.target.operator.rule.apply
      (ends.target.operator.resolve ends.target.node.params) inputs = .ok result := by
  have hisMerge : net.isMerge e.target = true := by rw [← htarget, isMerge_eq hp, hmerge]
  obtain ⟨-, htwo, hread⟩ := Propagation.inputs?_eq_some_iff.1 hinputs
  have hlength := htwo hmerge
  rw [htarget, h.operands_of_merge hisMerge] at hread hlength
  obtain ⟨produced, -, hproduced⟩ :=
    Propagation.exists_of_mapM_eq_some hread (a := e.source) (by simp)
  have hbefore : ∀ d ∈ net.incoming e.target, before.shape? d.source = after.shape? d.source := by
    intro d hd
    obtain ⟨hd, hdtarget⟩ := mem_incoming.1 hd
    exact h.sameBut.shape?_of_feeds hprop hprop' (hdtarget ▸ .of_mem hd)
  have hothers : otherInputs e others before =
      ((net.incoming e.target).map Edge.source).filterMap after.shape? := by
    rw [hprop.otherInputs_eq hnet (htarget ▸ id_mem_ids hp), List.filterMap_map]
    exact List.filterMap_congr hbefore
  -- The new edge stands behind the others, as what it brings does in the test.
  have hall : otherInputs e others before ++ [produced] = inputs := by
    rw [hothers, ← Propagation.filterMap_eq_of_mapM_eq_some hread, List.filterMap_append,
      List.filterMap_cons_some hproduced, List.filterMap_nil]
  have hnonempty : otherInputs e others before ≠ [] := by
    intro hnone
    have hcount := (Propagation.mapM_eq_some_iff.1 hread).length_eq
    rw [hcount, ← hall, hnone] at hlength
    exact absurd hlength (by simp)
  rw [← h.shape?_source hprop hprop', ← hsource] at hproduced
  obtain ⟨-, -, hrule⟩ := (checkShapes_operand_iff (.inr hmerge)).1 hcheck produced hproduced
  rw [checkInputs_of_isMerge hmerge hnonempty, hall] at hrule
  exact checkRule_eq_ok_iff.1 hrule

/-- The target of an accepted edge fails only if it has failed before. -/
theorem failsAt_target (hnet : net.IsOf nodes others) (hends : resolveEnds e nodes = .ok ends)
    (hconnection : checkConnection e ends others = .ok ())
    (hcheck : ends.source.node.isPipeline = false → checkShapes e ends others before = .ok ())
    (hfails : FailsAt faults' e.target) : FailsAt faults e.target := by
  obtain ⟨hsource, htarget, hsame, -⟩ := hnet.resolveEnds_iff.1 hends
  obtain ⟨-, hsourceid⟩ := find?_eq_some_iff.1 hsource
  obtain ⟨p, hp, hid, hgraph, fault, houtcome⟩ := hprop'.failsAt_iff.1 hfails
  rw [← h.nodes] at hp
  obtain rfl : p = ends.target :=
    Option.some.inj ((find?_eq_some_iff.2 ⟨hp, hid⟩).symm.trans htarget)
  have harchitecture : ends.source.node.isPipeline = false := hsame.trans hgraph
  have hshapes := hcheck harchitecture
  obtain ⟨-, hrules⟩ := checkConnection_eq_ok_iff.1 hconnection
  rw [harchitecture, if_neg Bool.false_ne_true] at hrules
  obtain ⟨hroot, hfirst, -⟩ := checkArchitecture_eq_ok_iff.1 hrules
  have hrule : ends.target.operator.rule ≠ .dataset := by
    intro hdataset
    have hmem := Placed.mem_all_of_architecture (hnet.operator _ hp) hgraph
    rw [(Operator.isRoot_iff hmem).2 hdataset] at hroot
    cases hroot
  -- The rule reads no addend, so that it fails as before; anything else it has been tested with.
  by_cases haddend : e.kind ≠ .normal ∧ ends.target.operator.isMerge = false
  · have hmerge : net.isMerge e.target = false := by rw [← hid, isMerge_eq hp, haddend.2]
    have hoperands := h.operands_of_addend haddend.1 hmerge
    rw [← h.sameBut.outcome?_target hprop hprop' hoperands hid] at houtcome
    exact hprop.failsAt_iff.2 ⟨_, hp, hid, hgraph, fault, houtcome⟩
  · obtain ⟨inputs, hinputs, happly⟩ := (Propagation.outcome?_of_not_dataset hrule).1 houtcome
    have haccepts : ∃ result, ends.target.operator.rule.apply
        (ends.target.operator.resolve ends.target.node.params) inputs = .ok result := by
      cases hmerge : ends.target.operator.isMerge with
      | true =>
        exact h.exists_apply_of_merge hprop hprop' hnet hsourceid hid hp hmerge hshapes hinputs
      | false =>
        have hkind : e.kind = .normal := not_not.1 fun hne => haddend ⟨hne, hmerge⟩
        refine h.exists_apply_of_default hprop hprop' hsourceid hid hp hkind hmerge
          (fun d hd => ?_) hshapes hinputs
        obtain ⟨hd, hdtarget⟩ := mem_incoming.1 hd
        exact hfirst hkind hmerge d (hnet.edge_mem hd) hdtarget
    obtain ⟨result, hresult⟩ := haccepts
    rw [hresult] at happly
    cases happly

end Adds
end Network

/-! ## Drawing -/

theorem exists_propagatePartial_otherEdges {nodes : List Node} {edges : List Edge} (e : Edge)
    (h : ∃ state, propagatePartial nodes edges = .ok state) :
    ∃ state, propagatePartial nodes (otherEdges e edges) = .ok state := by
  obtain ⟨hids, hoperators, hacyclic⟩ := Network.exists_propagatePartial_iff.1 h
  refine Network.exists_propagatePartial_iff.2 ⟨hids, hoperators, hacyclic.mono fun d hd => ?_⟩
  obtain ⟨hd, hjoins⟩ := List.mem_filter.1 hd
  exact List.mem_filter.2 ⟨(mem_otherEdges.1 hd).1, hjoins⟩

/-- Once an accepted edge is drawn, the graph is propagated again. The target of the edge does not
begin to fail; whatever does lies behind it; and shapes and learned parameters stay as they are at
all nodes but the target and those behind it. -/
theorem committed_edge (nodes : List Node) (edges : List Edge) (candidate : Edge)
    (hdrawn : ∃ state, propagatePartial nodes edges = .ok state)
    (haccepted : validateEdge candidate nodes edges = .ok ()) :
    ∃ net before faults after faults',
      Network.ofGraph nodes (otherEdges candidate edges) = .ok net ∧
      propagatePartial nodes (otherEdges candidate edges) = .ok (before, faults) ∧
      propagatePartial nodes (otherEdges candidate edges ++ [candidate]) = .ok (after, faults') ∧
      (∀ id, FailsAt faults' id → ¬ FailsAt faults id →
        id ≠ candidate.target ∧ TransGen (Feeds net.edges) candidate.target id) ∧
      ∀ id, ¬ ReflTransGen (Feeds net.edges) candidate.target id →
        after.shape? id = before.shape? id ∧ after.learned.get? id = before.learned.get? id := by
  obtain ⟨ends, hends, hconnection, -, hshapes⟩ := validateEdge_eq_ok_iff.1 haccepted
  obtain ⟨⟨before, faults⟩, hbefore⟩ := exists_propagatePartial_otherEdges candidate hdrawn
  obtain ⟨net, hnet, hall⟩ := bind_eq_ok_iff.1 hbefore
  have hisOf := Network.isOf_of_ofGraph hnet
  have hprop := Network.isPropagation_of_propagateAll hall
  obtain ⟨hsource, htarget⟩ := hisOf.ends_mem_of_resolveEnds hends
  obtain ⟨net', hnet', hadds⟩ := hisOf.exists_adds hsource htarget
  have hacyclic : Acyclic net'.edges := by
    rw [hadds.edges]
    exact hprop.acyclic.append_single fun hback =>
      not_leads_of_validateEdge haccepted (path_mono (fun d hd => hisOf.edge_mem hd) hback)
  obtain ⟨after, faults', hall'⟩ := Network.exists_propagateAll hacyclic
  have hprop' := Network.isPropagation_of_propagateAll hall'
  refine ⟨net, before, faults, after, faults', hnet, hbefore, ?_, fun id hfails hnot => ?_,
    fun id hid => ⟨(hadds.sameBut.shape?_eq hprop hprop' hid).symm, ?_⟩⟩
  · rw [propagatePartial_eq hnet', hall']
  · have hne : id ≠ candidate.target := by
      rintro rfl
      exact hnot (hadds.failsAt_target hprop hprop' hisOf hends hconnection
        (fun hgraph => hshapes hgraph before faults hbefore) hfails)
    have hreached : ReflTransGen (Feeds net.edges) candidate.target id := by
      by_contra hid
      exact hnot ((hadds.sameBut.failsAt_iff hprop hprop' hid).2 hfails)
    rcases reflTransGen_iff_eq_or_transGen.1 hreached with heq | hleads
    · exact absurd heq hne
    · exact ⟨hne, hleads⟩
  · exact (hadds.sameBut.learned_eq hprop hprop' (Network.isSolved_of_propagateAll hall)
      (Network.isSolved_of_propagateAll hall') hid).symm

/-- A sum waits for a second input. What reads the sum cannot take its shape, and one node fails
already. -/
def Graph.expecting : Graph where
  nodes :=
    [{ id := "data", operatorId := "dataset" },
     { id := "same", operatorId := "relu" },
     { id := "spare", operatorId := "relu" },
     { id := "sum", operatorId := "add" },
     { id := "wide", operatorId := "conv2d", params := .ofList [("kernel_size", .int 99)] },
     { id := "broken", operatorId := "conv2d", params := .ofList [("kernel_size", .int 99)] }]
  edges :=
    [{ id := "1", source := "data", target := "same" },
     { id := "2", source := "data", target := "sum" },
     { id := "3", source := "same", target := "spare" },
     { id := "4", source := "sum", target := "wide" },
     { id := "5", source := "data", target := "broken" }]

/-- An edge is drawn again, to the sum. -/
def Edge.redrawn : Edge where
  id := "3"
  source := "same"
  target := "sum"
  kind := .sum

theorem committed_edge_redrawn :
    ∃ net before faults after faults',
      Network.ofGraph Graph.expecting.nodes (otherEdges .redrawn Graph.expecting.edges) = .ok net ∧
      propagatePartial Graph.expecting.nodes (otherEdges .redrawn Graph.expecting.edges) =
        .ok (before, faults) ∧
      propagatePartial Graph.expecting.nodes
        (otherEdges .redrawn Graph.expecting.edges ++ [.redrawn]) = .ok (after, faults') ∧
      faults.map (·.complaint.node?) = [some "broken"] ∧
      faults'.map (·.complaint.node?) = [some "broken", some "wide"] ∧
      TransGen (Feeds net.edges) "sum" "wide" ∧
      ∀ id, ¬ ReflTransGen (Feeds net.edges) "sum" id →
        after.shape? id = before.shape? id ∧ after.learned.get? id = before.learned.get? id := by
  have hvalue :
      (propagatePartial Graph.expecting.nodes Graph.expecting.edges).toOption.isSome = true ∧
      (propagatePartial Graph.expecting.nodes
        (otherEdges .redrawn Graph.expecting.edges)).toOption.all (fun found =>
          decide (found.2.map (·.complaint.node?) = [some "broken"])) = true ∧
      (propagatePartial Graph.expecting.nodes
        (otherEdges .redrawn Graph.expecting.edges ++ [.redrawn])).toOption.all (fun found =>
          decide (found.2.map (·.complaint.node?) = [some "broken", some "wide"])) = true := by
    decide +kernel
  obtain ⟨hdrawn, hbefore, hafter⟩ := hvalue
  obtain ⟨net, before, faults, after, faults', hnet, hpropagated, hpropagated', hnew, hkept⟩ :=
    committed_edge Graph.expecting.nodes Graph.expecting.edges .redrawn
      (exists_of_isSome_toOption hdrawn) (by decide +kernel)
  have hnames := of_decide_eq_true (of_toOption_all hbefore hpropagated)
  have hnames' := of_decide_eq_true (of_toOption_all hafter hpropagated')
  have hfails : FailsAt faults' "wide" := by
    have hmem : some "wide" ∈ faults'.map (·.complaint.node?) := by simp [hnames']
    exact List.mem_map.1 hmem
  have hnot : ¬ FailsAt faults "wide" := by
    intro hfails
    have hmem : some "wide" ∈ faults.map (·.complaint.node?) := List.mem_map.2 hfails
    rw [hnames] at hmem
    exact absurd hmem (by decide)
  exact ⟨net, before, faults, after, faults', hnet, hpropagated, hpropagated', hnames, hnames',
    (hnew "wide" hfails hnot).2, hkept⟩

end LayerGraph
