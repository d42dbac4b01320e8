import LayerGraph.Proofs.Sound
import LayerGraph.Session
/-!
# One edge and the whole graph

`validateEdge` looks at one edge beside the others, `Project.report` at the whole graph. For graphs
whose nodes are in order both say the same:

* `Network.SameBut net target net'`: the edges into one node differ. This is not seen but at the
  node and behind it (`Network.SameBut.shape?_eq`).
* `checkShapes_otherEdges`: the shapes that an edge is tested with do not depend on the edge itself,
  so it makes no difference whether they are propagated with it or without it.
* `no_rule_fault`: if every edge passes its test, no rule fails.
* `edges_agree`: a graph without faults consists of edges that are accepted, and a graph of accepted
  edges has no faults but those of something that is missing.
-/

namespace LayerGraph
set_option autoImplicit false
open Relation

variable {nodes : List Node} {edges : List Edge} {net : Network} {e : Edge}

/-! ## The other edges -/

theorem mem_otherEdges {d : Edge} : d ∈ otherEdges e edges ↔ d ∈ edges ∧ d.id ≠ e.id := by
  rw [otherEdges, List.mem_filter, bne_iff_ne]

theorem eq_of_id_eq (hids : (edges.map Edge.id).Nodup) {d : Edge} (hd : d ∈ edges) (he : e ∈ edges)
    (h : d.id = e.id) : d = e := List.inj_on_of_nodup_map hids hd he h

/-- A part of the edges without the edge is a part of the other edges. -/
theorem filter_otherEdges (hids : (edges.map Edge.id).Nodup) (he : e ∈ edges) {keep : Edge → Bool}
    (hkeep : keep e = false) : (otherEdges e edges).filter keep = edges.filter keep := by
  rw [otherEdges, List.filter_filter]
  refine List.filter_congr fun d hd => ?_
  by_cases hid : d.id = e.id
  · rw [eq_of_id_eq hids hd he hid, hkeep, Bool.false_and]
  · simp [hid]

/-- The edges into a node before the last one are those among the others. -/
theorem filter_otherEdges_of_last (hids : (edges.map Edge.id).Nodup) {keep : Edge → Bool}
    {init : List Edge} (h : edges.filter keep = init ++ [e]) :
    (otherEdges e edges).filter keep = init := by
  have hnodup : ((init ++ [e]).map Edge.id).Nodup :=
    h ▸ (List.filter_sublist.map Edge.id).nodup hids
  rw [List.map_append, List.nodup_append] at hnodup
  have hinit : init.filter (·.id != e.id) = init := List.filter_eq_self.2 fun d hd => by
    have hne := hnodup.2.2 d.id (List.mem_map_of_mem hd) e.id (by simp)
    simpa using hne
  have hcomm : (otherEdges e edges).filter keep = (edges.filter keep).filter (·.id != e.id) := by
    rw [otherEdges, List.filter_filter, List.filter_filter]
    exact List.filter_congr fun d _ => Bool.and_comm _ _
  rw [hcomm, h, List.filter_append, hinit]
  simp

/-! ## Shapes with and without an edge -/

theorem eq_of_map_node_eq {first second : List Placed}
    (h : first.map Placed.node = second.map Placed.node)
    (hfirst : ∀ p ∈ first, p.node.operator = .ok p.operator)
    (hsecond : ∀ p ∈ second, p.node.operator = .ok p.operator) : first = second := by
  induction first generalizing second with
  | nil => exact (List.map_eq_nil_iff.1 h.symm).symm
  | cons p rest ih =>
    cases second with
    | nil => cases h
    | cons q more =>
      obtain ⟨hnode, hrest⟩ := List.cons.inj h
      have hp := hfirst p List.mem_cons_self
      have hq := hsecond q List.mem_cons_self
      rw [hnode] at hp
      have hpq : p = q := by
        cases p
        cases q
        have hoperator := Except.ok.inj (hp.symm.trans hq)
        simp_all
      rw [hpq, ih hrest (fun r hr => hfirst r (List.mem_cons_of_mem _ hr))
        fun r hr => hsecond r (List.mem_cons_of_mem _ hr)]

theorem Network.IsOf.nodes_eq_of_isOf {net' : Network} {edges' : List Edge}
    (h : net.IsOf nodes edges) (h' : net'.IsOf nodes edges') : net.nodes = net'.nodes :=
  eq_of_map_node_eq (h.nodes_eq.trans h'.nodes_eq.symm) h.operator h'.operator

namespace Network

variable {net' : Network}

theorem isMerge_congr (hnodes : net.nodes = net'.nodes) (id : String) :
    net.isMerge id = net'.isMerge id := by
  rw [isMerge, isMerge, find?, find?, hnodes]

/-- The networks have the same nodes, and the same edges into all of them but one. -/
structure SameBut (net : Network) (target : String) (net' : Network) : Prop where
  nodes : net.nodes = net'.nodes
  incoming : ∀ id, id ≠ target → net.incoming id = net'.incoming id

theorem sameBut_otherEdges (hids : (edges.map Edge.id).Nodup) (he : e ∈ edges)
    (hnodes : net.nodes = net'.nodes) (hedges : net.edges = edges)
    (hothers : net'.edges = otherEdges e edges) : net.SameBut e.target net' where
  nodes := hnodes
  incoming := by
    intro id hne
    rw [incoming, incoming, hedges, hothers]
    exact (filter_otherEdges hids he (by simpa using Ne.symm hne)).symm

namespace SameBut

variable {target : String} (h : net.SameBut target net')
include h

theorem operands_of_ne {id : String} (hne : id ≠ target) : net.operands id = net'.operands id := by
  rw [operands, operands, isMerge_congr h.nodes, h.incoming id hne]

/-- The node itself reads the same if it is no merge and has the same normal edges. -/
theorem operands_target (hmerge : net.isMerge target = false)
    (hnormal : (net.incoming target).filter (·.kind = .normal) =
      (net'.incoming target).filter (·.kind = .normal)) :
    net.operands target = net'.operands target := by
  rw [operands, operands, ← isMerge_congr h.nodes, hmerge, if_neg Bool.false_ne_true,
    if_neg Bool.false_ne_true, hnormal]

variable {overlay overlay' : Propagation} {faults faults' : List Fault}
  (hprop : net.IsPropagation overlay faults) (hprop' : net'.IsPropagation overlay' faults')
include hprop hprop'

/-- The difference is not seen at a node that does not lie behind it. -/
theorem shape?_eq {id : String} (hid : ¬ ReflTransGen (Feeds net.edges) target id) :
    overlay.shape? id = overlay'.shape? id := by
  apply hprop.shape?_congr hprop' h.nodes fun id => ¬ ReflTransGen (Feeds net.edges) target id
  · intro id hid
    exact h.operands_of_ne fun heq => hid (heq ▸ .refl)
  · intro id hid s hs hback
    exact hid (hback.tail (feeds_of_mem_operands hs))
  · exact hid

/-- What feeds the node is not reached from it. -/
theorem shape?_of_feeds {s : String} (hs : Feeds net.edges s target) :
    overlay.shape? s = overlay'.shape? s :=
  h.shape?_eq hprop hprop' fun hback => hprop.acyclic s (TransGen.head' hs hback)

/-- If the node itself reads the same, the rule gives it the same. -/
theorem outcome?_target (hoperands : net.operands target = net'.operands target) {p : Placed}
    (hp : p.id = target) : overlay.outcome? net p = overlay'.outcome? net' p := by
  apply Propagation.outcome?_congr (hp ▸ hoperands)
  intro s hs
  exact h.shape?_of_feeds hprop hprop' (hp ▸ feeds_of_mem_operands hs)

theorem shape?_target (hoperands : net.operands target = net'.operands target) :
    overlay.shape? target = overlay'.shape? target := by
  apply Option.ext
  intro shape
  rw [hprop.shape?_eq_some_iff, hprop'.shape?_eq_some_iff, ← h.nodes]
  apply exists_congr
  intro p
  apply and_congr_right
  intro _
  apply and_congr_right
  intro hp
  rw [h.outcome?_target hprop hprop' hoperands hp]

end SameBut
end Network

/-- The test of an edge by shapes comes out the same with and without the edge in the graph: what it
looks at does not lie behind the edge. -/
theorem checkShapes_otherEdges {net' : Network} {overlay overlay' : Propagation}
    {faults faults' : List Fault} {ends : Ends} (hids : (edges.map Edge.id).Nodup) (he : e ∈ edges)
    (hnodes : net.nodes = net'.nodes) (hedges : net.edges = edges)
    (hothers : net'.edges = otherEdges e edges) (hsource : net.find? e.source = some ends.source)
    (htarget : net.find? e.target = some ends.target) (h : net.IsPropagation overlay faults)
    (h' : net'.IsPropagation overlay' faults') :
    checkShapes e ends (otherEdges e edges) overlay =
      checkShapes e ends (otherEdges e edges) overlay' := by
  obtain ⟨-, hsourceid⟩ := Network.find?_eq_some_iff.1 hsource
  obtain ⟨htargetmem, htargetid⟩ := Network.find?_eq_some_iff.1 htarget
  have hsame := Network.sameBut_otherEdges hids he hnodes hedges hothers
  have hfeeds : ∀ d ∈ edges, Feeds net.edges d.source d.target := fun d hd =>
    .of_mem (hedges ▸ hd)
  refine checkShapes_congr ?_ (fun d hd hdtarget => ?_) fun hkind hmerge => ?_
  · rw [hsourceid]
    exact hsame.shape?_of_feeds h h' (hfeeds e he)
  · exact hsame.shape?_of_feeds h h' (hdtarget ▸ hfeeds d (mem_otherEdges.1 hd).1)
  · -- The target itself reads none of the addend.
    have hmerge' : net.isMerge e.target = false := by
      rw [← htargetid, Network.isMerge_eq htargetmem, hmerge]
    rw [htargetid]
    apply hsame.shape?_target h h'
    apply hsame.operands_target hmerge'
    rw [Network.incoming, Network.incoming, hedges, hothers, List.filter_filter,
      List.filter_filter]
    exact (filter_otherEdges hids he (by simp [hkind])).symm

/-! ## Rules without faults -/

theorem exists_datasetShape {o : Operator} (ho : o ∈ Operator.Architecture.all)
    (hrule : o.rule = .dataset) {params : Params} (hproblems : o.problems params = []) :
    ∃ result, Rule.datasetShape (o.resolve params) = .ok result := by
  obtain ⟨name, dataset, hname, hdataset⟩ := Operator.exists_dataset ho hrule hproblems
  exact ⟨⟨dataset.shape, []⟩, by simp only [Rule.datasetShape, hname, hdataset]⟩

/-- The rule of a target accepts its inputs when every edge into it passes its test. -/
theorem exists_apply {overlay : Propagation} {p : Placed} {inputs : List Shape}
    (hids : (edges.map Edge.id).Nodup) (hedges : net.edges = edges) (hp : p ∈ net.nodes)
    (hshapes : ∀ e ∈ edges, ∃ ends : Ends, net.find? e.source = some ends.source ∧
      net.find? e.target = some ends.target ∧
      checkShapes e ends (otherEdges e edges) overlay = .ok ())
    (hinputs : overlay.inputs? net p = some inputs) :
    ∃ result, p.operator.rule.apply (p.operator.resolve p.node.params) inputs = .ok result := by
  obtain ⟨hne, htwo, hmapM⟩ := Propagation.inputs?_eq_some_iff.1 hinputs
  have hends : ∀ e ∈ edges, e.target = p.id → ∃ ends : Ends, ends.source.id = e.source ∧
      ends.target = p ∧ checkShapes e ends (otherEdges e edges) overlay = .ok () := by
    intro e he htarget
    obtain ⟨ends, hsource, hfound, hcheck⟩ := hshapes e he
    rw [htarget, Network.find?_eq_some_iff.2 ⟨hp, rfl⟩] at hfound
    exact ⟨ends, (Network.find?_eq_some_iff.1 hsource).2, (Option.some.inj hfound).symm, hcheck⟩
  cases hmerge : p.operator.isMerge with
  | false =>
    rw [Network.operands_of_not_isMerge hp hmerge] at hne hmapM
    cases hnormal : (net.incoming p.id).filter (·.kind = .normal) with
    | nil => simp [hnormal] at hne
    | cons e rest =>
      have hmem : e ∈ (net.incoming p.id).filter (·.kind = .normal) :=
        hnormal ▸ List.mem_cons_self
      obtain ⟨hmem, hkind⟩ := List.mem_filter.1 hmem
      obtain ⟨he, htarget⟩ := Network.mem_incoming.1 hmem
      obtain ⟨ends, hsource, rfl, hcheck⟩ := hends e (hedges ▸ he) htarget
      rw [hnormal] at hmapM
      obtain ⟨produced, hproduced, hinput⟩ :
          ∃ produced, overlay.shape? e.source = some produced ∧ inputs = [produced] := by
        have hfilterMap := Propagation.filterMap_eq_of_mapM_eq_some hmapM
        obtain ⟨produced, -, hproduced⟩ :=
          Propagation.exists_of_mapM_eq_some hmapM (a := e.source) (by simp)
        exact ⟨produced, hproduced, by simpa [hproduced] using hfilterMap.symm⟩
      obtain ⟨-, -, hrule⟩ := (checkShapes_operand_iff (.inl (of_decide_eq_true hkind))).1 hcheck
        produced (hsource ▸ hproduced)
      rw [checkInputs_of_not_isMerge hmerge] at hrule
      exact hinput ▸ checkRule_eq_ok_iff.1 hrule
  | true =>
    have hlength := htwo hmerge
    rw [Network.operands_of_isMerge hp hmerge] at hlength hmapM
    rcases List.eq_nil_or_concat (net.incoming p.id) with hnone | ⟨init, e, hincoming⟩
    · simp [hnone] at hlength
    · have hmem : e ∈ net.incoming p.id := by simp [hincoming]
      obtain ⟨he, htarget⟩ := Network.mem_incoming.1 hmem
      obtain ⟨ends, hsource, rfl, hcheck⟩ := hends e (hedges ▸ he) htarget
      rw [hincoming] at hmapM hlength
      obtain ⟨produced, -, hproduced⟩ :=
        Propagation.exists_of_mapM_eq_some hmapM (a := e.source) (by simp)
      -- The other inputs of the last edge and its own make up all inputs, in their order.
      have hinit : (otherEdges e edges).filter (·.target = e.target) = init := by
        refine filter_otherEdges_of_last hids ?_
        rw [htarget, ← hedges, ← List.concat_eq_append, ← hincoming, Network.incoming]
        exact List.filter_congr fun d _ => by simp [beq_eq_decide]
      have hinputs' : otherInputs e (otherEdges e edges) overlay ++ [produced] = inputs := by
        rw [otherInputs, hinit, ← Propagation.filterMap_eq_of_mapM_eq_some hmapM]
        simp [List.filterMap_map, List.filterMap_append, hproduced]
      have hothers : otherInputs e (otherEdges e edges) overlay ≠ [] := by
        have hinits : init ≠ [] := fun hempty => by simp [hempty] at hlength
        obtain ⟨d, hd⟩ := List.exists_mem_of_ne_nil init hinits
        obtain ⟨shape, -, hshape⟩ :=
          Propagation.exists_of_mapM_eq_some hmapM (a := d.source)
            (List.mem_map_of_mem (by simp [hd]))
        rw [otherInputs, hinit]
        exact List.ne_nil_of_mem (List.mem_filterMap.2 ⟨d, hd, hshape⟩)
      obtain ⟨-, -, hrule⟩ := (checkShapes_operand_iff (.inr hmerge)).1 hcheck
        produced (hsource ▸ hproduced)
      rw [checkInputs_of_isMerge hmerge hothers, hinputs'] at hrule
      exact checkRule_eq_ok_iff.1 hrule

theorem no_rule_fault {overlay : Propagation} {faults : List Fault} (hnet : net.IsOf nodes edges)
    (hproper : ∀ n ∈ nodes, n.IsProper .architecture) (hids : (edges.map Edge.id).Nodup)
    (hedges : net.edges = edges) (h : net.IsPropagation overlay faults)
    (hshapes : ∀ e ∈ edges, ∃ ends : Ends, net.find? e.source = some ends.source ∧
      net.find? e.target = some ends.target ∧
      checkShapes e ends (otherEdges e edges) overlay = .ok ()) : faults = [] := by
  refine List.eq_nil_iff_forall_not_mem.2 fun fault hfault => ?_
  obtain ⟨p, hp, -, houtcome⟩ := (h.faults fault).1 hfault
  by_cases hrule : p.operator.rule = .dataset
  · obtain ⟨result, hresult⟩ := exists_datasetShape (hnet.mem_operators hproper hp) hrule
      (hnet.problems_eq_nil hproper hp)
    rw [Propagation.outcome?_of_dataset hrule, hresult] at houtcome
    cases houtcome
  · obtain ⟨inputs, hinputs, happly⟩ := (Propagation.outcome?_of_not_dataset hrule).1 houtcome
    obtain ⟨result, hresult⟩ := exists_apply hids hedges hp hshapes hinputs
    rw [hresult] at happly
    cases happly

/-! ## Agreement -/

/-- The graph has distinct ids, and its nodes are in order. -/
structure Graph.IsProper (mode : Mode) (g : Graph) : Prop where
  nodup_nodes : (g.nodes.map Node.id).Nodup
  nodup_edges : (g.edges.map Edge.id).Nodup
  proper : ∀ n ∈ g.nodes, n.IsProper mode

/-- Something is missing in the drawing that no single edge is to blame for. -/
def Fault.isGap : Fault → Bool
  | .noDataset => true
  | .tooFewOperands _ _ _ => true
  | .noDefaultInput _ => true
  | .fedFromOutside _ _ _ => true
  | .noLayers _ => true
  | _ => false

theorem Fault.kind_of_isGap {fault : Fault} (h : fault.isGap = true) :
    fault = .noDataset ∨ fault.kind = .connectivity := by
  cases fault with
  | noDataset => exact .inl rfl
  | tooFewOperands | noDefaultInput | fedFromOutside | noLayers => exact .inr rfl
  | _ => cases h

theorem validateEdge_eq_ok_iff :
    validateEdge e nodes edges = .ok () ↔
      ∃ ends, resolveEnds e nodes = .ok ends ∧
        checkConnection e ends (otherEdges e edges) = .ok () ∧
        closesCycle e (otherEdges e edges) = false ∧
        (ends.source.node.isPipeline = false → ∀ overlay faults,
          propagatePartial nodes (otherEdges e edges) = .ok (overlay, faults) →
            checkShapes e ends (otherEdges e edges) overlay = .ok ()) := by
  simp only [validateEdge, bind_eq_ok_iff, refuse_eq_ok_iff]
  refine exists_congr fun ends => and_congr_right fun _ => ?_
  have hunit : ∀ {P : Unit → Prop}, (∃ a, P a) ↔ P () :=
    ⟨fun ⟨_, h⟩ => h, fun h => ⟨(), h⟩⟩
  rw [hunit]
  refine and_congr_right fun _ => and_congr (by simp) ?_
  cases ends.source.node.isPipeline with
  | true => simp
  | false =>
    cases hpropagate : propagatePartial nodes (otherEdges e edges) with
    | error fault => simp
    | ok found => simp [Prod.ext_iff]

/-- The target of an accepted edge does not lead back to its source. -/
theorem not_leads_of_validateEdge (h : validateEdge e nodes edges = .ok ()) :
    ¬ ReflTransGen (Feeds (otherEdges e edges)) e.target e.source := by
  intro hback
  obtain ⟨ends, hends, -, hcycle, -⟩ := validateEdge_eq_ok_iff.1 h
  obtain ⟨-, -, hne⟩ := ids_of_resolveEnds hends
  rcases reflTransGen_iff_eq_or_transGen.1 hback with heq | hback
  · exact hne heq
  · have hcloses : closesCycle e (otherEdges e edges) = true := (closesCycle_iff hne).2 hback
    rw [hcloses] at hcycle
    cases hcycle

theorem acyclic_of_validateEdge (hids : (edges.map Edge.id).Nodup)
    (h : ∀ e ∈ edges, validateEdge e nodes edges = .ok ()) : Acyclic edges :=
  acyclic_of_forall_not_leads hids fun e he => not_leads_of_validateEdge (h e he)

/-- An edge of an acyclic graph closes no cycle beside the others. -/
theorem closesCycle_of_acyclic (h : Acyclic edges) (he : e ∈ edges) (hne : e.source ≠ e.target) :
    closesCycle e (otherEdges e edges) = false := by
  refine Bool.eq_false_iff.2 fun hcloses => ?_
  have hback := (closesCycle_iff hne).1 hcloses
  exact h e.source (TransGen.head (.of_mem he)
    (leads_mono (fun d hd => (mem_otherEdges.1 hd).1) hback))

/-- The network of the other edges has the same nodes and those edges. -/
theorem exists_otherNetwork (hnet : net.IsOf nodes edges) (hedges : net.edges = edges) (e : Edge) :
    ∃ net', Network.ofGraph nodes (otherEdges e edges) = .ok net' ∧ net.nodes = net'.nodes ∧
      net'.edges = otherEdges e edges := by
  obtain ⟨net', hnet'⟩ := hnet.exists_ofGraph (otherEdges e edges)
  have hisOf := Network.isOf_of_ofGraph hnet'
  refine ⟨net', hnet', hnet.nodes_eq_of_isOf hisOf, hisOf.edges_eq_of_ends fun d hd => ?_⟩
  rw [hisOf.ids_eq, ← hnet.ids_eq]
  exact net.ends_mem d (hedges ▸ (mem_otherEdges.1 hd).1)

/-- In an acyclic architecture the test of an edge by shapes may use the whole graph. -/
theorem checkShapes_iff_of_propagateAll (hnet : net.IsOf nodes edges) (hedges : net.edges = edges)
    (hids : (edges.map Edge.id).Nodup) (hacyclic : Acyclic edges) {overlay : Propagation}
    {faults : List Fault} (h : net.IsPropagation overlay faults) (he : e ∈ edges) {ends : Ends}
    (hsource : net.find? e.source = some ends.source)
    (htarget : net.find? e.target = some ends.target) :
    (∀ overlay' faults', propagatePartial nodes (otherEdges e edges) = .ok (overlay', faults') →
        checkShapes e ends (otherEdges e edges) overlay' = .ok ()) ↔
      checkShapes e ends (otherEdges e edges) overlay = .ok () := by
  obtain ⟨net', hnet', hnodes, hothers⟩ := exists_otherNetwork hnet hedges e
  have hacyclic' : Acyclic net'.edges := by
    rw [hothers]
    exact Acyclic.mono (fun d hd => (mem_otherEdges.1 hd).1) hacyclic
  have hsame : ∀ overlay' faults', net'.IsPropagation overlay' faults' →
      checkShapes e ends (otherEdges e edges) overlay =
        checkShapes e ends (otherEdges e edges) overlay' := fun overlay' faults' h' =>
    checkShapes_otherEdges hids he hnodes hedges hothers hsource htarget h h'
  rw [propagatePartial_eq hnet']
  constructor
  · intro hall
    obtain ⟨overlay', faults', hpropagate⟩ := Network.exists_propagateAll hacyclic'
    rw [hsame overlay' faults' (Network.isPropagation_of_propagateAll hpropagate)]
    exact hall overlay' faults' hpropagate
  · intro hcheck overlay' faults' hpropagate
    rw [← hsame overlay' faults' (Network.isPropagation_of_propagateAll hpropagate)]
    exact hcheck

/-! ### Architectures -/

/-- The edges of an architecture without faults are accepted. -/
theorem validateEdge_of_isSound {order : Emission} {overlay : Propagation}
    (hids : (edges.map Edge.id).Nodup) (h : IsSound nodes edges net order overlay)
    (he : e ∈ edges) : validateEdge e nodes edges = .ok () := by
  obtain ⟨ends, hends, hconnection⟩ := checkDrawn_eq_ok_iff.1 (h.drawn e he)
  obtain ⟨ends', hends', hshapes⟩ := checkDrawnShapes_eq_ok_iff.1 (h.shapes e he)
  obtain rfl := Except.ok.inj (hends'.symm.trans hends)
  obtain ⟨hsource, htarget, -, hne⟩ := h.isOf.resolveEnds_iff.1 hends
  refine validateEdge_eq_ok_iff.2 ⟨ends', hends, hconnection,
    closesCycle_of_acyclic h.acyclic he hne, fun _ => ?_⟩
  exact (checkShapes_iff_of_propagateAll h.isOf h.edges_eq hids h.acyclic h.isPropagation he
    hsource htarget).2 hshapes

theorem isGap_of_mem_emissionReport {order : Emission} {fault : Fault}
    (h : fault ∈ (emissionReport net edges order).faults) : fault.isGap = true := by
  simp only [emissionReport, Report.faults_append, faults_lossReport, List.append_nil,
    List.mem_append, Report.mem_faults_join] at h
  rcases h with (⟨p, -, h⟩ | ⟨d, -, h⟩) | h
  · rw [operandReport] at h
    split at h
    · split at h
      · exact List.mem_singleton.1 h ▸ rfl
      · cases h
    · split at h
      · exact List.mem_singleton.1 h ▸ rfl
      · cases h
  · unfold outsideReport at h
    split at h
    · exact List.mem_singleton.1 h ▸ rfl
    · cases h
  · split at h
    · exact List.mem_singleton.1 h ▸ rfl
    · cases h

/-- An architecture of accepted edges has no faults but gaps. -/
theorem isGap_of_mem_architectureReport {g : Graph} (hg : g.IsProper .architecture)
    (haccepted : ∀ e ∈ g.edges, validateEdge e g.nodes g.edges = .ok ()) {fault : Fault}
    (hfault : fault ∈ (architectureReport g.nodes g.edges).faults) : fault.isGap = true := by
  obtain ⟨net, hnet⟩ := exists_ofGraph_of_proper hg.nodup_nodes hg.proper g.edges
  have hisOf := Network.isOf_of_ofGraph hnet
  have hacyclic := acyclic_of_validateEdge hg.nodup_edges haccepted
  have hdrawn : ∀ e ∈ g.edges, checkDrawn g.nodes g.edges e = .ok () := fun e he => by
    obtain ⟨ends, hends, hconnection, -⟩ := validateEdge_eq_ok_iff.1 (haccepted e he)
    exact checkDrawn_eq_ok_iff.2 ⟨ends, hends, hconnection⟩
  have hedges : net.edges = g.edges := hisOf.edges_eq_of_resolveEnds fun e he =>
    (validateEdge_eq_ok_iff.1 (haccepted e he)).imp fun _ => And.left
  rw [faults_architectureReport hg.proper hnet, List.mem_append] at hfault
  rcases hfault with hflow | hshapes
  · unfold flowReport at hflow
    split at hflow
    · exact List.mem_singleton.1 hflow ▸ rfl
    · rename_i root more hroots
      have hmore : (if more.isEmpty then ({} : Report)
          else .ofWarning (.manyDatasets (more.length + 1) root.id)).faults = [] := by
        split <;> rfl
      obtain ⟨order, horder⟩ :=
        Network.exists_emission (by rw [hroots]; rfl) (hedges ▸ hacyclic)
      rw [Report.faults_append, Report.faults_append, hmore, faults_edgesReport_eq_nil_iff.2 hdrawn,
        horder] at hflow
      exact isGap_of_mem_emissionReport hflow
  · split at hshapes
    · obtain ⟨overlay, faults, hpropagate⟩ := Network.exists_propagateAll (hedges ▸ hacyclic)
      have hpropagation := Network.isPropagation_of_propagateAll hpropagate
      have htested : ∀ e ∈ g.edges, ∃ ends, resolveEnds e g.nodes = .ok ends ∧
          net.find? e.source = some ends.source ∧ net.find? e.target = some ends.target ∧
          checkShapes e ends (otherEdges e g.edges) overlay = .ok () := fun e he => by
        obtain ⟨ends, hends, -, -, hshapes⟩ := validateEdge_eq_ok_iff.1 (haccepted e he)
        obtain ⟨hsource, htarget, -⟩ := hisOf.resolveEnds_iff.1 hends
        have hgraph := hisOf.isPipeline_eq_false hg.proper (Network.find?_eq_some_iff.1 hsource).1
        exact ⟨ends, hends, hsource, htarget, (checkShapes_iff_of_propagateAll hisOf hedges
          hg.nodup_edges hacyclic hpropagation he hsource htarget).1 (hshapes hgraph)⟩
      obtain rfl : faults = [] := no_rule_fault hisOf hg.proper hg.nodup_edges hedges hpropagation
        fun e he => (htested e he).imp fun _ => And.right
      rw [shapesReport, propagate_eq_ok_iff.2 ((propagatePartial_eq hnet).trans hpropagate)]
        at hshapes
      obtain ⟨e, he, hfault⟩ := Report.mem_faults_join.1 hshapes
      obtain ⟨ends, hends, -, -, hcheck⟩ := htested e he
      rw [Report.mem_faults_ofTest,
        checkDrawnShapes_eq_ok_iff.2 ⟨ends, hends, hcheck⟩] at hfault
      cases hfault
    · cases hshapes

/-! ### Pipelines -/

/-- A pipeline has no faults exactly when its edges are accepted. -/
theorem faults_pipelineReport_eq_nil_iff {g : Graph} (hg : g.IsProper .pipeline) :
    (pipelineReport g.nodes g.edges).faults = [] ↔
      ∀ e ∈ g.edges, validateEdge e g.nodes g.edges = .ok () := by
  rw [pipelineReport_isValid_iff]
  constructor
  · rintro ⟨-, hdrawn, net, hnet, hacyclic⟩ e he
    have hisOf := Network.isOf_of_ofGraph hnet
    obtain ⟨ends, hends, hconnection⟩ := checkDrawn_eq_ok_iff.1 (hdrawn e he)
    obtain ⟨hsource, -, -, hne⟩ := hisOf.resolveEnds_iff.1 hends
    have hedges : net.edges = g.edges := hisOf.edges_eq_of_resolveEnds fun d hd =>
      (checkDrawn_eq_ok_iff.1 (hdrawn d hd)).imp fun _ => And.left
    have hgraph := hisOf.isPipeline_eq_true hg.proper (Network.find?_eq_some_iff.1 hsource).1
    exact validateEdge_eq_ok_iff.2 ⟨ends, hends, hconnection,
      closesCycle_of_acyclic (hedges ▸ hacyclic) he hne, fun harchitecture => by
        rw [hgraph] at harchitecture
        cases harchitecture⟩
  · intro haccepted
    obtain ⟨net, hnet⟩ := exists_ofGraph_of_proper hg.nodup_nodes hg.proper g.edges
    refine ⟨hg.proper, fun e he => ?_, net, hnet, ?_⟩
    · obtain ⟨ends, hends, hconnection, -⟩ := validateEdge_eq_ok_iff.1 (haccepted e he)
      exact checkDrawn_eq_ok_iff.2 ⟨ends, hends, hconnection⟩
    · exact Acyclic.mono (fun e he => (Network.isOf_of_ofGraph hnet).edge_mem he)
        (acyclic_of_validateEdge hg.nodup_edges haccepted)

/-! ### Both graphs -/

/-- The test of one edge and the report of the whole graph agree on every graph with distinct ids
whose nodes are in order: without faults, every edge is accepted; and if every edge is accepted, an
architecture has no faults but gaps and a pipeline none. -/
theorem edges_agree (p : Project) (mode : Mode) (h : (p.graph mode).IsProper mode) :
    ((p.graphReport mode).faults = [] →
        ∀ e ∈ (p.graph mode).edges,
          validateEdge e (p.graph mode).nodes (p.graph mode).edges = .ok ()) ∧
      ((∀ e ∈ (p.graph mode).edges,
          validateEdge e (p.graph mode).nodes (p.graph mode).edges = .ok ()) →
        ∀ fault ∈ (p.graphReport mode).faults, mode = .architecture ∧ fault.isGap = true ∧
          (fault = .noDataset ∨ fault.kind = .connectivity)) := by
  cases mode with
  | architecture =>
    constructor
    · intro hfaults e he
      obtain ⟨net, order, overlay, hsound⟩ := architectureReport_isValid_iff.1 hfaults
      exact validateEdge_of_isSound h.nodup_edges hsound he
    · intro haccepted fault hfault
      have hgap := isGap_of_mem_architectureReport h haccepted hfault
      exact ⟨rfl, hgap, Fault.kind_of_isGap hgap⟩
  | pipeline =>
    rw [Project.graphReport]
    split
    · rename_i hempty
      have hnone : p.pipeline.edges = [] := List.isEmpty_iff.1 hempty.2
      exact ⟨fun _ e he => absurd he (by simp [Project.graph, hnone]), fun _ _ hfault =>
        nomatch hfault⟩
    · have hfaults := faults_pipelineReport_eq_nil_iff h
      refine ⟨hfaults.1, fun haccepted fault hfault => ?_⟩
      have hnone : (pipelineReport p.pipeline.nodes p.pipeline.edges).faults = [] :=
        hfaults.2 haccepted
      rw [hnone] at hfault
      cases hfault

theorem edges_agree_sample :
    (∀ e ∈ Project.sample.architecture.edges,
        validateEdge e Project.sample.architecture.nodes Project.sample.architecture.edges
          = .ok ()) ∧
      ∀ fault ∈ ({ Project.sample with
          architecture := Project.sample.architecture.removeEdge "1" }.graphReport
            .architecture).faults,
        Mode.architecture = .architecture ∧ fault.isGap = true ∧
          (fault = .noDataset ∨ fault.kind = .connectivity) := by
  have hnodes : ∀ n ∈ Project.sample.architecture.nodes, n.IsProper .architecture := fun n hn =>
    faults_nodeReport_eq_nil_iff.1 ((by decide +kernel :
      ∀ n ∈ Project.sample.architecture.nodes, (nodeReport .architecture n).faults = []) n hn)
  constructor
  · exact (edges_agree Project.sample .architecture
      ⟨by decide +kernel, by decide +kernel, hnodes⟩).1 (by decide +kernel)
  · exact (edges_agree { Project.sample with
      architecture := Project.sample.architecture.removeEdge "1" } .architecture
      ⟨by decide +kernel, by decide +kernel, hnodes⟩).2 (by decide +kernel)

end LayerGraph
