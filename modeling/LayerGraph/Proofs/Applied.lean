import LayerGraph.Proofs.Reapplied
import LayerGraph.Proofs.SameProgram
import LayerGraph.Proofs.SizedShapes
import LayerGraph.Proofs.Valuation
/-!
# Writing an overlay into a valid project

An overlay that is written into the nodes it was propagated from turns learned sizes into parameters
like those that the user sets. In a valid project with distinct edge ids every reader accepts them
and gives the same as before:

* the parameters stay proper (`IsSound.isProper_applyTo`) and the dense layers keep the features
  that are provided (`IsSound.featuresFit_applyTo`), since the edge that is tested is the one from
  which the size was learned;
* no rule reads a learned size, and what is printed had it already (`IsSound.sameProgram_applyTo`).

`written_transparent` says so of the report and of every text.
-/

namespace LayerGraph
set_option autoImplicit false

/-! ## Reports of changed nodes -/

section Change

variable {g : Node → Node} (h : Node.Keeps g) {nodes : List Node} {edges : List Edge}
  {net : Network}
include h

theorem lossReport_change (net : Network) (order : Emission) :
    lossReport (net.change h) (order.change g) = lossReport net order := by
  have hcount : ((net.change h).nodes.filter (·.operator.isLoss)).length =
      (net.nodes.filter (·.operator.isLoss)).length := by
    rw [Network.change, List.filter_map, List.length_map]
    rfl
  have hused : (order.change g).loss.elim "" Placed.id = order.loss.elim "" Placed.id := by
    rw [Emission.change]
    cases order.loss with
    | none => rfl
    | some loss => exact Placed.id_change h loss
  simp only [lossReport, hcount, hused]

theorem emissionReport_change (net : Network) (edges : List Edge) (order : Emission) :
    emissionReport (net.change h) edges (order.change g) = emissionReport net edges order := by
  have hskipped : ((order.change g).unreachable.filter fun p => ¬ p.operator.isLoss).map
        (fun p => Warning.skipped p.id order.root.id) =
      (order.unreachable.filter fun p => ¬ p.operator.isLoss).map
        fun p => Warning.skipped p.id order.root.id := by
    rw [Emission.change, Placed.filter_change fun _ => rfl, List.map_map]
    apply List.map_congr_left
    intro p _
    rw [Function.comp_apply, Placed.id_change h]
  have hoperands : (order.change g).nodes.map (operandReport (order.change g)) =
      order.nodes.map (operandReport order) := by
    rw [Emission.change, List.map_map]
    apply List.map_congr_left
    intro p _
    exact operandReport_change h order p
  have houtside : edges.map (outsideReport (order.change g)) = edges.map (outsideReport order) :=
    List.map_congr_left fun e _ => outsideReport_change h order e
  have hroot : (order.change g).root.id = order.root.id := Placed.id_change h order.root
  have hempty : (order.change g).nodes.isEmpty = order.nodes.isEmpty := by simp [Emission.change]
  simp only [emissionReport, hroot, hskipped, hoperands, houtside, hempty, lossReport_change h]

theorem flowReport_change (hnodes : ∀ n ∈ nodes, (g n).params.Agrees n.params) :
    flowReport (net.change h) (nodes.map g) edges = flowReport net nodes edges := by
  have hedges : edgesReport (nodes.map g) edges = edgesReport nodes edges := by
    simp only [edgesReport, checkDrawn_map h hnodes]
  simp only [flowReport, Network.roots_change, Network.emission_change, hedges]
  cases net.roots with
  | nil => rfl
  | cons root more =>
    simp only [List.map_cons, Placed.id_change h, List.isEmpty_map, List.length_map]
    cases net.emission with
    | error fault => rfl
    | ok order => simp only [Except.map, emissionReport_change h]

end Change

/-! ## Learned sizes as parameters -/

/-- What was learned is already in the parameters that count. -/
theorem Propagation.effectiveParams_change (overlay : Propagation) (p : Placed) :
    overlay.effectiveParams (p.change overlay.applyTo) = overlay.effectiveParams p := by
  apply Table.ext_get?
  intro key
  have hnode : (p.change overlay.applyTo).node = overlay.applyTo p.node := rfl
  have hid : (p.change overlay.applyTo).id = p.node.id := rfl
  have hid' : p.id = p.node.id := rfl
  simp only [get?_effectiveParams, Operator.resolve, Placed.operator_change, hnode, hid, hid',
    Table.get?_overlay, Node.get?_applyTo]
  cases (overlay.learned.get? p.node.id).bind (·.get? key) <;> rfl

namespace IsSound

variable {nodes : List Node} {edges : List Edge} {net : Network} {order : Emission}
  {overlay : Propagation}

theorem isSolved (h : IsSound nodes edges net order overlay) : net.IsSolved overlay [] := by
  have hpropagate := propagate_eq_ok_iff.1 h.propagate
  rw [propagatePartial_eq h.ofGraph] at hpropagate
  exact Network.isSolved_of_propagateAll hpropagate

theorem hasParams (h : IsSound nodes edges net order overlay) : net.HasParams :=
  fun _ hp _ => ⟨h.mem_all hp, h.problems_eq_nil hp⟩

/-- What is learned for a node is one size. -/
theorem learned_cases (h : IsSound nodes edges net order overlay) {p : Placed}
    (hp : p ∈ net.nodes) :
    overlay.learned.get? p.id = none ∨ ∃ name size, p.operator.rule.learnedName? = some name ∧
      overlay.learned.get? p.id = some (Table.ofList [(name, .int size)]) ∧ 1 ≤ size := by
  cases hlearned : overlay.learned.get? p.id with
  | none => exact .inl rfl
  | some params =>
    obtain ⟨q, hq, hid, -, name, size, hname, rfl, hsize⟩ :=
      h.isPropagation.exists_learned h.isSolved h.hasParams hlearned
    obtain rfl := List.inj_on_of_nodup_map net.nodup_ids hq hp hid
    exact .inr ⟨name, size, hname, rfl, hsize⟩

theorem exists_placed (h : IsSound nodes edges net order overlay) {n : Node} (hn : n ∈ nodes) :
    ∃ p ∈ net.nodes, p.node = n := by
  rw [← h.isOf.nodes_eq] at hn
  exact List.mem_map.1 hn

theorem agrees_applyTo (h : IsSound nodes edges net order overlay) {n : Node} (hn : n ∈ nodes) :
    (overlay.applyTo n).params.Agrees n.params := by
  obtain ⟨p, hp, rfl⟩ := h.exists_placed hn
  exact h.isSolved.agrees_applyTo hp

theorem isProper_applyTo (h : IsSound nodes edges net order overlay) {n : Node} (hn : n ∈ nodes) :
    (overlay.applyTo n).IsProper .architecture := by
  have hproper := h.proper n hn
  obtain ⟨p, hp, rfl⟩ := h.exists_placed hn
  have ho : (overlay.applyTo p.node).operator = .ok p.operator :=
    ((Node.keeps_applyTo overlay).operator p.node).trans (h.isOf.operator p hp)
  have hmode : (overlay.applyTo p.node).mode = .architecture := hproper.1
  apply (Node.isProper_iff ho hmode).2
  obtain hnone | ⟨name, size, hname, hlearned, hsize⟩ := h.learned_cases hp
  · rw [Propagation.applyTo_params hnone]
    exact h.problems_eq_nil hp
  · have hall := h.mem_all hp
    apply (Operator.problems_set_iff (Operator.wellDeclared .architecture hall)
      (h.problems_eq_nil hp) (Operator.inputSize_mem hall hname)
      (Propagation.get?_applyTo_of_learned hlearned)).2
    exact Operator.checks_inputSize_iff.2 hsize

end IsSound

/-! ## The features of dense layers -/

section Graphs

variable {g : Graph} {net : Network} {order : Emission} {overlay : Propagation}

/-- With distinct edge ids a layer learns from the source of whatever normal edge goes into it. -/
theorem IsSound.learned_of_normal (h : IsSound g.nodes g.edges net order overlay)
    (hids : (g.edges.map Edge.id).Nodup) {p : Placed} (hp : p ∈ net.nodes)
    (hmerge : p.operator.isMerge = false) {e : Edge} (he : e ∈ g.edges) (htarget : e.target = p.id)
    (hkind : e.kind = .normal) {params : Params}
    (hlearned : overlay.learned.get? p.id = some params) :
    ∃ input name size, overlay.shape? e.source = some input ∧
      p.operator.rule.learnedName? = some name ∧ learnedDim? name input = some (.fixed size) ∧
        params = Table.ofList [(name, .int size)] := by
  have hgraph := h.isPipeline_eq_false hp
  obtain ⟨result, hgives, hresult⟩ := (h.isPropagation.learned_iff hp hgraph).1 hlearned
  obtain ⟨inputs, happly, hinputs⟩ :=
    Network.exists_inputs_of_outcome ((Propagation.outcome?_eq_ok_iff hp).2 hgives)
  obtain ⟨input, name, size, rfl, hname, hdim, hlearn⟩ :=
    Propagation.size_of_learnedOf happly hresult
  obtain ⟨s, hs, hshape⟩ := hinputs input (List.mem_singleton_self _)
  -- The operand stands at a normal edge, and there is only this one.
  obtain ⟨d, hd, rfl, hdtarget, hdkind⟩ := Network.exists_edge_of_mem_operands hs
  rw [Network.isMerge_eq hp, hmerge] at hdkind
  have hsame : d = e := h.eq_of_normal hids hp hmerge (h.edges_eq ▸ hd) he hdtarget htarget
    (hdkind.resolve_right Bool.false_ne_true) hkind
  exact ⟨input, name, size, hsame ▸ hshape, hname, hdim, hlearn⟩

theorem IsSound.featuresFit_applyTo (h : IsSound g.nodes g.edges net order overlay)
    (hids : (g.edges.map Edge.id).Nodup) :
    FeaturesFit g.nodes g.edges overlay overlay.applyTo := by
  intro e he hkind ends hends hlinear produced hproduced
  obtain ⟨hsourceid, htargetid, -⟩ := ids_of_resolveEnds hends
  obtain ⟨ends', hends', hshapes⟩ := checkDrawnShapes_eq_ok_iff.1 (h.shapes e he)
  obtain rfl := Except.ok.inj (hends'.symm.trans hends)
  obtain ⟨-, htarget, -⟩ := h.isOf.resolveEnds_iff.1 hends
  obtain ⟨hp, -⟩ := Network.find?_eq_some_iff.1 htarget
  obtain ⟨-, hfeatures, -⟩ := (checkShapes_operand_iff (.inl hkind)).1 hshapes produced hproduced
  have hdeclared := hfeatures hlinear
  cases hlearned : overlay.learned.get? ends'.target.id with
  | none =>
    have hsame : (ends'.change overlay.applyTo).target.node.params = ends'.target.node.params :=
      Propagation.applyTo_params hlearned
    rw [checkFeatures_eq_ok_iff, hsame]
    exact checkFeatures_eq_ok_iff.1 hdeclared
  | some params =>
    have hmerge : ends'.target.operator.isMerge = false := by
      rw [Operator.isMerge, hlinear]
      rfl
    obtain ⟨input, name, size, hinput, hname, hdim, rfl⟩ :=
      h.learned_of_normal hids hp hmerge he htargetid.symm hkind hlearned
    rw [hlinear] at hname
    obtain rfl : "in_features" = name := Option.some.inj hname
    rw [hsourceid] at hproduced
    obtain rfl := Option.some.inj (hinput.symm.trans hproduced)
    have hvalue := Propagation.get?_applyTo_of_learned hlearned "in_features"
    rw [if_pos rfl] at hvalue
    have hint : (ends'.change overlay.applyTo).target.node.params.int? "in_features" =
        some size := by
      rw [Params.int?]
      exact hvalue ▸ rfl
    apply checkFeatures_eq_ok_iff.2
    intro declared provided hset hprovided
    have hlast : input.last? = some (.fixed size) := hdim
    rw [hlast] at hprovided
    obtain rfl : size = provided := Option.some.inj hprovided
    exact Option.some.inj (hset.symm.trans hint)

/-! ## The program -/

theorem IsSound.sameProgram_applyTo {nodes : List Node} {edges : List Edge}
    (h : IsSound nodes edges net order overlay) :
    SameProgram order (order.change overlay.applyTo) overlay overlay where
  root := rfl
  dataset := by
    have hroot := h.isEmission.root_mem
    have hagrees := (h.agrees_applyTo (h.isOf.node_mem hroot)).resolve order.root.operator
    rw [Params.text?, Params.text?]
    exact congrArg (·.bind ParamValue.text?) (hagrees "dataset" (by decide)).symm
  nodes := by
    rw [Emission.change, List.forall₂_map_right_iff]
    apply List.forall₂_same.2
    intro p _
    exact ⟨rfl, rfl, (overlay.effectiveParams_change p).symm, rfl,
      fun kind => by cases kind <;> rfl⟩
  loss := by
    have hloss := h.isEmission.loss
    rw [Emission.change]
    cases hfound : order.loss with
    | none => rfl
    | some loss =>
      rw [hfound] at hloss
      have hmem : loss ∈ net.nodes := List.mem_of_find?_eq_some hloss.symm
      have hisLoss : loss.operator.isLoss = true := by simpa using List.find?_some hloss.symm
      have hrule := (Operator.rule_of_isLoss (h.mem_all hmem) hisLoss).1
      have hnone : overlay.learned.get? loss.id = none := by
        refine (h.learned_cases hmem).resolve_right ?_
        rintro ⟨name, size, hname, -⟩
        rw [hrule] at hname
        cases hname
      have hparams : (loss.change overlay.applyTo).params = loss.params :=
        congrArg loss.operator.resolve (Propagation.applyTo_params hnone)
      simp only [Option.map_some, hparams, Placed.operator_change]

/-- Writing the propagated overlay into a valid project with distinct edge ids changes nothing that
can be seen: the report is the same, and every text is. -/
theorem written_transparent (p : Project) (hvalid : p.report.isValid = true)
    (hids : (p.architecture.edges.map Edge.id).Nodup) :
    ∃ overlay, propagate p.architecture.nodes p.architecture.edges = .ok overlay ∧
      (p.withGraph .architecture (p.architecture.written overlay)).report = p.report ∧
      ∀ settings : Settings, settings.validate = .ok () →
        ∃ text, p.compile settings = .ok text ∧
          (p.withGraph .architecture (p.architecture.written overlay)).compile settings =
            .ok text := by
  have hfaults := Report.isValid_iff.1 hvalid
  rw [Project.report, Report.faults_append, List.append_eq_nil_iff] at hfaults
  obtain ⟨net, order, overlay, h⟩ := architectureReport_isValid_iff.1 hfaults.1
  have hkeeps := Node.keeps_applyTo overlay
  have hagrees : ∀ n ∈ p.architecture.nodes, (overlay.applyTo n).params.Agrees n.params :=
    fun n hn => h.agrees_applyTo hn
  have hwritten : IsSound (p.architecture.written overlay).nodes p.architecture.edges
      (net.change hkeeps) (order.change overlay.applyTo) overlay :=
    h.change hkeeps hagrees (fun n hn => h.isProper_applyTo hn) (h.featuresFit_applyTo hids)
  have hreport :
      (p.withGraph .architecture (p.architecture.written overlay)).report = p.report := by
    have hsame : architectureReport (p.architecture.written overlay).nodes p.architecture.edges =
        architectureReport p.architecture.nodes p.architecture.edges := by
      rw [h.report_eq, hwritten.report_eq]
      exact flowReport_change hkeeps hagrees
    exact congrArg (· ++ p.graphReport .pipeline) hsame
  refine ⟨overlay, h.propagate, hreport, fun settings hsettings => ?_⟩
  have hnone := Report.isValid_iff.1 hvalid
  exact compile_congr p (p.withGraph .architecture (p.architecture.written overlay)) rfl h hwritten
    hnone (hreport ▸ hnone) h.sameProgram_applyTo hsettings

theorem written_transparent_sample :
    Project.sample.report.isValid = true ∧ (Project.sample.architecture.edges.map Edge.id).Nodup ∧
    ∃ overlay,
      propagate Project.sample.architecture.nodes Project.sample.architecture.edges = .ok overlay ∧
      overlay.learned.get? "head" = some (.ofList [("in_features", .int 784)]) ∧
      (Project.sample.withGraph .architecture
        (Project.sample.architecture.written overlay)).report = Project.sample.report ∧
      ∃ text, (Project.sample.withGraph .architecture
        (Project.sample.architecture.written overlay)).compile {} = .ok text := by
  have hvalid : Project.sample.report.isValid = true := by decide +kernel
  have hids : (Project.sample.architecture.edges.map Edge.id).Nodup := by decide +kernel
  have hvalue : (propagate Project.sample.architecture.nodes
      Project.sample.architecture.edges).toOption.any (fun overlay =>
        decide (overlay.learned.get? "head" = some (.ofList [("in_features", .int 784)]))) =
          true := by
    decide +kernel
  obtain ⟨found, hfound, hlearned⟩ := exists_of_toOption_any hvalue
  obtain ⟨overlay, hoverlay, hreport, hcompile⟩ :=
    written_transparent Project.sample hvalid hids
  obtain rfl := Except.ok.inj (hfound.symm.trans hoverlay)
  obtain ⟨text, -, htext⟩ := hcompile {} (by decide +kernel)
  exact ⟨hvalid, hids, found, hfound, of_decide_eq_true hlearned, hreport, text, htext⟩

end Graphs

end LayerGraph
