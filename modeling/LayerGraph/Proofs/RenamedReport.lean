import LayerGraph.Proofs.Findings
import LayerGraph.Proofs.Renaming
/-!
# Reports of renamed drawings

What is propagated through a renamed drawing is the overlay with its names renamed, and each test of a
renamed edge or node comes out as before, with the nodes renamed in its fault:

* `propagate_rename` for overlays, by one `_rename` lemma for each step of propagation;
* `checkConnection_rename` and `checkShapes_rename` for edges;
* `faults_architectureReport_rename` for the report: the same faults in the same order.

Ids of edges matter only where an edge is told from the others.
-/

namespace LayerGraph
set_option autoImplicit false

/-- The overlay with its names renamed. -/
def Propagation.rename (f : String → String) (overlay : Propagation) : Propagation where
  shapes := overlay.shapes.rename f id
  types := overlay.types.rename f id
  typeSets := overlay.typeSets.rename f id
  learned := overlay.learned.rename f id

def Ends.rename (f : String → String) (ends : Ends) : Ends where
  source := ends.source.rename f
  target := ends.target.rename f

section Renaming

variable {f g : String → String} (hf : f.Injective) (hg : g.Injective)

/-! ## Propagation -/

namespace Propagation

variable {net : Network}

include hf

theorem shape?_rename (overlay : Propagation) (name : String) :
    (overlay.rename f).shape? (f name) = overlay.shape? name := by
  rw [shape?, rename, Table.get?_rename hf, Option.map_id]
  rfl

theorem recordTypes_rename (overlay : Propagation) (p : Placed) :
    (overlay.rename f).recordTypes (p.rename f) = (overlay.recordTypes p).rename f := by
  have htypes : p.operator.outputType.elim (overlay.types.rename f id)
      ((overlay.types.rename f id).insert (f p.id) ·) =
        (p.operator.outputType.elim overlay.types (overlay.types.insert p.id ·)).rename f id := by
    cases p.operator.outputType with
    | none => rfl
    | some type => exact (Table.rename_insert hf id overlay.types p.id type).symm
  have htypeSets : (if p.operator.outputTypes.isEmpty then overlay.typeSets.rename f id
      else (overlay.typeSets.rename f id).insert (f p.id) p.operator.outputTypes) =
        (if p.operator.outputTypes.isEmpty then overlay.typeSets
          else overlay.typeSets.insert p.id p.operator.outputTypes).rename f id := by
    split
    · rfl
    · exact (Table.rename_insert hf id overlay.typeSets p.id p.operator.outputTypes).symm
  simp only [recordTypes, rename, Propagation.mk.injEq, true_and, and_true]
  exact ⟨htypes, htypeSets⟩

theorem record_rename (overlay : Propagation) (p : Placed) (result : RuleResult) :
    (overlay.rename f).record (p.rename f) result = (overlay.record p result).rename f := by
  have hlearned : (if result.learned.isEmpty then overlay.learned.rename f id
      else (overlay.learned.rename f id).insert (f p.id) (Table.ofList result.learned)) =
        (if result.learned.isEmpty then overlay.learned
          else overlay.learned.insert p.id (Table.ofList result.learned)).rename f id := by
    split
    · rfl
    · exact (Table.rename_insert hf id overlay.learned p.id (Table.ofList result.learned)).symm
  have hshapes : (overlay.shapes.rename f id).insert (f p.id) result.shape =
      (overlay.shapes.insert p.id result.shape).rename f id :=
    (Table.rename_insert hf id overlay.shapes p.id result.shape).symm
  have htypes := recordTypes_rename hf overlay p
  rw [record, htypes, record]
  simp only [rename, Propagation.mk.injEq, true_and]
  exact ⟨hshapes, hlearned⟩

theorem inputs?_rename (g : String → String) (overlay : Propagation) (p : Placed) :
    (overlay.rename f).inputs? (net.rename hf g) (p.rename f) = overlay.inputs? net p := by
  have hmapM : ∀ names : List String,
      (names.map f).mapM (overlay.rename f).shape? = names.mapM overlay.shape? := by
    intro names
    induction names with
    | nil => rfl
    | cons name rest ih => rw [List.map_cons, List.mapM_cons, List.mapM_cons, shape?_rename hf, ih]
  simp only [inputs?, Placed.id_rename, Placed.operator_rename, Network.operands_rename,
    List.isEmpty_map, List.length_map, hmapM]

theorem outcome?_rename (g : String → String) (overlay : Propagation) (p : Placed) :
    (overlay.rename f).outcome? (net.rename hf g) (p.rename f) =
      (overlay.outcome? net p).map (renamed f id) := by
  have hparams : (p.rename f).node.params = p.node.params := rfl
  have hdataset : ∀ result : Except RuleFault RuleResult,
      result.mapError (Fault.datasetRule (f p.id)) =
        renamed f id (result.mapError (Fault.datasetRule p.id)) := by
    intro result
    cases result <;> rfl
  have hrule : ∀ result : Except RuleFault RuleResult,
      result.mapError (Fault.rule (f p.id)) = renamed f id (result.mapError (Fault.rule p.id)) := by
    intro result
    cases result <;> rfl
  simp only [outcome?, inputs?_rename hf, hparams, Placed.operator_rename, Placed.id_rename,
    hdataset, hrule]
  split
  · rfl
  · rw [Option.map_map]
    rfl

/-- An overlay and the faults that go with it, renamed. -/
def renameState (f : String → String) (state : Propagation × List Fault) :
    Propagation × List Fault := (state.1.rename f, state.2.map (Fault.rename f))

theorem advance_rename (g : String → String) (state : Propagation × List Fault) (p : Placed) :
    advance (net.rename hf g) (renameState f state) (p.rename f) =
      renameState f (advance net state p) := by
  have hgraph : (p.rename f).node.isPipeline = p.node.isPipeline := rfl
  simp only [advance, renameState, hgraph, recordTypes_rename hf, outcome?_rename hf]
  split
  · rfl
  · cases state.1.outcome? net p with
    | none => rfl
    | some outcome =>
      cases outcome with
      | ok result =>
        simp only [Option.map_some, renamed_ok, id_eq, record_rename hf]
      | error fault => simp only [Option.map_some, renamed_error, List.map_append, List.map_cons,
          List.map_nil]

theorem foldl_advance_rename (g : String → String) (placed : List Placed)
    (state : Propagation × List Fault) :
    (placed.map (Placed.rename f)).foldl (advance (net.rename hf g)) (renameState f state) =
      renameState f (placed.foldl (advance net) state) := by
  induction placed generalizing state with
  | nil => rfl
  | cons p rest ih => rw [List.map_cons, List.foldl_cons, advance_rename hf, ih, List.foldl_cons]

end Propagation

open Propagation (renameState)

theorem Network.propagateAll_rename (g : String → String) (net : Network) :
    (net.rename hf g).propagateAll = renamed f (renameState f) net.propagateAll := by
  rw [propagateAll, propagateAll, topological_rename]
  apply renamed_bind
  intro order
  rw [filterMap_find?_rename]
  exact congrArg Except.ok (Propagation.foldl_advance_rename hf g _ ({}, []))

include hf in
theorem propagatePartial_rename (g : String → String) (nodes : List Node) (edges : List Edge) :
    propagatePartial (nodes.map (Node.rename f)) (edges.map (Edge.rename f g)) =
      renamed f (renameState f) (propagatePartial nodes edges) := by
  rw [propagatePartial, propagatePartial, Network.ofGraph_rename g hf]
  exact renamed_bind fun net => net.propagateAll_rename hf g

include hf in
theorem propagate_rename (g : String → String) (nodes : List Node) (edges : List Edge) :
    propagate (nodes.map (Node.rename f)) (edges.map (Edge.rename f g)) =
      renamed f (Propagation.rename f) (propagate nodes edges) := by
  rw [propagate, propagate, propagatePartial_rename hf]
  apply renamed_bind
  rintro ⟨overlay, faults⟩
  cases faults <;> rfl

/-! ## Edges -/

section Edges

variable {nodes : List Node} {edges others : List Edge} {e : Edge} {ends : Ends}

include hf

theorem findEnd_rename (role : EndRole) (name : String) :
    findEnd (nodes.map (Node.rename f)) role (f name) =
      renamed f (Node.rename f) (findEnd nodes role name) := by
  have hkey : ((·.id == f name) : Node → Bool) ∘ Node.rename f = (·.id == name) := by
    funext n
    exact hf.beq_eq
  rw [findEnd, findEnd, List.find?_map, hkey]
  cases nodes.find? (·.id == name) <;> rfl

theorem resolveEnds_rename (g : String → String) (e : Edge) :
    resolveEnds (e.rename f g) (nodes.map (Node.rename f)) =
      renamed f (Ends.rename f) (resolveEnds e nodes) := by
  have hsource : (e.rename f g).source = f e.source := rfl
  have htarget : (e.rename f g).target = f e.target := rfl
  rw [resolveEnds, resolveEnds, hsource, htarget, findEnd_rename hf]
  apply renamed_bind
  intro source
  rw [findEnd_rename hf]
  apply renamed_bind
  intro target
  have hself : (source.rename f).id = (target.rename f).id ↔ source.id = target.id := hf.eq_iff
  rw [renamed_ite, renamed_ite, Node.operator_rename, Node.operator_rename]
  simp only [hself]
  refine if_congr Iff.rfl rfl (if_congr Iff.rfl rfl ?_)
  apply renamed_bind
  intro producer
  apply renamed_bind
  intro consumer
  rfl

omit hf in
include hg in
theorem otherEdges_rename (e : Edge) (edges : List Edge) :
    otherEdges (e.rename f g) (edges.map (Edge.rename f g)) =
      (otherEdges e edges).map (Edge.rename f g) := by
  apply Edge.filter_rename
  intro d
  simp only [Edge.rename, bne, hg.beq_eq]

omit hf in
theorem checkLayout_rename (layout : Layout) (shape : Option Shape) (ends : Ends) :
    checkLayout layout shape (ends.rename f) = renamed f id (checkLayout layout shape ends) := by
  rw [checkLayout, checkLayout, renamed_ite, renamed_ite]
  rfl

theorem checkArchitecture_rename (g : String → String) (e : Edge) (ends : Ends)
    (others : List Edge) :
    checkArchitecture (e.rename f g) (ends.rename f) (others.map (Edge.rename f g)) =
      renamed f id (checkArchitecture e ends others) := by
  have hany : (others.map (Edge.rename f g)).any
      (fun d => d.target = (e.rename f g).target ∧ d.kind = .normal) =
        others.any fun d => d.target = e.target ∧ d.kind = .normal := by
    rw [List.any_map]
    congr 1
    funext d
    simp only [Function.comp_apply, Edge.rename, hf.eq_iff]
  have hdeclared : declaredLayout? (ends.rename f).source = declaredLayout? ends.source := rfl
  have hproducer : (ends.rename f).source.operator = ends.source.operator := rfl
  have hconsumer : (ends.rename f).target.operator = ends.target.operator := rfl
  have hkind : (e.rename f g).kind = e.kind := rfl
  simp only [checkArchitecture, hany, hdeclared, hproducer, hconsumer, hkind, renamed_ite]
  refine if_congr Iff.rfl rfl (if_congr Iff.rfl rfl (if_congr Iff.rfl rfl
    (if_congr Iff.rfl ?_ rfl)))
  cases declaredLayout? ends.source with
  | none => rfl
  | some layout => exact checkLayout_rename layout none ends

omit hf in
theorem checkWorkflow_rename (ends : Ends) :
    checkWorkflow (ends.rename f) = renamed f id (checkWorkflow ends) := by
  simp only [checkWorkflow, renamed_ite]
  rfl

theorem checkConnection_rename (g : String → String) (e : Edge) (ends : Ends)
    (others : List Edge) :
    checkConnection (e.rename f g) (ends.rename f) (others.map (Edge.rename f g)) =
      renamed f id (checkConnection e ends others) := by
  have hany : (others.map (Edge.rename f g)).any
      (fun d => d.source = (e.rename f g).source ∧ d.target = (e.rename f g).target) =
        others.any fun d => d.source = e.source ∧ d.target = e.target := by
    rw [List.any_map]
    congr 1
    funext d
    simp only [Function.comp_apply, Edge.rename, hf.eq_iff]
  have hgraph : (ends.rename f).source.node.isPipeline = ends.source.node.isPipeline := rfl
  simp only [checkConnection, hany, hgraph, renamed_ite, checkWorkflow_rename,
    checkArchitecture_rename hf]
  rfl

include hg in
theorem checkDrawn_rename (e : Edge) :
    checkDrawn (nodes.map (Node.rename f)) (edges.map (Edge.rename f g)) (e.rename f g) =
      renamed f id (checkDrawn nodes edges e) := by
  rw [checkDrawn, checkDrawn, resolveEnds_rename hf, otherEdges_rename hg]
  exact renamed_bind fun ends => checkConnection_rename hf g e ends _

/-! ### Shapes -/

omit hf in
theorem checkFeatures_rename (produced : Shape) (ends : Ends) :
    checkFeatures produced (ends.rename f) = renamed f id (checkFeatures produced ends) := by
  have hparams : (ends.rename f).target.node.params = ends.target.node.params := rfl
  rw [checkFeatures, checkFeatures, hparams]
  split
  · rw [renamed_ite]
    rfl
  · rfl

theorem checkAddend_rename (g : String → String) (e : Edge) (ends : Ends) (produced : Shape)
    (overlay : Propagation) :
    checkAddend (e.rename f g) (ends.rename f) produced (overlay.rename f) =
      renamed f id (checkAddend e ends produced overlay) := by
  have hid : (ends.rename f).target.id = f ends.target.id := rfl
  rw [checkAddend, checkAddend, hid, Propagation.shape?_rename hf]
  cases overlay.shape? ends.target.id with
  | none => rfl
  | some output =>
    rw [renamed_ite]
    rfl

omit hf in
theorem checkProducedLayout_rename (ends : Ends) (produced : Shape) :
    checkProducedLayout (ends.rename f) produced =
      renamed f id (checkProducedLayout ends produced) := by
  have hdeclared : declaredLayout? (ends.rename f).source = declaredLayout? ends.source := rfl
  rw [checkProducedLayout, checkProducedLayout, hdeclared]
  split
  · exact checkLayout_rename _ _ ends
  · rfl

omit hf in
theorem checkRule_rename (ends : Ends) (inputs : List Shape) :
    checkRule (ends.rename f) inputs = renamed f id (checkRule ends inputs) := by
  have hoperator : (ends.rename f).target.operator = ends.target.operator := rfl
  have hparams : (ends.rename f).target.node.params = ends.target.node.params := rfl
  simp only [checkRule, hoperator, hparams]
  split <;> rfl

theorem otherInputs_rename (g : String → String) (e : Edge) (others : List Edge)
    (overlay : Propagation) :
    otherInputs (e.rename f g) (others.map (Edge.rename f g)) (overlay.rename f) =
      otherInputs e others overlay := by
  have hfilter : (others.map (Edge.rename f g)).filter (·.target = (e.rename f g).target) =
      (others.filter (·.target = e.target)).map (Edge.rename f g) := by
    apply Edge.filter_rename
    intro d
    simp only [Edge.rename, hf.eq_iff]
  rw [otherInputs, otherInputs, hfilter, List.filterMap_map]
  apply List.filterMap_congr
  intro d _
  exact Propagation.shape?_rename hf overlay d.source

theorem checkInputs_rename (g : String → String) (e : Edge) (ends : Ends) (others : List Edge)
    (overlay : Propagation) (produced : Shape) :
    checkInputs (e.rename f g) (ends.rename f) (others.map (Edge.rename f g)) (overlay.rename f)
      produced = renamed f id (checkInputs e ends others overlay produced) := by
  have hconsumer : (ends.rename f).target.operator = ends.target.operator := rfl
  simp only [checkInputs, hconsumer, otherInputs_rename hf, checkRule_rename, renamed_ite]
  rfl

theorem checkShapes_rename (g : String → String) (e : Edge) (ends : Ends) (others : List Edge)
    (overlay : Propagation) :
    checkShapes (e.rename f g) (ends.rename f) (others.map (Edge.rename f g)) (overlay.rename f) =
      renamed f id (checkShapes e ends others overlay) := by
  have hid : (ends.rename f).source.id = f ends.source.id := rfl
  have hconsumer : (ends.rename f).target.operator = ends.target.operator := rfl
  have hkind : (e.rename f g).kind = e.kind := rfl
  rw [checkShapes, checkShapes, hid, Propagation.shape?_rename hf]
  cases overlay.shape? ends.source.id with
  | none => rfl
  | some produced =>
    simp only [hconsumer, hkind, renamed_ite, checkAddend_rename hf, checkProducedLayout_rename,
      checkFeatures_rename, checkInputs_rename hf]
    refine if_congr Iff.rfl rfl ?_
    apply renamed_bind
    intro _
    split
    · exact renamed_bind fun _ => rfl
    · rfl

include hg in
theorem checkDrawnShapes_rename (overlay : Propagation) (e : Edge) :
    checkDrawnShapes (nodes.map (Node.rename f)) (edges.map (Edge.rename f g)) (overlay.rename f)
      (e.rename f g) = renamed f id (checkDrawnShapes nodes edges overlay e) := by
  rw [checkDrawnShapes, checkDrawnShapes, resolveEnds_rename hf, otherEdges_rename hg]
  exact renamed_bind fun ends => checkShapes_rename hf g e ends _ overlay

end Edges

/-! ## Faults of reports -/

theorem faults_ofTest_renamed (test : Except Fault Unit) :
    (Report.ofTest (renamed f id test)).faults =
      (Report.ofTest test).faults.map (Fault.rename f) := by
  cases test <;> rfl

/-- The faults of renamed items, when those of each item are renamed. -/
theorem faults_join_rename {α : Type} {r : α → α} {report report' : α → Report}
    (h : ∀ a, (report' (r a)).faults = (report a).faults.map (Fault.rename f)) (items : List α) :
    (Report.join ((items.map r).map report')).faults =
      (Report.join (items.map report)).faults.map (Fault.rename f) := by
  rw [Report.faults_join, Report.faults_join, List.flatMap_map, List.flatMap_map, List.flatMap_map,
    List.map_flatMap]
  exact List.flatMap_congr fun a _ => h a

theorem faults_nodeReport_rename (mode : Mode) (n : Node) :
    (nodeReport mode (n.rename f)).faults =
      (nodeReport mode n).faults.map (Fault.rename f) := by
  have hmode : (n.rename f).mode = n.mode := rfl
  rw [nodeReport, nodeReport, hmode, Node.operator_rename]
  split
  · rfl
  · cases n.operator with
    | error fault => rfl
    | ok operator =>
      show (operator.problems n.params).map _ = ((operator.problems n.params).map _).map _
      rw [List.map_map]
      rfl

theorem isResolvable_rename (mode : Mode) (n : Node) :
    isResolvable mode (n.rename f) = isResolvable mode n := by
  have hmode : (n.rename f).mode = n.mode := rfl
  rw [isResolvable, isResolvable, hmode, Node.operator_rename]
  cases n.operator <;> rfl

section Reports

variable {nodes : List Node} {edges : List Edge}

include hf

include hg in
theorem faults_edgesReport_rename :
    (edgesReport (nodes.map (Node.rename f)) (edges.map (Edge.rename f g))).faults =
      (edgesReport nodes edges).faults.map (Fault.rename f) := by
  apply faults_join_rename
  intro e
  rw [checkDrawn_rename hf hg, faults_ofTest_renamed]

/-! ### Emission orders -/

theorem Emission.inputsOf_rename (order : Emission) (name : String) :
    (order.rename f).inputsOf (f name) = (order.inputsOf name).map f := by
  rw [inputsOf, inputsOf, rename, Table.get?_rename hf]
  cases order.inputs.get? name <;> rfl

theorem faults_operandReport_rename (order : Emission) (p : Placed) :
    (operandReport (order.rename f) (p.rename f)).faults =
      (operandReport order p).faults.map (Fault.rename f) := by
  simp only [operandReport, Placed.id_rename, Placed.operator_rename, Emission.inputsOf_rename hf,
    List.length_map]
  split
  · split <;> rfl
  · split <;> rfl

theorem any_id_rename (placed : List Placed) (name : String) :
    (placed.map (Placed.rename f)).any (·.id == f name) = placed.any (·.id == name) := by
  rw [List.any_map]
  congr 1
  funext p
  exact hf.beq_eq

theorem faults_outsideReport_rename (g : String → String) (order : Emission) (e : Edge) :
    (outsideReport (order.rename f) (e.rename f g)).faults =
      (outsideReport order e).faults.map (Fault.rename f) := by
  have hsource : (e.rename f g).source = f e.source := rfl
  have htarget : (e.rename f g).target = f e.target := rfl
  simp only [outsideReport, Emission.rename, hsource, htarget, any_id_rename hf]
  split <;> rfl

theorem faults_emissionReport_rename (g : String → String) (net : Network) (order : Emission) :
    (emissionReport (net.rename hf g) (edges.map (Edge.rename f g)) (order.rename f)).faults =
      (emissionReport net edges order).faults.map (Fault.rename f) := by
  have hoperands := faults_join_rename (faults_operandReport_rename hf order) order.nodes
  have houtside := faults_join_rename (faults_outsideReport_rename hf g order) edges
  have hnodes : (order.rename f).nodes = order.nodes.map (Placed.rename f) := rfl
  have hroot : (order.rename f).root.id = f order.root.id := rfl
  simp only [emissionReport, Report.faults_append, faults_lossReport, List.map_append, hnodes,
    hroot, hoperands, houtside, List.isEmpty_map, List.append_nil]
  split <;> rfl

include hg in
theorem faults_flowReport_rename (net : Network) :
    (flowReport (net.rename hf g) (nodes.map (Node.rename f))
      (edges.map (Edge.rename f g))).faults =
        (flowReport net nodes edges).faults.map (Fault.rename f) := by
  have hmore : ∀ (more : List Placed) (root : String), (if more.isEmpty then ({} : Report)
      else .ofWarning (.manyDatasets (more.length + 1) root)).faults = [] := by
    intro more root
    split <;> rfl
  rw [flowReport, flowReport, Network.roots_rename, Network.emission_rename]
  cases net.roots with
  | nil => rfl
  | cons root more =>
    simp only [List.map_cons, Report.faults_append, List.map_append, hmore, List.nil_append,
      faults_edgesReport_rename hf hg]
    cases net.emission with
    | error fault => rfl
    | ok order => rw [renamed_ok, faults_emissionReport_rename hf]

include hg in
theorem faults_shapesReport_rename :
    (shapesReport (nodes.map (Node.rename f)) (edges.map (Edge.rename f g))).faults =
      (shapesReport nodes edges).faults.map (Fault.rename f) := by
  rw [shapesReport, shapesReport, propagate_rename hf]
  cases propagate nodes edges with
  | error fault => rfl
  | ok overlay =>
    apply faults_join_rename
    intro e
    rw [checkDrawnShapes_rename hf hg, faults_ofTest_renamed]

include hg in
/-- A renamed architecture has the same faults in the same order. -/
theorem faults_architectureReport_rename :
    (architectureReport (nodes.map (Node.rename f)) (edges.map (Edge.rename f g))).faults =
      (architectureReport nodes edges).faults.map (Fault.rename f) := by
  have hnodes : (Report.join ((nodes.map (Node.rename f)).map (nodeReport .architecture))).faults =
      (Report.join (nodes.map (nodeReport .architecture))).faults.map (Fault.rename f) :=
    faults_join_rename (faults_nodeReport_rename .architecture) nodes
  have hresolvable : (nodes.map (Node.rename f)).all (isResolvable .architecture) =
      nodes.all (isResolvable .architecture) := by
    rw [List.all_map]
    congr 1
    funext n
    exact isResolvable_rename .architecture n
  rw [architectureReport, architectureReport, hresolvable, Network.ofGraph_rename g hf]
  split
  · exact hnodes
  · cases Network.ofGraph nodes edges with
    | error fault =>
      simp only [renamed_error, Report.faults_append, Report.faults_ofFault, hnodes,
        List.map_append, List.map_cons, List.map_nil]
    | ok net =>
      have hflow : (Report.join ((nodes.map (Node.rename f)).map (nodeReport .architecture)) ++
          flowReport (net.rename hf g) (nodes.map (Node.rename f))
            (edges.map (Edge.rename f g))).faults =
          (Report.join (nodes.map (nodeReport .architecture)) ++
            flowReport net nodes edges).faults.map (Fault.rename f) := by
        rw [Report.faults_append, Report.faults_append, List.map_append, hnodes,
          faults_flowReport_rename hf hg]
      simp only [renamed_ok, Report.isValid_iff, hflow, List.map_eq_nil_iff]
      split
      · rw [Report.faults_append, hflow, faults_shapesReport_rename hf hg, ← List.map_append]
        rfl
      · exact hflow

end Reports
end Renaming
end LayerGraph
