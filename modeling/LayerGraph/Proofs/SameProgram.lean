import LayerGraph.Proofs.Gate
/-!
# Architectures with the same program

A program depends on an architecture through its emission order and its overlay only, and on these
through what `SameProgram` lists. Two valid projects that agree on it, and on the pipeline, are
compiled to the same text (`compile_congr`).

The report of an architecture without faults is that of its flow (`IsSound.report_eq`).
-/

namespace LayerGraph
set_option autoImplicit false

/-! ## Reports without faults -/

namespace Report

@[simp] theorem empty_append (r : Report) : ({} : Report) ++ r = r := by
  show Report.append {} r = r
  simp [append]

@[simp] theorem append_empty (r : Report) : r ++ ({} : Report) = r := by
  show Report.append r {} = r
  simp [append]

theorem join_eq_empty {α : Type} {items : List α} {f : α → Report} (h : ∀ a ∈ items, f a = {}) :
    join (items.map f) = {} := by
  rw [List.map_congr_left h, join]
  induction items with
  | nil => rfl
  | cons a rest ih =>
    rw [List.map_cons, List.foldl_cons, empty_append]
    exact ih fun other hother => h other (List.mem_cons_of_mem _ hother)

end Report

namespace IsSound

variable {nodes : List Node} {edges : List Edge} {net : Network} {order : Emission}
  {overlay : Propagation}

theorem report_eq (h : IsSound nodes edges net order overlay) :
    architectureReport nodes edges = flowReport net nodes edges := by
  have hnodes : Report.join (nodes.map (nodeReport .architecture)) = {} := by
    apply Report.join_eq_empty
    intro n hn
    obtain ⟨hmode, o, ho, hproblems⟩ := h.proper n hn
    simp [nodeReport, hmode, ho, hproblems]
  have hshapes : shapesReport nodes edges = {} := by
    simp only [shapesReport, h.propagate]
    apply Report.join_eq_empty
    intro e he
    rw [h.shapes e he, Report.ofTest]
  have hresolvable : nodes.all (isResolvable .architecture) = true :=
    List.all_eq_true.2 fun n hn => (h.proper n hn).isResolvable
  rw [architectureReport, if_neg (not_not.2 hresolvable), h.ofGraph]
  simp only [hnodes, hshapes, Report.empty_append, Report.append_empty, ite_self]

end IsSound

/-! ## What a program depends on -/

section Programs

variable {order order' : Emission} {overlay overlay' : Propagation} {p q : Placed}

/-- What is written for the two nodes is the same. -/
structure WrittenAlike (order order' : Emission) (overlay overlay' : Propagation) (p q : Placed) :
    Prop where
  id : p.id = q.id
  operator : p.operator = q.operator
  params : overlay.effectiveParams p = overlay'.effectiveParams q
  inputs : order.inputsOf q.id = order'.inputsOf q.id
  addends : ∀ kind, order.addendsOf kind q.id = order'.addendsOf kind q.id

/-- Two orders with their overlays of which the same program is made. -/
structure SameProgram (order order' : Emission) (overlay overlay' : Propagation) : Prop where
  root : order.root.id = order'.root.id
  dataset : order.root.params.text? "dataset" = order'.root.params.text? "dataset"
  nodes : List.Forall₂ (WrittenAlike order order' overlay overlay') order.nodes order'.nodes
  loss : order.loss.map (fun p => (p.operator, p.params)) =
    order'.loss.map fun p => (p.operator, p.params)

theorem nodeValue_congr (params : Params) (hid : p.id = q.id) (hoperator : p.operator = q.operator)
    (names : Names) (operands : List String) :
    nodeValue names p params operands = nodeValue names q params operands := by
  simp only [nodeValue, hid, hoperator]

theorem writeNode_congr (hroot : order.root.id = order'.root.id)
    (h : WrittenAlike order order' overlay overlay' p q) (names : Names) :
    writeNode order overlay names p = writeNode order' overlay' names q := by
  have hvalue := fun names operands =>
    nodeValue_congr (overlay'.effectiveParams q) h.id h.operator names operands
  simp only [writeNode, hroot, h.id, h.inputs, h.addends, h.params, hvalue]

theorem writeNodes_congr (hroot : order.root.id = order'.root.id) {placed placed' : List Placed}
    (h : List.Forall₂ (WrittenAlike order order' overlay overlay') placed placed')
    (names : Names) :
    writeNodes order overlay names placed = writeNodes order' overlay' names placed' := by
  induction h generalizing names with
  | nil => rfl
  | cons hfirst _ ih => simp only [writeNodes, writeNode_congr hroot hfirst, ih]

namespace SameProgram

theorem model_eq (h : SameProgram order order' overlay overlay') :
    order.model overlay = order'.model overlay' := by
  have hblocks : ∀ block, order.nodes.any (·.operator.block? = some block) =
      order'.nodes.any (·.operator.block? = some block) := by
    intro block
    have hall := h.nodes
    generalize order.nodes = placed, order'.nodes = placed' at hall
    induction hall with
    | nil => rfl
    | cons hfirst _ ih => rw [List.any_cons, List.any_cons, hfirst.operator, ih]
  simp only [Emission.model, writeNodes_congr h.root h.nodes, hblocks]

theorem dataset_eq (h : SameProgram order order' overlay overlay') :
    order.dataset = order'.dataset := by
  simp only [Emission.dataset, h.dataset, h.root]

theorem criterion_eq (h : SameProgram order order' overlay overlay') (settings : Settings) :
    order.criterion settings = order'.criterion settings := by
  have hloss := h.loss
  unfold Emission.criterion
  cases hfirst : order.loss with
  | none =>
    rw [hfirst] at hloss
    rw [Option.map_eq_none_iff.1 hloss.symm]
  | some loss =>
    rw [hfirst] at hloss
    obtain ⟨loss', hloss', hsame⟩ := Option.map_eq_some_iff.1 hloss.symm
    obtain ⟨hoperator, hparams⟩ := Prod.mk.inj hsame
    simp only [hloss', hoperator, hparams]

end SameProgram

/-! ## Compiling -/

theorem compile_eq_of_report {p : Project} {settings : Settings}
    (hsettings : settings.validate = .ok ()) (hreport : p.report.faults = []) :
    p.compile settings = (p.program settings).map Program.text := by
  rw [Project.compile, hsettings, Report.result, hreport]
  cases p.program settings <;> rfl

/-- Two projects without faults have the same text when their pipelines are the same and their
architectures agree on what the program depends on. -/
theorem compile_congr (p p' : Project) {net net' : Network} (hpipeline : p.pipeline = p'.pipeline)
    (h : IsSound p.architecture.nodes p.architecture.edges net order overlay)
    (h' : IsSound p'.architecture.nodes p'.architecture.edges net' order' overlay')
    (hreport : p.report.faults = []) (hreport' : p'.report.faults = [])
    (hsame : SameProgram order order' overlay overlay') {settings : Settings}
    (hsettings : settings.validate = .ok ()) :
    ∃ text, p.compile settings = .ok text ∧ p'.compile settings = .ok text := by
  have hprogram : p.program settings = p'.program settings := by
    simp only [Project.program, h.ofGraph, h'.ofGraph, h.emission, h'.emission, h.propagate,
      h'.propagate, bind, Except.bind, hsame.model_eq, hsame.dataset_eq,
      hsame.criterion_eq settings, hpipeline]
  obtain ⟨program, hok⟩ := exists_program hsettings hreport
  refine ⟨program.text, ?_, ?_⟩
  · rw [compile_eq_of_report hsettings hreport, hok]
    rfl
  · rw [compile_eq_of_report hsettings hreport', ← hprogram, hok]
    rfl

end Programs

end LayerGraph
