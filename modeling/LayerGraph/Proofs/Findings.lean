import LayerGraph.Proofs.Catalog
import LayerGraph.Proofs.Overlay
import LayerGraph.Validation.Report
/-!
# What reports find

The faults of a report are those of its parts, each of which comes from one test. So the report of a
graph has no fault exactly when every test succeeds:

* `IsSound nodes edges net order overlay` lists the tests of an architecture together with its
  network, its emission order and its overlay (`architectureReport_isValid_iff`).
* `pipelineReport_isValid_iff` does so for a pipeline.
-/

namespace LayerGraph
set_option autoImplicit false

/-! ## Reports -/

namespace Report

@[simp] theorem faults_append (first second : Report) :
    (first ++ second).faults = first.faults ++ second.faults := rfl

@[simp] theorem faults_ofFault (fault : Fault) : (ofFault fault).faults = [fault] := rfl

@[simp] theorem faults_ofWarning (warning : Warning) : (ofWarning warning).faults = [] := rfl

/-- The findings of several validations are those of each, one after the other. -/
theorem join_eq (reports : List Report) :
    join reports =
      ⟨reports.flatMap faults, reports.flatMap warnings, reports.flatMap hints⟩ := by
  have hfold : ∀ (reports : List Report) (first : Report),
      reports.foldl (· ++ ·) first =
        first ++ ⟨reports.flatMap faults, reports.flatMap warnings, reports.flatMap hints⟩ := by
    intro reports
    induction reports with
    | nil =>
      intro first
      show first = append first ⟨[], [], []⟩
      simp [append]
    | cons r rest ih =>
      intro first
      rw [List.foldl_cons, ih]
      show append (append first r) _ = append first _
      simp [append]
  rw [join, hfold]
  rfl

theorem faults_join (reports : List Report) : (join reports).faults = reports.flatMap faults := by
  rw [join_eq]

@[simp] theorem mem_faults_join {α : Type} {items : List α} {f : α → Report} {fault : Fault} :
    fault ∈ (join (items.map f)).faults ↔ ∃ a ∈ items, fault ∈ (f a).faults := by
  simp [faults_join, List.mem_flatMap]

@[simp] theorem faults_join_eq_nil_iff {α : Type} {items : List α} {f : α → Report} :
    (join (items.map f)).faults = [] ↔ ∀ a ∈ items, (f a).faults = [] := by
  simp [faults_join]

@[simp] theorem mem_faults_ofTest {test : Except Fault Unit} {fault : Fault} :
    fault ∈ (ofTest test).faults ↔ test = .error fault := by
  cases test with
  | ok => exact ⟨(nomatch ·), (nomatch ·)⟩
  | error found => simp [ofTest, eq_comm]

@[simp] theorem faults_ofTest_eq_nil_iff {test : Except Fault Unit} :
    (ofTest test).faults = [] ↔ test = .ok () := by
  cases test with
  | ok => exact ⟨fun _ => rfl, fun _ => rfl⟩
  | error found => exact ⟨(nomatch ·), (nomatch ·)⟩

@[simp] theorem isValid_iff {r : Report} : r.isValid = true ↔ r.faults = [] := by
  rw [isValid, List.isEmpty_iff]

end Report

/-! ## Nodes -/

/-- The node belongs to a graph, and its operator there finds nothing wrong with its parameters. -/
def Node.IsProper (mode : Mode) (n : Node) : Prop :=
  n.mode = mode ∧ ∃ o, n.operator = .ok o ∧ o.problems n.params = []

theorem Node.IsProper.isResolvable {mode : Mode} {n : Node} (h : n.IsProper mode) :
    isResolvable mode n = true := by
  obtain ⟨hmode, o, ho, -⟩ := h
  simp [LayerGraph.isResolvable, hmode, ho, Except.isOk, Except.toBool]

theorem Node.isProper_iff {mode : Mode} {n : Node} {o : Operator} (ho : n.operator = .ok o)
    (hmode : n.mode = mode) : n.IsProper mode ↔ o.problems n.params = [] := by
  constructor
  · rintro ⟨-, o', ho', hproblems⟩
    obtain rfl := Except.ok.inj (ho'.symm.trans ho)
    exact hproblems
  · intro hproblems
    exact ⟨hmode, o, ho, hproblems⟩

theorem Node.isPipeline_of_mode {n : Node} (hmode : n.mode = .pipeline) : n.isPipeline = true := by
  cases hpipeline : n.isPipeline with
  | true => rfl
  | false => simp [Node.mode, hpipeline] at hmode

theorem Node.mem_all_of_operator {n : Node} {o : Operator} (hmode : n.mode = .architecture)
    (ho : n.operator = .ok o) : o ∈ Operator.Architecture.all := by
  have hfind := Node.operator_eq_ok_iff.1 ho
  rw [hmode] at hfind
  exact (Catalog.mem_operators hfind).1

theorem faults_nodeReport_eq_nil_iff {mode : Mode} {n : Node} :
    (nodeReport mode n).faults = [] ↔ n.IsProper mode := by
  rw [nodeReport, Node.IsProper]
  by_cases hmode : n.mode = mode
  · rw [if_neg (not_not.2 hmode)]
    cases n.operator with
    | error fault => simp [hmode]
    | ok o => simp [hmode]
  · simp [hmode]

section Nodes

variable {net : Network} {nodes : List Node} {edges : List Edge} {mode : Mode}

theorem exists_ofGraph_of_proper (hids : (nodes.map Node.id).Nodup)
    (h : ∀ n ∈ nodes, n.IsProper mode) (edges : List Edge) :
    ∃ net, Network.ofGraph nodes edges = .ok net :=
  Network.exists_ofGraph edges hids fun n hn => (h n hn).2.imp fun _ => And.left

theorem Network.IsOf.mode_eq (h : net.IsOf nodes edges) (hproper : ∀ n ∈ nodes, n.IsProper mode)
    {p : Placed} (hp : p ∈ net.nodes) : p.node.mode = mode := (hproper p.node (h.node_mem hp)).1

theorem Network.IsOf.operatorId_eq (h : net.IsOf nodes edges) {p : Placed} (hp : p ∈ net.nodes) :
    p.node.operatorId = p.operator.id :=
  (Catalog.mem_operators (Node.operator_eq_ok_iff.1 (h.operator p hp))).2.symm

theorem Network.IsOf.exists_operatorId_iff (h : net.IsOf nodes edges) {name : String} :
    (∃ p ∈ net.nodes, p.operator.id = name) ↔ ∃ n ∈ nodes, n.operatorId = name := by
  rw [← h.nodes_eq]
  simp only [List.mem_map, exists_exists_and_eq_and]
  exact exists_congr fun p => and_congr_right fun hp => by rw [h.operatorId_eq hp]

theorem Network.IsOf.problems_eq_nil (h : net.IsOf nodes edges)
    (hproper : ∀ n ∈ nodes, n.IsProper mode) {p : Placed} (hp : p ∈ net.nodes) :
    p.operator.problems p.node.params = [] := by
  obtain ⟨-, o, ho, hproblems⟩ := hproper p.node (h.node_mem hp)
  rw [h.operator p hp] at ho
  exact Except.ok.inj ho ▸ hproblems

theorem Network.IsOf.mem_operators (h : net.IsOf nodes edges)
    (hproper : ∀ n ∈ nodes, n.IsProper mode) {p : Placed} (hp : p ∈ net.nodes) :
    p.operator ∈ Catalog.operators mode := by
  have hfind := Node.operator_eq_ok_iff.1 (h.operator p hp)
  rw [h.mode_eq hproper hp] at hfind
  exact (Catalog.mem_operators hfind).1

theorem Network.IsOf.isPipeline_eq_false (h : net.IsOf nodes edges)
    (hproper : ∀ n ∈ nodes, n.IsProper .architecture) {p : Placed} (hp : p ∈ net.nodes) :
    p.node.isPipeline = false := by
  have hmode := h.mode_eq hproper hp
  cases hpipeline : p.node.isPipeline with
  | false => rfl
  | true => simp [Node.mode, hpipeline] at hmode

theorem Network.IsOf.isPipeline_eq_true (h : net.IsOf nodes edges)
    (hproper : ∀ n ∈ nodes, n.IsProper .pipeline) {p : Placed} (hp : p ∈ net.nodes) :
    p.node.isPipeline = true := Node.isPipeline_of_mode (h.mode_eq hproper hp)

end Nodes

/-! ## Architectures -/

variable {nodes : List Node} {edges : List Edge} {net : Network}

theorem faults_edgesReport_eq_nil_iff :
    (edgesReport nodes edges).faults = [] ↔ ∀ e ∈ edges, checkDrawn nodes edges e = .ok () := by
  simp [edgesReport]

/-- The faults at proper nodes are those of the edges, the order and the shapes. -/
theorem faults_architectureReport (hproper : ∀ n ∈ nodes, n.IsProper .architecture)
    (hnet : Network.ofGraph nodes edges = .ok net) :
    (architectureReport nodes edges).faults =
      (flowReport net nodes edges).faults ++
        if (flowReport net nodes edges).faults = [] then (shapesReport nodes edges).faults
        else [] := by
  have hnodes : (Report.join (nodes.map (nodeReport .architecture))).faults = [] :=
    Report.faults_join_eq_nil_iff.2 fun n hn => faults_nodeReport_eq_nil_iff.2 (hproper n hn)
  have hresolvable : nodes.all (isResolvable .architecture) = true :=
    List.all_eq_true.2 fun n hn => (hproper n hn).isResolvable
  rw [architectureReport, if_neg (not_not.2 hresolvable), hnet]
  simp only [Report.isValid_iff, Report.faults_append, hnodes, List.nil_append]
  split <;> simp [hnodes]

/-- The tests that an architecture passes. -/
structure IsSound (nodes : List Node) (edges : List Edge) (net : Network) (order : Emission)
    (overlay : Propagation) : Prop where
  proper : ∀ n ∈ nodes, n.IsProper .architecture
  ofGraph : Network.ofGraph nodes edges = .ok net
  drawn : ∀ e ∈ edges, checkDrawn nodes edges e = .ok ()
  emission : net.emission = .ok order
  operands : ∀ p ∈ order.nodes, (operandReport order p).faults = []
  inside : ∀ e ∈ edges, (outsideReport order e).faults = []
  nonempty : order.nodes ≠ []
  propagate : LayerGraph.propagate nodes edges = .ok overlay
  shapes : ∀ e ∈ edges, checkDrawnShapes nodes edges overlay e = .ok ()

theorem faults_lossReport (net : Network) (order : Emission) :
    (lossReport net order).faults = [] := by
  rw [lossReport]
  split
  · rfl
  · split <;> rfl

theorem faults_emissionReport_eq_nil_iff {order : Emission} :
    (emissionReport net edges order).faults = [] ↔
      (∀ p ∈ order.nodes, (operandReport order p).faults = []) ∧
        (∀ e ∈ edges, (outsideReport order e).faults = []) ∧ order.nodes ≠ [] := by
  by_cases hempty : order.nodes = []
  · simp [emissionReport, hempty]
  · simp [emissionReport, faults_lossReport, hempty]

theorem faults_flowReport_eq_nil_iff :
    (flowReport net nodes edges).faults = [] ↔
      (∀ e ∈ edges, checkDrawn nodes edges e = .ok ()) ∧
        ∃ order, net.emission = .ok order ∧ (emissionReport net edges order).faults = [] := by
  have hroots : ∀ order, net.emission = .ok order → net.roots ≠ [] := by
    intro order horder heq
    obtain ⟨root, hroot, -⟩ := Network.emission_eq_ok_iff.1 horder
    simp [heq] at hroot
  unfold flowReport
  split
  · rename_i heq
    refine ⟨fun h => absurd h (by simp), fun ⟨_, order, horder, _⟩ => ?_⟩
    exact absurd heq (hroots order horder)
  · rename_i root more _
    have hmore : (if more.isEmpty then ({} : Report)
        else .ofWarning (.manyDatasets (more.length + 1) root.id)).faults = [] := by
      split <;> rfl
    simp only [Report.faults_append, List.append_eq_nil_iff, hmore, true_and,
      faults_edgesReport_eq_nil_iff]
    refine and_congr_right fun _ => ?_
    cases net.emission with
    | error fault => simp
    | ok order => simp

/-- An architecture has a report without faults exactly when it passes all tests. -/
theorem architectureReport_isValid_iff :
    (architectureReport nodes edges).faults = [] ↔
      ∃ net order overlay, IsSound nodes edges net order overlay := by
  constructor
  · intro h
    have hnodes : (Report.join (nodes.map (nodeReport .architecture))).faults = [] := by
      unfold architectureReport at h
      split at h
      · exact h
      · split at h
        · exact (List.append_eq_nil_iff.1 h).1
        · dsimp only at h
          split at h
          · exact (List.append_eq_nil_iff.1 (List.append_eq_nil_iff.1 h).1).1
          · exact (List.append_eq_nil_iff.1 h).1
    have hproper : ∀ n ∈ nodes, n.IsProper .architecture := fun n hn =>
      faults_nodeReport_eq_nil_iff.1 (Report.faults_join_eq_nil_iff.1 hnodes n hn)
    have hresolvable : nodes.all (isResolvable .architecture) = true :=
      List.all_eq_true.2 fun n hn => (hproper n hn).isResolvable
    cases hnet : Network.ofGraph nodes edges with
    | error fault =>
      rw [architectureReport, if_neg (not_not.2 hresolvable), hnet] at h
      exact absurd (List.append_eq_nil_iff.1 h).2 (by simp)
    | ok net =>
      rw [faults_architectureReport hproper hnet, List.append_eq_nil_iff] at h
      obtain ⟨hflow, hshapes⟩ := h
      rw [if_pos hflow, shapesReport] at hshapes
      obtain ⟨hdrawn, order, horder, hemission⟩ := faults_flowReport_eq_nil_iff.1 hflow
      obtain ⟨hoperands, hinside, hnonempty⟩ := faults_emissionReport_eq_nil_iff.1 hemission
      cases hpropagate : LayerGraph.propagate nodes edges with
      | error fault => simp [hpropagate] at hshapes
      | ok overlay =>
        simp only [hpropagate, Report.faults_join_eq_nil_iff,
          Report.faults_ofTest_eq_nil_iff] at hshapes
        exact ⟨net, order, overlay, hproper, hnet, hdrawn, horder, hoperands, hinside, hnonempty,
          hpropagate, hshapes⟩
  · rintro ⟨net, order, overlay, h⟩
    have hflow : (flowReport net nodes edges).faults = [] :=
      faults_flowReport_eq_nil_iff.2 ⟨h.drawn, order, h.emission,
        faults_emissionReport_eq_nil_iff.2 ⟨h.operands, h.inside, h.nonempty⟩⟩
    rw [faults_architectureReport h.proper h.ofGraph, hflow, if_pos rfl, shapesReport, h.propagate]
    simp only [List.nil_append, Report.faults_join_eq_nil_iff, Report.faults_ofTest_eq_nil_iff]
    exact h.shapes

/-! ## Pipelines -/

theorem faults_pipelinePartsReport (net : Network) : (pipelinePartsReport net).faults = [] := by
  have hroot : (pipelineRootReport net).faults = [] := by
    unfold pipelineRootReport
    split
    · rfl
    · rename_i more _
      cases more <;> rfl
  have hoptimizer : (optimizerReport net).faults = [] := by
    unfold optimizerReport
    split <;> rfl
  have htraining : (trainingReport net).faults = [] := by
    unfold trainingReport
    split <;> rfl
  simp only [pipelinePartsReport, Report.faults_append, hroot, hoptimizer, htraining]
  split <;> rfl

/-- A pipeline has a report without faults exactly when it passes all tests. -/
theorem pipelineReport_isValid_iff :
    (pipelineReport nodes edges).faults = [] ↔
      (∀ n ∈ nodes, n.IsProper .pipeline) ∧
        (∀ e ∈ edges, checkDrawn nodes edges e = .ok ()) ∧
          ∃ net, Network.ofGraph nodes edges = .ok net ∧ Acyclic net.edges := by
  have hnodes : (Report.join (nodes.map (nodeReport .pipeline))).faults = [] ↔
      ∀ n ∈ nodes, n.IsProper .pipeline := by
    simp only [Report.faults_join_eq_nil_iff, faults_nodeReport_eq_nil_iff]
  by_cases hproper : ∀ n ∈ nodes, n.IsProper .pipeline
  · have hresolvable : nodes.all (isResolvable .pipeline) = true :=
      List.all_eq_true.2 fun n hn => (hproper n hn).isResolvable
    rw [pipelineReport, if_neg (not_not.2 hresolvable)]
    cases hnet : Network.ofGraph nodes edges with
    | error fault => simp
    | ok net =>
      simp only [Report.faults_append, List.append_eq_nil_iff, hnodes.2 hproper,
        faults_edgesReport_eq_nil_iff, Except.ok.injEq, exists_eq_left', true_and]
      refine ⟨fun ⟨hdrawn, hacyclic⟩ => ⟨hproper, hdrawn, ?_⟩, fun ⟨_, hdrawn, hacyclic⟩ =>
        ⟨hdrawn, ?_⟩⟩
      · rw [← Network.checkAcyclic_eq_ok_iff]
        cases hcheck : net.checkAcyclic with
        | error fault => simp [hcheck] at hacyclic
        | ok => rfl
      · rw [Network.checkAcyclic_eq_ok_iff.2 hacyclic]
        exact faults_pipelinePartsReport net
  · refine ⟨fun h => absurd (hnodes.1 ?_) hproper, fun h => absurd h.1 hproper⟩
    unfold pipelineReport at h
    split at h
    · exact h
    · split at h
      · exact (List.append_eq_nil_iff.1 h).1
      · exact (List.append_eq_nil_iff.1 (List.append_eq_nil_iff.1 h).1).1

/-! ## Projects -/

theorem faults_report_eq_nil_iff {p : Project} :
    p.report.faults = [] ↔ (architectureReport p.architecture.nodes p.architecture.edges).faults =
      [] ∧ (p.graphReport .pipeline).faults = [] := by
  rw [Project.report, Report.faults_append, List.append_eq_nil_iff]
  rfl

/-- A pipeline that is not tested would pass the tests. -/
theorem faults_pipelineReport_eq_nil {p : Project} (h : (p.graphReport .pipeline).faults = []) :
    (pipelineReport p.pipeline.nodes p.pipeline.edges).faults = [] := by
  change (if p.pipeline.nodes.isEmpty ∧ p.pipeline.edges.isEmpty then ({} : Report)
    else pipelineReport p.pipeline.nodes p.pipeline.edges).faults = [] at h
  split at h
  · rename_i hempty
    rw [List.isEmpty_iff.1 hempty.1, List.isEmpty_iff.1 hempty.2]
    decide +kernel
  · exact h

/-! ## A small project -/

/-- A project with all kinds of edges into layers and a merge, and a pipeline with an optimizer. -/
def Project.sample : Project where
  architecture :=
    { nodes :=
        [{ id := "data", operatorId := "dataset" },
         { id := "conv", operatorId := "conv2d",
           params := .ofList [("out_channels", .int 1), ("padding", .int 1)] },
         { id := "norm", operatorId := "batchnorm2d" },
         { id := "join", operatorId := "add" },
         { id := "flat", operatorId := "flatten" },
         { id := "head", operatorId := "linear" },
         { id := "loss", operatorId := "crossentropyloss" }]
      edges :=
        [{ id := "1", source := "data", target := "conv" },
         { id := "2", source := "conv", target := "norm" },
         { id := "3", source := "data", target := "norm", kind := .residual },
         { id := "4", source := "norm", target := "join" },
         { id := "5", source := "data", target := "join", kind := .sum },
         { id := "6", source := "join", target := "flat" },
         { id := "7", source := "flat", target := "head" },
         { id := "8", source := "head", target := "loss" }] }
  pipeline :=
    { nodes :=
        [{ id := "images", operatorId := "dataset", isPipeline := true },
         { id := "training", operatorId := "trainingconfig", isPipeline := true },
         { id := "adam", operatorId := "adamw", isPipeline := true }]
      edges :=
        [{ id := "1", source := "images", target := "training" },
         { id := "2", source := "training", target := "adam" }] }

end LayerGraph
