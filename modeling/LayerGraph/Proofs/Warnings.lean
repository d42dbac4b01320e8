import LayerGraph.Proofs.Findings
import LayerGraph.Proofs.Numerals
/-!
# Warnings

Tests of nodes, edges and shapes find faults only, so the warnings of a report come from the parts
of its graphs.

* `Warning.mode`: the graph that a warning is about. The architecture gives no warning about the
  pipeline (`mode_of_mem_warnings_architectureReport`), so those of a project are those of its
  pipeline (`Project.mem_warnings_iff`).
* `warnings_pipelineReport`: once a pipeline has passed its tests, the warnings are those of its
  parts. `noToTensor_mem_warnings_iff`, `notConnected_mem_warnings_iff` and
  `manyPipelineDatasets_mem_warnings_iff` say when three of them are among these.
* `Warning.eq_noToTensor_of_message`: the text of one of them is that of no other.
-/

namespace LayerGraph
set_option autoImplicit false
open Relation

/-! ## Warnings of one graph -/

/-- The graph that a warning is about. -/
def Warning.mode : Warning → Mode
  | manyDatasets _ _ => .architecture
  | skipped _ _ => .architecture
  | noLoss => .architecture
  | manyLosses _ _ => .architecture
  | _ => .pipeline

namespace Report

@[simp] theorem warnings_append (first second : Report) :
    (first ++ second).warnings = first.warnings ++ second.warnings := rfl

@[simp] theorem warnings_ofFault (fault : Fault) : (ofFault fault).warnings = [] := rfl

@[simp] theorem warnings_ofWarning (warning : Warning) :
    (ofWarning warning).warnings = [warning] := rfl

@[simp] theorem warnings_ofTest (test : Except Fault Unit) : (ofTest test).warnings = [] := by
  cases test <;> rfl

theorem warnings_join_eq_nil {α : Type} {items : List α} {f : α → Report}
    (h : ∀ a ∈ items, (f a).warnings = []) : (join (items.map f)).warnings = [] := by
  rw [join_eq, List.flatMap_eq_nil_iff]
  exact List.forall_mem_map.2 h

end Report

section Graphs

variable {nodes : List Node} {edges : List Edge} {net : Network}

theorem warnings_nodeReport (mode : Mode) (n : Node) : (nodeReport mode n).warnings = [] := by
  unfold nodeReport
  split
  · rfl
  · split <;> rfl

theorem warnings_nodeReports (mode : Mode) (nodes : List Node) :
    (Report.join (nodes.map (nodeReport mode))).warnings = [] :=
  Report.warnings_join_eq_nil fun n _ => warnings_nodeReport mode n

theorem warnings_edgesReport : (edgesReport nodes edges).warnings = [] :=
  Report.warnings_join_eq_nil fun _ _ => Report.warnings_ofTest _

theorem warnings_shapesReport : (shapesReport nodes edges).warnings = [] := by
  unfold shapesReport
  split
  · rfl
  · exact Report.warnings_join_eq_nil fun _ _ => Report.warnings_ofTest _

theorem warnings_operandReport (order : Emission) (p : Placed) :
    (operandReport order p).warnings = [] := by
  unfold operandReport
  dsimp only
  split
  · split <;> rfl
  · split <;> rfl

theorem warnings_outsideReport (order : Emission) (e : Edge) :
    (outsideReport order e).warnings = [] := by
  unfold outsideReport
  split <;> rfl

/-! ## The architecture -/

theorem mode_of_mem_warnings_emissionReport {order : Emission} {w : Warning}
    (h : w ∈ (emissionReport net edges order).warnings) : w.mode = .architecture := by
  have hoperands : (Report.join (order.nodes.map (operandReport order))).warnings = [] :=
    Report.warnings_join_eq_nil fun p _ => warnings_operandReport order p
  have houtside : (Report.join (edges.map (outsideReport order))).warnings = [] :=
    Report.warnings_join_eq_nil fun e _ => warnings_outsideReport order e
  have hempty : (if order.nodes.isEmpty then
      ({ faults := [.noLayers order.root.id], hints := [.layers] } : Report)
      else {}).warnings = [] := by
    split <;> rfl
  simp only [emissionReport, Report.warnings_append, hoperands, houtside, hempty,
    List.nil_append, List.append_nil, List.mem_append] at h
  rcases h with h | h
  · obtain ⟨p, -, rfl⟩ := List.mem_map.1 h
    rfl
  · unfold lossReport at h
    dsimp only at h
    split at h
    · obtain rfl := List.mem_singleton.1 h
      rfl
    · split at h
      · obtain rfl := List.mem_singleton.1 h
        rfl
      · cases h

theorem mode_of_mem_warnings_flowReport {w : Warning}
    (h : w ∈ (flowReport net nodes edges).warnings) : w.mode = .architecture := by
  unfold flowReport at h
  split at h
  · cases h
  · rename_i root more _
    simp only [Report.warnings_append, warnings_edgesReport, List.append_nil,
      List.mem_append] at h
    rcases h with h | h
    · split at h
      · cases h
      · obtain rfl := List.mem_singleton.1 h
        rfl
    · split at h
      · cases h
      · exact mode_of_mem_warnings_emissionReport h

theorem mode_of_mem_warnings_architectureReport {w : Warning}
    (h : w ∈ (architectureReport nodes edges).warnings) : w.mode = .architecture := by
  have hnodes := warnings_nodeReports .architecture nodes
  unfold architectureReport at h
  dsimp only at h
  split at h
  · rw [hnodes] at h
    cases h
  · split at h
    · simp [hnodes] at h
    · split at h
      · simp only [Report.warnings_append, hnodes, warnings_shapesReport, List.nil_append,
          List.append_nil] at h
        exact mode_of_mem_warnings_flowReport h
      · simp only [Report.warnings_append, hnodes, List.nil_append] at h
        exact mode_of_mem_warnings_flowReport h

theorem Project.mem_warnings_iff {p : Project} {w : Warning} (hmode : w.mode = .pipeline) :
    w ∈ p.report.warnings ↔ w ∈ (p.graphReport .pipeline).warnings := by
  rw [Project.report, Report.warnings_append, List.mem_append]
  refine ⟨fun h => h.resolve_left fun harchitecture => ?_, .inr⟩
  have hother := mode_of_mem_warnings_architectureReport harchitecture
  rw [hmode] at hother
  cases hother

/-! ## The pipeline -/

theorem warnings_pipelineReport (hproper : ∀ n ∈ nodes, n.IsProper .pipeline)
    (hnet : Network.ofGraph nodes edges = .ok net) (hacyclic : Acyclic net.edges) :
    (pipelineReport nodes edges).warnings = (pipelinePartsReport net).warnings := by
  have hresolvable : nodes.all (isResolvable .pipeline) = true :=
    List.all_eq_true.2 fun n hn => (hproper n hn).isResolvable
  rw [pipelineReport, if_neg (not_not.2 hresolvable), hnet]
  simp only [Report.warnings_append, warnings_nodeReports, warnings_edgesReport,
    Network.checkAcyclic_eq_ok_iff.2 hacyclic, List.nil_append]

/-- The warnings of a pipeline, part by part. -/
theorem mem_warnings_pipelinePartsReport {w : Warning} :
    w ∈ (pipelinePartsReport net).warnings ↔
      w ∈ (pipelineRootReport net).warnings ∨ w ∈ (optimizerReport net).warnings ∨
        w ∈ (trainingReport net).warnings ∨
        ((∀ q ∈ net.nodes, q.operator.id ≠ "totensor") ∧ w = .noToTensor) ∨
        ∃ operator ∈ repeated [] ((net.ofCategory .callbacks).map (·.operator.id)),
          w = .repeatedCallback operator := by
  have htensor : w ∈ (if net.nodes.any (·.operator.id == "totensor") then ({} : Report)
        else .ofWarning .noToTensor).warnings ↔
      (∀ q ∈ net.nodes, q.operator.id ≠ "totensor") ∧ w = .noToTensor := by
    split
    · rename_i hany
      obtain ⟨q, hq, hid⟩ := List.any_eq_true.1 hany
      exact ⟨fun h => absurd h List.not_mem_nil, fun h => absurd (beq_iff_eq.1 hid) (h.1 q hq)⟩
    · rename_i hnone
      have hall : ∀ q ∈ net.nodes, q.operator.id ≠ "totensor" := fun q hq hid =>
        hnone (List.any_eq_true.2 ⟨q, hq, beq_iff_eq.2 hid⟩)
      exact ⟨fun h => ⟨hall, List.mem_singleton.1 h⟩, fun h => List.mem_singleton.2 h.2⟩
  simp only [pipelinePartsReport, Report.warnings_append, List.mem_append, htensor, List.mem_map,
    or_assoc, @eq_comm _ _ w]

theorem mem_warnings_optimizerReport {w : Warning} (h : w ∈ (optimizerReport net).warnings) :
    w = .noOptimizer ∨ ∃ count, w = .manyOptimizers count := by
  unfold optimizerReport at h
  split at h
  · exact .inl (List.mem_singleton.1 h)
  · cases h
  · exact .inr ⟨_, List.mem_singleton.1 h⟩

theorem mem_warnings_trainingReport {w : Warning} (h : w ∈ (trainingReport net).warnings) :
    w = .noTraining ∨ ∃ count, w = .manyTrainings count := by
  unfold trainingReport at h
  split at h
  · exact .inl (List.mem_singleton.1 h)
  · cases h
  · exact .inr ⟨_, List.mem_singleton.1 h⟩

theorem warnings_pipelineRootReport {root : Placed} {more : List Placed}
    (hroots : net.roots = root :: more) :
    (pipelineRootReport net).warnings =
      (if more.isEmpty then [] else [.manyPipelineDatasets (more.length + 1) root.id]) ++
        (net.nodes.filter (·.id ∉ net.reachable root.id)).map fun p =>
          .notConnected p.id root.id := by
  rw [pipelineRootReport, hroots]
  cases more <;> rfl

theorem noToTensor_not_mem_pipelineRootReport :
    Warning.noToTensor ∉ (pipelineRootReport net).warnings := by
  cases hroots : net.roots with
  | nil => simp [pipelineRootReport, hroots]
  | cons root more =>
    rw [warnings_pipelineRootReport hroots]
    cases more <;> simp

theorem noToTensor_mem_warnings_iff :
    Warning.noToTensor ∈ (pipelinePartsReport net).warnings ↔
      ∀ q ∈ net.nodes, q.operator.id ≠ "totensor" := by
  rw [mem_warnings_pipelinePartsReport]
  constructor
  · rintro (h | h | h | h | ⟨_, -, h⟩)
    · exact absurd h noToTensor_not_mem_pipelineRootReport
    · simpa using mem_warnings_optimizerReport h
    · simpa using mem_warnings_trainingReport h
    · exact h.1
    · cases h
  · exact fun h => .inr (.inr (.inr (.inl ⟨h, rfl⟩)))

/-- The only warnings that name the first dataset are those at the root. -/
theorem mem_warnings_root_iff {w : Warning}
    (hw : (∃ id root, w = .notConnected id root) ∨
      ∃ count root, w = .manyPipelineDatasets count root) :
    w ∈ (pipelinePartsReport net).warnings ↔ w ∈ (pipelineRootReport net).warnings := by
  rw [mem_warnings_pipelinePartsReport]
  refine ⟨fun h => h.resolve_right ?_, .inl⟩
  rintro (h | h | ⟨-, rfl⟩ | ⟨_, -, rfl⟩)
  · obtain rfl | ⟨_, rfl⟩ := mem_warnings_optimizerReport h <;> simp at hw
  · obtain rfl | ⟨_, rfl⟩ := mem_warnings_trainingReport h <;> simp at hw
  · simp at hw
  · simp at hw

theorem notConnected_mem_warnings_iff {root : Placed} {more : List Placed}
    (hroots : net.roots = root :: more) {id name : String} :
    Warning.notConnected id name ∈ (pipelinePartsReport net).warnings ↔
      name = root.id ∧ id ∈ net.ids ∧ ¬ ReflTransGen (Feeds net.edges) root.id id := by
  have hroot : root.id ∈ net.ids :=
    Network.id_mem_ids (List.mem_filter.1 (hroots ▸ List.mem_cons_self : root ∈ net.roots)).1
  have hmany : Warning.notConnected id name ∉
      if more.isEmpty then ([] : List Warning)
      else [.manyPipelineDatasets (more.length + 1) root.id] := by
    split <;> simp
  rw [mem_warnings_root_iff (.inl ⟨id, name, rfl⟩), warnings_pipelineRootReport hroots,
    List.mem_append, or_iff_right hmany]
  simp only [List.mem_map, List.mem_filter, decide_eq_true_iff, Warning.notConnected.injEq]
  constructor
  · rintro ⟨p, ⟨hp, hreach⟩, rfl, rfl⟩
    exact ⟨rfl, Network.id_mem_ids hp, fun h => hreach ((Network.mem_reachable hroot).2 h)⟩
  · rintro ⟨rfl, hid, hreach⟩
    obtain ⟨p, hp, rfl⟩ := List.mem_map.1 hid
    exact ⟨p, ⟨hp, fun h => hreach ((Network.mem_reachable hroot).1 h)⟩, rfl, rfl⟩

theorem manyPipelineDatasets_mem_warnings_iff {root : Placed} {more : List Placed}
    (hroots : net.roots = root :: more) {count : Nat} {name : String} :
    Warning.manyPipelineDatasets count name ∈ (pipelinePartsReport net).warnings ↔
      name = root.id ∧ count = net.roots.length ∧ 1 < count := by
  have hnot : Warning.manyPipelineDatasets count name ∉
      (net.nodes.filter (·.id ∉ net.reachable root.id)).map fun p =>
        Warning.notConnected p.id root.id := by
    simp
  rw [mem_warnings_root_iff (.inr ⟨count, name, rfl⟩), warnings_pipelineRootReport hroots,
    List.mem_append, or_iff_left hnot, hroots]
  cases more with
  | nil =>
    simp only [List.isEmpty_nil, if_true, List.not_mem_nil, false_iff, List.length_singleton]
    rintro ⟨-, rfl, h⟩
    exact absurd h (by decide)
  | cons second more =>
    simp only [List.isEmpty_cons, Bool.false_eq_true, if_false, List.mem_singleton,
      Warning.manyPipelineDatasets.injEq, List.length_cons]
    constructor
    · rintro ⟨rfl, rfl⟩
      exact ⟨rfl, rfl, by omega⟩
    · rintro ⟨rfl, rfl, -⟩
      exact ⟨rfl, rfl⟩

end Graphs

/-! ## Texts -/

theorem exists_head?_repr (n : Nat) :
    ∃ c, n.repr.toList.head? = some c ∧ c.isDigit = true := by
  rw [Nat.toList_repr]
  cases hdigits : Nat.toDigits 10 n with
  | nil => exact absurd hdigits Nat.toDigits_ne_nil
  | cons c rest => exact ⟨c, rfl, Numeral.isDigit_of_mem_toDigits (hdigits ▸ List.mem_cons_self)⟩

theorem head?_repr_append_ne (n : Nat) (rest : String) :
    (n.repr ++ rest).toList.head? ≠ some 'n' := by
  obtain ⟨c, hc, hdigit⟩ := exists_head?_repr n
  rw [String.toList_append, List.head?_append, hc]
  rintro ⟨rfl⟩
  exact absurd hdigit (by decide)

/-- No other warning reads like the one about the missing transform to tensors: the others begin
with a digit, a quotation mark or other words. -/
theorem Warning.eq_noToTensor_of_message {w : Warning} (h : w.message = noToTensor.message) :
    w = .noToTensor := by
  have hhead : w.message.toList.head? = some 'n' := by
    rw [h]
    decide
  unfold message at hhead
  cases w with
  | noToTensor => rfl
  | manyDatasets count root =>
    simp only [String.append_assoc] at hhead
    exact absurd hhead (head?_repr_append_ne count _)
  | skipped id root => simp at hhead
  | noLoss => exact absurd h (by decide)
  | manyLosses count used =>
    simp only [String.append_assoc] at hhead
    exact absurd hhead (head?_repr_append_ne count _)
  | noPipelineDataset => exact absurd h (by decide)
  | manyPipelineDatasets count root =>
    simp only [String.append_assoc] at hhead
    exact absurd hhead (head?_repr_append_ne count _)
  | notConnected id root => simp at hhead
  | noOptimizer => exact absurd h (by decide)
  | manyOptimizers count => exact absurd hhead (head?_repr_append_ne count _)
  | noTraining => exact absurd h (by decide)
  | manyTrainings count => exact absurd hhead (head?_repr_append_ne count _)
  | repeatedCallback operator => simp at hhead

theorem Warning.message_noToTensor_mem_iff {warnings : List Warning} :
    noToTensor.message ∈ warnings.map message ↔ noToTensor ∈ warnings := by
  refine ⟨fun h => ?_, List.mem_map_of_mem⟩
  obtain ⟨w, hw, hmessage⟩ := List.mem_map.1 h
  exact eq_noToTensor_of_message hmessage ▸ hw

end LayerGraph
