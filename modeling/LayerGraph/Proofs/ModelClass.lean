import LayerGraph.Proofs.Defaults
import LayerGraph.Proofs.NodeOrder
import LayerGraph.Proofs.ProgramHeaders
import LayerGraph.Proofs.Workflow
/-!
# The model class of a program

A program has the line that starts its model class. The same line comes up again when a block that
is used has the name of the model, and when a directory of the settings has it among its inner
lines.

* `Graph.UsesBlock g name`: the first dataset leads to a block whose class has the name.
* `exists_program_of_compile`: what the program of a project has in it.
* `one_model_class_iff`: when the model class is the only one of its name, and the name is legal.
  Neither is always so (`not_one_model_class`).
-/

namespace LayerGraph
set_option autoImplicit false
open Relation

/-! ## Projects -/

/-- The class of the block that a node stands for. -/
def Node.blockClass? (n : Node) : Option String :=
  (n.operator.toOption.bind Operator.block?).map Block.className

/-- The first dataset leads to a block whose class has this name. -/
def Graph.UsesBlock (g : Graph) (name : String) : Prop :=
  ∃ root n, g.nodes.find? Node.isDataset = some root ∧ n ∈ g.nodes ∧
    ReflTransGen (Feeds g.edges) root.id n.id ∧ n.blockClass? = some name

namespace IsSound

variable {nodes : List Node} {edges : List Edge} {net : Network} {order : Emission}
  {overlay : Propagation}

theorem find?_isDataset (h : IsSound nodes edges net order overlay) :
    nodes.find? Node.isDataset = some order.root.node := by
  have hroots : net.nodes.filter (Node.isDataset ∘ Placed.node) = net.roots :=
    List.filter_congr fun p hp => h.isDataset_eq hp
  rw [← h.isOf.nodes_eq, List.find?_map, ← List.head?_filter, hroots, h.isEmission.root]
  rfl

theorem blockClass?_eq (h : IsSound nodes edges net order overlay) {p : Placed}
    (hp : p ∈ net.nodes) : p.node.blockClass? = p.operator.block?.map Block.className := by
  rw [Node.blockClass?, h.isOf.operator p hp]
  rfl

/-- The nodes that a dataset leads to are emitted when they are blocks. -/
theorem mem_nodes_of_block (h : IsSound nodes edges net order overlay) {p : Placed}
    (hp : p ∈ net.nodes) (hreached : ReflTransGen (Feeds net.edges) order.root.id p.id)
    {block : Block} (hblock : p.operator.block? = some block) : p ∈ order.nodes := by
  have hrule : p.operator.rule = .block block := by
    unfold Operator.block? at hblock
    split at hblock
    · rename_i kind hkind
      exact Option.some.inj hblock ▸ hkind
    · cases hblock
  refine (h.isEmission.mem_nodes p).2 ⟨hp, hreached, fun hid => ?_, ?_⟩
  · obtain rfl := List.inj_on_of_nodup_map net.nodup_ids hp h.isEmission.root_mem hid
    have hroot := (Operator.isRoot_iff (h.mem_all hp)).1 h.isEmission.isRoot_root
    cases hrule.symm.trans hroot
  · refine Bool.eq_false_iff.2 fun hloss => ?_
    cases hrule.symm.trans (Operator.rule_of_isLoss (h.mem_all hp) hloss).1

/-- The model has the classes of the blocks that are used. -/
theorem exists_block_iff (h : IsSound nodes edges net order overlay) {model : Model}
    (hmodel : order.model overlay = .ok model) {name : String} :
    (∃ block ∈ model.blocks, block.className = name) ↔
      Graph.UsesBlock ⟨nodes, edges⟩ name := by
  obtain rfl := Except.ok.inj (h.model_eq.symm.trans hmodel)
  have hall : ∀ block : Block, block ∈ Block.all := by
    intro block
    cases block <;> decide
  constructor
  · rintro ⟨block, hblock, rfl⟩
    obtain ⟨p, hp, hused⟩ := List.any_eq_true.1 (List.mem_filter.1 hblock).2
    obtain ⟨hnode, hreached, -⟩ := (h.isEmission.mem_nodes p).1 hp
    refine ⟨order.root.node, p.node, h.find?_isDataset, h.isOf.node_mem hnode,
      h.edges_eq ▸ hreached, ?_⟩
    rw [h.blockClass?_eq hnode, of_decide_eq_true hused]
    rfl
  · rintro ⟨root, n, hroot, hn, hreached, hclass⟩
    obtain rfl := Option.some.inj (h.find?_isDataset.symm.trans hroot)
    obtain ⟨p, hp, rfl⟩ := h.exists_placed hn
    rw [h.blockClass?_eq hp] at hclass
    obtain ⟨block, hblock, rfl⟩ := Option.map_eq_some_iff.1 hclass
    refine ⟨block, List.mem_filter.2 ⟨hall block, ?_⟩, rfl⟩
    exact List.any_eq_true.2 ⟨p, h.mem_nodes_of_block hp (h.edges_eq.symm ▸ hreached) hblock,
      decide_eq_true hblock⟩

end IsSound

/-- A plan has checkpoints when there is a node for them. -/
theorem checkpoint_isSome_iff {net : Network} (hnet : ∀ p ∈ net.nodes,
    p.operator ∈ Operator.Pipeline.all) {settings : Settings} {dataset : Dataset}
    {plan : TrainingPlan} (h : net.training settings dataset = .ok plan) :
    plan.checkpoint.isSome = true ↔ ∃ p ∈ net.nodes, p.operator.id = "modelcheckpoint" := by
  have hcategory : ∀ o ∈ Operator.Pipeline.all, o.id = "modelcheckpoint" →
      o.category = .callbacks := by decide
  obtain ⟨order, horder, -, hcheckpoint, -⟩ := Network.exists_order_of_training h
  simp only [hcheckpoint, Option.isSome_map, callback?, List.find?_isSome, beq_iff_eq]
  exact Network.exists_listed_iff (Network.isTopological_of_topological horder).2.perm
    fun p hp => hcategory p.operator (hnet p hp)

theorem mem_all_of_dataset {order : Emission} {dataset : Dataset}
    (h : order.dataset = .ok dataset) : dataset ∈ Dataset.all := by
  unfold Emission.dataset at h
  dsimp only at h
  split at h
  · rename_i found hfound
    exact Except.ok.inj h ▸ List.mem_of_find?_eq_some hfound
  · cases h

theorem isWord_of_validate {settings : Settings} (h : settings.validate = .ok ()) :
    IsWord settings.modelClassName := by
  simp only [Settings.validate, refuse_eq_ok_iff, not_not, Settings.isIdentifier,
    Bool.and_eq_true] at h
  exact List.all_eq_true.1 h.1.2

section Projects

variable {p : Project} {settings : Settings}

/-- The training of a pipeline without faults. -/
theorem isPlanOf_of_graphTraining (hreport : (p.graphReport .pipeline).faults = [])
    {dataset : Dataset} (hdataset : dataset ∈ Dataset.all) {training : Option TrainingPlan}
    (h : p.pipeline.training settings dataset = .ok training) :
    (p.pipeline.nodes = [] ∧ training = none) ∨
      p.pipeline.nodes ≠ [] ∧ ∃ plan, training = some plan ∧ plan.IsPlanOf settings ∧
        (plan.checkpoint.isSome = true ↔
          ∃ n ∈ p.pipeline.nodes, n.operatorId = "modelcheckpoint") := by
  rcases networkTraining_of_training hreport h with
    hnone | ⟨hnodes, net, plan, hsound, hplan, hsome⟩
  · exact .inl hnone
  · have hunbroken : ∀ q ∈ net.nodes, q.IsUnbroken := fun q hq =>
      ⟨Operator.isUnbroken .pipeline (hsound.mem_all hq),
        Operator.isUnbroken_resolve .pipeline (hsound.mem_all hq) (hsound.problems_eq_nil hq)⟩
    refine .inr ⟨hnodes, plan, hsome, isPlanOf_of_training hunbroken hdataset hplan, ?_⟩
    rw [checkpoint_isSome_iff (fun _ => hsound.mem_all) hplan, hsound.isOf.exists_operatorId_iff]

/-- The program of a project, with its blocks and its training. -/
theorem exists_program_of_compile {text : String} (h : p.compile settings = .ok text) :
    ∃ program : Program, p.program settings = .ok program ∧ text = program.text ∧
      program.IsProgramOf settings ∧
      ((∃ block ∈ program.model.blocks, block.className = settings.modelClassName) ↔
        p.architecture.UsesBlock settings.modelClassName) ∧
      ((p.pipeline.nodes = [] ∧ program.training = none) ∨
        p.pipeline.nodes ≠ [] ∧ ∃ plan, program.training = some plan ∧
          (plan.checkpoint.isSome = true ↔
            ∃ n ∈ p.pipeline.nodes, n.operatorId = "modelcheckpoint")) := by
  obtain ⟨hsettings, hreport⟩ := Project.validate_of_compile h
  obtain ⟨harchitecture, hpipeline⟩ := faults_report_eq_nil_iff.1 hreport
  obtain ⟨net, order, overlay, hsound⟩ := architectureReport_isValid_iff.1 harchitecture
  obtain ⟨program, hprogram, rfl⟩ :=
    map_eq_ok_iff.1 ((compile_eq_of_report hsettings hreport).symm.trans h)
  refine ⟨program, hprogram, rfl, ?_⟩
  simp only [Project.program, hsound.ofGraph, hsound.emission, hsound.propagate, bind_eq_ok_iff,
    Except.ok.injEq, exists_eq_left'] at hprogram
  obtain ⟨model, hmodel, dataset, hdataset, criterion, hcriterion, training, htraining, rfl⟩ :=
    hprogram
  have hparts := isPlanOf_of_graphTraining hpipeline (mem_all_of_dataset hdataset) htraining
  refine ⟨⟨rfl, isWord_of_validate hsettings, hsound.isUnbroken_model hmodel,
    hsound.isUnbroken_criterion hcriterion, fun plan hplan => ?_⟩,
    hsound.exists_block_iff hmodel, hparts.imp_right ?_⟩
  · rcases hparts with ⟨-, hnone⟩ | ⟨-, plan', hsome, hof, -⟩
    · cases hnone.symm.trans hplan
    · exact Option.some.inj (hsome.symm.trans hplan) ▸ hof
  · rintro ⟨hnodes, plan, hsome, -, hcheckpoint⟩
    exact ⟨hnodes, plan, hsome, hcheckpoint⟩

/-- The header of the model class is a line of every program. It is the only one unless a block that
is used has the name of the model or a directory that is named has the header as an inner line. -/
theorem count_header_of_compile {text : String} (h : p.compile settings = .ok text) :
    classHeader settings.modelClassName ∈ linesOf text ∧
      ((linesOf text).count (classHeader settings.modelClassName) = 1 ↔
        ¬ p.architecture.UsesBlock settings.modelClassName ∧
          (p.pipeline.nodes ≠ [] →
            classHeader settings.modelClassName ∉ innerLines settings.dataRoot) ∧
          ((∃ n ∈ p.pipeline.nodes, n.operatorId = "modelcheckpoint") →
            classHeader settings.modelClassName ∉ innerLines settings.checkpointDir)) := by
  obtain ⟨program, -, rfl, hprogram, hblocks, htraining⟩ := exists_program_of_compile h
  have hcount := (headers_text program).trans (Program.headers_lines hprogram)
  have hblocks : program.model.blocks.countP (·.className = settings.modelClassName) = 0 ↔
      ¬ p.architecture.UsesBlock settings.modelClassName := by
    rw [← hblocks, List.countP_eq_zero]
    simp
  refine ⟨List.one_le_count_iff.1 (by rw [hcount]; omega), ?_⟩
  rw [hcount, ← hblocks, ← List.count_eq_zero, ← List.count_eq_zero]
  rcases htraining with ⟨hnodes, hnone⟩ | ⟨hnodes, plan, hsome, hcheckpoint⟩
  · simp [hnone, hnodes]
  · rw [← hcheckpoint, hsome, Option.elim_some]
    cases plan.checkpoint with
    | none =>
      simp only [Option.elim_none, Option.isSome_none, Bool.false_eq_true, false_imp_iff, ne_eq,
        hnodes, not_false_eq_true, true_imp_iff, and_true]
      omega
    | some checkpoint =>
      simp only [Option.elim_some, Option.isSome_some, true_imp_iff, ne_eq, hnodes,
        not_false_eq_true]
      omega

end Projects

/-- A program has exactly one line that starts the model class, and this class has a legal name,
exactly when the name is not a keyword, no block that is used has it, and no directory that the
training names has the line among its inner lines. The line is there in any case. -/
theorem one_model_class_iff (p : Project) (settings : Settings) (text : String)
    (h : p.compile settings = .ok text) :
    classHeader settings.modelClassName ∈ linesOf text ∧
      (((linesOf text).count (classHeader settings.modelClassName) = 1 ∧
          settings.modelClassName ∉ keywords) ↔
        settings.modelClassName ∉ keywords ∧
          ¬ p.architecture.UsesBlock settings.modelClassName ∧
          (p.pipeline.nodes ≠ [] →
            classHeader settings.modelClassName ∉ innerLines settings.dataRoot) ∧
          ((∃ n ∈ p.pipeline.nodes, n.operatorId = "modelcheckpoint") →
            classHeader settings.modelClassName ∉ innerLines settings.checkpointDir)) := by
  obtain ⟨hmem, hone⟩ := count_header_of_compile h
  exact ⟨hmem, by rw [hone, and_comm]⟩

theorem exists_compile (p : Project) (settings : Settings) (hsettings : settings.validate = .ok ())
    (hreport : p.report.faults = []) : ∃ text, p.compile settings = .ok text := by
  obtain ⟨program, hprogram⟩ := exists_program hsettings hreport
  exact ⟨program.text, by rw [compile_eq_of_report hsettings hreport, hprogram]; rfl⟩

theorem one_model_class_iff_watched : ∃ text, Project.watched.compile {} = .ok text ∧
    (linesOf text).count "class NeuralNetwork(nn.Module):" = 1 ∧ "NeuralNetwork" ∉ keywords := by
  have hsettings : Settings.validate {} = .ok () := by decide +kernel
  have hreport : Project.watched.report.faults = [] := by decide +kernel
  obtain ⟨text, htext⟩ := exists_compile Project.watched {} hsettings hreport
  have hblocks : ∀ n ∈ Project.watched.architecture.nodes,
      n.blockClass? ≠ some "NeuralNetwork" := by decide +kernel
  refine ⟨text, htext, (one_model_class_iff Project.watched {} text htext).2.2
    ⟨by decide +kernel, ?_, fun _ => by decide +kernel, fun _ => by decide +kernel⟩⟩
  rintro ⟨root, n, -, hn, -, hclass⟩
  exact hblocks n hn hclass

/-- A network of one residual block, without a pipeline. -/
def Project.residual : Project where
  architecture :=
    { nodes :=
        [{ id := "data", operatorId := "dataset" }, { id := "block", operatorId := "residualblock" }]
      edges := [{ id := "1", source := "data", target := "block" }] }

/-- A keyword is accepted as the name of the class; a block and a directory bring the line of the
class along once more. -/
theorem not_one_model_class :
    (∃ text, Project.sample.compile { modelClassName := "class" } = .ok text ∧
      "class" ∈ keywords) ∧
    (∃ text, Project.residual.compile { modelClassName := "ResidualBlock" } = .ok text ∧
      (linesOf text).count "class ResidualBlock(nn.Module):" ≠ 1) ∧
    ∃ text, Project.sample.compile
        { dataRoot := "data\nclass NeuralNetwork(nn.Module):\n" } = .ok text ∧
      (linesOf text).count "class NeuralNetwork(nn.Module):" ≠ 1 := by
  refine ⟨?_, ?_, ?_⟩
  · obtain ⟨text, htext⟩ := exists_compile Project.sample
      { modelClassName := "class" } (by decide +kernel) (by decide +kernel)
    exact ⟨text, htext, by decide⟩
  · obtain ⟨text, htext⟩ := exists_compile Project.residual
      { modelClassName := "ResidualBlock" } (by decide +kernel) (by decide +kernel)
    refine ⟨text, htext, fun hone => ((count_header_of_compile htext).2.1 hone).1 ?_⟩
    exact ⟨_, _, List.find?_cons_of_pos (by decide +kernel),
      List.mem_cons_of_mem _ (List.mem_singleton_self _),
      .single ⟨_, List.mem_singleton_self _, rfl, rfl⟩, by decide +kernel⟩
  · obtain ⟨text, htext⟩ := exists_compile Project.sample
      { dataRoot := "data\nclass NeuralNetwork(nn.Module):\n" }
      (by decide +kernel) (by decide +kernel)
    refine ⟨text, htext, fun hone => ((count_header_of_compile htext).2.1 hone).2.1 ?_ ?_⟩
    · decide +kernel
    · decide +kernel

end LayerGraph
