import LayerGraph.Proofs.ClassHeaders
import LayerGraph.Proofs.ProgramTexts
/-!
# The headers in a program

The headers of a class, counted part by part of a program: `headers_blocks` for the blocks,
`headers_modelLines` for the model, `TrainingPlan.headers_dataLines` and
`TrainingPlan.headers_loopLines` for the training. `Program.headers_lines` adds them up.
-/

namespace LayerGraph
set_option autoImplicit false

/-! ## Blocks and the model -/

section Parts

variable {name : String}

theorem headers_blockLines (block : Block) :
    headers name block.lines = if block.className = name then 1 else 0 := by
  cases block with
  | residual =>
    refine headers_class "ResidualBlock" (by decide) ?_
    iterate 2 refine forall_isPlain_cons (by decide) ?_
    iterate 2
      refine List.forall_mem_cons.2 ⟨isPlain_append_ofList (by decide) (by decide), ?_⟩
      refine forall_isPlain_cons (by decide) ?_
    repeat refine forall_isPlain_cons (by decide) ?_
    exact List.forall_mem_nil _
  | inception =>
    refine headers_class "InceptionBlock" (by decide) ?_
    repeat refine forall_isPlain_cons (by decide) ?_
    exact List.forall_mem_nil _

theorem headers_blocks (blocks : List Block) :
    headers name (blocks.flatMap (["", ""] ++ ·.lines)) =
      blocks.countP (·.className = name) := by
  induction blocks with
  | nil => rfl
  | cons block rest ih =>
    have hblank : headers name ["", ""] = 0 := headers_of_isPlain (by decide)
    rw [List.flatMap_cons, headers_append, headers_append, hblank, headers_blockLines, ih,
      List.countP_cons]
    simp [Nat.add_comm]

theorem headers_modelLines (hname : IsWord name) {model : Model} (h : model.IsUnbroken) :
    headers name (model.lines name) = 1 := by
  have hindent : ∀ text, IsUnbroken text → IsPlain ("        " ++ text) := fun text htext =>
    (by decide : IsApart "        ").isPlain htext
  have hfields : ∀ line ∈ model.fields.map ("        " ++ ·.text), IsPlain line := by
    intro line hline
    obtain ⟨f, hf, rfl⟩ := List.mem_map.1 hline
    exact hindent _ (h.fields f hf)
  have hforward : ∀ line ∈ model.forward.map ("        " ++ ·.text), IsPlain line := by
    intro line hline
    obtain ⟨s, hs, rfl⟩ := List.mem_map.1 hline
    exact hindent _ (h.forward s hs)
  have hfirst : headers name [classHeader name, "    def __init__(self):",
      "        super().__init__()"] = 1 := by
    rw [headers_class name hname (by decide), if_pos rfl]
  have hmiddle : headers name ["", "    def forward(self, x):"] = 0 := headers_of_isPlain (by decide)
  show headers name ([classHeader name, _, _] ++ _ ++ _ ++ _) = 1
  rw [headers_append, headers_append, headers_append, hfirst, headers_of_isPlain hfields, hmiddle,
    headers_of_isPlain hforward]

end Parts

/-! ## The training -/

namespace TrainingPlan

variable {name : String} {plan : TrainingPlan} {settings : Settings}

theorem headers_datasetCall (hname : IsWord name) (h : plan.IsPlanOf settings) {start args : String}
    (hstart : IsApart start) (hargs : IsUnbroken args) :
    headers name [start ++ plan.datasetCall args] =
      (innerLines settings.dataRoot).count (classHeader name) := by
  have hmiddle : IsUnbroken ("torchvision.datasets." ++ plan.datasetClass ++ "(root=") := by
    simp only [isUnbroken_append]
    exact ⟨⟨by decide, h.datasetClass⟩, by decide⟩
  have hbehind : IsUnbroken (", " ++ args ++ ", transform=transform)") := by
    simp only [isUnbroken_append]
    exact ⟨⟨by decide, hargs⟩, by decide⟩
  have hlast : (", " ++ args ++ ", transform=transform)").toList.getLast? = some ')' := by
    rw [String.toList_append, List.getLast?_append]
    rfl
  rw [← headers_quoted hname hstart hmiddle hbehind hlast settings.dataRoot]
  unfold datasetCall
  simp only [h.dataRoot, String.append_assoc]

theorem isPlain_loaderCall {start : String} (hstart : IsApart start) {dataset : String}
    (hdataset : IsUnbroken dataset) (shuffle : Bool) :
    IsPlain (start ++ plan.loaderCall dataset shuffle) := by
  apply hstart.isPlain
  unfold loaderCall
  simp only [isUnbroken_append]
  exact ⟨⟨⟨⟨⟨⟨⟨⟨⟨⟨by decide, hdataset⟩, by decide⟩, isUnbroken_intRepr _⟩, by decide⟩,
    isUnbroken_boolLiteral _⟩, by decide⟩, isUnbroken_intRepr _⟩, by decide⟩,
    isUnbroken_boolLiteral _⟩, by decide⟩

theorem headers_dataLines (hname : IsWord name) (h : plan.IsPlanOf settings) :
    headers name plan.dataLines =
      2 * (innerLines settings.dataRoot).count (classHeader name) := by
  have htransforms : ∀ line ∈ plan.transforms.map ("    " ++ ·.text ++ ","), IsPlain line := by
    intro line hline
    obtain ⟨e, he, rfl⟩ := List.mem_map.1 hline
    rw [String.append_assoc]
    exact (by decide : IsApart "    ").isPlain
      (isUnbroken_append.2 ⟨h.transforms e he, by decide⟩)
  have hloaders : ∀ line ∈ ["train_loader = " ++ plan.loaderCall "train_dataset" plan.shuffle,
      "test_loader = " ++ plan.loaderCall "test_dataset" false], IsPlain line :=
    List.forall_mem_cons.2 ⟨isPlain_loaderCall (by decide) (by decide) _,
      List.forall_mem_singleton.2 (isPlain_loaderCall (by decide) (by decide) _)⟩
  have hopen : headers name ["transform = transforms.Compose(["] = 0 :=
    headers_of_isPlain (by decide)
  have hclose : headers name ["])"] = 0 := headers_of_isPlain (by decide)
  have hblank : headers name [""] = 0 := headers_of_isPlain (by decide)
  have htrain := headers_datasetCall hname h (by decide : IsApart "train_dataset = ") h.trainArgs
  have htest := headers_datasetCall hname h (by decide : IsApart "test_dataset = ") h.testArgs
  unfold dataLines
  rw [headers_append, headers_append, headers_cons "])", headers_cons "",
    headers_cons _ (_ :: _ :: _), headers_cons _ [_, _], hopen, headers_of_isPlain htransforms,
    hclose, hblank, htrain, htest, headers_of_isPlain hloaders]
  omega

theorem isPlain_setupLines (h : plan.IsPlanOf settings) (hname : IsWord name) {criterion : Expr}
    (hcriterion : IsUnbroken criterion.text) :
    ∀ line ∈ plan.setupLines name criterion, IsPlain line := by
  refine List.forall_mem_append.2 ⟨?_, fun line hline => ?_⟩
  · simp only [List.forall_mem_cons]
    refine ⟨(by decide : IsApart "device = ").isPlain h.device, ?_,
      (by decide : IsApart "optimizer = ").isPlain h.optimizer,
      (by decide : IsApart "criterion = ").isPlain hcriterion, List.forall_mem_nil _⟩
    rw [String.append_assoc]
    exact (by decide : IsApart "model = ").isPlain
      (isUnbroken_append.2 ⟨hname.isUnbroken, by decide⟩)
  · obtain ⟨metric, hmetric, rfl⟩ := List.mem_map.1 hline
    obtain ⟨⟨ident, hword, heq⟩, -, hconstructor⟩ := h.metrics metric hmetric
    have hvariable : IsWord metric.name := heq ▸ isWord_append.2 ⟨hword, by decide⟩
    have hlength : 6 ≤ metric.name.toList.length := by
      have hending : "_metric".toList.length = 7 := rfl
      rw [heq, String.toList_append, List.length_append, hending]
      omega
    rw [String.append_assoc, String.append_assoc]
    refine isPlain_of_isWord hvariable hlength ?_
    simp only [isUnbroken_append]
    exact ⟨by decide, hconstructor, by decide⟩

theorem isUnbroken_metricName (h : plan.IsPlanOf settings) {metric : MetricPlan}
    (hmetric : metric ∈ plan.metrics) : IsUnbroken metric.name := by
  obtain ⟨ident, hword, heq⟩ := (h.metrics metric hmetric).name
  exact heq ▸ isUnbroken_append.2 ⟨hword.isUnbroken, by decide⟩

theorem isPlain_updateLines (h : plan.IsPlanOf settings) {indent : String}
    (hindent : IsApart indent) : ∀ line ∈ plan.updateLines indent, IsPlain line := by
  intro line hline
  obtain ⟨metric, hmetric, rfl⟩ := List.mem_map.1 hline
  rw [String.append_assoc]
  exact hindent.isPlain (isUnbroken_append.2 ⟨isUnbroken_metricName h hmetric, by decide⟩)

theorem isPlain_metricLines (h : plan.IsPlanOf settings) {part : String} (hpart : IsUnbroken part) :
    ∀ line ∈ plan.metricLines part, IsPlain line := by
  intro line hline
  obtain ⟨metric, hmetric, hline⟩ := List.mem_flatMap.1 hline
  have hname := isUnbroken_metricName h hmetric
  rcases List.mem_cons.1 hline with rfl | hline
  · simp only [String.append_assoc]
    apply (by decide : IsApart "    print('").isPlain
    simp only [isUnbroken_append]
    exact ⟨hpart, by decide, (h.metrics metric hmetric).label, by decide, hname, by decide⟩
  · obtain rfl := List.mem_singleton.1 hline
    rw [String.append_assoc]
    exact (by decide : IsApart "    ").isPlain (isUnbroken_append.2 ⟨hname, by decide⟩)

theorem isPlain_trainLines (h : plan.IsPlanOf settings) :
    ∀ line ∈ plan.trainLines, IsPlain line := by
  have hinterval := isUnbroken_natRepr plan.logInterval
  have hreport : ∀ line ∈ ["        if (step + 1) % " ++ plan.logInterval.repr ++ " == 0:",
      "            print(f'Epoch [\x7bepoch + 1\x7d], Step [\x7bstep + 1\x7d], "
        ++ "Loss: \x7brunning_loss / " ++ plan.logInterval.repr ++ ":.4f\x7d')",
      "            running_loss = 0.0"], IsPlain line := by
    simp only [List.forall_mem_cons, String.append_assoc]
    refine ⟨(by decide : IsApart "        if (step + 1) % ").isPlain
      (isUnbroken_append.2 ⟨hinterval, by decide⟩), ?_, by decide, List.forall_mem_nil _⟩
    apply IsApart.isPlain (isApart_ofList (by decide))
    simp only [isUnbroken_append]
    exact ⟨by decide, hinterval, by decide⟩
  refine List.forall_mem_append.2 ⟨List.forall_mem_append.2 ⟨List.forall_mem_append.2
    ⟨?_, isPlain_updateLines h (by decide)⟩, hreport⟩, isPlain_metricLines h (by decide)⟩
  repeat refine forall_isPlain_cons (by decide) ?_
  exact List.forall_mem_nil _

theorem isPlain_evaluateLines (h : plan.IsPlanOf settings) :
    ∀ line ∈ plan.evaluateLines, IsPlain line := by
  refine List.forall_mem_append.2 ⟨List.forall_mem_append.2 ⟨List.forall_mem_append.2
    ⟨?_, isPlain_updateLines h (by decide)⟩, isPlain_metricLines h (by decide)⟩, ?_⟩
  · repeat refine forall_isPlain_cons (by decide) ?_
    exact List.forall_mem_nil _
  · repeat refine forall_isPlain_cons (by decide) ?_
    exact List.forall_mem_nil _

theorem isUnbroken_monitor (monitor : Monitor) :
    IsUnbroken monitor.initial ∧ IsUnbroken monitor.better ∧ IsUnbroken monitor.margin := by
  cases monitor with
  | falling name =>
    exact (by decide : IsUnbroken "float('inf')" ∧ IsUnbroken "<" ∧ IsUnbroken "-")
  | rising name =>
    exact (by decide : IsUnbroken "float('-inf')" ∧ IsUnbroken ">" ∧ IsUnbroken "+")

section Checkpoints

variable {checkpoint : CheckpointPlan}

theorem headers_directory (hname : IsWord name)
    (hdirectory : checkpoint.directory = Literal.quoted settings.checkpointDir)
    {start behind : String} (hstart : IsApart start) (hbehind : IsUnbroken behind)
    (hlast : behind.toList.getLast? = some ')') :
    headers name [start ++ checkpoint.directory ++ behind] =
      (innerLines settings.checkpointDir).count (classHeader name) := by
  have hquoted := headers_quoted hname hstart (by decide : IsUnbroken "") hbehind hlast
    settings.checkpointDir
  rwa [String.append_empty, ← hdirectory] at hquoted

/-- The directory is named once before the epochs. -/
theorem headers_checkpointOpening (hname : IsWord name)
    (hdirectory : checkpoint.directory = Literal.quoted settings.checkpointDir) :
    headers name ["    os.makedirs(" ++ checkpoint.directory ++ ", exist_ok=True)",
        "    best_checkpoint_score = " ++ checkpoint.monitor.initial] =
      (innerLines settings.checkpointDir).count (classHeader name) := by
  have hscore : ∀ line ∈ ["    best_checkpoint_score = " ++ checkpoint.monitor.initial],
      IsPlain line :=
    List.forall_mem_singleton.2
      ((isApart_ofList (by decide)).isPlain (isUnbroken_monitor checkpoint.monitor).1)
  rw [headers_cons, headers_of_isPlain hscore, Nat.add_zero]
  exact headers_directory hname hdirectory (by decide) (by decide) (by decide)

/-- The directory is named once after each epoch. -/
theorem headers_checkpointLines (hname : IsWord name)
    (hdirectory : checkpoint.directory = Literal.quoted settings.checkpointDir)
    (hmonitor : IsUnbroken checkpoint.monitor.name) :
    headers name (checkpointLines checkpoint) =
      (innerLines settings.checkpointDir).count (classHeader name) := by
  unfold checkpointLines
  split
  · have htest : IsPlain ("        if " ++ checkpoint.monitor.name ++ " " ++
        checkpoint.monitor.better ++ " best_checkpoint_score:") := by
      simp only [String.append_assoc]
      apply (by decide : IsApart "        if ").isPlain
      simp only [isUnbroken_append]
      exact ⟨hmonitor, by decide, (isUnbroken_monitor checkpoint.monitor).2.1, by decide⟩
    have hscore : IsPlain ("            best_checkpoint_score = " ++ checkpoint.monitor.name) :=
      (isApart_ofList (by decide)).isPlain hmonitor
    rw [headers_cons _ [_, _], headers_cons _ [_],
      headers_of_isPlain (List.forall_mem_singleton.2 htest),
      headers_of_isPlain (List.forall_mem_singleton.2 hscore), Nat.zero_add, Nat.zero_add]
    exact headers_directory hname hdirectory (isApart_ofList (by decide)) (by decide)
      (by decide)
  · exact headers_directory hname hdirectory (isApart_ofList (by decide))
      (isUnbroken_ofList.2 (by decide)) (by decide)

end Checkpoints

theorem isPlain_stoppingLines {stopping : StoppingPlan}
    (hmonitor : IsUnbroken stopping.monitor.name) (hmargin : IsUnbroken stopping.margin) :
    ∀ line ∈ stoppingLines stopping, IsPlain line := by
  obtain ⟨-, hbetter, hdirection⟩ := isUnbroken_monitor stopping.monitor
  unfold stoppingLines
  simp only [List.forall_mem_cons, String.append_assoc]
  refine ⟨(by decide : IsApart "        if ").isPlain ?_,
    (isApart_ofList (by decide)).isPlain hmonitor, isPlain_ofList (by decide),
    isPlain_ofList (by decide), isPlain_ofList (by decide),
    (isApart_ofList (by decide)).isPlain
      (isUnbroken_append.2 ⟨isUnbroken_intRepr _, by decide⟩), isPlain_ofList (by decide),
    isPlain_ofList (by decide), List.forall_mem_nil _⟩
  simp only [isUnbroken_append]
  exact ⟨hmonitor, by decide, hbetter, by decide, hdirection, by decide, hmargin, by decide⟩

theorem isPlain_stoppingOpening (stopping : StoppingPlan) :
    ∀ line ∈ ["    best_score = " ++ stopping.monitor.initial,
      "    epochs_without_improvement = 0"], IsPlain line :=
  List.forall_mem_cons.2 ⟨(by decide : IsApart "    best_score = ").isPlain
    (isUnbroken_monitor stopping.monitor).1,
    List.forall_mem_singleton.2 (isPlain_ofList (by decide))⟩

theorem isPlain_rateLines (epochs : Int) : ∀ line ∈ rateLines epochs, IsPlain line := by
  unfold rateLines
  simp only [List.forall_mem_cons, String.append_assoc]
  exact ⟨(by decide : IsApart "        if (epoch + 1) % ").isPlain
    (isUnbroken_append.2 ⟨isUnbroken_intRepr _, by decide⟩), isPlain_ofList (by decide),
    isPlain_append_ofList (by decide) (by decide), List.forall_mem_nil _⟩

/-- A part that is there only with a callback. -/
theorem headers_elim {α : Type} (part : Option α) (f : α → List String) :
    headers name (part.elim [] f) = part.elim 0 fun a => headers name (f a) := by
  cases part <;> rfl

theorem headers_elim_of_isPlain {α : Type} {part : Option α} {f : α → List String}
    (h : ∀ a, part = some a → ∀ line ∈ f a, IsPlain line) : headers name (part.elim [] f) = 0 := by
  cases part with
  | none => rfl
  | some a => exact headers_of_isPlain (h a rfl)

theorem headers_mainLines (hname : IsWord name) (h : plan.IsPlanOf settings) :
    headers name plan.mainLines =
      plan.checkpoint.elim 0 fun _ =>
        2 * (innerLines settings.checkpointDir).count (classHeader name) := by
  have hopen : headers name ["def main():", "    epochs = " ++ plan.epochs.repr] = 0 :=
    headers_of_isPlain (List.forall_mem_cons.2 ⟨by decide, List.forall_mem_singleton.2
      ((by decide : IsApart "    epochs = ").isPlain (isUnbroken_intRepr _))⟩)
  have hstart : headers name (plan.stopping.elim [] fun stopping =>
      ["    best_score = " ++ stopping.monitor.initial,
       "    epochs_without_improvement = 0"]) = 0 :=
    headers_elim_of_isPlain fun stopping _ => isPlain_stoppingOpening stopping
  have hrate : headers name (plan.rateReport.elim [] rateLines) = 0 :=
    headers_elim_of_isPlain fun epochs _ => isPlain_rateLines epochs
  have hstop : headers name (plan.stopping.elim [] stoppingLines) = 0 :=
    headers_elim_of_isPlain fun stopping hstopping =>
      isPlain_stoppingLines (h.stopping stopping hstopping).1 (h.stopping stopping hstopping).2
  have hend : headers name ["", "", "if __name__ == '__main__':", "    main()"] = 0 :=
    headers_of_isPlain (by decide)
  have hepoch : headers name
      ["    for epoch in range(epochs):",
       "        train_one_epoch(epoch)",
       "        val_loss, val_accuracy = evaluate()",
       "        print(f'Epoch [\x7bepoch + 1\x7d/\x7bepochs\x7d] val_loss: \x7bval_loss:.4f\x7d "
         ++ "val_accuracy: \x7bval_accuracy:.4f\x7d')"] = 0 := by
    apply headers_of_isPlain
    iterate 3 refine forall_isPlain_cons (by decide) ?_
    exact List.forall_mem_singleton.2
      (isPlain_append_ofList (by decide) (by decide))
  unfold mainLines beforeEpochLines
  simp only [headers_append, hopen, hstart, hrate, hstop, hend, hepoch, headers_elim]
  cases hcheckpoint : plan.checkpoint with
  | none => rfl
  | some checkpoint =>
    have hdirectory := h.directory checkpoint hcheckpoint
    have hfirst := headers_checkpointOpening hname hdirectory
    have hlater := headers_checkpointLines hname hdirectory (h.checkpoint checkpoint hcheckpoint)
    simp only [Option.elim_some, hfirst, hlater]
    omega

theorem headers_loopLines (hname : IsWord name) (h : plan.IsPlanOf settings) {criterion : Expr}
    (hcriterion : IsUnbroken criterion.text) :
    headers name (plan.loopLines name criterion) =
      plan.checkpoint.elim 0 fun _ =>
        2 * (innerLines settings.checkpointDir).count (classHeader name) := by
  have hblank : headers name ["", ""] = 0 := headers_of_isPlain (by decide)
  unfold loopLines
  simp only [headers_append, hblank, headers_mainLines hname h,
    headers_of_isPlain (isPlain_setupLines h hname hcriterion),
    headers_of_isPlain (isPlain_trainLines h), headers_of_isPlain (isPlain_evaluateLines h),
    Nat.zero_add]

end TrainingPlan

/-! ## The program -/

/-- The texts of the program have no line feed, apart from directories of the settings, which only
a training names. -/
structure Program.IsProgramOf (program : Program) (settings : Settings) : Prop where
  className : program.className = settings.modelClassName
  isWord : IsWord settings.modelClassName
  model : program.model.IsUnbroken
  criterion : IsUnbroken program.criterion.text
  training : ∀ plan, program.training = some plan → plan.IsPlanOf settings

theorem Program.isPlain_importLines (program : Program) :
    ∀ line ∈ program.importLines, IsPlain line := by
  refine List.forall_mem_append.2 ⟨by decide, ?_⟩
  cases program.training with
  | none => exact List.forall_mem_nil _
  | some plan =>
    refine List.forall_mem_append.2 ⟨List.forall_mem_append.2 ⟨by decide, ?_⟩, ?_⟩
    · split <;> decide
    · split <;> decide

/-- The headers of the model class: its own, that of a block with its name, and those that the
directories bring along. -/
theorem Program.headers_lines {program : Program} {settings : Settings}
    (h : program.IsProgramOf settings) :
    headers settings.modelClassName program.lines =
      1 + program.model.blocks.countP (·.className = settings.modelClassName)
        + program.training.elim 0 fun plan =>
          2 * (innerLines settings.dataRoot).count (classHeader settings.modelClassName)
            + plan.checkpoint.elim 0 fun _ =>
              2 * (innerLines settings.checkpointDir).count
                (classHeader settings.modelClassName) := by
  have himports : headers settings.modelClassName program.importLines = 0 :=
    headers_of_isPlain program.isPlain_importLines
  have hblank : headers settings.modelClassName [""] = 0 := headers_of_isPlain (by decide)
  have hblanks : headers settings.modelClassName ["", ""] = 0 := headers_of_isPlain (by decide)
  have hgap : headers settings.modelClassName ["", "", ""] = 0 := headers_of_isPlain (by decide)
  have hmodel := headers_modelLines h.isWord h.model
  unfold lines
  rw [h.className]
  cases htraining : program.training with
  | none =>
    have hend : ∀ line ∈ ["model = " ++ settings.modelClassName ++ "()",
        "criterion = " ++ program.criterion.text], IsPlain line := by
      rw [String.append_assoc]
      exact List.forall_mem_cons.2 ⟨(by decide : IsApart "model = ").isPlain
        (isUnbroken_append.2 ⟨h.isWord.isUnbroken, by decide⟩), List.forall_mem_singleton.2
          ((by decide : IsApart "criterion = ").isPlain h.criterion)⟩
    simp only [headers_append, himports, hblank, headers_blocks, hgap, hmodel, hblanks,
      headers_of_isPlain hend, Option.elim_none, headers_nil]
    omega
  | some plan =>
    have hplan := h.training plan htraining
    simp only [headers_append, himports, hblank, headers_blocks, hgap, hmodel, hblanks,
      Option.elim_some, TrainingPlan.headers_dataLines h.isWord hplan,
      TrainingPlan.headers_loopLines h.isWord hplan h.criterion]
    omega

end LayerGraph
