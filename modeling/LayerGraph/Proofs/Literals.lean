import LayerGraph.Proofs.Constructors
/-!
# Reading string literals

A literal between single quotes is read from its first quote to the first one that is not escaped.

* `Literal.body?` reads the characters behind the opening quote, and says what is behind the closing
  one; `Literal.value?` reads a literal that is all of a text.
* `Literal.value?_quoted`: the literal of a text has this text as its value when the text has no line
  break. Otherwise it is no literal at all: line breaks are not escaped (`not_literal_lineBreak`).
* `literals_read_back` says so of everything that the program quotes. Options have no line breaks,
  directories of the settings may have them.
-/

namespace LayerGraph
set_option autoImplicit false

namespace Literal

/-! ## The reader -/

/-- The character ends a line. -/
def IsLineBreak (c : Char) : Prop := c = '\n' ∨ c = '\r'

instance (c : Char) : Decidable (IsLineBreak c) := inferInstanceAs (Decidable (_ ∨ _))

def IsOneLine (text : String) : Prop := ∀ c ∈ text.toList, ¬ IsLineBreak c

instance (text : String) : Decidable (IsOneLine text) :=
  List.decidableBAll (fun c => ¬ IsLineBreak c) text.toList

/-- What a backslash and the character behind it stand for. A backslash that escapes nothing stands
for itself. Escapes of more than one character, which start with a digit or one of the letters `x`,
`u`, `U` and `N`, are not read. -/
def unescape? : Char → Option (List Char)
  | 'a' => some ['\x07']
  | 'b' => some ['\x08']
  | 'f' => some ['\x0c']
  | 'n' => some ['\n']
  | 'r' => some ['\r']
  | 't' => some ['\t']
  | 'v' => some ['\x0b']
  | c =>
    if c ∈ ['\\', '\'', '"'] then some [c]
    else if c.isDigit ∨ c ∈ ['x', 'u', 'U', 'N'] ∨ IsLineBreak c then none
    else some ['\\', c]

/-- The value up to the first quote that is not escaped, and the characters behind that quote. -/
def body? : List Char → Option (List Char × List Char)
  | [] => none
  | c :: rest =>
    if c = '\'' then some ([], rest)
    else if IsLineBreak c then none
    else if c = '\\' then
      match rest with
      | [] => none
      | escaped :: rest => do
        let piece ← unescape? escaped
        let (value, behind) ← body? rest
        some (piece ++ value, behind)
    else do
      let (value, behind) ← body? rest
      some (c :: value, behind)

/-- The value of a text that is one literal. -/
def value? (literal : String) : Option String :=
  match literal.toList with
  | '\'' :: rest =>
    match body? rest with
    | some (value, []) => some (String.ofList value)
    | _ => none
  | _ => none

theorem body?_quote (rest : List Char) : body? ('\'' :: rest) = some ([], rest) := by
  rw [body?.eq_def]
  rfl

theorem body?_lineBreak {c : Char} (h : IsLineBreak c) (rest : List Char) :
    body? (c :: rest) = none := by
  rw [body?.eq_def]
  rcases h with rfl | rfl <;> rfl

theorem body?_escape {c : Char} (piece : List Char) (h : unescape? c = some piece)
    (rest : List Char) :
    body? ('\\' :: c :: rest) =
      (body? rest).map fun (value, behind) => (piece ++ value, behind) := by
  rw [body?.eq_def]
  simp only [IsLineBreak, h]
  cases body? rest <;> rfl

theorem body?_plain {c : Char} (hquote : c ≠ '\'') (hbackslash : c ≠ '\\') (h : ¬ IsLineBreak c)
    (rest : List Char) :
    body? (c :: rest) = (body? rest).map fun (value, behind) => (c :: value, behind) := by
  rw [body?.eq_def]
  simp only [hquote, hbackslash, h, if_false]
  cases body? rest <;> rfl

/-! ## Written and read -/

/-- A character is read as it was written, whatever is behind it. -/
theorem body?_escaped {c : Char} (h : ¬ IsLineBreak c) (rest : List Char) :
    body? (escaped c ++ rest) = (body? rest).map fun (value, behind) => (c :: value, behind) := by
  unfold escaped
  split
  · rename_i hbackslash
    subst hbackslash
    exact body?_escape ['\\'] rfl rest
  · rename_i hbackslash
    split
    · rename_i hquote
      subst hquote
      exact body?_escape ['\''] rfl rest
    · rename_i hquote
      exact body?_plain hquote hbackslash h rest

/-- Line breaks are not escaped. -/
theorem escaped_lineBreak {c : Char} (h : IsLineBreak c) : escaped c = [c] := by
  rcases h with rfl | rfl <;> rfl

/-- The quote behind a written text is the first one that is not escaped. -/
theorem body?_flatMap_escaped (text behind : List Char) :
    body? (text.flatMap escaped ++ '\'' :: behind) =
      if ∀ c ∈ text, ¬ IsLineBreak c then some (text, behind) else none := by
  induction text with
  | nil => simp [body?_quote]
  | cons c text ih =>
    rw [List.flatMap_cons, List.append_assoc]
    by_cases h : IsLineBreak c
    · have hnot : ¬ ∀ d ∈ c :: text, ¬ IsLineBreak d := fun hall => hall c List.mem_cons_self h
      rw [escaped_lineBreak h, List.singleton_append, body?_lineBreak h, if_neg hnot]
    · rw [body?_escaped h, ih]
      by_cases hrest : ∀ c ∈ text, ¬ IsLineBreak c
      · have hall : ∀ d ∈ c :: text, ¬ IsLineBreak d := List.forall_mem_cons.2 ⟨h, hrest⟩
        rw [if_pos hrest, if_pos hall]
        rfl
      · have hnot : ¬ ∀ d ∈ c :: text, ¬ IsLineBreak d :=
          fun hall => hrest (List.forall_mem_cons.1 hall).2
        rw [if_neg hrest, if_neg hnot]
        rfl

/-- A literal is read as the text that was written, or it is not read at all. -/
theorem value?_quoted (text : String) :
    value? (quoted text) = if IsOneLine text then some text else none := by
  have hlist : (quoted text).toList = '\'' :: (text.toList.flatMap escaped ++ ['\'']) := by
    rw [quoted, String.toList_ofList, quotedChars, List.cons_append]
  have hbody := body?_flatMap_escaped text.toList []
  rw [value?, hlist]
  by_cases h : IsOneLine text
  · simp only [hbody.trans (if_pos h), if_pos h, String.ofList_toList]
  · simp only [hbody.trans (if_neg h), if_neg h]

end Literal

/-! ## Directories -/

namespace Program

/-- A line of the program has the text in it. -/
def Holds (program : Program) (text : String) : Prop :=
  ∃ before behind, before ++ text ++ behind ∈ program.lines

variable {program : Program} {plan : TrainingPlan}

theorem mem_lines_of_mem_dataLines (h : program.training = some plan) {line : String}
    (hline : line ∈ plan.dataLines) : line ∈ program.lines := by
  simp only [lines, h, Option.elim_some, List.mem_append]
  exact .inl (.inl (.inl (.inl (.inr hline))))

theorem holds_dataRoot (h : program.training = some plan) : program.Holds plan.dataRoot := by
  have hassoc : ∀ start a root b c d : String,
      start ++ (a ++ root ++ b ++ c ++ d) = start ++ a ++ root ++ (b ++ c ++ d) := by
    intro start a root b c d
    simp only [String.append_assoc]
  have hline : "train_dataset = " ++ plan.datasetCall plan.trainArgs ∈ plan.dataLines :=
    List.mem_append_right _ (List.mem_cons_of_mem _ (List.mem_cons_of_mem _ List.mem_cons_self))
  have hsplit := hassoc "train_dataset = " ("torchvision.datasets." ++ plan.datasetClass ++ "(root=")
    plan.dataRoot ", " plan.trainArgs ", transform=transform)"
  exact ⟨_, _, hsplit ▸ mem_lines_of_mem_dataLines h hline⟩

theorem holds_directory (h : program.training = some plan) {checkpoint : CheckpointPlan}
    (hcheckpoint : plan.checkpoint = some checkpoint) : program.Holds checkpoint.directory := by
  have hline : "    os.makedirs(" ++ checkpoint.directory ++ ", exist_ok=True)" ∈
      plan.beforeEpochLines := by
    rw [TrainingPlan.beforeEpochLines, hcheckpoint]
    exact List.mem_append_left _ List.mem_cons_self
  refine ⟨"    os.makedirs(", ", exist_ok=True)", ?_⟩
  simp only [lines, h, List.mem_append, TrainingPlan.loopLines, TrainingPlan.mainLines]
  exact .inr (.inr (.inl (.inl (.inl (.inl (.inl (.inr hline)))))))

end Program

/-! ## Options -/

namespace Operator

variable {mode : Mode} {o : Operator} {params : Params}

/-- An option of the operator stands among the keyword arguments as its literal, which is read as
the option. -/
def SpellsOptions (o : Operator) (keywords : List (String × String)) : Prop :=
  ∀ decl ∈ o.params, ∀ options, decl.kind = .choice options →
    ∀ text, (decl.name, text) ∈ keywords →
      ∃ option ∈ options, text = Literal.quoted option ∧ Literal.value? text = some option

theorem isOneLine_option (ho : o ∈ Catalog.operators mode) {decl : ParamDecl}
    (hdecl : decl ∈ o.params) {options : List String} (hkind : decl.kind = .choice options) :
    ∀ option ∈ options, Literal.IsOneLine option := by
  have hall : ∀ o ∈ Catalog.operators mode, ∀ decl ∈ o.params, ∀ option ∈ decl.options,
      Literal.IsOneLine option := by
    cases mode <;> decide +kernel
  have hoptions : decl.options = options := by rw [ParamDecl.options, hkind]
  exact hoptions ▸ hall o ho decl hdecl

theorem spells_option (ho : o ∈ Catalog.operators mode) {decl : ParamDecl}
    (hdecl : decl ∈ o.params) {options : List String} (hkind : decl.kind = .choice options)
    {option : String} (hoption : option ∈ options) :
    ∃ option' ∈ options, Literal.quoted option = Literal.quoted option' ∧
      Literal.value? (Literal.quoted option) = some option' :=
  ⟨option, hoption, rfl,
    (Literal.value?_quoted option).trans (if_pos (isOneLine_option ho hdecl hkind option hoption))⟩

/-- A value that passes the test of a choice is one of its options. -/
theorem exists_option_of_checks {decl : ParamDecl} {options : List String}
    (hkind : decl.kind = .choice options) {value : ParamValue} (h : decl.Checks value) :
    ∃ option ∈ options, value = .text option := by
  obtain ⟨option, htext, hoption⟩ := ParamDecl.mem_options_of_checks hkind h
  cases value with
  | text text => exact ⟨option, hoption, congrArg _ (Option.some.inj htext)⟩
  | _ => cases htext

theorem spellsOptions_keywordArgs (ho : o ∈ Catalog.operators mode) (h : o.Takes params) :
    o.SpellsOptions (keywordArgs o params) := by
  intro decl hdecl options hkind text htext
  obtain ⟨-, value, hvalue, rfl⟩ := mem_keywordArgs.1 htext
  obtain ⟨option, hoption, rfl⟩ := exists_option_of_checks hkind (h.checks decl hdecl value hvalue)
  exact spells_option ho hdecl hkind hoption

theorem mem_metricArgs {dataset : Dataset} {name text : String}
    (h : (name, text) ∈ metricArgs params dataset) :
    name = "task" ∧ text = Literal.quoted ((params.text? "task").getD "multiclass") ∨
      name ∈ ["num_labels", "num_classes"] ∨
      name = "average" ∧ ∃ value, params.get? "average" = some value ∧ text = value.literal := by
  unfold metricArgs at h
  dsimp only at h
  rcases List.mem_append.1 h with h | h
  · rcases List.mem_cons.1 h with h | h
    · obtain ⟨rfl, rfl⟩ := Prod.mk.inj h
      exact .inl ⟨rfl, rfl⟩
    · refine .inr (.inl ?_)
      split at h
      · cases h
      · split at h <;> obtain ⟨rfl, -⟩ := Prod.mk.inj (List.mem_singleton.1 h) <;> decide
  · obtain ⟨value, hvalue, heq⟩ := Option.map_eq_some_iff.1 (Option.mem_toList.1 h)
    obtain ⟨rfl, rfl⟩ := Prod.mk.inj heq
    exact .inr (.inr ⟨rfl, value, hvalue, rfl⟩)

theorem spellsOptions_metricArgs (ho : o ∈ Pipeline.all) (hmetric : o.category = .metrics)
    (h : o.Takes params) (dataset : Dataset) : o.SpellsOptions (metricArgs params dataset) := by
  have hmode : o ∈ Catalog.operators .pipeline := ho
  have hcounts : ∀ o ∈ Pipeline.all, o.category = .metrics → ∀ decl ∈ o.params,
      decl.name ∈ ["num_labels", "num_classes"] → decl.kind = .int (some 2) none := by decide
  have htasks : ∀ o ∈ Pipeline.all, o.category = .metrics → ∀ decl ∈ o.params,
      decl.name = "task" → "multiclass" ∈ decl.options := by decide
  intro decl hdecl options hkind text htext
  rcases mem_metricArgs htext with ⟨hname, rfl⟩ | hname | ⟨hname, value, hvalue, rfl⟩
  · refine spells_option hmode hdecl hkind ?_
    have hdefault : "multiclass" ∈ decl.options := htasks o ho hmetric decl hdecl hname
    rw [ParamDecl.options, hkind] at hdefault
    rw [Params.text?, ← hname]
    cases hvalue : params.get? decl.name with
    | none => exact hdefault
    | some value =>
      obtain ⟨option, hoption, rfl⟩ :=
        exists_option_of_checks hkind (h.checks decl hdecl value hvalue)
      exact hoption
  · rw [hcounts o ho hmetric decl hdecl hname] at hkind
    cases hkind
  · obtain ⟨option, hoption, rfl⟩ :=
      exists_option_of_checks hkind (h.checks decl hdecl value (hname ▸ hvalue))
    exact spells_option hmode hdecl hkind hoption

end Operator

/-- What is quoted is read back unless it has a line break, and then it is no literal. The
directories of the settings are quoted as they are. Options are quoted as well and are always read
back, since an accepted value is one of the declared texts. -/
theorem literals_read_back (text : String) :
    Literal.value? (Literal.quoted text) =
      (if Literal.IsOneLine text then some text else none) ∧
    (∀ (p : Project) (settings : Settings) (text : String), p.compile settings = .ok text →
      ∃ program : Program, p.program settings = .ok program ∧ text = program.text ∧
        (p.pipeline.nodes ≠ [] → program.Holds (Literal.quoted settings.dataRoot)) ∧
        ((∃ n ∈ p.pipeline.nodes, n.operatorId = "modelcheckpoint") →
          program.Holds (Literal.quoted settings.checkpointDir))) ∧
    ∀ mode, ∀ o ∈ Catalog.operators mode, ∀ params, o.problems params = [] →
      (∀ callee keywords,
        constructorCall o (o.resolve params) = .ok (.call callee [] keywords) →
          o.SpellsOptions keywords) ∧
      (o.category = .metrics → ∀ dataset,
        o.SpellsOptions (metricArgs (o.resolve params) dataset)) := by
  refine ⟨Literal.value?_quoted text, fun p settings text h => ?_,
    fun mode o ho params hproblems => ?_⟩
  · obtain ⟨program, hprogram, rfl, hof, -, htraining⟩ := exists_program_of_compile h
    refine ⟨program, hprogram, rfl, ?_⟩
    rcases htraining with ⟨hnodes, -⟩ | ⟨-, plan, hplan, hcheckpoint⟩
    · refine ⟨fun hdrawn => absurd hnodes hdrawn, fun ⟨n, hn, _⟩ => ?_⟩
      rw [hnodes] at hn
      cases hn
    · have hplanOf := hof.training plan hplan
      refine ⟨fun _ => hplanOf.dataRoot ▸ Program.holds_dataRoot hplan, fun hdrawn => ?_⟩
      obtain ⟨checkpoint, hsome⟩ := Option.isSome_iff_exists.1 (hcheckpoint.2 hdrawn)
      exact hplanOf.directory checkpoint hsome ▸ Program.holds_directory hplan hsome
  · have htakes := Operator.takes_resolve (Operator.wellDeclared mode ho) hproblems
    refine ⟨fun callee keywords hcall => ?_, fun hmetric dataset => ?_⟩
    · obtain ⟨_, -, hkeywords⟩ := constructorCall_eq_ok hcall
      obtain ⟨-, -, rfl⟩ := Expr.call.inj hkeywords
      exact Operator.spellsOptions_keywordArgs ho htakes
    · have hpipeline : o ∈ Operator.Pipeline.all := by
        have hnone : ∀ o ∈ Operator.Architecture.all, o.category ≠ .metrics := by decide
        cases mode with
        | architecture => exact absurd hmetric (hnone o ho)
        | pipeline => exact ho
      exact Operator.spellsOptions_metricArgs hpipeline hmetric htakes dataset

/-- A directory with a quote and backslashes in front of the quote and at the end. -/
def Settings.escaping : Settings where
  dataRoot := "it\\'s\\"
  checkpointDir := "'"

theorem literals_read_back_watched :
    (∃ text program, Project.watched.compile .escaping = .ok text ∧
      Project.watched.program .escaping = .ok program ∧ text = program.text ∧
      program.Holds "'it\\\\\\'s\\\\'" ∧ program.Holds "'\\''") ∧
    Literal.value? "'it\\\\\\'s\\\\'" = some "it\\'s\\" ∧
    ∃ o ∈ Operator.Pipeline.all, ∃ dataset,
      metricArgs (o.resolve .empty) dataset =
        [("task", "'multiclass'"), ("num_classes", "10"), ("average", "'micro'")] ∧
      o.SpellsOptions (metricArgs (o.resolve .empty) dataset) := by
  obtain ⟨hvalue, hcompiled, hspells⟩ := literals_read_back "it\\'s\\"
  refine ⟨?_, hvalue, ?_⟩
  · obtain ⟨text, htext⟩ := exists_compile Project.watched .escaping
      (by decide +kernel) (by decide +kernel)
    obtain ⟨program, hprogram, rfl, hroot, hdirectory⟩ := hcompiled _ _ text htext
    refine ⟨_, program, htext, hprogram, rfl, hroot (by decide), hdirectory (by decide +kernel)⟩
  · have haccuracy : Operator.Pipeline.metric "accuracy" "Accuracy" "torchmetrics.Accuracy" "micro" ∈
        Operator.Pipeline.all := by decide
    refine ⟨_, haccuracy, ⟨"MNIST", "MNIST", 1, 28, 28, 10, .trainFlag⟩, by decide +kernel, ?_⟩
    exact (hspells .pipeline _ haccuracy .empty (Operator.problems_empty .pipeline haccuracy)).2 rfl _

/-- A line break ends the literal before its closing quote: of a text with one there is no literal to
read. -/
theorem not_literal_lineBreak :
    Literal.quoted "a\nb" = "'a\nb'" ∧ Literal.value? (Literal.quoted "a\nb") = none ∧
      Literal.value? (Literal.quoted "a\rb") = none ∧
      Literal.value? "'a\\nb'" = some "a\nb" := by
  decide +kernel

end LayerGraph
