import LayerGraph.Proofs.Identifiers
import LayerGraph.Proofs.NamedModel
import LayerGraph.Proofs.Numerals
import LayerGraph.Proofs.SizedShapes
import LayerGraph.Proofs.TextLines
/-!
# Texts within one line

What the compiler writes into a line has no line feed, apart from the texts of the settings.

* `IsWord text`: letters, digits and underscores. Identifiers are words whatever the ids are
  (`Names.HasWords.nameOf`).
* `ParamValue.isUnbroken_literal`: numbers and truth values stay within a line. A parameter that is
  a text is one of the options of its declaration (`Operator.isUnbroken_resolve`).
* `isUnbroken_constructorCall`: so constructor calls do.
-/

namespace LayerGraph
set_option autoImplicit false

/-! ## Words -/

/-- The text has letters, digits and underscores only. -/
def IsWord (text : String) : Prop := ∀ c ∈ text.toList, Settings.continuesName c = true

instance (text : String) : Decidable (IsWord text) :=
  List.decidableBAll (fun c => Settings.continuesName c = true) text.toList

theorem IsWord.isUnbroken {text : String} (h : IsWord text) : IsUnbroken text := fun hmem =>
  absurd (h '\n' hmem) (by decide)

theorem isWord_append {first second : String} :
    IsWord (first ++ second) ↔ IsWord first ∧ IsWord second := by
  simp only [IsWord, String.toList_append, List.forall_mem_append]

theorem isWord_repr (n : Nat) : IsWord n.repr := by
  intro c hc
  rw [Nat.toList_repr] at hc
  have hdigit := Numeral.isDigit_of_mem_toDigits hc
  simp [Settings.continuesName, Char.isAlphanum, hdigit]

theorem IsIdentifier.isWord {text : String} (h : IsIdentifier text) : IsWord text := by
  intro c hc
  have hcontinues := List.all_eq_true.1 h.continues c hc
  simp only [continuesIdentifier, Bool.or_eq_true, decide_eq_true_eq] at hcontinues
  rcases hcontinues with (hlower | hdigit) | rfl
  · simp [Settings.continuesName, Char.isAlphanum, Char.isAlpha, hlower]
  · simp [Settings.continuesName, Char.isAlphanum, hdigit]
  · rfl

namespace Names

variable {names : Names}

/-- The identifiers given so far are words. -/
def HasWords (names : Names) : Prop := ∀ name ∈ names.used, IsWord name

theorem HasWords.ident (h : names.HasWords) (id : String) :
    IsWord (names.ident id).1 ∧ (names.ident id).2.HasWords := by
  rcases names.ident_cases id with ⟨name, hname, heq⟩ | ⟨-, _, _, name, hfound, heq⟩
  · rw [heq]
    exact ⟨h name (mem_used hname), h⟩
  · obtain ⟨n, rfl⟩ := hfound.exists_candidate
    have hword := (isIdentifier_candidateName id n).isWord
    rw [heq]
    exact ⟨hword, List.forall_mem_cons.2 ⟨hword, h⟩⟩

theorem HasWords.allot (h : names.HasWords) (ids : List String) : (names.allot ids).HasWords := by
  induction ids generalizing names with
  | nil => exact h
  | cons first rest ih => exact ih (h.ident first).2

theorem hasWords_empty : ({} : Names).HasWords := fun _ h => nomatch h

theorem HasWords.nameOf (h : names.HasWords) (id : String) : IsWord (names.nameOf id) := by
  rw [Names.nameOf]
  cases hname : names.name? id with
  | none => exact (by decide : IsWord "")
  | some name => exact h name (mem_used hname)

end Names

/-! ## Numbers -/

theorem isUnbroken_natRepr (n : Nat) : IsUnbroken n.repr := (isWord_repr n).isUnbroken

theorem isUnbroken_intRepr (n : Int) : IsUnbroken n.repr := by
  rw [Int.repr_eq_if]
  split
  · exact isUnbroken_natRepr _
  · exact isUnbroken_append.2 ⟨by decide, isUnbroken_natRepr _⟩

namespace Decimal

theorem feed_not_mem_toDigits (n : Nat) : '\n' ∉ Nat.toDigits 10 n := fun h =>
  absurd (Numeral.isDigit_of_mem_toDigits h) (by decide)

theorem feed_not_mem_trimmed (d : Decimal) : '\n' ∉ d.trimmed.1 := fun h =>
  feed_not_mem_toDigits d.digits (List.mem_of_mem_take h)

variable {digits : List Char}

theorem feed_not_mem_positional (h : '\n' ∉ digits) (showsPoint : Bool) (exponent : Int) :
    '\n' ∉ positional showsPoint digits exponent := by
  have htake : ∀ n, '\n' ∉ digits.take n := fun n hmem => h (List.mem_of_mem_take hmem)
  have hdrop : ∀ n, '\n' ∉ digits.drop n := fun n hmem => h (List.mem_of_mem_drop hmem)
  unfold positional
  dsimp only
  split
  · cases showsPoint <;> simp [h]
  · split
    · simp [htake, hdrop]
    · simp [h]

theorem feed_not_mem_scientific (h : '\n' ∉ digits) (showsPlus : Bool) (exponent : Int) :
    '\n' ∉ scientific showsPlus digits exponent := by
  have htake : '\n' ∉ digits.take 1 := fun hmem => h (List.mem_of_mem_take hmem)
  have hdrop : '\n' ∉ digits.drop 1 := fun hmem => h (List.mem_of_mem_drop hmem)
  have hsign : ∀ leading : Int, '\n' ∉
      (if leading < 0 then ['-'] else if showsPlus then ['+'] else []) := by
    intro leading
    split
    · decide
    · cases showsPlus <;> decide
  unfold scientific
  dsimp only
  simp only [List.mem_append, List.mem_cons, not_or]
  refine ⟨⟨⟨htake, ?_⟩, by decide, hsign _⟩, feed_not_mem_toDigits _⟩
  split
  · exact List.not_mem_nil
  · simpa using hdrop

theorem feed_not_mem_layout (layout : FloatLayout) (d : Decimal) : '\n' ∉ d.layout layout := by
  unfold Decimal.layout
  dsimp only
  split
  · exact feed_not_mem_positional d.feed_not_mem_trimmed _ _
  · split
    · exact feed_not_mem_positional d.feed_not_mem_trimmed _ _
    · exact feed_not_mem_scientific d.feed_not_mem_trimmed _ _

end Decimal

theorem Binary64.isUnbroken_text (layout : FloatLayout) (x : Binary64) :
    IsUnbroken (x.text layout) := by
  cases x with
  | nan => exact (by decide : IsUnbroken "NaN")
  | signed negative m =>
    have hmagnitude : '\n' ∉ (if m.isFinite then magnitudeText layout m else ['i', 'n', 'f']) := by
      split
      · unfold magnitudeText
        split
        · split <;> decide
        · exact Decimal.feed_not_mem_layout layout _
      · decide
    rw [text, isUnbroken_ofList]
    split
    · simpa using hmagnitude
    · exact hmagnitude

/-! ## Values -/

theorem isUnbroken_boolLiteral (value : Bool) : IsUnbroken (ParamValue.boolLiteral value) := by
  cases value <;> decide

/-- The literal of a value without a line feed. -/
theorem ParamValue.isUnbroken_literal {value : ParamValue}
    (h : ∀ text, value.text? = some text → IsUnbroken text) : IsUnbroken value.literal := by
  cases value with
  | bool value => exact isUnbroken_boolLiteral value
  | int value => exact isUnbroken_intRepr value
  | text value => exact Literal.isUnbroken_quoted.2 (h value rfl)
  | float value =>
    cases value with
    | nan => exact Binary64.isUnbroken_text _ _
    | signed negative m =>
      rw [literal]
      split
      · exact Binary64.isUnbroken_text _ _
      · split <;> decide

/-- The texts among the parameters have no line feed. -/
def Params.IsUnbroken (params : Params) : Prop :=
  ∀ name value, params.get? name = some value → ∀ text, value.text? = some text →
    LayerGraph.IsUnbroken text

namespace Params.IsUnbroken

variable {params : Params}

theorem literal (h : params.IsUnbroken) {name : String} {value : ParamValue}
    (hvalue : params.get? name = some value) : LayerGraph.IsUnbroken value.literal :=
  ParamValue.isUnbroken_literal (h name value hvalue)

theorem text? (h : params.IsUnbroken) {name text : String} (htext : params.text? name = some text) :
    LayerGraph.IsUnbroken text := by
  obtain ⟨value, hvalue, htext⟩ := Option.bind_eq_some_iff.1 htext
  exact h name value hvalue text htext

theorem overlay {more : Params} (h : params.IsUnbroken) (hmore : more.IsUnbroken) :
    Params.IsUnbroken (Table.overlay params more) := by
  intro name value hvalue
  rw [Table.get?_overlay, Option.or_eq_some_iff] at hvalue
  rcases hvalue with hset | ⟨-, hdefault⟩
  · exact hmore name value hset
  · exact h name value hdefault

end Params.IsUnbroken

/-! ## Operators -/

/-- The texts that a parameter takes. -/
def ParamDecl.options (decl : ParamDecl) : List String :=
  match decl.kind with
  | .choice options => options
  | _ => []

theorem ParamDecl.mem_options {decl : ParamDecl} {value : ParamValue} (h : decl.Checks value)
    {text : String} (htext : value.text? = some text) : text ∈ decl.options := by
  obtain ⟨name, kind, required, default⟩ := decl
  cases value with
  | text value =>
    cases kind with
    | choice options =>
      obtain ⟨found, hfound, hmem⟩ := mem_options_of_checks rfl h
      exact Option.some.inj (htext.symm.trans hfound) ▸ hmem
    | _ => cases h
  | _ => cases htext

namespace Operator

/-- What is called and the names and the options of the parameters have no line feed. -/
def IsUnbroken (o : Operator) : Prop :=
  (∀ callee, o.callee = some callee → LayerGraph.IsUnbroken callee) ∧
    LayerGraph.IsUnbroken o.id ∧
      ∀ decl ∈ o.params, LayerGraph.IsUnbroken decl.name ∧
        ∀ option ∈ decl.options, LayerGraph.IsUnbroken option

instance (o : Operator) : Decidable o.IsUnbroken := inferInstanceAs (Decidable (_ ∧ _ ∧ _))

variable (mode : Mode) {o : Operator} {params : Params}

theorem isUnbroken (h : o ∈ Catalog.operators mode) : o.IsUnbroken := by
  revert o
  cases mode <;> decide +kernel

theorem isUnbroken_resolve (ho : o ∈ Catalog.operators mode) (hproblems : o.problems params = []) :
    (o.resolve params).IsUnbroken := by
  intro name value hvalue text htext
  obtain ⟨decl, hdecl, rfl⟩ := exists_decl_of_resolve hproblems hvalue
  have hchecks := checks_resolve (wellDeclared mode ho) hproblems hdecl hvalue
  exact ((isUnbroken mode ho).2.2 decl hdecl).2 text (ParamDecl.mem_options hchecks htext)

/-- Nothing is wrong with a node that sets no parameter. -/
theorem problems_empty (ho : o ∈ Catalog.operators mode) : o.problems .empty = [] := by
  revert o
  cases mode <;> decide

theorem isUnbroken_defaults (ho : o ∈ Catalog.operators mode) : o.defaults.IsUnbroken := by
  rw [← resolve_empty]
  exact isUnbroken_resolve mode ho (problems_empty mode ho)

end Operator

/-! ## Expressions -/

theorem isUnbroken_keywordTexts {keywords : List (String × String)}
    (h : ∀ keyword ∈ keywords, IsUnbroken keyword.1 ∧ IsUnbroken keyword.2) :
    ∀ text ∈ keywordTexts keywords, IsUnbroken text := by
  intro text htext
  obtain ⟨keyword, hkeyword, rfl⟩ := List.mem_map.1 htext
  obtain ⟨hname, hvalue⟩ := h keyword hkeyword
  simp [hname, hvalue, (by decide : IsUnbroken "=")]

theorem isUnbroken_call {callee : String} {args : List Expr} {keywords : List (String × String)}
    (hcallee : IsUnbroken callee) (hargs : ∀ text ∈ Expr.texts args, IsUnbroken text)
    (hkeywords : ∀ keyword ∈ keywords, IsUnbroken keyword.1 ∧ IsUnbroken keyword.2) :
    IsUnbroken (Expr.call callee args keywords).text := by
  have hparts : IsUnbroken (", ".intercalate (Expr.texts args ++ keywordTexts keywords)) :=
    isUnbroken_intercalate (by decide)
      (List.forall_mem_append.2 ⟨hargs, isUnbroken_keywordTexts hkeywords⟩)
  rw [Expr.text]
  simp [hcallee, hparts, (by decide : IsUnbroken "("), (by decide : IsUnbroken ")")]

theorem isUnbroken_keywordArgs {o : Operator} (ho : o.IsUnbroken) {params : Params}
    (hparams : params.IsUnbroken) :
    ∀ keyword ∈ keywordArgs o params, IsUnbroken keyword.1 ∧ IsUnbroken keyword.2 := by
  rintro ⟨name, text⟩ hkeyword
  obtain ⟨⟨decl, hdecl, rfl⟩, value, hvalue, rfl⟩ := mem_keywordArgs.1 hkeyword
  exact ⟨(ho.2.2 decl hdecl).1, hparams.literal hvalue⟩

theorem isUnbroken_constructorCall {o : Operator} (ho : o.IsUnbroken) {params : Params}
    (hparams : params.IsUnbroken) {call : Expr} (h : constructorCall o params = .ok call) :
    IsUnbroken call.text := by
  unfold constructorCall at h
  split at h
  · rename_i callee hcallee
    obtain rfl := Except.ok.inj h
    exact isUnbroken_call (ho.1 callee hcallee) (List.forall_mem_nil _)
      (isUnbroken_keywordArgs ho hparams)
  · cases h

end LayerGraph
