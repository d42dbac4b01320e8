import LayerGraph.Program.Literal
import Mathlib.Data.List.Basic
/-!
# The lines of a text

* `linesOf text` is what stands before, between and behind the line feeds of a text, and
  `innerLines text` what stands between two of them. `IsUnbroken text` says that there is none.
* `linesOf_join`: lines that are written with a line feed behind each.
* `count_linesOf_between`: a text that is put into a line adds its inner lines. Its first and its
  last line are continued by what stands around it.
* `count_innerLines_quoted`: the inner lines of a text stay in a string literal, since a line feed
  is not escaped.
-/

namespace LayerGraph
set_option autoImplicit false

/-- The lines of a text: what stands before, between and behind its line feeds. -/
def linesOf (text : String) : List String := (text.toList.splitOn '\n').map String.ofList

/-- The lines of a text that stand between two of its line feeds. -/
def innerLines (text : String) : List String := (linesOf text).tail.dropLast

/-- The text has no line feed. -/
def IsUnbroken (text : String) : Prop := '\n' ∉ text.toList

instance (text : String) : Decidable (IsUnbroken text) := inferInstanceAs (Decidable (_ ∉ _))

/-! ## Unbroken texts -/

@[simp] theorem isUnbroken_append {first second : String} :
    IsUnbroken (first ++ second) ↔ IsUnbroken first ∧ IsUnbroken second := by
  simp [IsUnbroken]

theorem isUnbroken_ofList {cs : List Char} : IsUnbroken (String.ofList cs) ↔ '\n' ∉ cs := by
  rw [IsUnbroken, String.toList_ofList]

theorem isUnbroken_intercalate {separator : String} {texts : List String}
    (hseparator : IsUnbroken separator) (h : ∀ text ∈ texts, IsUnbroken text) :
    IsUnbroken (separator.intercalate texts) := by
  induction texts with
  | nil => exact (by decide : IsUnbroken "")
  | cons first rest ih =>
    have hfirst := h first List.mem_cons_self
    have hrest := ih fun text htext => h text (List.mem_cons_of_mem _ htext)
    cases rest with
    | nil => simpa using hfirst
    | cons second rest =>
      rw [String.intercalate_cons_cons]
      exact isUnbroken_append.2 ⟨isUnbroken_append.2 ⟨hfirst, hseparator⟩, hrest⟩

/-! ## Lines -/

/-- Lines are told apart at a line feed. What follows is read off this equation. -/
theorem linesOf_append (first second : String) :
    linesOf (first ++ "\n" ++ second) = linesOf first ++ linesOf second := by
  have hfeed : (first ++ "\n" ++ second).toList = first.toList ++ '\n' :: second.toList := by
    simp
  rw [linesOf, hfeed, List.splitOn_append_cons_self, List.map_append]
  rfl

theorem linesOf_of_isUnbroken {text : String} (h : IsUnbroken text) : linesOf text = [text] := by
  rw [linesOf, List.splitOn_eq_singleton h, List.map_singleton, String.ofList_toList]

theorem linesOf_join (lines : List String) :
    linesOf (String.join (lines.map (· ++ "\n"))) = lines.flatMap linesOf ++ [""] := by
  induction lines with
  | nil => rfl
  | cons line rest ih =>
    rw [List.map_cons, String.join_cons, linesOf_append, ih, List.flatMap_cons, List.append_assoc]

/-- A broken text has a first line. -/
theorem exists_first_line {text : String} (h : ¬ IsUnbroken text) :
    ∃ first rest, IsUnbroken first ∧ text = first ++ "\n" ++ rest := by
  obtain ⟨first, rest, htext, hfirst⟩ := List.eq_append_cons_of_mem (not_not.1 h)
  refine ⟨String.ofList first, String.ofList rest, isUnbroken_ofList.2 hfirst, ?_⟩
  apply String.toList_inj.1
  simp [htext]

/-- A broken text has a last line. -/
theorem exists_last_line {text : String} (h : ¬ IsUnbroken text) :
    ∃ rest last, IsUnbroken last ∧ text = rest ++ "\n" ++ last := by
  obtain ⟨last, rest, htext, hlast⟩ :=
    List.eq_append_cons_of_mem (List.mem_reverse.2 (not_not.1 h))
  have htext := congrArg List.reverse htext
  refine ⟨String.ofList rest.reverse, String.ofList last.reverse,
    isUnbroken_ofList.2 fun hmem => hlast (List.mem_reverse.1 hmem), ?_⟩
  apply String.toList_inj.1
  simpa using htext

/-- Induction on the lines of a text. -/
theorem lines_induction {motive : String → Prop} (single : ∀ line, IsUnbroken line → motive line)
    (cons : ∀ line rest, IsUnbroken line → motive rest → motive (line ++ "\n" ++ rest))
    (text : String) : motive text := by
  by_cases htext : IsUnbroken text
  · exact single text htext
  · obtain ⟨line, rest, hline, heq⟩ := exists_first_line htext
    have hlength : rest.length < text.length := by
      simp only [heq, String.length_append]
      have hone : "\n".length = 1 := rfl
      omega
    exact heq ▸ cons line rest hline (lines_induction single cons rest)
termination_by text.length

/-! ## Texts put into a line -/

section Between

variable {before behind : String}

/-- A text between two parts of a line stays within it, or it continues the first part and is
continued by the second, with its inner lines between. -/
theorem linesOf_between (hbefore : IsUnbroken before) (hbehind : IsUnbroken behind)
    (text : String) :
    (innerLines text = [] ∧ linesOf (before ++ text ++ behind) = [before ++ text ++ behind]) ∨
      ∃ first last, linesOf (before ++ text ++ behind) =
        (before ++ first) :: (innerLines text ++ [last ++ behind]) := by
  by_cases htext : IsUnbroken text
  · left
    rw [innerLines, linesOf_of_isUnbroken htext, linesOf_of_isUnbroken (by simp [*])]
    exact ⟨rfl, rfl⟩
  · right
    obtain ⟨first, rest, hfirst, rfl⟩ := exists_first_line htext
    have hwhole : before ++ (first ++ "\n" ++ rest) ++ behind =
        (before ++ first) ++ "\n" ++ (rest ++ behind) := by simp only [String.append_assoc]
    rw [innerLines, hwhole, linesOf_append, linesOf_append, linesOf_of_isUnbroken hfirst,
      linesOf_of_isUnbroken (isUnbroken_append.2 ⟨hbefore, hfirst⟩)]
    by_cases hrest : IsUnbroken rest
    · refine ⟨first, rest, ?_⟩
      rw [linesOf_of_isUnbroken hrest, linesOf_of_isUnbroken (isUnbroken_append.2 ⟨hrest, hbehind⟩)]
      rfl
    · obtain ⟨middle, last, hlast, rfl⟩ := exists_last_line hrest
      have hend : middle ++ "\n" ++ last ++ behind = middle ++ "\n" ++ (last ++ behind) :=
        String.append_assoc
      refine ⟨first, last, ?_⟩
      rw [hend, linesOf_append, linesOf_append, linesOf_of_isUnbroken hlast,
        linesOf_of_isUnbroken (isUnbroken_append.2 ⟨hlast, hbehind⟩)]
      simp

/-- How often a line occurs that does not start like the first part and does not end like the
second. -/
theorem count_linesOf_between {line : String} (hbefore : IsUnbroken before)
    (hbehind : IsUnbroken behind) (hfirst : ∀ rest, before ++ rest ≠ line)
    (hlast : ∀ rest, rest ++ behind ≠ line) (text : String) :
    (linesOf (before ++ text ++ behind)).count line = (innerLines text).count line := by
  rcases linesOf_between hbefore hbehind text with ⟨hinner, hlines⟩ | ⟨first, last, hlines⟩
  · rw [hlines, hinner, List.count_singleton, List.count_nil,
      if_neg (by simpa using hlast (before ++ text))]
  · rw [hlines, List.count_cons_of_ne (hfirst first), List.count_append, List.count_singleton,
      if_neg (by simpa using hlast last), Nat.add_zero]

end Between

/-! ## String literals -/

namespace Literal

/-- What stands between the quotes of a literal. -/
def inside (text : String) : String := String.ofList (text.toList.flatMap escaped)

variable {text : String}

theorem quoted_eq (text : String) : quoted text = "'" ++ inside text ++ "'" := by
  apply String.toList_inj.1
  simp [quoted, quotedChars, inside]

theorem inside_append (first second : String) :
    inside (first ++ second) = inside first ++ inside second := by
  apply String.toList_inj.1
  simp [inside]

theorem mem_escaped (c : Char) : c ∈ escaped c := by
  unfold escaped
  split
  · simp_all
  · split <;> simp_all

theorem mem_inside {c : Char} (hc : c ∈ text.toList) : c ∈ (inside text).toList := by
  rw [inside, String.toList_ofList]
  exact List.mem_flatMap.2 ⟨c, hc, mem_escaped c⟩

theorem isUnbroken_inside : IsUnbroken (inside text) ↔ IsUnbroken text := by
  refine ⟨fun h hmem => h (mem_inside hmem), fun h hmem => h ?_⟩
  rw [inside, String.toList_ofList] at hmem
  obtain ⟨c, hc, hescaped⟩ := List.mem_flatMap.1 hmem
  unfold escaped at hescaped
  split at hescaped
  · simp at hescaped
  · split at hescaped
    · simp at hescaped
    · exact List.mem_singleton.1 hescaped ▸ hc

theorem isUnbroken_quoted : IsUnbroken (quoted text) ↔ IsUnbroken text := by
  rw [quoted_eq, isUnbroken_append, isUnbroken_append, isUnbroken_inside]
  exact ⟨fun h => h.1.2, fun h => ⟨⟨by decide, h⟩, by decide⟩⟩

/-- Escaping works on each line. -/
theorem linesOf_inside (text : String) : linesOf (inside text) = (linesOf text).map inside := by
  induction text using lines_induction with
  | single line hline =>
    rw [linesOf_of_isUnbroken hline, linesOf_of_isUnbroken (isUnbroken_inside.2 hline)]
    rfl
  | cons line rest hline ih =>
    have hfeed : inside "\n" = "\n" := rfl
    rw [inside_append, inside_append, hfeed, linesOf_append, linesOf_append, List.map_append, ih,
      linesOf_of_isUnbroken hline, linesOf_of_isUnbroken (isUnbroken_inside.2 hline)]
    rfl

/-- The quotes belong to the first line and to the last. -/
theorem innerLines_quoted (text : String) :
    innerLines (quoted text) = (innerLines text).map inside := by
  have hinside : innerLines (inside text) = (innerLines text).map inside := by
    rw [innerLines, innerLines, linesOf_inside, List.map_dropLast, List.map_tail]
  rw [← hinside, innerLines, quoted_eq]
  rcases linesOf_between (by decide : IsUnbroken "'") (by decide : IsUnbroken "'") (inside text)
    with ⟨hinner, hlines⟩ | ⟨first, last, hlines⟩
  · rw [hlines, hinner]
    rfl
  · rw [hlines]
    simp

theorem inside_eq_iff {line : String} (hline : ∀ c ∈ line.toList, c ≠ '\\' ∧ c ≠ '\'') :
    inside text = line ↔ text = line := by
  have hself : ∀ text : String, (∀ c ∈ text.toList, c ≠ '\\' ∧ c ≠ '\'') → inside text = text := by
    intro text htext
    apply String.toList_inj.1
    rw [inside, String.toList_ofList]
    refine (List.flatMap_congr fun c hc => ?_).trans (List.flatMap_singleton' _)
    rw [escaped, if_neg (htext c hc).1, if_neg (htext c hc).2]
  constructor
  · rintro rfl
    exact (hself text fun c hc => hline c (mem_inside hc)).symm
  · rintro rfl
    exact hself text hline

/-- A line without anything to escape is as often an inner line of a text as of its literal. -/
theorem count_innerLines_quoted {line : String} (hline : ∀ c ∈ line.toList, c ≠ '\\' ∧ c ≠ '\'')
    (text : String) : (innerLines (quoted text)).count line = (innerLines text).count line := by
  rw [innerLines_quoted, List.count, List.countP_map]
  refine List.countP_congr fun inner _ => ?_
  simpa using inside_eq_iff hline

end Literal

end LayerGraph
