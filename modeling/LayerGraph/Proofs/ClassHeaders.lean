import LayerGraph.Program.Text
import LayerGraph.Proofs.UnbrokenTexts
/-!
# Lines that start a class

* `IsPlain line` says that a line neither is broken nor starts a class; `IsApart start` says so of all
  lines that begin with a text.
* `headers name lines` counts the headers of a class among lines. Plain lines add none
  (`headers_of_isPlain`), and a literal adds those among the inner lines of its text
  (`headers_quoted`).
-/

namespace LayerGraph
set_option autoImplicit false

/-! ## Headers -/

/-- The line that starts the class of a module. -/
def classHeader (name : String) : String := "class " ++ name ++ "(nn.Module):"

theorem toList_classHeader (name : String) :
    (classHeader name).toList = "class ".toList ++ name.toList ++ "(nn.Module):".toList := by
  simp only [classHeader, String.toList_append]

theorem classHeader_inj {name other : String} : classHeader name = classHeader other ↔
    name = other := by
  rw [classHeader, classHeader, String.append_left_inj, String.append_right_inj]

theorem isUnbroken_classHeader {name : String} (h : IsWord name) :
    IsUnbroken (classHeader name) := by
  simp only [classHeader, isUnbroken_append]
  exact ⟨⟨by decide, h.isUnbroken⟩, by decide⟩

/-- Nothing in a header is escaped. -/
theorem ne_of_mem_classHeader {name : String} (h : IsWord name) :
    ∀ c ∈ (classHeader name).toList, c ≠ '\\' ∧ c ≠ '\'' := by
  rw [toList_classHeader]
  refine List.forall_mem_append.2 ⟨List.forall_mem_append.2 ⟨by simp, fun c hc => ?_⟩, by simp⟩
  have hword := h c hc
  constructor <;> rintro rfl <;> exact absurd hword (by decide)

/-! ## Lines that start no class -/

/-- The line has no line feed and does not start a class. -/
def IsPlain (line : String) : Prop := IsUnbroken line ∧ ¬ "class ".toList <+: line.toList

instance (line : String) : Decidable (IsPlain line) := inferInstanceAs (Decidable (_ ∧ _))

/-- No continuation of the text starts a class. -/
def IsApart (start : String) : Prop :=
  IsUnbroken start ∧ ¬ start.toList <+: "class ".toList ∧ ¬ "class ".toList <+: start.toList

instance (start : String) : Decidable (IsApart start) := inferInstanceAs (Decidable (_ ∧ _ ∧ _))

/-! A text that is written out is a list of characters to `decide`: reading them back from a string
is what takes the time. -/

theorem isPlain_ofList {cs : List Char} (h : '\n' ∉ cs ∧ ¬ "class ".toList <+: cs) :
    IsPlain (String.ofList cs) :=
  ⟨isUnbroken_ofList.2 h.1, by simpa using h.2⟩

theorem forall_isPlain_cons {cs : List Char} {lines : List String}
    (h : '\n' ∉ cs ∧ ¬ "class ".toList <+: cs) (hlines : ∀ line ∈ lines, IsPlain line) :
    ∀ line ∈ String.ofList cs :: lines, IsPlain line :=
  List.forall_mem_cons.2 ⟨isPlain_ofList h, hlines⟩

theorem isApart_ofList {cs : List Char}
    (h : '\n' ∉ cs ∧ ¬ cs <+: "class ".toList ∧ ¬ "class ".toList <+: cs) :
    IsApart (String.ofList cs) :=
  ⟨isUnbroken_ofList.2 h.1, by simpa using h.2⟩

section Plain

variable {name start rest line text : String}

theorem IsApart.not_starts (h : IsApart start) (rest : String) :
    ¬ "class ".toList <+: (start ++ rest).toList := by
  intro hclass
  rw [String.toList_append] at hclass
  rcases List.prefix_or_prefix_of_prefix (List.prefix_append start.toList rest.toList) hclass with
    hstart | hclass
  · exact h.2.1 hstart
  · exact h.2.2 hclass

theorem IsApart.isPlain (h : IsApart start) (hrest : IsUnbroken rest) : IsPlain (start ++ rest) :=
  ⟨isUnbroken_append.2 ⟨h.1, hrest⟩, h.not_starts rest⟩

theorem isPlain_append_ofList {cs ds : List Char}
    (hcs : '\n' ∉ cs ∧ ¬ cs <+: "class ".toList ∧ ¬ "class ".toList <+: cs) (hds : '\n' ∉ ds) :
    IsPlain (String.ofList cs ++ String.ofList ds) :=
  (isApart_ofList hcs).isPlain (isUnbroken_ofList.2 hds)

/-- A long word starts no class, since it has no blank. -/
theorem isPlain_of_isWord (h : IsWord start) (hlength : 6 ≤ start.toList.length)
    (hrest : IsUnbroken rest) : IsPlain (start ++ rest) := by
  refine ⟨isUnbroken_append.2 ⟨h.isUnbroken, hrest⟩, fun hclass => ?_⟩
  rw [String.toList_append] at hclass
  have hstart : "class ".toList <+: start.toList :=
    List.prefix_of_prefix_length_le hclass (List.prefix_append _ _) hlength
  have hblank : ' ' ∈ start.toList := hstart.subset (by decide)
  exact absurd (h ' ' hblank) (by decide)

theorem classHeader_starts (name : String) : "class ".toList <+: (classHeader name).toList := by
  rw [toList_classHeader, List.append_assoc]
  exact List.prefix_append _ _

theorem IsPlain.ne_classHeader (h : IsPlain line) (name : String) : line ≠ classHeader name := by
  rintro rfl
  exact h.2 (classHeader_starts name)

theorem ne_classHeader_of_getLast? (h : line.toList.getLast? = some ')') (name : String) :
    line ≠ classHeader name := by
  rintro rfl
  have hlast : (classHeader name).toList.getLast? = some ':' := by
    rw [toList_classHeader, List.getLast?_append]
    rfl
  exact absurd (h.symm.trans hlast) (by decide)

end Plain

/-! ## Counting headers -/

/-- How often the header of a class is among lines that texts may break further. -/
def headers (name : String) (lines : List String) : Nat :=
  (lines.flatMap linesOf).count (classHeader name)

section Headers

variable {name : String} {lines more : List String}

@[simp] theorem headers_nil : headers name [] = 0 := rfl

theorem headers_singleton (line : String) :
    headers name [line] = (linesOf line).count (classHeader name) := by
  rw [headers, List.flatMap_singleton]

theorem headers_cons (line : String) (lines : List String) :
    headers name (line :: lines) = headers name [line] + headers name lines := by
  rw [headers_singleton]
  exact List.count_append

@[simp] theorem headers_append :
    headers name (lines ++ more) = headers name lines + headers name more := by
  simp [headers]

theorem headers_of_isPlain (h : ∀ line ∈ lines, IsPlain line) : headers name lines = 0 := by
  refine List.count_eq_zero.2 fun hmem => ?_
  obtain ⟨line, hline, hmem⟩ := List.mem_flatMap.1 hmem
  rw [linesOf_of_isUnbroken (h line hline).1] at hmem
  exact (h line hline).ne_classHeader name (List.mem_singleton.1 hmem).symm

theorem headers_class (other : String) (h : IsWord other) (hlines : ∀ line ∈ lines, IsPlain line) :
    headers name (classHeader other :: lines) = if other = name then 1 else 0 := by
  rw [headers_cons, headers_of_isPlain hlines, headers_singleton,
    linesOf_of_isUnbroken (isUnbroken_classHeader h), List.count_singleton]
  simp [classHeader_inj]

/-- A literal in a line adds the headers among the inner lines of its text. -/
theorem headers_quoted (hname : IsWord name) {start middle behind : String} (hstart : IsApart start)
    (hmiddle : IsUnbroken middle) (hbehind : IsUnbroken behind)
    (hlast : behind.toList.getLast? = some ')') (text : String) :
    headers name [start ++ middle ++ Literal.quoted text ++ behind] =
      (innerLines text).count (classHeader name) := by
  rw [headers_singleton, ← Literal.count_innerLines_quoted (ne_of_mem_classHeader hname)]
  refine count_linesOf_between (isUnbroken_append.2 ⟨hstart.1, hmiddle⟩) hbehind (fun rest heq => ?_)
    (fun rest => ne_classHeader_of_getLast? ?_ name) _
  · rw [String.append_assoc] at heq
    exact hstart.not_starts (middle ++ rest) (heq ▸ classHeader_starts name)
  · rw [String.toList_append, List.getLast?_append, hlast]
    rfl

theorem headers_text (program : Program) :
    (linesOf program.text).count (classHeader name) = headers name program.lines := by
  have hempty : "" ≠ classHeader name := fun h => by
    have hlist := congrArg String.toList h
    rw [toList_classHeader] at hlist
    cases hlist
  rw [Program.text, linesOf_join, List.count_append, List.count_singleton,
    if_neg (by simpa using hempty), Nat.add_zero]
  rfl

end Headers

end LayerGraph
