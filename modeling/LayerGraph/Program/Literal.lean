/-!
# String literals of the generated program

A text is written between single quotes; a backslash and a single quote inside it are escaped with
a backslash, and every other character stands as it is.
-/

namespace LayerGraph.Literal
set_option autoImplicit false

def escaped (c : Char) : List Char :=
  if c = '\\' then ['\\', '\\'] else if c = '\'' then ['\\', '\''] else [c]

/-- A text with a list of characters in place of each occurrence of a character. -/
def replaced (c : Char) (piece text : List Char) : List Char :=
  text.flatMap fun d => if d = c then piece else [d]

/-- One pass escapes as two replacements do, one after the other. The backslash comes first, so
those that are put before single quotes are not doubled. -/
theorem flatMap_escaped (text : List Char) :
    text.flatMap escaped =
      replaced '\'' ['\\', '\''] (replaced '\\' ['\\', '\\'] text) := by
  have hpiece : escaped = fun d =>
      replaced '\'' ['\\', '\''] (if d = '\\' then ['\\', '\\'] else [d]) := by
    funext d
    unfold escaped
    split
    · rfl
    · exact (List.append_nil _).symm
  rw [replaced, replaced, List.flatMap_assoc, hpiece]
  rfl

def quotedChars (text : List Char) : List Char := '\'' :: text.flatMap escaped ++ ['\'']

def quoted (text : String) : String := String.ofList (quotedChars text.toList)

end LayerGraph.Literal
