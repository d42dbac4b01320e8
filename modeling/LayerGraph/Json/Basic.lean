import LayerGraph.Binary64.Text
/-!
# JSON values and their texts

* `Json` is a JSON value; an object keeps its fields in the order in which they are written.
* `Json.compact` writes a value on one line without blanks, `Json.pretty` writes one item or field
  a line, two blanks deeper at each level.

Strings are written with the short escapes, with `\u00xx` for the other control characters below
the blank, and with every other character as it is. Floating-point numbers are written in
`FloatLayout.json`; NaN and the infinities, which JSON does not have, are written as `null`.
-/

namespace LayerGraph
set_option autoImplicit false

/-- A JSON number: whole numbers are kept apart from floating-point ones. -/
inductive Number
  | int (value : Int)
  | float (value : Binary64)
  deriving DecidableEq, Repr

/-- A JSON value. -/
inductive Json
  | null
  | bool (value : Bool)
  | number (value : Number)
  | string (value : String)
  | array (items : List Json)
  | object (fields : List (String × Json))
  deriving Repr

namespace Number

def text : Number → String
  | int value => value.repr
  | float value => if value.isFinite then value.text .json else "null"

end Number

namespace Json

instance : Inhabited Json := ⟨.null⟩

def int (value : Int) : Json := .number (.int value)

/-! ## Strings -/

/-- The lower-case hexadecimal digit of a number below sixteen. -/
def hexDigit (n : Nat) : Char := (Nat.toDigits 16 n).headD '0'

def escaped (c : Char) : List Char :=
  if c = '"' then ['\\', '"']
  else if c = '\\' then ['\\', '\\']
  else if c = '\x08' then ['\\', 'b']
  else if c = '\x0c' then ['\\', 'f']
  else if c = '\n' then ['\\', 'n']
  else if c = '\r' then ['\\', 'r']
  else if c = '\t' then ['\\', 't']
  else if c.toNat < 32 then
    ['\\', 'u', '0', '0', hexDigit (c.toNat / 16), hexDigit (c.toNat % 16)]
  else [c]

def quoted (s : String) : List Char := '"' :: s.toList.flatMap escaped ++ ['"']

/-! ## Values -/

/-- The line break in front of an item at the given level; compact text has none. -/
def lineBreak : Option Nat → List Char
  | none => []
  | some level => '\n' :: List.replicate (2 * level) ' '

def afterKey (level : Option Nat) : List Char := if level.isSome then [':', ' '] else [':']

/-- Written items between brackets, each on a line of its own when there are levels. -/
def bracketed (level : Option Nat) (opening closing : Char) : List (List Char) → List Char
  | [] => [opening, closing]
  | item :: rest =>
    let inner := lineBreak (level.map (· + 1))
    opening :: (inner ++ item ++ rest.flatMap (',' :: inner ++ ·) ++ lineBreak level ++ [closing])

mutual

/-- The text of a value at a level; without a level the text is compact. -/
def chars (level : Option Nat) : Json → List Char
  | null => ['n', 'u', 'l', 'l']
  | bool value => if value then ['t', 'r', 'u', 'e'] else ['f', 'a', 'l', 's', 'e']
  | number value => value.text.toList
  | string value => quoted value
  | array items => bracketed level '[' ']' (itemChars (level.map (· + 1)) items)
  | object fields => bracketed level '\x7b' '\x7d' (fieldChars (level.map (· + 1)) fields)

def itemChars (level : Option Nat) : List Json → List (List Char)
  | [] => []
  | item :: rest => chars level item :: itemChars level rest

def fieldChars (level : Option Nat) : List (String × Json) → List (List Char)
  | [] => []
  | (key, value) :: rest =>
    (quoted key ++ afterKey level ++ chars level value) :: fieldChars level rest

end

def compact (value : Json) : String := String.ofList (chars none value)

def pretty (value : Json) : String := String.ofList (chars (some 0) value)

end Json
end LayerGraph
