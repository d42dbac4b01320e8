import LayerGraph.Json.Numeral
/-!
# Tokens of a JSON text

A JSON text is cut into tokens by a machine that takes one character a step, so that the tokens of
a text are a left fold over its characters.

* `Token` is one of the six marks, a word, a number or a string. A number that is out of range and
  a string with half a surrogate pair are tokens without a value.
* `Scanner.step` takes one character, `Scanner.finish?` the end of the text.
* `Token.scan?` gives the tokens of a text.
-/

namespace LayerGraph.Json
set_option autoImplicit false

/-- A token of a JSON text. -/
inductive Token
  | openBracket
  | closeBracket
  | openBrace
  | closeBrace
  | comma
  | colon
  | null
  | bool (value : Bool)
  | number (value : Option Number)
  | string (value : Option String)
  deriving DecidableEq, Repr

/-! ## Strings -/

/-- A part of a string: a character, or a code unit of 16 bits given by its number. -/
inductive Piece
  | char (c : Char)
  | unit (code : Nat)
  deriving DecidableEq, Repr

/-- The characters of the pieces; a high surrogate counts only with a low one right behind it. -/
def decodePieces? : List Piece → Option (List Char)
  | [] => some []
  | .char c :: rest => (decodePieces? rest).map (c :: ·)
  | .unit code :: rest =>
    if 0xD800 ≤ code ∧ code < 0xDC00 then
      match rest with
      | .unit low :: rest =>
        if 0xDC00 ≤ low ∧ low < 0xE000 then
          (decodePieces? rest).map
            (Char.ofNat (0x10000 + (code - 0xD800) * 0x400 + (low - 0xDC00)) :: ·)
        else none
      | _ => none
    else if 0xDC00 ≤ code ∧ code < 0xE000 then none
    else (decodePieces? rest).map (Char.ofNat code :: ·)

def shortEscape? (c : Char) : Option Char :=
  match c with
  | '"' => some '"'
  | '\\' => some '\\'
  | '/' => some '/'
  | 'b' => some '\x08'
  | 'f' => some '\x0c'
  | 'n' => some '\n'
  | 'r' => some '\r'
  | 't' => some '\t'
  | _ => none

def hexValue? (c : Char) : Option Nat :=
  if c.isDigit then some (c.toNat - 48)
  else if 'a' ≤ c ∧ c ≤ 'f' then some (c.toNat - 87)
  else if 'A' ≤ c ∧ c ≤ 'F' then some (c.toNat - 55)
  else none

/-! ## The machine -/

/-- What the machine is in the middle of; parts are kept last first. -/
inductive Mode
  | between
  | string (pieces : List Piece)
  | escape (pieces : List Piece)
  | unit (pieces : List Piece) (digits value : Nat)
  | numeral (cs : List Char)
  | word (cs : List Char)
  deriving DecidableEq, Repr

/-- The machine: its mode and the tokens so far, last first. -/
structure Scanner where
  mode : Mode
  tokens : List Token
  deriving DecidableEq, Repr

def Scanner.start : Scanner := ⟨.between, []⟩

def isBlank (c : Char) : Bool := c = ' ' || c = '\n' || c = '\t' || c = '\r'

def inNumeral (c : Char) : Bool :=
  c.isDigit || c = '-' || c = '+' || c = '.' || c = 'e' || c = 'E'

def numeralToken? (cs : List Char) : Option Token :=
  (Numeral.read? cs).map fun numeral => .number numeral.number?

def wordToken? (cs : List Char) : Option Token :=
  match String.ofList cs with
  | "null" => some .null
  | "true" => some (.bool true)
  | "false" => some (.bool false)
  | _ => none

def markToken? (c : Char) : Option Token :=
  match c with
  | '[' => some .openBracket
  | ']' => some .closeBracket
  | '\x7b' => some .openBrace
  | '\x7d' => some .closeBrace
  | ',' => some .comma
  | ':' => some .colon
  | _ => none

def Scanner.begin? (tokens : List Token) (c : Char) : Option Scanner :=
  if isBlank c then some ⟨.between, tokens⟩
  else if c = '"' then some ⟨.string [], tokens⟩
  else if c = '-' ∨ c.isDigit then some ⟨.numeral [c], tokens⟩
  else if c.isLower then some ⟨.word [c], tokens⟩
  else (markToken? c).map fun token => ⟨.between, token :: tokens⟩

/-- One character; nothing when it cannot stand there. -/
def Scanner.step (s : Scanner) (c : Char) : Option Scanner :=
  match s.mode with
  | .between => begin? s.tokens c
  | .string pieces =>
    if c = '"' then
      some ⟨.between, .string ((decodePieces? pieces.reverse).map String.ofList) :: s.tokens⟩
    else if c = '\\' then some ⟨.escape pieces, s.tokens⟩
    else if c.toNat < 32 then none
    else some ⟨.string (.char c :: pieces), s.tokens⟩
  | .escape pieces =>
    if c = 'u' then some ⟨.unit pieces 0 0, s.tokens⟩
    else (shortEscape? c).map fun c => ⟨.string (.char c :: pieces), s.tokens⟩
  | .unit pieces digits value =>
    (hexValue? c).map fun d =>
      let value := 16 * value + d
      if digits = 3 then ⟨.string (.unit value :: pieces), s.tokens⟩
      else ⟨.unit pieces (digits + 1) value, s.tokens⟩
  | .numeral cs =>
    if inNumeral c then some ⟨.numeral (c :: cs), s.tokens⟩
    else (numeralToken? cs.reverse).bind fun token => begin? (token :: s.tokens) c
  | .word cs =>
    if c.isLower then some ⟨.word (c :: cs), s.tokens⟩
    else (wordToken? cs.reverse).bind fun token => begin? (token :: s.tokens) c

/-- The tokens at the end of the text; nothing inside a string. -/
def Scanner.finish? (s : Scanner) : Option (List Token) :=
  match s.mode with
  | .between => some s.tokens.reverse
  | .numeral cs => (numeralToken? cs.reverse).map fun token => (token :: s.tokens).reverse
  | .word cs => (wordToken? cs.reverse).map fun token => (token :: s.tokens).reverse
  | _ => none

def Token.scan? (cs : List Char) : Option (List Token) :=
  (cs.foldlM Scanner.step Scanner.start).bind Scanner.finish?

end LayerGraph.Json
