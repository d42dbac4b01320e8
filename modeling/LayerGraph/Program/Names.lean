/-!
# Identifiers of the generated program

* `sanitize` turns any id into an identifier that is not a keyword.
* `Names` gives each id one identifier: the sanitized id, with a number behind it when another id
  has that identifier already. `Names.ident` is the identifier of an id and `Names.output` the
  variable for its output.

Letters and digits are those of ASCII; every other character becomes an underscore.
-/

namespace LayerGraph
set_option autoImplicit false

def keywords : List String :=
  ["False", "None", "True", "and", "as", "assert", "async", "await", "break", "class", "continue",
   "def", "del", "elif", "else", "except", "finally", "for", "from", "global", "if", "import", "in",
   "is", "lambda", "nonlocal", "not", "or", "pass", "raise", "return", "try", "while", "with",
   "yield"]

/-- Attributes of every module, which a field must not hide. -/
def moduleAttributes : List String :=
  ["forward", "training", "train", "eval", "parameters", "modules", "children", "state_dict", "to",
   "cuda", "cpu", "apply", "zero_grad", "register_buffer", "float", "double", "half"]

def sanitizeChar (c : Char) : Char := if c.isAlphanum then c.toLower else '_'

def sanitizeChars (id : List Char) : List Char :=
  match id.map sanitizeChar with
  | [] => ['n', 'o', 'd', 'e']
  | c :: rest => if c.isDigit then 'n' :: '_' :: c :: rest else c :: rest

/-- An id as an identifier; a keyword gets an underscore behind it. -/
def sanitize (id : String) : String :=
  let identifier := String.ofList (sanitizeChars id.toList)
  if identifier ∈ keywords then identifier ++ "_" else identifier

/-- The identifier of an id, before it is compared with others. -/
def baseName (id : String) : String :=
  let identifier := sanitize id
  if identifier ∈ moduleAttributes then identifier ++ "_layer" else identifier

/-- The candidates for an identifier: the base name, and with the numbers from two on behind it. The
number has no bound here, where a counter of 32 bits with its sign would end at 2147483647; it takes
that many identifiers in use to get there. -/
def candidateName (base : String) (n : Nat) : String :=
  if n = 0 then base else base ++ "_" ++ (n + 1).repr

/-- The first candidate from `n` on, of at most `tries + 1`, that is not in use; `n` counts without a
bound, as the number of a candidate does. -/
def firstFree (used : List String) (base : String) : (tries n : Nat) → String
  | 0, n => candidateName base n
  | tries + 1, n =>
    if candidateName base n ∈ used then firstFree used base tries (n + 1)
    else candidateName base n

/-- The identifiers given so far, with the ids that have them. -/
structure Names where
  given : List (String × String) := []
  deriving DecidableEq, Repr

namespace Names

def used (names : Names) : List String := names.given.map (·.2)

/-- The identifier of an id. One of as many candidates as there are identifiers, and one more, is
not in use. -/
def ident (names : Names) (id : String) : String × Names :=
  match names.given.lookup id with
  | some name => (name, names)
  | none =>
    let name := firstFree names.used (baseName id) names.given.length 0
    (name, ⟨(id, name) :: names.given⟩)

def output (names : Names) (id : String) : String × Names :=
  let (name, names) := names.ident id
  (name ++ "_out", names)

end Names
end LayerGraph
