import LayerGraph.Json.Token
import LayerGraph.Table
/-!
# Reading JSON texts

A text is read in two steps. `Raw.ofText?` checks the grammar and gives a tree in which a part that
has no value (a number out of range, a string with half a surrogate pair, an array or object at
level 128 or deeper) is marked as unreadable. A reader of documents then takes the parts that it
knows: an unreadable part is an error where a value is wanted and does no harm where the reader
passes over it.

* `Assembly.step` takes one token, so the tree of a text is a left fold over its tokens.
* `Raw.json?` is the whole value, in which the last of several fields with one key stands;
  `Json.raw` goes back.
* `Raw.fields?` reads a record, written as an object or as an array of its fields in order.
-/

namespace LayerGraph.Json
set_option autoImplicit false

/-- A JSON text as a tree, in which some parts may have no value. -/
inductive Raw
  | null
  | bool (value : Bool)
  | number (value : Number)
  | string (value : String)
  | array (items : List Raw)
  | object (fields : List (Option String × Raw))
  | unreadable
  deriving Repr

instance : Inhabited Raw := ⟨.null⟩

/-! ## From tokens to a tree -/

/-- An array or object that is still open; parts are kept last first. -/
inductive Frame
  | array (items : List Raw)
  | object (fields : List (Option String × Raw))
  | field (fields : List (Option String × Raw)) (key : Option String)

/-- What may come next. -/
inductive Due
  | value
  | valueOrClose
  | key
  | keyOrClose
  | colon
  | commaOrClose
  deriving DecidableEq, Repr

/-- The tree under construction. -/
inductive Assembly
  | building (frames : List Frame) (due : Due)
  | done (tree : Raw)

/-- The deepest level of arrays and objects that has a value. -/
def depthLimit : Nat := 127

namespace Assembly

def start : Assembly := .building [] .value

def place (value : Raw) : List Frame → Option Assembly
  | [] => some (.done value)
  | .array items :: outer => some (.building (.array (value :: items) :: outer) .commaOrClose)
  | .field fields key :: outer =>
    some (.building (.object ((key, value) :: fields) :: outer) .commaOrClose)
  | .object _ :: _ => none

/-- An array or object at its place; `outer` are the frames around it. -/
def close (value : Raw) (outer : List Frame) : Option Assembly :=
  place (if outer.length < depthLimit then value else .unreadable) outer

def beginValue (frames : List Frame) : Token → Option Assembly
  | .null => place .null frames
  | .bool value => place (.bool value) frames
  | .number value => place (value.elim .unreadable .number) frames
  | .string value => place (value.elim .unreadable .string) frames
  | .openBracket => some (.building (.array [] :: frames) .valueOrClose)
  | .openBrace => some (.building (.object [] :: frames) .keyOrClose)
  | _ => none

def beginField (frames : List Frame) : Token → Option Assembly
  | .string key =>
    match frames with
    | .object fields :: outer => some (.building (.field fields key :: outer) .colon)
    | _ => none
  | _ => none

/-- One token; nothing when it cannot stand there. -/
def step : Assembly → Token → Option Assembly
  | .done _, _ => none
  | .building frames .value, token => beginValue frames token
  | .building (.array [] :: outer) .valueOrClose, .closeBracket => close (.array []) outer
  | .building frames .valueOrClose, token => beginValue frames token
  | .building frames .key, token => beginField frames token
  | .building (.object [] :: outer) .keyOrClose, .closeBrace => close (.object []) outer
  | .building frames .keyOrClose, token => beginField frames token
  | .building frames .colon, .colon => some (.building frames .value)
  | .building (.array items :: outer) .commaOrClose, token =>
    match token with
    | .comma => some (.building (.array items :: outer) .value)
    | .closeBracket => close (.array items.reverse) outer
    | _ => none
  | .building (.object fields :: outer) .commaOrClose, token =>
    match token with
    | .comma => some (.building (.object fields :: outer) .key)
    | .closeBrace => close (.object fields.reverse) outer
    | _ => none
  | _, _ => none

def tree? : Assembly → Option Raw
  | .done tree => some tree
  | _ => none

end Assembly

namespace Raw

def ofTokens? (tokens : List Token) : Option Raw :=
  (tokens.foldlM Assembly.step Assembly.start).bind Assembly.tree?

def ofText? (text : String) : Option Raw := (Token.scan? text.toList).bind ofTokens?

/-! ## Whole values -/

mutual

/-- The value of a tree, if every part has one. The fields of an object are put in ascending order,
and of several with one key the last stands. -/
def json? : Raw → Option Json
  | null => some .null
  | bool value => some (.bool value)
  | number value => some (.number value)
  | string value => some (.string value)
  | array items => (items? items).map .array
  | object fields => (entries? fields).map fun entries => .object (Table.ofList entries).entries
  | unreadable => none

def items? : List Raw → Option (List Json)
  | [] => some []
  | item :: rest =>
    match json? item, items? rest with
    | some item, some rest => some (item :: rest)
    | _, _ => none

def entries? : List (Option String × Raw) → Option (List (String × Json))
  | [] => some []
  | (key, value) :: rest =>
    match key, json? value, entries? rest with
    | some key, some value, some rest => some ((key, value) :: rest)
    | _, _, _ => none

end

/-! ## Records -/

def occurrences (key : String) (fields : List (Option String × Raw)) : List Raw :=
  fields.filterMap fun field => if field.1 = some key then some field.2 else none

/-- The field with a key, if it is there; nothing when it is there twice. -/
def field? (fields : List (Option String × Raw)) (key : String) : Option (Option Raw) :=
  match occurrences key fields with
  | [] => some none
  | [value] => some (some value)
  | _ => none

/-- The fields of a record, in the order of `names`, those that are missing as `none`. A record is
written as an object, in which other fields are passed over, or as an array of its first fields. -/
def fields? (names : List String) : Raw → Option (List (Option Raw))
  | object fields =>
    if fields.any (·.1.isNone) then none else names.mapM (field? fields)
  | array items =>
    if names.length < items.length then none
    else some (items.map some ++ List.replicate (names.length - items.length) none)
  | _ => none

/-! ## Parts -/

def string? : Raw → Option String
  | string value => some value
  | _ => none

def bool? : Raw → Option Bool
  | bool value => some value
  | _ => none

def int? : Raw → Option Int
  | number (.int value) => some value
  | _ => none

/-- A list whose items `read` reads. -/
def list? {α : Type} (read : Raw → Option α) : Raw → Option (List α)
  | array items => items.mapM read
  | _ => none

/-- A value that may be absent as `null`. -/
def nullable? {α : Type} (read : Raw → Option α) : Raw → Option (Option α)
  | null => some none
  | value => (read value).map some

/-- A table, in which the last of several fields with one key stands. -/
def table? {α : Type} (read : Raw → Option α) : Raw → Option (Table α)
  | object fields =>
    let pairs := fields.mapM fun (field : Option String × Raw) =>
      field.1.bind fun key => (read field.2).map (key, ·)
    pairs.map Table.ofList
  | _ => none

/-- A word of an enumeration, written as a string or as an object with the word as its only key
and `null` as value. -/
def word? : Raw → Option String
  | string value => some value
  | object [(some key, null)] => some key
  | _ => none

def required {α : Type} (read : Raw → Option α) (field : Option Raw) : Option α :=
  field.bind read

def withDefault {α : Type} (default : α) (read : Raw → Option α) : Option Raw → Option α
  | none => some default
  | some value => read value

end Raw

mutual

def raw : Json → Raw
  | null => .null
  | bool value => .bool value
  | number value => .number value
  | string value => .string value
  | array items => .array (rawItems items)
  | object fields => .object (rawFields fields)

def rawItems : List Json → List Raw
  | [] => []
  | item :: rest => raw item :: rawItems rest

def rawFields : List (String × Json) → List (Option String × Raw)
  | [] => []
  | (key, value) :: rest => (some key, raw value) :: rawFields rest

end

def ofText? (text : String) : Option Json := (Raw.ofText? text).bind Raw.json?

end LayerGraph.Json
