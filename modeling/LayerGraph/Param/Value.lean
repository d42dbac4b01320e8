import LayerGraph.Json.Raw
import LayerGraph.Program.Literal
import LayerGraph.Word
/-!
# Parameter values

A node carries parameters, each a truth value, an integer, a floating-point number or a text.

* `ParamValue.ofRaw?` reads a value from a document: a whole number beyond the signed words becomes
  a floating-point number. `ParamValue.json` writes it back.
* `ParamValue.literal` is the value as it stands in the generated program.
-/

namespace LayerGraph
set_option autoImplicit false

/-- The value of one parameter. -/
inductive ParamValue
  | bool (value : Bool)
  | int (value : Int)
  | float (value : Binary64)
  | text (value : String)
  deriving DecidableEq, Repr

abbrev Params := Table ParamValue

namespace ParamValue

def int? : ParamValue → Option Int
  | int value => some value
  | _ => none

/-- The value as a number; an integer is rounded to the nearest floating-point number. -/
def float? : ParamValue → Option Binary64
  | int value => some (Binary64.ofInt value)
  | float value => some value
  | _ => none

def bool? : ParamValue → Option Bool
  | bool value => some value
  | _ => none

def text? : ParamValue → Option String
  | text value => some value
  | _ => none

/-- The truth value as it stands in the generated program. -/
def boolLiteral (value : Bool) : String := if value then "True" else "False"

/-- The value as it stands in the generated program. -/
def literal : ParamValue → String
  | bool value => boolLiteral value
  | int value => value.repr
  | float (.signed negative m) =>
    if m.isFinite then (Binary64.signed negative m).text .source
    else if negative then "float('-inf')" else "float('inf')"
  | float .nan => Binary64.nan.text .source
  | text value => Literal.quoted value

def ofNumber : Number → ParamValue
  | .int value => if Word.Fits value then int value else float (Binary64.ofInt value)
  | .float value => float value

def ofRaw? : Json.Raw → Option ParamValue
  | .bool value => some (bool value)
  | .number value => some (ofNumber value)
  | .string value => some (text value)
  | _ => none

def json : ParamValue → Json
  | bool value => .bool value
  | int value => .number (.int value)
  | float value => .number (.float value)
  | text value => .string value

end ParamValue

namespace Params

def ofRaw? : Json.Raw → Option Params := Json.Raw.table? ParamValue.ofRaw?

def json (params : Params) : Json := .object (params.map fun _ value => value.json).entries

def int? (params : Params) (name : String) : Option Int := (params.get? name).bind (·.int?)

def bool? (params : Params) (name : String) : Option Bool := (params.get? name).bind (·.bool?)

def text? (params : Params) (name : String) : Option String := (params.get? name).bind (·.text?)

end Params
end LayerGraph
