import LayerGraph.Param.Value
/-!
# Declared parameters

An operator declares its parameters: their names, what values they take, whether they must be set
and which value stands when they are not.

* `ParamDecl.check` tests one value against a declaration.
* `ParamProblem` says what is wrong with a value or a name, `ParamProblem.message` in words.
-/

namespace LayerGraph
set_option autoImplicit false

/-- What values a parameter takes. -/
inductive ParamKind
  | int (least greatest : Option Int)
  | float (least greatest : Option Binary64)
  | bool
  | choice (options : List String)
  deriving DecidableEq, Repr

/-- A declared parameter. -/
structure ParamDecl where
  name : String
  kind : ParamKind
  required : Bool
  default : Option ParamValue
  deriving DecidableEq, Repr

/-- A number in a message about bounds. -/
inductive Amount
  | int (value : Int)
  | float (value : Binary64)
  deriving DecidableEq, Repr

def Amount.text : Amount → String
  | int value => value.repr
  | float value => value.text .plain

/-- What is wrong with a parameter of a node. -/
inductive ParamProblem
  | notInteger (name : String)
  | notNumber (name : String)
  | notFinite (name : String)
  | notBool (name : String)
  | notText (name : String) (options : List String)
  | notOption (name : String) (options : List String) (value : String)
  | tooSmall (name : String) (least value : Amount)
  | tooLarge (name : String) (greatest value : Amount)
  | missing (name : String)
  | undeclared (name operator : String)
  deriving DecidableEq, Repr

def optionList (options : List String) : String :=
  "[" ++ ", ".intercalate (options.map fun option => "\"" ++ option ++ "\"") ++ "]"

def ParamProblem.message : ParamProblem → String
  | notInteger name => "'" ++ name ++ "' expects an integer"
  | notNumber name => "'" ++ name ++ "' expects a number"
  | notFinite name => "'" ++ name ++ "' must be finite"
  | notBool name => "'" ++ name ++ "' expects a boolean"
  | notText name options => "'" ++ name ++ "' expects one of " ++ optionList options
  | notOption name options value =>
    "'" ++ name ++ "' must be one of " ++ optionList options ++ ", got '" ++ value ++ "'"
  | tooSmall name least value =>
    "'" ++ name ++ "' must be >= " ++ least.text ++ ", got " ++ value.text
  | tooLarge name greatest value =>
    "'" ++ name ++ "' must be <= " ++ greatest.text ++ ", got " ++ value.text
  | missing name => "missing required parameter '" ++ name ++ "'"
  | undeclared name operator =>
    "unknown parameter '" ++ name ++ "' for operator '" ++ operator ++ "'"

namespace ParamDecl

/-! ## Making declarations -/

def int (name : String) (default : Int) (least greatest : Option Int) : ParamDecl :=
  ⟨name, .int least greatest, true, some (.int default)⟩

def float (name : String) (default : Binary64) (least greatest : Option Binary64) : ParamDecl :=
  ⟨name, .float least greatest, true, some (.float default)⟩

def bool (name : String) (default : Bool) : ParamDecl :=
  ⟨name, .bool, true, some (.bool default)⟩

/-- A parameter that takes one of several texts, with a default. -/
def choice (name default : String) (options : List String) : ParamDecl :=
  ⟨name, .choice options, true, some (.text default)⟩

def withoutDefault (decl : ParamDecl) : ParamDecl := { decl with default := none }

/-- The declaration without default and without requirement: the value is set by the user or
learned from the shapes of the inputs, or it is left out. -/
def optional (decl : ParamDecl) : ParamDecl := { decl with required := false, default := none }

/-! ## Checking values -/

def checkInt (name : String) (least greatest : Option Int) (value : Int) :
    Except ParamProblem Unit :=
  match least.filter (value < ·), greatest.filter (· < value) with
  | some least, _ => .error (.tooSmall name (.int least) (.int value))
  | none, some greatest => .error (.tooLarge name (.int greatest) (.int value))
  | none, none => .ok ()

def checkFloat (name : String) (least greatest : Option Binary64) (value : Binary64) :
    Except ParamProblem Unit :=
  match least.filter value.lt, greatest.filter (·.lt value) with
  | some least, _ => .error (.tooSmall name (.float least) (.float value))
  | none, some greatest => .error (.tooLarge name (.float greatest) (.float value))
  | none, none => .ok ()

/-- Tests a value against a declaration. An integer is accepted where a number is expected. -/
def check (decl : ParamDecl) (value : ParamValue) : Except ParamProblem Unit :=
  match decl.kind with
  | .int least greatest =>
    match value.int? with
    | none => .error (.notInteger decl.name)
    | some i => checkInt decl.name least greatest i
  | .float least greatest =>
    match value.float? with
    | none => .error (.notNumber decl.name)
    | some x =>
      if x.isFinite then checkFloat decl.name least greatest x
      else .error (.notFinite decl.name)
  | .bool =>
    match value.bool? with
    | none => .error (.notBool decl.name)
    | some _ => .ok ()
  | .choice options =>
    match value.text? with
    | none => .error (.notText decl.name options)
    | some text =>
      if text ∈ options then .ok () else .error (.notOption decl.name options text)

end ParamDecl
end LayerGraph
