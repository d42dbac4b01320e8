import LayerGraph.Document.Basic
/-!
# Statements of the generated class

The generated class has fields, each with a constructor call, and a `forward` method of
assignments, additions to a variable and one return. `Expr.text`, `Stmt.text` and `FieldDecl.text`
write them.
-/

namespace LayerGraph
set_option autoImplicit false

/-- An expression. -/
inductive Expr
  | var (name : String)
  | call (callee : String) (args : List Expr) (keywords : List (String × String))
  /-- The element-wise sum. -/
  | sum (items : List Expr)
  /-- The concatenation along a dimension. -/
  | concat (items : List Expr) (dim : Int)
  deriving Repr

instance : Inhabited Expr := ⟨.var "x"⟩

def keywordTexts (keywords : List (String × String)) : List String :=
  keywords.map fun keyword => keyword.1 ++ "=" ++ keyword.2

mutual

/-- The text of an expression; positional arguments come before keyword arguments. -/
def Expr.text : Expr → String
  | .var name => name
  | .call callee args keywords =>
    callee ++ "(" ++ ", ".intercalate (Expr.texts args ++ keywordTexts keywords) ++ ")"
  | .sum items => " + ".intercalate (Expr.texts items)
  | .concat items dim =>
    "torch.cat([" ++ ", ".intercalate (Expr.texts items) ++ "], dim=" ++ dim.repr ++ ")"

def Expr.texts : List Expr → List String
  | [] => []
  | e :: rest => Expr.text e :: Expr.texts rest

end

/-- A statement. -/
inductive Stmt
  | assign (target : String) (value : Expr)
  /-- Adds an operand to a variable; the kind of the edge is noted. -/
  | accumulate (target operand : String) (kind : EdgeKind)
  | returns (value : Expr)
  deriving Repr

def EdgeKind.note : EdgeKind → String
  | .normal => "skip"
  | .residual => "residual"
  | .sum => "sum"

def Stmt.text : Stmt → String
  | .assign target value => target ++ " = " ++ value.text
  | .accumulate target operand kind =>
    target ++ " = " ++ target ++ " + " ++ operand ++ "  # " ++ kind.note ++ " connection"
  | .returns value => "return " ++ value.text

/-- A field of the class. -/
structure FieldDecl where
  name : String
  constructor : Expr
  deriving Repr

def FieldDecl.text (f : FieldDecl) : String := "self." ++ f.name ++ " = " ++ f.constructor.text

end LayerGraph
