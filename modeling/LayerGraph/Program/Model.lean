import LayerGraph.Program.Names
import LayerGraph.Program.Syntax
import LayerGraph.Propagation
/-!
# The model class of a network

`Network.model` writes a network down in its emission order. The output of the root is the argument
`x`. Each node gets one assignment, behind it one addition for every residual edge and then for
every sum edge that it receives, and the last variable is returned.
-/

namespace LayerGraph
set_option autoImplicit false

/-- The fields and the body of a generated class, and the blocks that it uses. -/
structure Model where
  fields : List FieldDecl
  forward : List Stmt
  blocks : List Block
  deriving Repr

/-! ## Constructor calls -/

/-- The parameters that have a value as keyword arguments, in the order of their declarations. -/
def keywordArgs (operator : Operator) (params : Params) : List (String × String) :=
  operator.params.filterMap fun decl =>
    (params.get? decl.name).map fun value => (decl.name, value.literal)

def constructorCall (operator : Operator) (params : Params) : Except Fault Expr :=
  match operator.callee with
  | some callee => .ok (.call callee [] (keywordArgs operator params))
  | none => .error (.noConstructor operator.id)

/-! ## Nodes -/

/-- The variable that holds the output of a node. -/
def Names.variable (names : Names) (root id : String) : String × Names :=
  if id = root then ("x", names) else names.output id

/-- The variables that hold the outputs of several nodes. -/
def Names.variables (names : Names) (root : String) : List String → List String × Names
  | [] => ([], names)
  | id :: rest =>
    let (name, names) := names.variable root id
    let (more, names) := names.variables root rest
    (name :: more, names)

/-- What is written for the value of a node: the expression and the field that it calls. -/
structure NodeValue where
  value : Expr
  field : Option FieldDecl := none

/-- The value of a node over the variables of its operands. Merges and flattening call functions;
any other node calls a field of its own. -/
def nodeValue (names : Names) (p : Placed) (params : Params) (operands : List String) :
    Except Fault (NodeValue × Names) :=
  match p.operator.rule with
  | .add => .ok (⟨.sum (operands.map .var), none⟩, names)
  | .concat =>
    .ok (⟨.concat (operands.map .var) ((params.int? "dim").getD 1), none⟩, names)
  | rule =>
    match operands with
    | [] => .error (.noInput p.id)
    | input :: _ =>
      if rule = .flatten then
        let start := (params.int? "start_dim").getD 1
        .ok (⟨.call "torch.flatten" [.var input] [("start_dim", start.repr)], none⟩, names)
      else do
        let (name, names) := names.ident p.id
        let constructor ← constructorCall p.operator params
        .ok (⟨.call ("self." ++ name) [.var input] [], some ⟨name, constructor⟩⟩, names)

def additions (target : String) (kind : EdgeKind) (operands : List String) : List Stmt :=
  operands.map fun operand => .accumulate target operand kind

/-- What is written for a node. -/
structure NodeText where
  target : String
  field : Option FieldDecl
  statements : List Stmt

/-- Writes one node: its assignment and the additions to its output. -/
def writeNode (order : Emission) (overlay : Propagation) (names : Names) (p : Placed) :
    Except Fault (NodeText × Names) := do
  let root := order.root.id
  let (operands, names) := names.variables root (order.inputsOf p.id)
  let (value, names) ← nodeValue names p (overlay.effectiveParams p) operands
  let (target, names) := names.output p.id
  let (residual, names) := names.variables root (order.addendsOf .residual p.id)
  let (sums, names) := names.variables root (order.addendsOf .sum p.id)
  .ok
    (⟨target, value.field,
      .assign target value.value
        :: additions target .residual residual ++ additions target .sum sums⟩,
     names)

def writeNodes (order : Emission) (overlay : Propagation) :
    Names → List Placed → Except Fault (List NodeText)
  | _, [] => .ok []
  | names, p :: rest => do
    let (text, names) ← writeNode order overlay names p
    let more ← writeNodes order overlay names rest
    .ok (text :: more)

/-- The blocks, in the order in which their classes are written. -/
def Block.all : List Block := [.residual, .inception]

def Emission.model (order : Emission) (overlay : Propagation) : Except Fault Model := do
  let texts ← writeNodes order overlay {} order.nodes
  let last := (texts.getLast?.map NodeText.target).getD "x"
  .ok
    { fields := texts.filterMap NodeText.field
      forward := texts.flatMap NodeText.statements ++ [.returns (.var last)]
      blocks := Block.all.filter fun block =>
        order.nodes.any (·.operator.block? = some block) }

end LayerGraph
