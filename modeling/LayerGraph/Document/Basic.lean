import LayerGraph.Operator.Catalog
/-!
# Project documents

What the editor draws: nodes, edges between them, and a project of two graphs.

* A `Node` names its operator and carries parameters. Three of its fields are derived: they are
  written when shapes are propagated and are not read by any check.
* An `Edge` leads from one node to another. A normal edge brings the input of its target; residual
  and sum edges add to the target's output.
-/

namespace LayerGraph
set_option autoImplicit false

/-- A node of a graph. -/
structure Node where
  id : String
  operatorId : String
  label : String := ""
  params : Params := .empty
  isPipeline : Bool := false
  /-- Derived: the shape of the output. -/
  outputShape : Option Shape := none
  /-- Derived: the type of the output. -/
  outputType : Option SemanticType := none
  /-- Derived: all types of the output. -/
  outputTypes : List SemanticType := []
  /-- Where the editor shows the node. -/
  position : Json := .null

def Node.mode (n : Node) : Mode := if n.isPipeline then .pipeline else .architecture

/-- What an edge brings to its target. -/
inductive EdgeKind
  | normal
  | residual
  | sum
  deriving DecidableEq, Repr

namespace EdgeKind

def word : EdgeKind → String
  | normal => "normal"
  | residual => "residual"
  | sum => "sum"

def name : EdgeKind → String
  | normal => "Normal"
  | residual => "Residual"
  | sum => "Sum"

def find? (word : String) : Option EdgeKind := [normal, residual, sum].find? (·.word == word)

end EdgeKind

/-- An edge of a graph. -/
structure Edge where
  id : String
  source : String
  target : String
  kind : EdgeKind := .normal
  sourceHandle : Option String := none
  targetHandle : Option String := none
  deriving DecidableEq, Repr

/-- The nodes and edges of a graph, in the order in which they were drawn. -/
structure Graph where
  nodes : List Node := []
  edges : List Edge := []

/-- The two graphs of a project. -/
structure Project where
  architecture : Graph
  pipeline : Graph := {}

end LayerGraph
