import LayerGraph.Document.Basic
/-!
# Faults

A fault is a cause for which a graph, an edge or a configuration is refused.

* `Fault` lists the causes; each carries what its message needs.
* `Complaint` is the form in which a fault is reported: one of nine kinds with its texts.
  `Complaint.message` writes the report.
* `Fault.complaint` puts a cause into words.
-/

namespace LayerGraph
set_option autoImplicit false

/-! ## Reports of faults -/

/-- The kinds of complaints. -/
inductive ComplaintKind
  | structural
  | connectivity
  | typeMismatch
  | shapeMismatch
  | parameter
  | workflowOrder
  | cycle
  | unknownOperator
  | render
  deriving DecidableEq, Repr

def ComplaintKind.word : ComplaintKind → String
  | structural => "structural"
  | connectivity => "connectivity"
  | typeMismatch => "typeMismatch"
  | shapeMismatch => "shapeMismatch"
  | parameter => "parameter"
  | workflowOrder => "workflowOrder"
  | cycle => "cycle"
  | unknownOperator => "unknownOperator"
  | render => "render"

/-- A fault as it is reported. -/
inductive Complaint
  | structural (text : String)
  | connectivity (text : String)
  | typeMismatch (text : String)
  | shapeMismatch (node reason : String)
  | parameter (node reason : String)
  | workflowOrder (text : String)
  | cycle (node : String)
  | unknownOperator (node operator : String)
  | render (context cause : String)
  deriving DecidableEq, Repr

namespace Complaint

def kind : Complaint → ComplaintKind
  | structural _ => .structural
  | connectivity _ => .connectivity
  | typeMismatch _ => .typeMismatch
  | shapeMismatch _ _ => .shapeMismatch
  | parameter _ _ => .parameter
  | workflowOrder _ => .workflowOrder
  | cycle _ => .cycle
  | unknownOperator _ _ => .unknownOperator
  | render _ _ => .render

def message : Complaint → String
  | structural text => "structural error: " ++ text
  | connectivity text => "connectivity error: " ++ text
  | typeMismatch text => "type mismatch: " ++ text
  | shapeMismatch node reason => "shape mismatch at node " ++ node ++ ": " ++ reason
  | parameter node reason => "parameter error at node " ++ node ++ ": " ++ reason
  | workflowOrder text => "workflow order error: " ++ text
  | cycle node =>
    "graph contains a cycle through node " ++ node ++ "; networks must be acyclic (DAG)"
  | unknownOperator node operator =>
    "unknown operator '" ++ operator ++ "' on node " ++ node
  | render context cause => "failed to render program: " ++ context ++ ": " ++ cause

end Complaint

/-! ## Causes -/

/-- An end of an edge. -/
inductive EndRole
  | source
  | target
  deriving DecidableEq, Repr

def EndRole.word : EndRole → String
  | source => "source"
  | target => "target"

/-- Whether an output is laid out over space or flat. -/
inductive Layout
  | spatial
  | flat
  deriving DecidableEq, Repr

def Layout.word : Layout → String
  | spatial => "spatial"
  | flat => "flat"

/-- The layout of a shape: flat at rank two and spatial above. -/
def Layout.ofShape? (s : Shape) : Option Layout :=
  if s.rank = 2 then some .flat else if 3 ≤ s.rank then some .spatial else none

/-- Why the shape that an edge brings does not suit its target. -/
inductive EdgeShapeFault
  /-- A dense consumer reads spatial data; the shape is known only after propagation. -/
  | needsFlatten (source : String) (layout : Layout) (shape : Option Shape) (label : String)
  /-- A spatial consumer reads flat data. -/
  | needsReshape (source : String) (layout : Layout) (shape : Option Shape) (label : String)
  /-- The number of features that the user set is not the one provided. -/
  | features (declared : Int) (source : String) (provided : Int)
  /-- What is added to an output has another shape. -/
  | addend (kind : EdgeKind) (source : String) (added output : Shape)
  /-- The rule of the target refuses its inputs. -/
  | rule (fault : RuleFault)
  deriving DecidableEq, Repr

/-- An output in a message: by its layout, and by its shape if it is known. -/
def outputText (layout : Layout) : Option Shape → String
  | some shape => layout.word ++ " shape " ++ shape.text
  | none => layout.word ++ " tensors"

def EdgeShapeFault.message : EdgeShapeFault → String
  | needsFlatten source layout shape label =>
    "'" ++ source ++ "' outputs " ++ outputText layout shape
      ++ "; insert a Flatten layer before " ++ label
  | needsReshape source layout shape label =>
    "'" ++ source ++ "' outputs " ++ outputText layout shape ++ "; " ++ label
      ++ " needs it reshaped to [B, C, H, W]"
  | features declared source provided =>
    "in_features is set to " ++ declared.repr ++ " but '" ++ source ++ "' provides "
      ++ provided.repr ++ " features"
  | addend kind source added output =>
    kind.name ++ " connection from '" ++ source ++ "' adds shape " ++ added.text
      ++ " to output " ++ output.text
  | rule fault => fault.message

/-- What is wrong with a configuration. -/
inductive SettingsProblem
  | className (name : String)
  | fallbackLoss (id : String)
  | unknownLoss (id : String)
  | notPositive
  deriving DecidableEq, Repr

def SettingsProblem.message : SettingsProblem → String
  | className name => "model_class_name '" ++ name ++ "' is not a Python identifier"
  | fallbackLoss id => "fallback_loss '" ++ id ++ "' is not a loss operator"
  | unknownLoss id => "unknown loss '" ++ id ++ "'"
  | notPositive => "log_interval, default_epochs and default_batch_size must be positive"

/-- A cause for which a graph, an edge or a configuration is refused. -/
inductive Fault
  | duplicateNode (id : String)
  | noDataset
  | missingEnd (role : EndRole) (id : String)
  | selfLoop (id : String)
  | intoDataset (target : String)
  | wrongGraph (id : String) (mode : Mode)
  | betweenGraphs (source : String) (sourceMode : Mode) (target : String) (targetMode : Mode)
  | alreadyConnected (source target : String)
  | secondDefaultInput (target : String)
  | refusedType (source : String) (produced : List SemanticType) (target label : String)
  | refusedWorkflowType (source : String) (produced : List SemanticType) (target : String)
      (expected : Option SemanticType)
  | callbackFeeds (source target : String)
  | wrongSuccessor (source : String) (producer : Category) (target : String) (consumer : Category)
  | tooFewOperands (label id : String) (count : Nat)
  | noDefaultInput (id : String)
  | fedFromOutside (source target root : String)
  | noLayers (root : String)
  | noInput (id : String)
  | noConstructor (operator : String)
  | vanished (id : String)
  | noOptimizer (operator : String)
  | cycle (id : String)
  | unknownOperator (node operator : String)
  | param (node : String) (problem : ParamProblem)
  | datasetRule (node : String) (fault : RuleFault)
  | rule (node : String) (fault : RuleFault)
  | edgeShape (target : String) (fault : EdgeShapeFault)
  | settings (problem : SettingsProblem)
  deriving DecidableEq, Repr

namespace Fault

def complaint : Fault → Complaint
  | duplicateNode id => .structural ("duplicate node id '" ++ id ++ "'")
  | noDataset => .structural "no dataset node found; add a dataset node as the graph root"
  | missingEnd role id => .structural (role.word ++ " node '" ++ id ++ "' does not exist")
  | selfLoop id => .structural ("node '" ++ id ++ "' cannot connect to itself")
  | intoDataset target =>
    .structural
      ("dataset node '" ++ target ++ "' is a source only and cannot receive connections")
  | wrongGraph id mode => .structural ("node '" ++ id ++ "' belongs to the " ++ mode.name ++ " graph")
  | betweenGraphs source sourceMode target targetMode =>
    .typeMismatch
      ("cannot connect " ++ sourceMode.name ++ " node '" ++ source ++ "' to " ++ targetMode.name
        ++ " node '" ++ target ++ "'")
  | alreadyConnected source target =>
    .connectivity ("'" ++ source ++ "' is already connected to '" ++ target ++ "'")
  | secondDefaultInput target =>
    .connectivity
      ("'" ++ target ++ "' already has a default input; combine branches with a residual or sum "
        ++ "connection or an Add/Concatenate node")
  | refusedType source produced target label =>
    .typeMismatch
      ("'" ++ source ++ "' produces " ++ SemanticType.listText produced ++ " but '" ++ target
        ++ "' (" ++ label ++ ") does not accept it")
  | refusedWorkflowType source produced target expected =>
    .typeMismatch
      ("'" ++ source ++ "' produces " ++ SemanticType.listText produced ++ " but '" ++ target
        ++ "' expects " ++ expected.elim "no input" (·.word))
  | callbackFeeds source target =>
    .workflowOrder
      ("callback node '" ++ source ++ "' is terminal and cannot feed '" ++ target ++ "'")
  | wrongSuccessor source producer target consumer =>
    .workflowOrder
      (producer.name ++ " node '" ++ source ++ "' cannot feed " ++ consumer.name ++ " node '"
        ++ target ++ "'; allowed successors are " ++ Category.listText producer.successors)
  | tooFewOperands label id count =>
    .connectivity
      (label ++ " node '" ++ id ++ "' needs at least two inputs, got " ++ count.repr)
  | noDefaultInput id =>
    .connectivity ("'" ++ id ++ "' has no default input; connect it with a normal edge")
  | fedFromOutside source target root =>
    .connectivity
      ("'" ++ source ++ "' feeds '" ++ target ++ "' but is not reachable from dataset '" ++ root
        ++ "'")
  | noLayers root => .connectivity ("dataset '" ++ root ++ "' has no downstream layers")
  | noInput id => .connectivity ("node " ++ id ++ " has no input")
  | noConstructor operator => .structural ("operator '" ++ operator ++ "' has no constructor")
  | vanished id => .structural ("node " ++ id ++ " vanished from the graph")
  | noOptimizer operator => .structural ("optimizer '" ++ operator ++ "' missing from the registry")
  | cycle id => .cycle id
  | unknownOperator node operator => .unknownOperator node operator
  | param node problem => .parameter node problem.message
  | datasetRule node fault => .parameter node fault.message
  | rule node fault => .shapeMismatch node fault.message
  | edgeShape target fault => .shapeMismatch target fault.message
  | settings problem => .parameter "config" problem.message

def kind (fault : Fault) : ComplaintKind := fault.complaint.kind

def message (fault : Fault) : String := fault.complaint.message

end Fault
end LayerGraph
