import LayerGraph.Param.Declaration
import LayerGraph.Shape.Rule
/-!
# Operators

An operator is what a node of a graph stands for: a layer, a loss, a transform, an optimizer. It
says what it consumes and produces, which parameters it has and how it transforms shapes.

* `Operator.accepts` decides whether produced types suit an operator.
* `Operator.resolve` sets the parameters of a node over the defaults of its operator.
* `Operator.problems` lists what is wrong with the parameters of a node.
* `Operator.presentedTo` gives the types that one operator presents to another.
-/

namespace LayerGraph
set_option autoImplicit false

/-- The two graphs of a project. -/
inductive Mode
  | architecture
  | pipeline
  deriving DecidableEq, Repr

def Mode.name : Mode → String
  | architecture => "Architecture"
  | pipeline => "Pipeline"

/-- What kind of operator it is; the first ten belong to the architecture. -/
inductive Category
  | input
  | layer
  | activation
  | pooling
  | normalization
  | regularization
  | utility
  | merge
  | block
  | loss
  | dataset
  | dataAugmentation
  | training
  | optimization
  | metrics
  | callbacks
  deriving DecidableEq, Repr

namespace Category

def name : Category → String
  | input => "Input"
  | layer => "Layer"
  | activation => "Activation"
  | pooling => "Pooling"
  | normalization => "Normalization"
  | regularization => "Regularization"
  | utility => "Utility"
  | merge => "Merge"
  | block => "Block"
  | loss => "Loss"
  | dataset => "Dataset"
  | dataAugmentation => "DataAugmentation"
  | training => "Training"
  | optimization => "Optimization"
  | metrics => "Metrics"
  | callbacks => "Callbacks"

def all : List Category :=
  [input, layer, activation, pooling, normalization, regularization, utility, merge, block, loss,
   dataset, dataAugmentation, training, optimization, metrics, callbacks]

def find? (name : String) : Option Category := all.find? (·.name == name)

/-- The categories that a pipeline node of this category may feed. -/
def successors : Category → List Category
  | dataset => [dataAugmentation, training]
  | dataAugmentation => [dataAugmentation, training]
  | training => [optimization, metrics, callbacks]
  | optimization => [callbacks]
  | metrics => [callbacks]
  | _ => []

def isRoot (c : Category) : Bool := c = input || c = dataset

def listText (categories : List Category) : String :=
  "[" ++ ", ".intercalate (categories.map name) ++ "]"

end Category

/-- What an operator consumes or produces, apart from any shape. -/
inductive SemanticType
  | dataset
  | tensor
  | loss
  | prediction
  | trainable
  | optimizer
  | metric
  | callback
  deriving DecidableEq, Repr

namespace SemanticType

def word : SemanticType → String
  | dataset => "dataset"
  | tensor => "tensor"
  | loss => "loss"
  | prediction => "prediction"
  | trainable => "trainable"
  | optimizer => "optimizer"
  | metric => "metric"
  | callback => "callback"

def name : SemanticType → String
  | dataset => "Dataset"
  | tensor => "Tensor"
  | loss => "Loss"
  | prediction => "Prediction"
  | trainable => "Trainable"
  | optimizer => "Optimizer"
  | metric => "Metric"
  | callback => "Callback"

def all : List SemanticType :=
  [dataset, tensor, loss, prediction, trainable, optimizer, metric, callback]

def find? (word : String) : Option SemanticType := all.find? (·.word == word)

def listText (types : List SemanticType) : String :=
  "[" ++ ", ".intercalate (types.map name) ++ "]"

end SemanticType

/-- What a node can stand for. -/
structure Operator where
  id : String
  category : Category
  label : String
  description : String
  params : List ParamDecl := []
  /-- The type that it consumes, if it consumes any. -/
  inputType : Option SemanticType := none
  /-- Further types that it accepts. -/
  acceptedTypes : List SemanticType := []
  /-- The type that it produces, if there is only one. -/
  outputType : Option SemanticType := none
  /-- All types that it may produce. -/
  outputTypes : List SemanticType := []
  rule : Rule := .preserve
  /-- What the program calls to construct it. -/
  callee : Option String := none
  deriving DecidableEq, Repr

namespace Operator

def isRoot (o : Operator) : Bool := o.category.isRoot

def isLoss (o : Operator) : Bool := o.category = .loss

/-- The operator takes all of its incoming edges as operands. -/
def isMerge (o : Operator) : Bool := o.rule.isMerge

def block? (o : Operator) : Option Block :=
  match o.rule with
  | .block kind => some kind
  | _ => none

def accepts (o : Operator) (produced : List SemanticType) : Bool :=
  produced.any fun t => o.inputType = some t || o.acceptedTypes.contains t

/-- The types that a producer presents to one consumer: a training configuration is a prediction
for metrics and something trainable for optimizers. -/
def presentedTo (producer consumer : Operator) : List SemanticType :=
  if producer.category = .training ∧ consumer.category = .metrics then [.prediction]
  else if producer.category = .training ∧ consumer.category = .optimization then [.trainable]
  else producer.outputTypes

/-! ## Parameters -/

def param? (o : Operator) (name : String) : Option ParamDecl := o.params.find? (·.name == name)

def defaults (o : Operator) : Params :=
  Table.ofList (o.params.filterMap fun decl => decl.default.map (decl.name, ·))

/-- The parameters of a node set over the defaults. -/
def resolve (o : Operator) (params : Params) : Params := o.defaults.overlay params

def declProblem? (params : Params) (decl : ParamDecl) : Option ParamProblem :=
  match params.get? decl.name with
  | some value =>
    match decl.check value with
    | .ok () => none
    | .error problem => some problem
  | none => if decl.required && decl.default.isNone then some (.missing decl.name) else none

/-- What is wrong with the parameters of a node: first the declared parameters in the order of
their declarations, then the names that are not declared. -/
def problems (o : Operator) (params : Params) : List ParamProblem :=
  o.params.filterMap (declProblem? params)
    ++ (params.names.filter fun name => (o.param? name).isNone).map (.undeclared · o.id)

/-! ## The palette -/

def kindFields : ParamKind → List (String × Json)
  | .int least greatest =>
    [("kind", .string "int"), ("min", least.elim .null .int), ("max", greatest.elim .null .int)]
  | .float least greatest =>
    let bound (b : Option Binary64) : Json := b.elim .null fun value => .number (.float value)
    [("kind", .string "float"), ("min", bound least), ("max", bound greatest)]
  | .bool => [("kind", .string "bool")]
  | .choice options =>
    [("kind", .string "enum"), ("options", .array (options.map .string))]

def declJson (decl : ParamDecl) : Json :=
  .object (("name", .string decl.name) :: kindFields decl.kind
    ++ ("required", .bool decl.required)
    :: (decl.default.map fun value => ("default", value.json)).toList)

def json (o : Operator) : Json :=
  .object
    [("id", .string o.id), ("category", .string o.category.name), ("label", .string o.label),
     ("description", .string o.description), ("paramSchema", .array (o.params.map declJson)),
     ("declaredInputType", o.inputType.elim .null (.string ·.word)),
     ("acceptedTypes", .array (o.acceptedTypes.map (.string ·.word))),
     ("declaredOutputType", o.outputType.elim .null (.string ·.word)),
     ("declaredOutputTypes", .array (o.outputTypes.map (.string ·.word)))]

end Operator
end LayerGraph
