import LayerGraph.Program.Model
import LayerGraph.Settings
/-!
# The training part of a program

`Network.training` plans the training that a pipeline describes: transforms in topological order,
the loaders, the optimizer, the metrics and the callbacks. Where the pipeline leaves something out,
the settings or the defaults of the operators stand in; of several nodes for one part the first in
topological order counts.
-/

namespace LayerGraph
set_option autoImplicit false

/-! ## Plans -/

/-- A metric: its variable, the name that it is printed under and its constructor. -/
structure MetricPlan where
  name : String
  label : String
  constructor : Expr
  deriving Repr

/-- What a callback watches: a loss should fall and an accuracy should rise. -/
inductive Monitor
  | falling (name : String)
  | rising (name : String)
  deriving DecidableEq, Repr

namespace Monitor

/-- The value of a name; only the accuracy should rise. -/
def ofName (name : String) : Monitor :=
  if name = "val_accuracy" then rising name else falling name

def name : Monitor → String
  | falling name => name
  | rising name => name

/-- The score with which the search for a better one begins. -/
def initial : Monitor → String
  | falling _ => "float('inf')"
  | rising _ => "float('-inf')"

/-- The comparison that says that a score is better. -/
def better : Monitor → String
  | falling _ => "<"
  | rising _ => ">"

def margin : Monitor → String
  | falling _ => "-"
  | rising _ => "+"

end Monitor

/-- Saving the weights: after every epoch or only the best, into a directory. -/
structure CheckpointPlan where
  monitor : Monitor
  bestOnly : Bool
  directory : String
  deriving Repr

/-- Ending the training when a value stops getting better. -/
structure StoppingPlan where
  monitor : Monitor
  patience : Int
  margin : String
  deriving Repr

/-- The training part of a program. -/
structure TrainingPlan where
  dataRoot : String
  transforms : List Expr
  datasetClass : String
  trainArgs : String
  testArgs : String
  batchSize : Int
  workers : Int
  pinMemory : Bool
  shuffle : Bool
  device : String
  optimizer : Expr
  metrics : List MetricPlan
  epochs : Int
  logInterval : Nat
  checkpoint : Option CheckpointPlan
  stopping : Option StoppingPlan
  /-- The number of epochs between two reports of the learning rate. -/
  rateReport : Option Int
  deriving Repr

/-! ## Parts -/

/-- The parameters of a node over the defaults of its operator. -/
def Placed.params (p : Placed) : Params := p.operator.resolve p.node.params

def flag (params : Params) (name : String) (fallback : Bool) : Bool :=
  (params.bool? name).getD fallback

/-- The transforms; images become tensors first, unless a node does that. -/
def transformPlan (nodes : List Placed) : Except Fault (List Expr) := do
  let calls ← nodes.mapM fun p => constructorCall p.operator p.params
  if nodes.any (·.operator.id == "totensor") then .ok calls
  else .ok (.call "transforms.ToTensor" [] [] :: calls)

/-- The arguments that select the training and the test part of a dataset. -/
def splitArgs (split : DatasetSplit) (download : Bool) : String × String :=
  let literal := ParamValue.boolLiteral download
  match split with
  | .trainFlag => ("train=True, download=" ++ literal, "train=False, download=" ++ literal)
  | .named => ("split='train'", "split='val'")

def devicePlan (params : Params) : String :=
  match params.text? "device" with
  | some "cpu" => "torch.device('cpu')"
  | some "cuda" => "torch.device('cuda')"
  | _ => "torch.device('cuda' if torch.cuda.is_available() else 'cpu')"

/-- The keyword arguments of an optimizer; the two decay rates are one tuple. -/
def optimizerArgs (operator : Operator) (params : Params) : List (String × String) :=
  operator.params.filterMap fun decl =>
    (params.get? decl.name).bind fun value =>
      if decl.name = "beta1" then
        let second := (params.get? "beta2").elim "0.999" (·.literal)
        some ("betas", "(" ++ value.literal ++ ", " ++ second ++ ")")
      else if decl.name = "beta2" then none
      else some (decl.name, value.literal)

/-- The constructor call of an optimizer over all parameters of the model. -/
def optimizerCall (operator : Operator) (params : Params) : Except Fault Expr :=
  match operator.callee with
  | some callee =>
    .ok (.call callee [.var "model.parameters()"] (optimizerArgs operator params))
  | none => .error (.noConstructor operator.id)

/-- The optimizer; without a node it is Adam with its defaults. -/
def optimizerPlan : List Placed → Except Fault Expr
  | p :: _ => optimizerCall p.operator p.params
  | [] =>
    match Catalog.find? .pipeline "adam" with
    | some operator => optimizerCall operator operator.defaults
    | none => .error (.noOptimizer "adam")

theorem optimizerPlan_nil :
    optimizerPlan [] = optimizerCall Operator.Pipeline.adam Operator.Pipeline.adam.defaults := rfl

/-- The keyword arguments of a metric; the number of classes is that of the dataset unless it is
set. -/
def metricArgs (params : Params) (dataset : Dataset) : List (String × String) :=
  let task := (params.text? "task").getD "multiclass"
  let classes := ((params.int? "num_classes").getD dataset.classes).repr
  let count :=
    if task = "binary" then []
    else if task = "multilabel" then [("num_labels", classes)]
    else [("num_classes", classes)]
  let average := ((params.get? "average").map fun value => ("average", value.literal)).toList
  ("task", Literal.quoted task) :: count ++ average

def metricPlans (dataset : Dataset) : Names → List Placed → Except Fault (List MetricPlan)
  | _, [] => .ok []
  | names, p :: rest =>
    match p.operator.callee with
    | none => .error (.noConstructor p.operator.id)
    | some callee => do
      let (name, names) := names.ident p.id
      let more ← metricPlans dataset names rest
      .ok (⟨name ++ "_metric", p.operator.id, .call callee [] (metricArgs p.params dataset)⟩ :: more)

/-- The parameters of the first callback of an operator. -/
def callback? (nodes : List Placed) (operator : String) : Option Params :=
  (nodes.find? (·.operator.id == operator)).map Placed.params

def monitorOf (params : Params) : Monitor := .ofName ((params.text? "monitor").getD "val_loss")

def checkpointPlan (directory : String) (params : Params) : CheckpointPlan :=
  ⟨monitorOf params, flag params "save_best_only" true, Literal.quoted directory⟩

def stoppingPlan (params : Params) : StoppingPlan :=
  ⟨monitorOf params, (params.int? "patience").getD 5,
    (params.get? "min_delta").elim "0.0" (·.literal)⟩

/-! ## The plan -/

/-- The training that the pipeline of a network describes, on a dataset. -/
def Network.training (net : Network) (settings : Settings) (dataset : Dataset) :
    Except Fault TrainingPlan := do
  let order := (← net.topological).filterMap net.find?
  let ofCategory (category : Category) := order.filter (·.operator.category = category)
  let transforms ← transformPlan (ofCategory .dataAugmentation)
  let source := ((ofCategory .dataset).head?.map Placed.params).getD .empty
  let config := ((ofCategory .training).head?.map Placed.params).getD .empty
  let optimizer ← optimizerPlan (ofCategory .optimization)
  let metrics ← metricPlans dataset {} (ofCategory .metrics)
  let callbacks := ofCategory .callbacks
  let (trainArgs, testArgs) := splitArgs dataset.split (flag source "download" true)
  .ok
    { dataRoot := Literal.quoted settings.dataRoot
      transforms
      datasetClass := dataset.className
      trainArgs
      testArgs
      batchSize := (config.int? "batch_size").getD settings.defaultBatchSize
      workers := (config.int? "num_workers").getD 2
      pinMemory := flag config "pin_memory" true
      shuffle := flag source "shuffle" true
      device := devicePlan config
      optimizer
      metrics
      epochs := (config.int? "epochs").getD settings.defaultEpochs
      logInterval := settings.logInterval
      checkpoint := (callback? callbacks "modelcheckpoint").map
        (checkpointPlan settings.checkpointDir)
      stopping := (callback? callbacks "earlystopping").map stoppingPlan
      rateReport := (callback? callbacks "lrmonitor").map fun params =>
        (params.int? "log_every_n_epochs").getD 1 }

end LayerGraph
