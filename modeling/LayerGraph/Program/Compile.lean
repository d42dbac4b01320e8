import LayerGraph.Program.Text
import LayerGraph.Validation.Report
/-!
# Compiling a project

`Project.compile` writes the program of a project. The settings are tested first and then the whole
project; the first fault is the answer. After that the network is ordered, its shapes are
propagated, and the model class, the criterion and the training part are planned.
-/

namespace LayerGraph
set_option autoImplicit false

def Emission.dataset (order : Emission) : Except Fault Dataset :=
  let name := (order.root.params.text? "dataset").getD ""
  match Dataset.find? name with
  | some dataset => .ok dataset
  | none => .error (.datasetRule order.root.id (.unknownDataset name))

/-- The training criterion: the loss node of the network, or the operator that the settings name.
That it is a loss is for `Settings.validate` to test. -/
def Emission.criterion (order : Emission) (settings : Settings) : Except Fault Expr :=
  match order.loss with
  | some loss => constructorCall loss.operator loss.params
  | none =>
    match Catalog.find? .architecture settings.fallbackLoss with
    | some operator => constructorCall operator operator.defaults
    | none => .error (.settings (.unknownLoss settings.fallbackLoss))

/-- The training plan of a pipeline; without nodes there is none. -/
def Graph.training (pipeline : Graph) (settings : Settings) (dataset : Dataset) :
    Except Fault (Option TrainingPlan) :=
  if pipeline.nodes.isEmpty then .ok none
  else do
    let net ← Network.ofGraph pipeline.nodes pipeline.edges
    let plan ← net.training settings dataset
    .ok (some plan)

/-- The program of graphs that have passed validation. -/
def Project.program (p : Project) (settings : Settings) : Except Fault Program := do
  let net ← Network.ofGraph p.architecture.nodes p.architecture.edges
  let order ← net.emission
  let overlay ← propagate p.architecture.nodes p.architecture.edges
  let model ← order.model overlay
  let dataset ← order.dataset
  let criterion ← order.criterion settings
  let training ← p.pipeline.training settings dataset
  .ok { className := settings.modelClassName, model, criterion, training }

def Project.compile (p : Project) (settings : Settings) : Except Fault String := do
  settings.validate
  let _ ← p.report.result
  let program ← p.program settings
  .ok program.text

end LayerGraph
