import LayerGraph.Validation.Edge
/-!
# Validating a project

`Project.report` tests both graphs before a program is written. A report lists faults, which
prevent the program, warnings, which do not, and hints about what is missing.

The tests of a graph build on each other. Nodes come first; if one has no operator in this graph,
nothing else is tested. Then come the edges and the absence of cycles; only an architecture without
any fault so far has its shapes propagated and every edge compared with them.
-/

namespace LayerGraph
set_option autoImplicit false

/-! ## Reports -/

/-- Something that the user may want to know. -/
inductive Warning
  | manyDatasets (count : Nat) (root : String)
  | skipped (id root : String)
  | noLoss
  | manyLosses (count : Nat) (used : String)
  | noPipelineDataset
  | manyPipelineDatasets (count : Nat) (root : String)
  | notConnected (id root : String)
  | noOptimizer
  | manyOptimizers (count : Nat)
  | noTraining
  | manyTrainings (count : Nat)
  | noToTensor
  | repeatedCallback (operator : String)
  deriving DecidableEq, Repr

def Warning.message : Warning → String
  | manyDatasets count root =>
    count.repr ++ " dataset nodes found; '" ++ root ++ "' is used as the root"
  | skipped id root =>
    "'" ++ id ++ "' is not reachable from dataset '" ++ root ++ "' and will be skipped"
  | noLoss => "no loss node found; the configured fallback criterion is used"
  | manyLosses count used => count.repr ++ " loss nodes found; '" ++ used ++ "' is used"
  | noPipelineDataset => "pipeline has no dataset node; transforms run in graph order"
  | manyPipelineDatasets count root =>
    count.repr ++ " pipeline dataset nodes found; '" ++ root ++ "' is used as the root"
  | notConnected id root =>
    "pipeline node '" ++ id ++ "' is not connected to dataset '" ++ root ++ "'"
  | noOptimizer => "no optimizer node found; Adam with default settings is used"
  | manyOptimizers count => count.repr ++ " optimizer nodes found; the first one is used"
  | noTraining => "no training configuration found; default epochs and batch size are used"
  | manyTrainings count =>
    count.repr ++ " training configurations found; the first one is used"
  | noToTensor => "no ToTensor transform found; one is inserted first"
  | repeatedCallback operator =>
    "duplicate '" ++ operator ++ "' callback; the first one is used"

/-- A part that a project may want. -/
inductive Hint
  | dataset
  | layers
  | loss
  | pipelineDataset
  | optimizer
  | training
  deriving DecidableEq, Repr

def Hint.message : Hint → String
  | dataset => "dataset: add a Dataset node as the root of the architecture graph"
  | layers => "layers: connect at least one layer to the dataset node"
  | loss => "loss: add a loss node to choose the training criterion"
  | pipelineDataset =>
    "pipeline dataset: add a Dataset node as the root of the pipeline"
  | optimizer => "optimizer: add an optimizer node after the training configuration"
  | training => "training configuration: add a Training Configuration node"

/-- What a validation found. -/
structure Report where
  faults : List Fault := []
  warnings : List Warning := []
  hints : List Hint := []
  deriving DecidableEq, Repr

namespace Report

/-- The findings of two validations, one after the other. -/
def append (first second : Report) : Report :=
  ⟨first.faults ++ second.faults, first.warnings ++ second.warnings, first.hints ++ second.hints⟩

instance : Append Report := ⟨append⟩

def join (reports : List Report) : Report := reports.foldl (· ++ ·) {}

def ofFault (fault : Fault) : Report := { faults := [fault] }

def ofWarning (warning : Warning) : Report := { warnings := [warning] }

def ofTest : Except Fault Unit → Report
  | .ok () => {}
  | .error fault => ofFault fault

def isValid (r : Report) : Bool := r.faults.isEmpty

/-- The warnings, or the first fault. -/
def result (r : Report) : Except Fault (List Warning) :=
  match r.faults with
  | [] => .ok r.warnings
  | fault :: _ => .error fault

end Report

/-! ## Nodes and edges -/

def nodeReport (mode : Mode) (n : Node) : Report :=
  if n.mode ≠ mode then .ofFault (.wrongGraph n.id n.mode)
  else
    match n.operator with
    | .error fault => .ofFault fault
    | .ok operator => { faults := (operator.problems n.params).map (.param n.id) }

def isResolvable (mode : Mode) (n : Node) : Bool := n.mode = mode && n.operator.isOk

/-- The test of an edge that is already drawn, without shapes. -/
def checkDrawn (nodes : List Node) (edges : List Edge) (edge : Edge) : Except Fault Unit := do
  let ends ← resolveEnds edge nodes
  checkConnection edge ends (otherEdges edge edges)

/-- The findings at the edges of a graph, without shapes. -/
def edgesReport (nodes : List Node) (edges : List Edge) : Report :=
  .join (edges.map fun edge => .ofTest (checkDrawn nodes edges edge))

/-! ## The architecture -/

/-- The findings at a node of the emission order: it has the operands that it needs. -/
def operandReport (order : Emission) (p : Placed) : Report :=
  let count := (order.inputsOf p.id).length
  if p.operator.isMerge then
    if count < 2 then .ofFault (.tooFewOperands p.operator.label p.id count) else {}
  else if count = 0 then .ofFault (.noDefaultInput p.id)
  else {}

/-- An edge into the emission order does not come from a node that is left out. -/
def outsideReport (order : Emission) (edge : Edge) : Report :=
  if order.nodes.any (·.id == edge.target) ∧ order.unreachable.any (·.id == edge.source) then
    .ofFault (.fedFromOutside edge.source edge.target order.root.id)
  else {}

def lossReport (net : Network) (order : Emission) : Report :=
  let count := (net.nodes.filter (·.operator.isLoss)).length
  if count = 0 then { warnings := [.noLoss], hints := [.loss] }
  else if 1 < count then .ofWarning (.manyLosses count (order.loss.elim "" Placed.id))
  else {}

def emissionReport (net : Network) (edges : List Edge) (order : Emission) : Report :=
  let skipped := (order.unreachable.filter fun p => ¬ p.operator.isLoss).map fun p =>
    Warning.skipped p.id order.root.id
  .join (order.nodes.map (operandReport order))
    ++ .join (edges.map (outsideReport order))
    ++ { warnings := skipped }
    ++ (if order.nodes.isEmpty then
          { faults := [.noLayers order.root.id], hints := [.layers] }
        else {})
    ++ lossReport net order

/-- The findings at an architecture whose nodes are placed, without shapes. -/
def flowReport (net : Network) (nodes : List Node) (edges : List Edge) : Report :=
  match net.roots with
  | [] => { faults := [.noDataset], hints := [.dataset] }
  | root :: more =>
    let roots : Report :=
      if more.isEmpty then {} else .ofWarning (.manyDatasets (more.length + 1) root.id)
    roots ++ edgesReport nodes edges
      ++ match net.emission with
        | .error fault => .ofFault fault
        | .ok order => emissionReport net edges order

/-- The test of a drawn edge with the propagated shapes. -/
def checkDrawnShapes (nodes : List Node) (edges : List Edge) (overlay : Propagation)
    (edge : Edge) : Except Fault Unit := do
  let ends ← resolveEnds edge nodes
  checkShapes edge ends (otherEdges edge edges) overlay

def shapesReport (nodes : List Node) (edges : List Edge) : Report :=
  match propagate nodes edges with
  | .error fault => .ofFault fault
  | .ok overlay => .join (edges.map fun edge => .ofTest (checkDrawnShapes nodes edges overlay edge))

def architectureReport (nodes : List Node) (edges : List Edge) : Report :=
  let atNodes := Report.join (nodes.map (nodeReport .architecture))
  if ¬ nodes.all (isResolvable .architecture) then atNodes
  else
    match Network.ofGraph nodes edges with
    | .error fault => atNodes ++ .ofFault fault
    | .ok net =>
      let report := atNodes ++ flowReport net nodes edges
      if report.isValid then report ++ shapesReport nodes edges else report

/-! ## The pipeline -/

def pipelineRootReport (net : Network) : Report :=
  match net.roots with
  | [] => { warnings := [.noPipelineDataset], hints := [.pipelineDataset] }
  | root :: more =>
    let reachable := net.reachable root.id
    let roots : Report :=
      if more.isEmpty then {} else .ofWarning (.manyPipelineDatasets (more.length + 1) root.id)
    roots ++
      { warnings := (net.nodes.filter (·.id ∉ reachable)).map fun p =>
          .notConnected p.id root.id }

/-- The nodes of a category, in the order of the nodes. -/
def Network.ofCategory (net : Network) (category : Category) : List Placed :=
  net.nodes.filter (·.operator.category = category)

def optimizerReport (net : Network) : Report :=
  match (net.ofCategory .optimization).length with
  | 0 => { warnings := [.noOptimizer], hints := [.optimizer] }
  | 1 => {}
  | count => .ofWarning (.manyOptimizers count)

def trainingReport (net : Network) : Report :=
  match (net.ofCategory .training).length with
  | 0 => { warnings := [.noTraining], hints := [.training] }
  | 1 => {}
  | count => .ofWarning (.manyTrainings count)

/-- The elements of a list that occur before themselves. -/
def repeated : List String → List String → List String
  | _, [] => []
  | before, a :: rest =>
    if a ∈ before then a :: repeated before rest else repeated (a :: before) rest

def pipelinePartsReport (net : Network) : Report :=
  let callbacks := (net.ofCategory .callbacks).map (·.operator.id)
  pipelineRootReport net ++ optimizerReport net ++ trainingReport net
    ++ (if net.nodes.any (·.operator.id == "totensor") then {} else .ofWarning .noToTensor)
    ++ { warnings := (repeated [] callbacks).map .repeatedCallback }

def pipelineReport (nodes : List Node) (edges : List Edge) : Report :=
  let atNodes := Report.join (nodes.map (nodeReport .pipeline))
  if ¬ nodes.all (isResolvable .pipeline) then atNodes
  else
    match Network.ofGraph nodes edges with
    | .error fault => atNodes ++ .ofFault fault
    | .ok net =>
      atNodes ++ edgesReport nodes edges
        ++ match net.checkAcyclic with
          | .error fault => .ofFault fault
          | .ok () => pipelinePartsReport net

/-! ## The project -/

/-- The findings at one graph of a project; a pipeline without nodes and edges is not tested. -/
def Project.graphReport (p : Project) : Mode → Report
  | .architecture => architectureReport p.architecture.nodes p.architecture.edges
  | .pipeline =>
    if p.pipeline.nodes.isEmpty ∧ p.pipeline.edges.isEmpty then {}
    else pipelineReport p.pipeline.nodes p.pipeline.edges

def Project.report (p : Project) : Report :=
  p.graphReport .architecture ++ p.graphReport .pipeline

end LayerGraph
