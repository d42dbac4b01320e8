import LayerGraph.Propagation
/-!
# Validating one edge

`validateEdge` decides whether a candidate may join a graph. An edge of the graph with the same id
is taken for the candidate itself, so an edge that is already drawn can be validated again.

The tests come in this order, and the first that fails gives the fault:

* `resolveEnds` finds both ends;
* `checkConnection` holds the rules that need no shapes;
* `closesCycle` looks for a way back from the target;
* `checkShapes` compares the propagated shapes with what the target expects. It is left out for
  pipelines, and where the graph without the candidate has no topological order.
-/

namespace LayerGraph
set_option autoImplicit false

/-! ## Ends -/

/-- The two ends of an edge, with their operators. -/
structure Ends where
  source : Placed
  target : Placed

def findEnd (nodes : List Node) (role : EndRole) (id : String) : Except Fault Node :=
  match nodes.find? (·.id == id) with
  | some node => .ok node
  | none => .error (.missingEnd role id)

/-- The ends of a candidate; they belong to one graph and differ. -/
def resolveEnds (candidate : Edge) (nodes : List Node) : Except Fault Ends := do
  let source ← findEnd nodes .source candidate.source
  let target ← findEnd nodes .target candidate.target
  if source.isPipeline ≠ target.isPipeline then
    .error (.betweenGraphs source.id source.mode target.id target.mode)
  else if source.id = target.id then .error (.selfLoop source.id)
  else
    let producer ← source.operator
    let consumer ← target.operator
    .ok ⟨⟨source, producer⟩, ⟨target, consumer⟩⟩

/-! ## Layouts -/

/-- The layout of what a node always produces, known without any propagated shapes; nodes that
keep the shape of their input have none. -/
def declaredLayout? (p : Placed) : Option Layout :=
  match p.operator.rule with
  | .conv _ => some .spatial
  | .pool _ => some .spatial
  | .adaptivePool => some .spatial
  | .block _ => some .spatial
  | .batchNorm ranks => if 2 ∈ ranks then none else some .spatial
  | .linear => some .flat
  | .flatten =>
    if (p.operator.resolve p.node.params).int? "start_dim" = some 1 then some .flat else none
  | .dataset =>
    ((p.node.params.text? "dataset").bind Dataset.find?).bind fun d => Layout.ofShape? d.shape
  | _ => none

def Rule.isSpatial : Rule → Bool
  | .conv _ => true
  | .pool _ => true
  | .adaptivePool => true
  | .block _ => true
  | .batchNorm ranks => 2 ∉ ranks
  | _ => false

/-- Spatial data may not go into a dense layer, nor flat data into a spatial one. -/
def checkLayout (layout : Layout) (shape : Option Shape) (ends : Ends) : Except Fault Unit :=
  let consumer := ends.target.operator
  if consumer.rule = .linear ∧ layout = .spatial then
    .error (.edgeShape ends.target.id
      (.needsFlatten ends.source.id layout shape consumer.label))
  else if consumer.rule.isSpatial ∧ layout = .flat then
    .error (.edgeShape ends.target.id
      (.needsReshape ends.source.id layout shape consumer.label))
  else .ok ()

/-! ## Rules without shapes -/

def checkArchitecture (candidate : Edge) (ends : Ends) (others : List Edge) :
    Except Fault Unit :=
  let producer := ends.source.operator
  let consumer := ends.target.operator
  if consumer.isRoot then .error (.intoDataset ends.target.id)
  else if candidate.kind = .normal ∧ ¬ consumer.isMerge
      ∧ others.any (fun e => e.target = candidate.target ∧ e.kind = .normal) then
    .error (.secondDefaultInput ends.target.id)
  else if ¬ consumer.accepts producer.outputTypes then
    .error (.refusedType ends.source.id producer.outputTypes ends.target.id consumer.label)
  else if candidate.kind = .normal ∨ consumer.isMerge then
    match declaredLayout? ends.source with
    | some layout => checkLayout layout none ends
    | none => .ok ()
  else .ok ()

def checkWorkflow (ends : Ends) : Except Fault Unit :=
  let producer := ends.source.operator
  let consumer := ends.target.operator
  if producer.category = .callbacks then .error (.callbackFeeds ends.source.id ends.target.id)
  else if consumer.category ∉ producer.category.successors then
    .error
      (.wrongSuccessor ends.source.id producer.category ends.target.id consumer.category)
  else
    let produced := producer.presentedTo consumer
    if consumer.accepts produced then .ok ()
    else
      .error (.refusedWorkflowType ends.source.id produced ends.target.id consumer.inputType)

/-- The rules that need no shapes, for both graphs. -/
def checkConnection (candidate : Edge) (ends : Ends) (others : List Edge) : Except Fault Unit :=
  if others.any fun e => e.source = candidate.source ∧ e.target = candidate.target then
    .error (.alreadyConnected candidate.source candidate.target)
  else if ends.source.node.isPipeline then checkWorkflow ends
  else checkArchitecture candidate ends others

/-- The target already leads to the source. -/
def closesCycle (candidate : Edge) (others : List Edge) : Bool :=
  Search.reaches (others.map fun e => (e.source, e.target)) candidate.target candidate.source

/-! ## Rules with shapes -/

/-- A number of features that the user set has to be the one provided. -/
def checkFeatures (produced : Shape) (ends : Ends) : Except Fault Unit :=
  match ends.target.node.params.int? "in_features", produced.last?.bind Dim.size? with
  | some declared, some provided =>
    if declared = provided then .ok ()
    else .error (.edgeShape ends.target.id (.features declared ends.source.id provided))
  | _, _ => .ok ()

/-- What is added to an output has the shape of the output, where that is known. -/
def checkAddend (candidate : Edge) (ends : Ends) (produced : Shape) (overlay : Propagation) :
    Except Fault Unit :=
  match overlay.shape? ends.target.id with
  | some output =>
    if output = produced then .ok ()
    else
      .error
        (.edgeShape ends.target.id (.addend candidate.kind ends.source.id produced output))
  | none => .ok ()

/-- The layout of a producer without a declared layout, by its shape. -/
def checkProducedLayout (ends : Ends) (produced : Shape) : Except Fault Unit :=
  match declaredLayout? ends.source, Layout.ofShape? produced with
  | none, some layout => checkLayout layout (some produced) ends
  | _, _ => .ok ()

def checkRule (ends : Ends) (inputs : List Shape) : Except Fault Unit :=
  let consumer := ends.target.operator
  match consumer.rule.apply (consumer.resolve ends.target.node.params) inputs with
  | .ok _ => .ok ()
  | .error fault => .error (.edgeShape ends.target.id (.rule fault))

/-- The shapes that other edges bring to the target, where they are known. -/
def otherInputs (candidate : Edge) (others : List Edge) (overlay : Propagation) : List Shape :=
  (others.filter (·.target = candidate.target)).filterMap fun e => overlay.shape? e.source

/-- The rule of the target accepts what the candidate brings. A merge is tested with the other
inputs that have shapes, once there are two. -/
def checkInputs (candidate : Edge) (ends : Ends) (others : List Edge) (overlay : Propagation)
    (produced : Shape) : Except Fault Unit :=
  if ends.target.operator.isMerge then
    let inputs := otherInputs candidate others overlay
    if inputs.isEmpty then .ok () else checkRule ends (inputs ++ [produced])
  else checkRule ends [produced]

/-- What the candidate brings suits its target, by the propagated shapes. -/
def checkShapes (candidate : Edge) (ends : Ends) (others : List Edge) (overlay : Propagation) :
    Except Fault Unit :=
  match overlay.shape? ends.source.id with
  | none => .ok ()
  | some produced =>
    let consumer := ends.target.operator
    if candidate.kind ≠ .normal ∧ ¬ consumer.isMerge then
      checkAddend candidate ends produced overlay
    else do
      checkProducedLayout ends produced
      if consumer.rule = .linear then checkFeatures produced ends
      checkInputs candidate ends others overlay produced

/-! ## The decision -/

def otherEdges (candidate : Edge) (edges : List Edge) : List Edge :=
  edges.filter (·.id != candidate.id)

def validateEdge (candidate : Edge) (nodes : List Node) (edges : List Edge) :
    Except Fault Unit := do
  let others := otherEdges candidate edges
  let ends ← resolveEnds candidate nodes
  checkConnection candidate ends others
  if closesCycle candidate others then .error (.cycle candidate.target)
  else if ends.source.node.isPipeline then .ok ()
  else
    match propagatePartial nodes others with
    | .ok (overlay, _) => checkShapes candidate ends others overlay
    | .error _ => .ok ()

end LayerGraph
