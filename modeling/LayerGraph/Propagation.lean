import LayerGraph.Network.Order
/-!
# Propagation of shapes and types

Shapes are computed from the root on: the rule of a node turns the shapes of its operands into its
own. What is computed stands in an overlay beside the nodes, until it is applied to them.

* `Propagation.outcome?` is what the rule of a node gives over an overlay; nothing when the node
  is detached, so that no shape is due.
* `Network.propagateAll` goes through the nodes in topological order, records what the rules give
  and collects the faults; a node with a fault gets no shape.
* `propagatePartial` does so for drawn nodes and edges, and `propagate` takes the first fault as
  its own.
* `Propagation.apply` writes an overlay into the derived fields and the parameters of nodes.
-/

namespace LayerGraph
set_option autoImplicit false

/-- What is computed beside the nodes, by node id. -/
structure Propagation where
  shapes : Table Shape := .empty
  types : Table SemanticType := .empty
  typeSets : Table (List SemanticType) := .empty
  /-- Parameters that follow from the shapes of the inputs. -/
  learned : Table Params := .empty
  deriving DecidableEq

namespace Propagation

/-! ## Reading an overlay -/

def shape? (overlay : Propagation) (id : String) : Option Shape := overlay.shapes.get? id

def typesOf (overlay : Propagation) (id : String) : List SemanticType :=
  (overlay.typeSets.get? id).getD []

/-- The parameters of a node: those learned, over those set, over the defaults. -/
def effectiveParams (overlay : Propagation) (p : Placed) : Params :=
  (p.operator.resolve p.node.params).overlay ((overlay.learned.get? p.id).getD .empty)

def applyTo (overlay : Propagation) (n : Node) : Node :=
  { n with
    outputShape := overlay.shapes.get? n.id
    outputType := overlay.types.get? n.id
    outputTypes := overlay.typesOf n.id
    params := n.params.overlay ((overlay.learned.get? n.id).getD .empty) }

def apply (overlay : Propagation) (nodes : List Node) : List Node := nodes.map overlay.applyTo

/-! ## Computing an overlay -/

def recordTypes (overlay : Propagation) (p : Placed) : Propagation :=
  { overlay with
    types := p.operator.outputType.elim overlay.types (overlay.types.insert p.id ·)
    typeSets :=
      if p.operator.outputTypes.isEmpty then overlay.typeSets
      else overlay.typeSets.insert p.id p.operator.outputTypes }

def record (overlay : Propagation) (p : Placed) (result : RuleResult) : Propagation :=
  { overlay.recordTypes p with
    shapes := overlay.shapes.insert p.id result.shape
    learned :=
      if result.learned.isEmpty then overlay.learned
      else overlay.learned.insert p.id (Table.ofList result.learned) }

/-- The shapes of the operands of a node, if there are enough operands and each has a shape. -/
def inputs? (overlay : Propagation) (net : Network) (p : Placed) : Option (List Shape) :=
  let operands := net.operands p.id
  if operands.isEmpty ∨ (p.operator.isMerge ∧ operands.length < 2) then none
  else operands.mapM overlay.shape?

/-- What the rule of a node gives, if its operands have shapes; a dataset needs none. -/
def outcome? (overlay : Propagation) (net : Network) (p : Placed) :
    Option (Except Fault RuleResult) :=
  let params := p.operator.resolve p.node.params
  if p.operator.rule = .dataset then
    some ((p.operator.rule.apply params []).mapError (.datasetRule p.id))
  else
    (overlay.inputs? net p).map fun inputs =>
      (p.operator.rule.apply params inputs).mapError (.rule p.id)

/-- One more node: a pipeline node has types only. -/
def advance (net : Network) (state : Propagation × List Fault) (p : Placed) :
    Propagation × List Fault :=
  if p.node.isPipeline then (state.1.recordTypes p, state.2)
  else
    match state.1.outcome? net p with
    | none => state
    | some (.ok result) => (state.1.record p result, state.2)
    | some (.error fault) => (state.1, state.2 ++ [fault])

end Propagation

/-- The overlay of a network, with the faults of rules in topological order. -/
def Network.propagateAll (net : Network) : Except Fault (Propagation × List Fault) := do
  let order ← net.topological
  .ok ((order.filterMap net.find?).foldl (Propagation.advance net) ({}, []))

/-- The overlay of drawn nodes and edges, with the faults of rules. -/
def propagatePartial (nodes : List Node) (edges : List Edge) :
    Except Fault (Propagation × List Fault) := do
  let net ← Network.ofGraph nodes edges
  net.propagateAll

/-- The overlay of drawn nodes and edges, when no rule has a fault. -/
def propagate (nodes : List Node) (edges : List Edge) : Except Fault Propagation := do
  match ← propagatePartial nodes edges with
  | (overlay, []) => .ok overlay
  | (_, fault :: _) => .error fault

end LayerGraph
