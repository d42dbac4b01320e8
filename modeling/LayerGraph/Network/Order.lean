import LayerGraph.Network.Basic
import LayerGraph.Network.Search
/-!
# Cycles and orders

* `Network.cycleNode?` is a node through which the reported cycle goes: two passes over the
  network, the second against the edges in the reverse order of finishing the first.
* `Network.drain` lists nodes in an order in which a node comes after all sources of its incoming
  edges. A node joins the queue when its last source has been listed; nodes that one source
  releases join in the order of the last edges between them.
* `Network.topological` orders the whole network.
* `Network.emission` orders what can be reached from the root and says which outputs each node
  reads and which are added to its own.
-/

namespace LayerGraph
set_option autoImplicit false

namespace Network

variable (net : Network)

/-! ## Cycles -/

def targets (id : String) : List String := (net.outgoing id).map Edge.target

/-- The targets of the edges out of a node, the edge drawn last first. -/
def latestTargets (id : String) : List String := (net.targets id).reverse

def sources (id : String) : List String := (net.incoming id).map Edge.source

def cycleNode? : Option String :=
  match Search.finishing net.latestTargets net.ids [] net.ids with
  | .error id => some id
  | .ok order => Search.backLink? net.sources net.ids order

def checkAcyclic : Except Fault Unit :=
  match net.cycleNode? with
  | some id => .error (.cycle id)
  | none => .ok ()

/-! ## Topological order -/

/-- The elements of a list, each at the place of its last occurrence. -/
def lastOccurrences : List String → List String
  | [] => []
  | a :: rest => if a ∈ rest then lastOccurrences rest else a :: lastOccurrences rest

theorem length_lastOccurrences_le (names : List String) :
    (lastOccurrences names).length ≤ names.length := by
  induction names with
  | nil => exact Nat.le_refl _
  | cons a rest ih =>
    rw [lastOccurrences]
    split
    · exact Nat.le_succ_of_le ih
    · exact Nat.succ_le_succ ih

/-- The targets of a node that have no source among the pending nodes. -/
def released (pending : List String) (id : String) : List String :=
  (lastOccurrences (net.targets id)).filter fun target =>
    (net.sources target).all (· ∉ pending)

theorem length_released_le (pending : List String) (id : String) :
    (net.released pending id).length ≤ (net.targets id).length :=
  Nat.le_trans (List.length_filter_le _ _) (length_lastOccurrences_le _)

/-- Lists the pending nodes that the queue leads to. -/
def drain (pending : List String) : List String → List String
  | [] => []
  | id :: queue =>
    if id ∈ pending then
      let left := Search.without pending id
      id :: drain left (queue ++ net.released left id)
    else drain pending queue
termination_by queue => Search.work net.targets pending + queue.length
decreasing_by
  · have h := Search.work_without_lt net.targets ‹id ∈ pending›
    have hreleased := net.length_released_le (Search.without pending id) id
    simp only [List.length_append, List.length_cons]
    omega
  · simp

def sourceless : List String := net.ids.filter fun id => (net.incoming id).isEmpty

/-- All nodes in topological order; a node that the order leaves out would be on a cycle. -/
def topological : Except Fault (List String) := do
  net.checkAcyclic
  let order := net.drain net.ids net.sourceless
  if order.length = net.ids.length then .ok order
  else .error (.cycle ((net.ids.find? (· ∉ order)).getD ""))

/-! ## Emission order -/

/-- The ids that can be reached from a node, itself among them. -/
def reachable (id : String) : List String :=
  let met := Search.visit net.targets net.ids [id]
  net.ids.filter (· ∈ met)

/-- The sources of the edges of one kind into a node, by the order of the nodes. -/
def sourcesOfKind (kind : EdgeKind) (id : String) : List String :=
  net.nodes.flatMap fun p =>
    ((net.outgoing p.id).filter fun e => e.target = id ∧ e.kind = kind).map Edge.source

/-- The outputs that edges of one kind add to the output of a node, if there are any; a merge takes
them as operands instead. -/
def addendsAt? (kind : EdgeKind) (p : Placed) : Option (String × List String) :=
  if p.operator.isMerge then none
  else
    match net.sourcesOfKind kind p.id with
    | [] => none
    | sources => some (p.id, sources)

/-- The outputs that edges of one kind add to the outputs of other nodes. -/
def addends (kind : EdgeKind) : Table (List String) :=
  Table.ofList (net.nodes.filterMap (net.addendsAt? kind))

end Network

/-- The order in which a network is written down. -/
structure Emission where
  root : Placed
  /-- The nodes that can be reached, in emission order, without the root and losses. -/
  nodes : List Placed
  /-- The nodes whose outputs each node reads. -/
  inputs : Table (List String)
  /-- The nodes whose outputs residual edges add. -/
  residualSources : Table (List String)
  /-- The nodes whose outputs sum edges add. -/
  sumSources : Table (List String)
  /-- The first loss node. -/
  loss : Option Placed
  /-- The nodes that cannot be reached. -/
  unreachable : List Placed

namespace Emission

def inputsOf (order : Emission) (id : String) : List String := (order.inputs.get? id).getD []

/-- The nodes whose outputs edges of a kind add to that of a node. -/
def addendsOf (order : Emission) (kind : EdgeKind) (id : String) : List String :=
  match kind with
  | .normal => []
  | .residual => (order.residualSources.get? id).getD []
  | .sum => (order.sumSources.get? id).getD []

def last? (order : Emission) : Option Placed := order.nodes.getLast?

end Emission

namespace Network

variable (net : Network)

/-- The node of a listed id. -/
def place (id : String) : Except Fault Placed :=
  match net.find? id with
  | some p => .ok p
  | none => .error (.vanished id)

/-- The emission order. Every listed id is that of a node (`emission_eq`), so none vanishes. -/
def emission : Except Fault Emission := do
  let root ← net.root
  net.checkAcyclic
  let reachable := net.reachable root.id
  let listed ← (net.drain reachable [root.id]).mapM net.place
  let nodes := listed.filter fun p => p.id ≠ root.id ∧ ¬ p.operator.isLoss
  .ok
    { root
      nodes
      inputs := Table.ofList (nodes.map fun p => (p.id, net.operands p.id))
      residualSources := net.addends .residual
      sumSources := net.addends .sum
      loss := net.nodes.find? (·.operator.isLoss)
      unreachable := net.nodes.filter (·.id ∉ reachable) }

end Network
end LayerGraph
