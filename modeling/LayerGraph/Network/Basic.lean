import LayerGraph.Fault
/-!
# Networks

A network is a graph whose nodes have been found in the catalogs and have pairwise distinct ids,
and whose edges join nodes of the graph; edges with an end outside are left out.

* `Network.ofGraph` builds a network from drawn nodes and edges. Nodes are taken in their order,
  and each is looked up before its id is compared with the earlier ones.
* `Network.incoming` and `Network.outgoing` list the edges at a node in the order in which they
  were drawn.
* `Network.operands` are the sources whose outputs a node reads.
-/

namespace LayerGraph
set_option autoImplicit false

/-- The operator of a node, from the catalog of its graph. -/
def Node.operator (n : Node) : Except Fault Operator :=
  match Catalog.find? n.mode n.operatorId with
  | some operator => .ok operator
  | none => .error (.unknownOperator n.id n.operatorId)

/-- A node with its operator. -/
structure Placed where
  node : Node
  operator : Operator

def Placed.id (p : Placed) : String := p.node.id

/-- Nodes with pairwise distinct ids, and edges between them. -/
structure Network where
  nodes : List Placed
  edges : List Edge
  nodup_ids : (nodes.map Placed.id).Nodup
  ends_mem : ∀ e ∈ edges, e.source ∈ nodes.map Placed.id ∧ e.target ∈ nodes.map Placed.id

namespace Network

/-! ## Building a network -/

abbrev Nodes := { nodes : List Placed // (nodes.map Placed.id).Nodup }

theorem nodup_append_single {nodes : List Placed} (h : (nodes.map Placed.id).Nodup) {p : Placed}
    (hp : p.id ∉ nodes.map Placed.id) : ((nodes ++ [p]).map Placed.id).Nodup := by
  rw [List.map_append, List.nodup_append]
  refine ⟨h, by simp, fun a ha b hb => ?_⟩
  have hb : b = p.id := by simpa using hb
  exact fun hab => hp (hb ▸ hab ▸ ha)

def addNode (placed : Nodes) (n : Node) : Except Fault Nodes :=
  match n.operator with
  | .error fault => .error fault
  | .ok operator =>
    if h : n.id ∈ placed.1.map Placed.id then .error (.duplicateNode n.id)
    else .ok ⟨placed.1 ++ [⟨n, operator⟩], nodup_append_single (p := ⟨n, operator⟩) placed.2 h⟩

def placeNodes (nodes : List Node) : Except Fault Nodes := nodes.foldlM addNode ⟨[], by simp⟩

/-- The network of placed nodes with those of the edges that join two of them. -/
def ofNodes (placed : Nodes) (edges : List Edge) : Network where
  nodes := placed.1
  edges := edges.filter fun e =>
    e.source ∈ placed.1.map Placed.id ∧ e.target ∈ placed.1.map Placed.id
  nodup_ids := placed.2
  ends_mem := fun e he => by simpa using (List.mem_filter.1 he).2

def ofGraph (nodes : List Node) (edges : List Edge) : Except Fault Network :=
  (placeNodes nodes).map (ofNodes · edges)

/-! ## Nodes and edges -/

variable (net : Network)

def ids : List String := net.nodes.map Placed.id

def find? (id : String) : Option Placed := net.nodes.find? (·.id == id)

def incoming (id : String) : List Edge := net.edges.filter (·.target == id)

def outgoing (id : String) : List Edge := net.edges.filter (·.source == id)

/-- The node of an id takes all of its incoming edges as operands. -/
def isMerge (id : String) : Bool := (net.find? id).any (·.operator.isMerge)

/-- The nodes whose outputs a node reads: all sources for a merge, otherwise the source of the
first normal edge. -/
def operands (id : String) : List String :=
  if net.isMerge id then (net.incoming id).map Edge.source
  else (((net.incoming id).filter (·.kind = .normal)).take 1).map Edge.source

def roots : List Placed := net.nodes.filter (·.operator.isRoot)

def root : Except Fault Placed :=
  match net.roots with
  | [] => .error .noDataset
  | root :: _ => .ok root

end Network
end LayerGraph
