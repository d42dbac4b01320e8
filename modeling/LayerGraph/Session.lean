import LayerGraph.Document.Reading
import LayerGraph.Program.Compile
/-!
# Editing sessions

A session holds a project and, once they are set, settings. `Session.step` makes one step: it
changes the project or asks about it. A step that fails changes nothing.

* Drawing steps add and remove nodes and edges and set parameters. An edge joins the graph when it
  is valid, or when the step forces it.
* Asking steps validate, propagate, order, compile and write the project.
* `SessionStep.apply` writes what propagation computes into the nodes of the project.
-/

namespace LayerGraph
set_option autoImplicit false

/-! ## Drawing -/

def Project.graph (p : Project) : Mode → Graph
  | .architecture => p.architecture
  | .pipeline => p.pipeline

def Project.withGraph (p : Project) (mode : Mode) (g : Graph) : Project :=
  match mode with
  | .architecture => { p with architecture := g }
  | .pipeline => { p with pipeline := g }

namespace Graph

def addNode (g : Graph) (n : Node) : Graph := { g with nodes := g.nodes ++ [n] }

/-- The graph without the nodes of an id and without the edges at them. -/
def removeNode (g : Graph) (id : String) : Graph where
  nodes := g.nodes.filter (·.id != id)
  edges := g.edges.filter fun e => e.source != id && e.target != id

def addEdge (g : Graph) (e : Edge) : Graph := { g with edges := g.edges ++ [e] }

def removeEdge (g : Graph) (id : String) : Graph :=
  { g with edges := g.edges.filter (·.id != id) }

/-- The nodes with the parameters of the first one of an id changed. -/
def changeFirst (id : String) (change : Params → Params) : List Node → List Node
  | [] => []
  | n :: rest =>
    if n.id = id then { n with params := change n.params } :: rest
    else n :: changeFirst id change rest

/-- The graph with the parameters of the first node of an id changed, and these parameters. -/
def changeParams? (g : Graph) (id : String) (change : Params → Params) :
    Option (Graph × Params) :=
  (g.nodes.find? (·.id == id)).map fun n =>
    ({ g with nodes := changeFirst id change g.nodes }, change n.params)

end Graph

/-! ## Steps and answers -/

/-- A step of a session. -/
inductive SessionStep
  | addNode (mode : Mode) (node : Node)
  | removeNode (mode : Mode) (id : String)
  | setParam (mode : Mode) (id name : String) (value : ParamValue)
  | unsetParam (mode : Mode) (id name : String)
  | connect (mode : Mode) (edge : Edge) (force : Bool)
  | disconnect (mode : Mode) (id : String)
  | revalidate (mode : Mode)
  | propagate (mode : Mode)
  | apply (mode : Mode)
  | order (mode : Mode)
  | validate
  | generate
  | save
  | configure (settings : Settings)

/-- The answer to a step. -/
inductive SessionAnswer
  | nodeCount (count : Nat)
  | counts (nodes edges : Nat)
  | edgeCount (count : Nat)
  | params (params : Params)
  | noSuchNode
  | verdict (result : Except Fault Unit)
  | verdicts (results : List (Except Fault Unit))
  | overlay (nodes : List Placed) (overlay : Propagation)
  | applied (nodes : List Node) (faults : List Fault)
  | order (order : Emission)
  | report (report : Report)
  | text (text : String)
  | settings (settings : Settings)
  | fault (fault : Fault)

/-- A project with settings, which are the usual ones until they are set. -/
structure Session where
  project : Project
  settings : Settings := {}

namespace Session

def withGraph (s : Session) (mode : Mode) (g : Graph) : Session :=
  { s with project := s.project.withGraph mode g }

def answer {α : Type} (s : Session) (question : Except Fault α) (positive : α → SessionAnswer) :
    Session × SessionAnswer :=
  match question with
  | .ok value => (s, positive value)
  | .error fault => (s, .fault fault)

def changeParams (s : Session) (mode : Mode) (id : String) (change : Params → Params) :
    Session × SessionAnswer :=
  match (s.project.graph mode).changeParams? id change with
  | some (g, params) => (s.withGraph mode g, .params params)
  | none => (s, .noSuchNode)

/-- Draws an edge if it is valid or forced. -/
def connect (s : Session) (mode : Mode) (edge : Edge) (force : Bool) : Session × SessionAnswer :=
  let g := s.project.graph mode
  let verdict := validateEdge edge g.nodes g.edges
  (if verdict.isOk ∨ force then s.withGraph mode (g.addEdge edge) else s, .verdict verdict)

def applyOverlay (s : Session) (mode : Mode) : Session × SessionAnswer :=
  let g := s.project.graph mode
  match propagatePartial g.nodes g.edges with
  | .ok (overlay, faults) =>
    let nodes := overlay.apply g.nodes
    (s.withGraph mode { g with nodes }, .applied nodes faults)
  | .error fault => (s, .fault fault)

def step (s : Session) : SessionStep → Session × SessionAnswer
  | .addNode mode node =>
    let g := (s.project.graph mode).addNode node
    (s.withGraph mode g, .nodeCount g.nodes.length)
  | .removeNode mode id =>
    let g := (s.project.graph mode).removeNode id
    (s.withGraph mode g, .counts g.nodes.length g.edges.length)
  | .setParam mode id name value => s.changeParams mode id (·.insert name value)
  | .unsetParam mode id name => s.changeParams mode id (·.erase name)
  | .connect mode edge force => s.connect mode edge force
  | .disconnect mode id =>
    let g := (s.project.graph mode).removeEdge id
    (s.withGraph mode g, .edgeCount g.edges.length)
  | .revalidate mode =>
    let g := s.project.graph mode
    (s, .verdicts (g.edges.map fun e => validateEdge e g.nodes g.edges))
  | .propagate mode =>
    let g := s.project.graph mode
    s.answer
      (do
        let net ← Network.ofGraph g.nodes g.edges
        let overlay ← LayerGraph.propagate g.nodes g.edges
        pure (net.nodes, overlay))
      fun found => .overlay found.1 found.2
  | .apply mode => s.applyOverlay mode
  | .order mode =>
    let g := s.project.graph mode
    s.answer (Network.ofGraph g.nodes g.edges >>= Network.emission) .order
  | .validate => (s, .report s.project.report)
  | .generate => s.answer (s.project.compile s.settings) .text
  | .save => (s, .text s.project.text)
  | .configure settings =>
    match settings.validate with
    | .ok () => ({ s with settings }, .settings settings)
    | .error fault => (s, .fault fault)

end Session
end LayerGraph
