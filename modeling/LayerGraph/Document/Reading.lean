import LayerGraph.Document.Basic
/-!
# Reading and writing project documents

`Project.ofText?` reads a document and `Project.text` writes one. Fields that a document leaves out
have defaults, other fields are passed over, and each record may be written as an array of its
fields. A written document leaves out derived fields without a value, handles that are not set and
a position that is `null`.
-/

namespace LayerGraph
set_option autoImplicit false
open Json (Raw)

/-! ## Shapes and types -/

def Dim.ofRaw? : Raw → Option Dim
  | .object [(some "Fixed", .number (.int size))] =>
    if Word.Fits size then some (.fixed size) else none
  | other =>
    match other.word? with
    | some "Batch" => some .batch
    | some "Unknown" => some .unknown
    | _ => none

def Dim.json : Dim → Json
  | .fixed size => .object [("Fixed", .int size)]
  | .batch => .string "Batch"
  | .unknown => .string "Unknown"

def Shape.ofRaw? (raw : Raw) : Option Shape := (raw.list? Dim.ofRaw?).map Shape.mk

def Shape.json (s : Shape) : Json := .array (s.dims.map Dim.json)

def SemanticType.ofRaw? (raw : Raw) : Option SemanticType := raw.word?.bind SemanticType.find?

def SemanticType.json (t : SemanticType) : Json := .string t.word

/-! ## Nodes -/

def Node.fieldNames : List String :=
  ["id", "operatorId", "label", "params", "isPipeline", "propagatedOutputShape",
   "propagatedOutputType", "propagatedOutputTypes", "position"]

def Node.ofRaw? (raw : Raw) : Option Node := do
  match ← raw.fields? Node.fieldNames with
  | [id, operatorId, label, params, isPipeline, shape, type, types, position] => do
    let id ← Raw.required Raw.string? id
    let operatorId ← Raw.required Raw.string? operatorId
    let label ← Raw.withDefault "" Raw.string? label
    let params ← Raw.withDefault .empty Params.ofRaw? params
    let isPipeline ← Raw.withDefault false Raw.bool? isPipeline
    let outputShape ← Raw.withDefault none (Raw.nullable? Shape.ofRaw?) shape
    let outputType ← Raw.withDefault none (Raw.nullable? SemanticType.ofRaw?) type
    let outputTypes ← Raw.withDefault [] (Raw.list? SemanticType.ofRaw?) types
    let position ← Raw.withDefault .null Raw.json? position
    some { id, operatorId, label, params, isPipeline, outputShape, outputType, outputTypes,
           position }
  | _ => none

/-- A field that is written only when it has a value. -/
def writtenIf {α : Type} (name : String) (json : α → Json) (value : Option α) :
    List (String × Json) :=
  (value.map fun value => (name, json value)).toList

def Node.json (n : Node) : Json :=
  .object
    ([("id", .string n.id), ("operatorId", .string n.operatorId), ("label", .string n.label),
      ("params", n.params.json), ("isPipeline", .bool n.isPipeline)]
      ++ writtenIf "propagatedOutputShape" Shape.json n.outputShape
      ++ writtenIf "propagatedOutputType" SemanticType.json n.outputType
      ++ (if n.outputTypes.isEmpty then []
          else [("propagatedOutputTypes", .array (n.outputTypes.map SemanticType.json))])
      ++ match n.position with
        | .null => []
        | position => [("position", position)])

/-! ## Edges -/

def EdgeKind.ofRaw? (raw : Raw) : Option EdgeKind := raw.word?.bind EdgeKind.find?

def Edge.fieldNames : List String :=
  ["id", "source", "target", "kind", "sourceHandle", "targetHandle"]

def Edge.ofRaw? (raw : Raw) : Option Edge := do
  match ← raw.fields? Edge.fieldNames with
  | [id, source, target, kind, sourceHandle, targetHandle] => do
    let id ← Raw.required Raw.string? id
    let source ← Raw.required Raw.string? source
    let target ← Raw.required Raw.string? target
    let kind ← Raw.withDefault .normal EdgeKind.ofRaw? kind
    let sourceHandle ← Raw.withDefault none (Raw.nullable? Raw.string?) sourceHandle
    let targetHandle ← Raw.withDefault none (Raw.nullable? Raw.string?) targetHandle
    some { id, source, target, kind, sourceHandle, targetHandle }
  | _ => none

def Edge.json (e : Edge) : Json :=
  .object
    ([("id", .string e.id), ("source", .string e.source), ("target", .string e.target),
      ("kind", .string e.kind.word)]
      ++ writtenIf "sourceHandle" .string e.sourceHandle
      ++ writtenIf "targetHandle" .string e.targetHandle)

/-! ## Graphs and projects -/

def Graph.ofRaw? (raw : Raw) : Option Graph := do
  match ← raw.fields? ["nodes", "edges"] with
  | [nodes, edges] => do
    let nodes ← Raw.withDefault [] (Raw.list? Node.ofRaw?) nodes
    let edges ← Raw.withDefault [] (Raw.list? Edge.ofRaw?) edges
    some { nodes, edges }
  | _ => none

def Graph.json (g : Graph) : Json :=
  .object [("nodes", .array (g.nodes.map Node.json)), ("edges", .array (g.edges.map Edge.json))]

def Project.ofRaw? (raw : Raw) : Option Project := do
  match ← raw.fields? ["architecture", "pipeline"] with
  | [architecture, pipeline] => do
    let architecture ← Raw.required Graph.ofRaw? architecture
    let pipeline ← Raw.withDefault {} Graph.ofRaw? pipeline
    some { architecture, pipeline }
  | _ => none

def Project.json (p : Project) : Json :=
  .object [("architecture", p.architecture.json), ("pipeline", p.pipeline.json)]

def Project.ofText? (text : String) : Option Project := (Raw.ofText? text).bind Project.ofRaw?

def Project.text (p : Project) : String := p.json.pretty

end LayerGraph
