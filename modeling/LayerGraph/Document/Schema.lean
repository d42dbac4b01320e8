import LayerGraph.Document.Reading
/-!
# The schema of project documents

`Project.schema` describes the documents that `Project.ofText?` reads, as a JSON schema.
-/

namespace LayerGraph
set_option autoImplicit false

namespace Schema

def ofType (type : String) (more : List (String × Json)) : Json :=
  .object (("type", .string type) :: more)

def ref (name : String) : List (String × Json) := [("$ref", .string ("#/$defs/" ++ name))]

def listOf (name : String) (more : List (String × Json)) : Json :=
  ofType "array" (("items", .object (ref name)) :: more)

def default (value : Json) : String × Json := ("default", value)

/-- A defined schema or `null`. -/
def nullable (name : String) : Json :=
  .object [("anyOf", .array [.object (ref name), ofType "null" []])]

def words (options : List String) : Json :=
  ofType "string" [("enum", .array (options.map .string))]

def record (fields : List (String × Json)) (required : List String) : Json :=
  ofType "object"
    (("properties", .object fields)
      :: if required.isEmpty then [] else [("required", .array (required.map .string))])

/-- A text that may be `null`. -/
def optionalText : Json :=
  .object [("type", .array [.string "string", .string "null"])]

def described (text : String) : Json → Json
  | .object fields => .object (("description", .string text) :: fields)
  | other => other

def integer : Json := ofType "integer" [("format", .string "int64")]

def node : Json :=
  record
    [("id", ofType "string" []),
     ("operatorId", ofType "string" []),
     ("label", ofType "string" [default (.string "")]),
     ("params", ofType "object"
       [("additionalProperties", .object (ref "ParamValue")), default (.object [])]),
     ("isPipeline", ofType "boolean" [default (.bool false)]),
     ("propagatedOutputShape", nullable "Shape"),
     ("propagatedOutputType", nullable "SemanticType"),
     ("propagatedOutputTypes", listOf "SemanticType" []),
     ("position", .bool true)]
    ["id", "operatorId"]

def edge : Json :=
  record
    [("id", ofType "string" []),
     ("source", ofType "string" []),
     ("target", ofType "string" []),
     ("kind", .object (ref "EdgeKind" ++ [default (.string EdgeKind.normal.word)])),
     ("sourceHandle", optionalText),
     ("targetHandle", optionalText)]
    ["id", "source", "target"]

def graph : Json :=
  record
    [("nodes", listOf "Node" [default (.array [])]), ("edges", listOf "Edge" [default (.array [])])]
    []

def paramValue : Json :=
  described "A single node parameter as it arrives from the editor."
    (.object
      [("anyOf", .array
        [ofType "boolean" [], integer, ofType "number" [("format", .string "double")],
         ofType "string" []])])

def dim : Json :=
  .object
    [("oneOf", .array
      [words ["Batch", "Unknown"],
       ofType "object"
         [("properties", .object [("Fixed", integer)]),
          ("required", .array [.string "Fixed"]),
          ("additionalProperties", .bool false)]])]

def semanticType : Json :=
  described "Abstract producer/consumer tag checked independently of tensor shapes."
    (words (SemanticType.all.map SemanticType.word))

def definitions : Json :=
  .object
    [("Dim", dim), ("Edge", edge), ("EdgeKind", words ["normal", "residual", "sum"]),
     ("Graph", graph), ("Node", node), ("ParamValue", paramValue),
     ("SemanticType", semanticType), ("Shape", listOf "Dim" [])]

end Schema

def Project.schema : Json :=
  .object
    [("$schema", .string "https://json-schema.org/draft/2020-12/schema"),
     ("title", .string "Project"),
     ("description", .string "Both editor graphs of one project."),
     ("type", .string "object"),
     ("properties", .object
       [("architecture", .object (Schema.ref "Graph")),
        ("pipeline", .object
          (Schema.ref "Graph" ++ [Schema.default (Graph.json {})]))]),
     ("required", .array [.string "architecture"]),
     ("$defs", Schema.definitions)]

end LayerGraph
