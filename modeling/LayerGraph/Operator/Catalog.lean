import LayerGraph.Operator.Pipeline
/-!
# The operator catalogs

Each graph has its own catalog; the same id may stand for different operators in the two. The
palette of the editor lists a catalog as a document.
-/

namespace LayerGraph.Catalog
set_option autoImplicit false

/-- The operators of a graph, in the order of the palette. -/
def operators : Mode → List Operator
  | .architecture => Operator.Architecture.all
  | .pipeline => Operator.Pipeline.all

def find? (mode : Mode) (id : String) : Option Operator :=
  (operators mode).find? (·.id == id)

def palette (mode : Mode) : Json := .array ((operators mode).map Operator.json)

end LayerGraph.Catalog
