/-!
# Shapes

A shape is a list of dimensions. A dimension has a fixed size, is the batch dimension, or is
unknown; `Shape.text` writes `[B, 3, ?]`.
-/

namespace LayerGraph
set_option autoImplicit false

/-- One dimension of a tensor. -/
inductive Dim
  | fixed (size : Int)
  | batch
  | unknown
  deriving DecidableEq, Repr

/-- The dimensions of a tensor. -/
structure Shape where
  dims : List Dim
  deriving DecidableEq, Repr

namespace Dim

def size? : Dim → Option Int
  | fixed size => some size
  | _ => none

def isSymbolic (d : Dim) : Bool := d.size?.isNone

def text : Dim → String
  | fixed size => size.repr
  | batch => "B"
  | unknown => "?"

end Dim

namespace Shape

def image (channels height width : Int) : Shape :=
  ⟨[.batch, .fixed channels, .fixed height, .fixed width]⟩

def rank (s : Shape) : Nat := s.dims.length

def last? (s : Shape) : Option Dim := s.dims.getLast?

def get? (s : Shape) (index : Nat) : Option Dim := s.dims[index]?

def text (s : Shape) : String := "[" ++ ", ".intercalate (s.dims.map Dim.text) ++ "]"

end Shape
end LayerGraph
