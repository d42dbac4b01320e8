import LayerGraph.Shape.Basic
import LayerGraph.Word
/-!
# Sliding windows

A kernel slides over a padded dimension in steps of the stride. `Window.count` is the number of
positions at which it fits, `(size + 2 * padding - kernel) / stride + 1`; `Window.apply` passes
symbolic dimensions through.

All that comes before the division is checked to be a signed word. The last `+ 1` is not: a machine
adds words there, and the sum has no bound here. The two differ only for a quotient of
`Word.greatest`, which takes a kernel below one (`Window.countSteps_eq_ite` says where).
-/

namespace LayerGraph
set_option autoImplicit false

/-- A kernel size, its step and the padding on both sides. -/
structure Window where
  kernel : Int
  stride : Int
  padding : Int
  deriving DecidableEq, Repr

/-- Why a window has no positions. -/
inductive WindowFault
  | paddingOverflow (padding : Int)
  | kernelOverflow (kernel : Int)
  | kernelTooLarge (kernel padded : Int)
  | strideNotPositive (stride : Int)
  deriving DecidableEq, Repr

def tooLarge (what : String) : String := what ++ " is too large to compute an output shape"

def WindowFault.message : WindowFault → String
  | paddingOverflow padding => tooLarge ("padding " ++ padding.repr)
  | kernelOverflow kernel => tooLarge ("kernel size " ++ kernel.repr)
  | kernelTooLarge kernel padded =>
    "kernel size " ++ kernel.repr ++ " is larger than the padded input size " ++ padded.repr
  | strideNotPositive stride => "stride must be positive, got " ++ stride.repr

namespace Window

/-- The size of a dimension with its padding. -/
def padded? (w : Window) (size : Int) : Option Int :=
  (Word.checked (w.padding * 2)).bind fun total => Word.checked (size + total)

/-- The number of positions of the kernel over a dimension. All but the last `+ 1` is checked. -/
def count (w : Window) (size : Int) : Except WindowFault Int :=
  match w.padded? size with
  | none => .error (.paddingOverflow w.padding)
  | some padded =>
    match Word.checked (padded - w.kernel) with
    | none => .error (.kernelOverflow w.kernel)
    | some span =>
      if span < 0 then .error (.kernelTooLarge w.kernel padded)
      else if w.stride < 1 then .error (.strideNotPositive w.stride)
      else .ok (span / w.stride + 1)

def apply (w : Window) : Dim → Except WindowFault Dim
  | .fixed size => (w.count size).map .fixed
  | d => .ok d

end Window
end LayerGraph
