import LayerGraph.Dataset
import LayerGraph.Param.Value
import LayerGraph.Shape.Window
/-!
# Shape rules

A rule says how an operator turns the shapes of its inputs into the shape of its output, and which
of its parameters follow from the inputs.

* `Rule.apply` computes the output with the learned parameters, or says what is wrong.
* `RuleFault.message` puts a fault into words.
* `Rule.isMerge` tells the rules that take several inputs from those that take one.

Sizes are signed words: a size that would leave their range is a fault.
-/

namespace LayerGraph
set_option autoImplicit false

/-- A part of a network that needs a class of its own in the program. -/
inductive Block
  | residual
  | inception
  deriving DecidableEq, Repr

def Block.className : Block → String
  | residual => "ResidualBlock"
  | inception => "InceptionBlock"

/-- How an operator transforms shapes. -/
inductive Rule
  | dataset
  | preserve
  | linear
  | conv (spatial : Nat)
  | pool (spatial : Nat)
  | adaptivePool
  | flatten
  | batchNorm (ranks : List Nat)
  | layerNorm
  | add
  | concat
  | block (kind : Block)
  | scalar
  deriving DecidableEq, Repr

/-- What a rule computes: the output shape and the parameters that follow from the inputs. -/
structure RuleResult where
  shape : Shape
  learned : List (String × ParamValue)
  deriving DecidableEq, Repr

/-! ## Faults -/

/-- Why a rule has no output. -/
inductive RuleFault
  | noDataset
  | unknownDataset (name : String)
  | notInteger (name : String)
  | inputCount (count : Nat)
  | rank (what : String) (ranks : List Nat) (shape : Shape)
  | window (fault : WindowFault)
  | noFeatures (shape : Shape)
  | emptyShape
  | paddingOverHalf (padding kernel : Int)
  | negativeStart (start : Int)
  | startOutOfRange (start : Nat) (shape : Shape)
  | flattenOverflow (shape : Shape)
  | flattenBatch
  | addArity
  | addMismatch (first : Shape) (index : Nat) (shape : Shape)
  | concatArity
  | concatAxis (axis : Int) (count : Nat)
  | concatRank (first index count : Nat)
  | concatOverflow
  | concatBatch
  | concatMismatch (position : Nat) (first : Dim) (index : Nat) (dim : Dim)
  | branchOverflow
  deriving DecidableEq, Repr

def rankList (ranks : List Nat) : String := "[" ++ ", ".intercalate (ranks.map Nat.repr) ++ "]"

def RuleFault.message : RuleFault → String
  | .noDataset => "dataset node has no dataset selected"
  | .unknownDataset name => "unknown dataset '" ++ name ++ "'"
  | .notInteger name => "parameter '" ++ name ++ "' must be an integer"
  | .inputCount count => "expects exactly one input, got " ++ count.repr
  | .rank what ranks shape =>
    what ++ " expects an input of rank " ++ rankList ranks ++ " but got " ++ shape.text
      ++ " (rank " ++ shape.rank.repr ++ ")"
  | .window fault => fault.message
  | .noFeatures shape => "Linear expects at least [B, features], got " ++ shape.text
  | .emptyShape => "Input shape cannot be empty"
  | .paddingOverHalf padding kernel =>
    "padding " ++ padding.repr ++ " should be at most half of kernel size " ++ kernel.repr
  | .negativeStart start => "start_dim must be non-negative, got " ++ start.repr
  | .startOutOfRange start shape =>
    "start_dim " ++ start.repr ++ " is out of range for " ++ shape.text
      ++ " (rank " ++ shape.rank.repr ++ ")"
  | .flattenOverflow shape => tooLarge ("flattening " ++ shape.text)
  | .flattenBatch => "Cannot flatten across the Batch dimension!"
  | .addArity => "Add layer requires at least two inputs"
  | .addMismatch first index shape =>
    "Shape mismatch in Add layer! Input 0 has shape " ++ first.text
      ++ " but Input " ++ index.repr ++ " has shape " ++ shape.text
  | .concatArity => "Concat layer requires at least two inputs"
  | .concatAxis axis count =>
    "Invalid dim " ++ axis.repr ++ " for shape of rank " ++ count.repr
  | .concatRank first index count =>
    "Rank mismatch in Concat! Input 0 has " ++ first.repr ++ " dims, but Input " ++ index.repr
      ++ " has " ++ count.repr ++ " dims"
  | .concatOverflow => tooLarge "the concatenated dimension"
  | .concatBatch => "Cannot concatenate along the Batch dimension!"
  | .concatMismatch position first index dim =>
    "Shape mismatch in Concat at dimension " ++ position.repr ++ "! Input 0 has " ++ first.text
      ++ " but Input " ++ index.repr ++ " has " ++ dim.text
  | .branchOverflow => tooLarge "the inception channel count"

namespace Rule

def isMerge : Rule → Bool
  | add => true
  | concat => true
  | _ => false

/-! ## Inputs and parameters -/

def intParam (params : Params) (name : String) : Except RuleFault Int :=
  match params.int? name with
  | some value => .ok value
  | none => .error (.notInteger name)

def onlyInput : List Shape → Except RuleFault Shape
  | [shape] => .ok shape
  | shapes => .error (.inputCount shapes.length)

/-- The dimensions of a shape of one of the given ranks: batch, channels and the rest. -/
def channelled (what : String) (ranks : List Nat) (shape : Shape) :
    Except RuleFault (Dim × Dim × List Dim) :=
  if shape.rank ∈ ranks then
    match shape.dims with
    | first :: channels :: rest => .ok (first, channels, rest)
    | _ => .error (.rank what ranks shape)
  else .error (.rank what ranks shape)

/-- A parameter that equals a dimension, where the dimension is fixed. -/
def learn (name : String) (d : Dim) : List (String × ParamValue) :=
  match d.size? with
  | some size => [(name, .int size)]
  | none => []

def slide (w : Window) (dims : List Dim) : Except RuleFault (List Dim) :=
  (dims.mapM w.apply).mapError .window

/-! ## The rules -/

def datasetShape (params : Params) : Except RuleFault RuleResult :=
  match params.text? "dataset" with
  | none => .error .noDataset
  | some name =>
    match Dataset.find? name with
    | none => .error (.unknownDataset name)
    | some found => .ok ⟨found.shape, []⟩

/-- A dense layer replaces the last dimension. -/
def linearShape (params : Params) (input : Shape) : Except RuleFault RuleResult :=
  if input.rank < 2 then .error (.noFeatures input)
  else
    match input.last? with
    | none => .error .emptyShape
    | some last => do
      let features ← intParam params "out_features"
      .ok ⟨⟨input.dims.dropLast ++ [.fixed features]⟩, learn "in_features" last⟩

/-- A convolution replaces the channels and slides over the spatial dimensions. -/
def convShape (spatial : Nat) (params : Params) (input : Shape) : Except RuleFault RuleResult := do
  let (first, channels, rest) ← channelled "convolution" [spatial + 2] input
  let outChannels ← intParam params "out_channels"
  let kernel ← intParam params "kernel_size"
  let stride ← intParam params "stride"
  let padding ← intParam params "padding"
  let rest ← slide ⟨kernel, stride, padding⟩ rest
  .ok ⟨⟨first :: .fixed outChannels :: rest⟩, learn "in_channels" channels⟩

/-- Pooling slides over the spatial dimensions; the stride is the kernel size unless it is set. -/
def poolShape (spatial : Nat) (params : Params) (input : Shape) : Except RuleFault RuleResult := do
  let (first, channels, rest) ← channelled "pooling" [spatial + 2] input
  let kernel ← intParam params "kernel_size"
  let stride := (params.int? "stride").getD kernel
  let padding ← intParam params "padding"
  if (Word.checked (padding * 2)).any (· ≤ kernel) then
    let rest ← slide ⟨kernel, stride, padding⟩ rest
    .ok ⟨⟨first :: channels :: rest⟩, []⟩
  else .error (.paddingOverHalf padding kernel)

/-- Adaptive pooling leaves a square of fixed size. -/
def adaptivePoolShape (params : Params) (input : Shape) : Except RuleFault RuleResult := do
  let (first, channels, _) ← channelled "adaptive pooling" [4] input
  let size ← intParam params "output_size"
  .ok ⟨⟨[first, channels, .fixed size, .fixed size]⟩, []⟩

/-- The product of dimensions: the size of the fixed ones so far, and whether one is unknown. -/
def collapse (whole : Shape) : Int → Bool → List Dim → Except RuleFault Dim
  | size, isUnknown, [] => .ok (if isUnknown then .unknown else .fixed size)
  | size, isUnknown, .fixed n :: rest =>
    match Word.checked (size * n) with
    | some size => collapse whole size isUnknown rest
    | none => .error (.flattenOverflow whole)
  | size, _, .unknown :: rest => collapse whole size true rest
  | _, _, .batch :: _ => .error .flattenBatch

/-- Flattening collapses all dimensions from `start_dim` on into one. -/
def flattenShape (params : Params) (input : Shape) : Except RuleFault RuleResult := do
  let start ← intParam params "start_dim"
  if start < 0 then .error (.negativeStart start)
  else if input.rank ≤ start.toNat then .error (.startOutOfRange start.toNat input)
  else
    let collapsed ← collapse input 1 false (input.dims.drop start.toNat)
    .ok ⟨⟨input.dims.take start.toNat ++ [collapsed]⟩, []⟩

def batchNormShape (ranks : List Nat) (input : Shape) : Except RuleFault RuleResult := do
  let (_, channels, _) ← channelled "batch normalization" ranks input
  .ok ⟨input, learn "num_features" channels⟩

def layerNormShape (input : Shape) : Except RuleFault RuleResult :=
  match input.last? with
  | none => .error .emptyShape
  | some last => .ok ⟨input, learn "normalized_shape" last⟩

/-- A sum wants equal shapes. -/
def addShape : List Shape → Except RuleFault RuleResult
  | first :: second :: rest =>
    match (second :: rest).zipIdx 1 |>.find? (·.1 ≠ first) with
    | some (shape, index) => .error (.addMismatch first index shape)
    | none => .ok ⟨first, []⟩
  | _ => .error .addArity

/-- What a concatenation has seen along its axis: the sum of the fixed sizes, and whether a size is
unknown. -/
structure AxisSum where
  sum : Int
  isUnknown : Bool
  deriving DecidableEq, Repr

def AxisSum.dim (s : AxisSum) : Dim := if s.isUnknown then .unknown else .fixed s.sum

def AxisSum.extend (s : AxisSum) : Dim → Except RuleFault AxisSum
  | .fixed n =>
    match Word.checked (s.sum + n) with
    | some sum => .ok { s with sum }
    | none => .error .concatOverflow
  | .unknown => .ok { s with isUnknown := true }
  | .batch => .error .concatBatch

/-- The dimensions agree, or one of them is unknown. -/
def compatible (a b : Dim) : Bool := a = b || a = .unknown || b = .unknown

/-- The dimensions of one input beside those of the first, with the positions; only the dimension
along the axis is added up. -/
def joinDims (axis index : Nat) : AxisSum → List ((Dim × Dim) × Nat) → Except RuleFault AxisSum
  | sum, [] => .ok sum
  | sum, ((dim, first), position) :: rest =>
    if position = axis then do
      let sum ← sum.extend dim
      joinDims axis index sum rest
    else if compatible dim first then joinDims axis index sum rest
    else .error (.concatMismatch position first index dim)

/-- All inputs beside the first, which is among them. -/
def joinShapes (axis : Nat) (first : Shape) :
    AxisSum → List (Shape × Nat) → Except RuleFault AxisSum
  | sum, [] => .ok sum
  | sum, (shape, index) :: rest =>
    if shape.rank = first.rank then do
      let sum ← joinDims axis index sum (shape.dims.zip first.dims).zipIdx
      joinShapes axis first sum rest
    else .error (.concatRank first.rank index shape.rank)

/-- Concatenation adds up one dimension; a negative `dim` counts from the end. -/
def concatShape (params : Params) : List Shape → Except RuleFault RuleResult
  | first :: second :: rest => do
    let dim ← intParam params "dim"
    let axis := if dim < 0 then first.rank + dim else dim
    if axis < 0 ∨ first.rank ≤ axis then .error (.concatAxis dim first.rank)
    else
      let sum ← joinShapes axis.toNat first ⟨0, false⟩ (first :: second :: rest).zipIdx
      .ok ⟨⟨first.dims.set axis.toNat sum.dim⟩, []⟩
  | _ => .error .concatArity

/-- A residual block is a padded convolution with a kernel of three. -/
def residualShape (params : Params) (input : Shape) : Except RuleFault RuleResult := do
  let (first, channels, rest) ← channelled "residual block" [4] input
  let outChannels ← intParam params "out_channels"
  let stride ← intParam params "stride"
  let rest ← slide ⟨3, stride, 1⟩ rest
  .ok ⟨⟨first :: .fixed outChannels :: rest⟩, learn "in_channels" channels⟩

/-- The channels of the four branches of an inception block together. -/
def branchChannels (params : Params) : Int → List String → Except RuleFault Int
  | sum, [] => .ok sum
  | sum, name :: rest => do
    let channels ← intParam params name
    match Word.checked (sum + channels) with
    | some sum => branchChannels params sum rest
    | none => .error .branchOverflow

/-- An inception block replaces the channels by those of its branches. -/
def inceptionShape (params : Params) (input : Shape) : Except RuleFault RuleResult := do
  let (first, channels, rest) ← channelled "inception block" [4] input
  let total ← branchChannels params 0 ["out_1x1", "out_3x3", "out_5x5", "pool_proj"]
  .ok ⟨⟨first :: .fixed total :: rest⟩, learn "in_channels" channels⟩

/-- The output of a rule for the given parameters and inputs. -/
def apply (rule : Rule) (params : Params) (inputs : List Shape) : Except RuleFault RuleResult :=
  match rule with
  | dataset => datasetShape params
  | preserve => (onlyInput inputs).map (⟨·, []⟩)
  | scalar => (onlyInput inputs).map fun _ => ⟨⟨[]⟩, []⟩
  | linear => onlyInput inputs >>= linearShape params
  | conv spatial => onlyInput inputs >>= convShape spatial params
  | pool spatial => onlyInput inputs >>= poolShape spatial params
  | adaptivePool => onlyInput inputs >>= adaptivePoolShape params
  | flatten => onlyInput inputs >>= flattenShape params
  | batchNorm ranks => onlyInput inputs >>= batchNormShape ranks
  | layerNorm => onlyInput inputs >>= layerNormShape
  | add => addShape inputs
  | concat => concatShape params inputs
  | block .residual => onlyInput inputs >>= residualShape params
  | block .inception => onlyInput inputs >>= inceptionShape params

end Rule
end LayerGraph
