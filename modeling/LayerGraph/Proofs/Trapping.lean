import LayerGraph.Shape.Rule
/-!
# The shape rules in steps that can be trapped

The rules compute with integers, take lists apart by patterns and divide by a stride that has been
tested. A machine does the same in words, by positions and by plain sums, and it is trapped where a
position is outside of a list, a divisor is zero or a value is no signed word.

* `Steps ε α`: a computation that ends with a value or a fault, unless a trap stops it.
* `Steps.item`, `Steps.sum`, `Steps.quotient` and the others: the steps that can be trapped. A value
  that the rules check themselves (`Word.checked`) is no such step.
* `Rule.steps`: the rules, step by step.

`Steps.ended_bind_congr` takes a computation apart that is to have ended as another one does, and a
lemma for each step says when it is not trapped.
-/

namespace LayerGraph
set_option autoImplicit false

/-- What stops a machine where no fault is foreseen. -/
inductive Trap
  /-- A position outside of a list. -/
  | position
  /-- A division by zero. -/
  | divisor
  /-- A value outside of the signed words. -/
  | range
  deriving DecidableEq, Repr

/-- A computation that ends with a value or a fault, or is trapped. -/
abbrev Steps (ε α : Type) := ExceptT ε (Except Trap) α

namespace Steps

variable {ε ε' α β : Type}

/-- No trap stops the computation, and it ends so. -/
def ended (x : Except ε α) : Steps ε α := ExceptT.mk (.ok x)

def trapped (t : Trap) : Steps ε α := ExceptT.mk (.error t)

def fault (e : ε) : Steps ε α := ended (.error e)

/-- A value that is there only under a condition. -/
def provided (p : Prop) [Decidable p] (t : Trap) (a : α) : Steps ε α :=
  if p then ended (.ok a) else trapped t

/-! ## Lists -/

/-- The element at a position. -/
def item (list : List α) (position : Nat) : Steps ε α :=
  match list[position]? with
  | some a => ended (.ok a)
  | none => trapped .position

/-- The list with the element at a position replaced. -/
def replace (list : List α) (position : Nat) (a : α) : Steps ε (List α) :=
  provided (position < list.length) .position (list.set position a)

/-- The elements before a position. -/
def before (list : List α) (position : Nat) : Steps ε (List α) :=
  provided (position ≤ list.length) .position (list.take position)

/-- The elements from a position on. -/
def fromOn (list : List α) (position : Nat) : Steps ε (List α) :=
  provided (position ≤ list.length) .position (list.drop position)

/-! ## Numbers -/

/-- A sum that is not checked. -/
def sum (a b : Int) : Steps ε Int := provided (Word.Fits (a + b)) .range (a + b)

/-- A quotient that is not checked; it is rounded towards zero. -/
def quotient (a b : Int) : Steps ε Int :=
  if b = 0 then trapped .divisor else provided (Word.Fits (a.tdiv b)) .range (a.tdiv b)

/-- The sum of two numbers of elements. -/
def sumNat (a b : Nat) : Steps ε Nat := provided (Word.Fits (a + b)) .range (a + b)

/-- The difference of two numbers of elements. -/
def lessNat (a b : Nat) : Steps ε Nat := provided (b ≤ a) .range (a - b)

/-- A number of elements as a signed word. -/
def count (n : Nat) : Steps ε Int := provided (Word.Fits n) .range n

/-- A signed word as a position. -/
def position (i : Int) : Steps ε Nat := provided (0 ≤ i) .range i.toNat

/-! ## Steps that are not trapped -/

theorem provided_eq {p : Prop} [Decidable p] (hp : p) (t : Trap) (a : α) :
    (provided p t a : Steps ε α) = ended (.ok a) := if_pos hp

theorem item_eq {list : List α} {position : Nat} {a : α} (h : list[position]? = some a) :
    (item list position : Steps ε α) = ended (.ok a) := by
  rw [item, h]

theorem replace_eq {list : List α} {position : Nat} (h : position < list.length) (a : α) :
    (replace list position a : Steps ε (List α)) = ended (.ok (list.set position a)) :=
  provided_eq h _ _

theorem before_eq {list : List α} {position : Nat} (h : position ≤ list.length) :
    (before list position : Steps ε (List α)) = ended (.ok (list.take position)) :=
  provided_eq h _ _

theorem fromOn_eq {list : List α} {position : Nat} (h : position ≤ list.length) :
    (fromOn list position : Steps ε (List α)) = ended (.ok (list.drop position)) :=
  provided_eq h _ _

theorem sum_eq {a b : Int} (h : Word.Fits (a + b)) :
    (sum a b : Steps ε Int) = ended (.ok (a + b)) := provided_eq h _ _

/-- A quotient that is not negative is rounded down. -/
theorem quotient_eq {a b : Int} (ha : 0 ≤ a) (hb : b ≠ 0) (h : Word.Fits (a / b)) :
    (quotient a b : Steps ε Int) = ended (.ok (a / b)) := by
  rw [quotient, if_neg hb, Int.tdiv_eq_ediv_of_nonneg ha, provided_eq h]

theorem sumNat_eq {a b : Nat} (h : Word.Fits ↑(a + b)) :
    (sumNat a b : Steps ε Nat) = ended (.ok (a + b)) := provided_eq h _ _

theorem lessNat_eq {a b : Nat} (h : b ≤ a) :
    (lessNat a b : Steps ε Nat) = ended (.ok (a - b)) := provided_eq h _ _

theorem count_eq {n : Nat} (h : Word.Fits n) :
    (count n : Steps ε Int) = ended (.ok (n : Int)) := provided_eq h _ _

theorem position_eq {i : Int} (h : 0 ≤ i) :
    (position i : Steps ε Nat) = ended (.ok i.toNat) := provided_eq h _ _

/-! ## Computations that have ended -/

theorem ended_ok_bind (a : α) (f : α → Steps ε β) : ended (.ok a) >>= f = f a := rfl

/-- What has ended goes on with its value, or stays the fault that it is. -/
theorem ended_bind_congr {x : Except ε α} {f : α → Steps ε β} {g : α → Except ε β}
    (h : ∀ a, x = .ok a → f a = ended (g a)) : ended x >>= f = ended (x >>= g) := by
  cases x with
  | error e => rfl
  | ok a => exact h a rfl

/-- Two computations that branch alike end alike if their branches do. -/
theorem ended_ite {p : Prop} [Decidable p] {x y : Steps ε α} {a b : Except ε α}
    (hpos : p → x = ended a) (hneg : ¬ p → y = ended b) :
    (if p then x else y) = ended (if p then a else b) := by
  split
  · exact hpos ‹p›
  · exact hneg ‹¬ p›

theorem ended_mapM {f : α → Steps ε β} {g : α → Except ε β} {list : List α}
    (h : ∀ a ∈ list, f a = ended (g a)) : list.mapM f = ended (list.mapM g) := by
  induction list with
  | nil => rfl
  | cons a rest ih =>
    obtain ⟨hfirst, hrest⟩ := List.forall_mem_cons.1 h
    rw [List.mapM_cons, List.mapM_cons, hfirst, ih hrest]
    refine ended_bind_congr fun b _ => ended_bind_congr fun more _ => ?_
    rfl

theorem adapt_ended (f : ε → ε') (x : Except ε α) :
    ExceptT.adapt f (ended x) = ended (x.mapError f) := by
  cases x <;> rfl

end Steps

/-! ## Windows -/

namespace Window

/-- The number of positions of the kernel over a dimension. -/
def countSteps (w : Window) (size : Int) : Steps WindowFault Int :=
  match w.padded? size with
  | none => Steps.fault (.paddingOverflow w.padding)
  | some padded =>
    match Word.checked (padded - w.kernel) with
    | none => Steps.fault (.kernelOverflow w.kernel)
    | some span =>
      if span < 0 then Steps.fault (.kernelTooLarge w.kernel padded)
      else if w.stride < 1 then Steps.fault (.strideNotPositive w.stride)
      else do
        let last ← Steps.quotient span w.stride
        Steps.sum last 1

def applySteps (w : Window) : Dim → Steps WindowFault Dim
  | .fixed size => do
    let positions ← w.countSteps size
    return .fixed positions
  | d => return d

end Window

/-! ## Rules -/

namespace Rule

/-- Tests the rank of an input. -/
def expectRank (what : String) (ranks : List Nat) (input : Shape) : Except RuleFault Unit :=
  if input.rank ∈ ranks then .ok () else .error (.rank what ranks input)

/-- Sets the channels and slides a window over the dimensions behind them. -/
def windowSteps (dims : List Dim) (channels : Dim) (w : Window) : Steps RuleFault (List Dim) := do
  let dims ← Steps.replace dims 1 channels
  let slid ← ((dims.drop 2).mapM w.applySteps).adapt .window
  return dims.take 2 ++ slid

def linearSteps (params : Params) (input : Shape) : Steps RuleFault RuleResult :=
  if input.rank < 2 then Steps.fault (.noFeatures input)
  else
    match input.last? with
    | none => Steps.fault .emptyShape
    | some last => do
      let features ← Steps.ended (intParam params "out_features")
      let position ← Steps.lessNat input.rank 1
      let dims ← Steps.replace input.dims position (.fixed features)
      return ⟨⟨dims⟩, learn "in_features" last⟩

def convSteps (spatial : Nat) (params : Params) (input : Shape) : Steps RuleFault RuleResult := do
  let rank ← Steps.sumNat spatial 2
  Steps.ended (expectRank "convolution" [rank] input)
  let outChannels ← Steps.ended (intParam params "out_channels")
  let kernel ← Steps.ended (intParam params "kernel_size")
  let stride ← Steps.ended (intParam params "stride")
  let padding ← Steps.ended (intParam params "padding")
  let dims ← windowSteps input.dims (.fixed outChannels) ⟨kernel, stride, padding⟩
  let channels ← Steps.item input.dims 1
  return ⟨⟨dims⟩, learn "in_channels" channels⟩

def poolSteps (spatial : Nat) (params : Params) (input : Shape) : Steps RuleFault RuleResult := do
  let rank ← Steps.sumNat spatial 2
  Steps.ended (expectRank "pooling" [rank] input)
  let kernel ← Steps.ended (intParam params "kernel_size")
  let stride := (params.int? "stride").getD kernel
  let padding ← Steps.ended (intParam params "padding")
  if (Word.checked (padding * 2)).any (· ≤ kernel) then
    let channels ← Steps.item input.dims 1
    let dims ← windowSteps input.dims channels ⟨kernel, stride, padding⟩
    return ⟨⟨dims⟩, []⟩
  else Steps.fault (.paddingOverHalf padding kernel)

def adaptivePoolSteps (params : Params) (input : Shape) : Steps RuleFault RuleResult := do
  Steps.ended (expectRank "adaptive pooling" [4] input)
  let size ← Steps.ended (intParam params "output_size")
  let first ← Steps.item input.dims 0
  let channels ← Steps.item input.dims 1
  return ⟨⟨[first, channels, .fixed size, .fixed size]⟩, []⟩

def flattenSteps (params : Params) (input : Shape) : Steps RuleFault RuleResult := do
  let start ← Steps.ended (intParam params "start_dim")
  if start < 0 then Steps.fault (.negativeStart start)
  else if input.rank ≤ start.toNat then Steps.fault (.startOutOfRange start.toNat input)
  else
    let behind ← Steps.fromOn input.dims start.toNat
    let collapsed ← Steps.ended (collapse input 1 false behind)
    let kept ← Steps.before input.dims start.toNat
    return ⟨⟨kept ++ [collapsed]⟩, []⟩

def batchNormSteps (ranks : List Nat) (input : Shape) : Steps RuleFault RuleResult := do
  Steps.ended (expectRank "batch normalization" ranks input)
  let channels ← Steps.item input.dims 1
  return ⟨input, learn "num_features" channels⟩

def addSteps (inputs : List Shape) : Steps RuleFault RuleResult :=
  if inputs.length < 2 then Steps.fault .addArity
  else do
    let first ← Steps.item inputs 0
    match (inputs.drop 1).zipIdx 1 |>.find? (·.1 ≠ first) with
    | some (shape, index) => Steps.fault (.addMismatch first index shape)
    | none => return ⟨first, []⟩

/-- The dimensions of one input with their positions, at which the first is read beside the axis. -/
def joinDimsSteps (axis index : Nat) (first : Shape) :
    AxisSum → List (Dim × Nat) → Steps RuleFault AxisSum
  | sum, [] => return sum
  | sum, (dim, position) :: rest =>
    if position = axis then do
      let sum ← Steps.ended (sum.extend dim)
      joinDimsSteps axis index first sum rest
    else do
      let other ← Steps.item first.dims position
      if compatible dim other then joinDimsSteps axis index first sum rest
      else Steps.fault (.concatMismatch position other index dim)

def joinShapesSteps (axis : Nat) (first : Shape) :
    AxisSum → List (Shape × Nat) → Steps RuleFault AxisSum
  | sum, [] => return sum
  | sum, (shape, index) :: rest =>
    if shape.rank = first.rank then do
      let sum ← joinDimsSteps axis index first sum shape.dims.zipIdx
      joinShapesSteps axis first sum rest
    else Steps.fault (.concatRank first.rank index shape.rank)

/-- The axis of a concatenation; a negative one counts from the end. -/
def axisSteps (rank dim : Int) : Steps RuleFault Int :=
  if dim < 0 then Steps.sum rank dim else return dim

def concatSteps (params : Params) (inputs : List Shape) : Steps RuleFault RuleResult :=
  if inputs.length < 2 then Steps.fault .concatArity
  else do
    let dim ← Steps.ended (intParam params "dim")
    let first ← Steps.item inputs 0
    let rank ← Steps.count first.rank
    let axis ← axisSteps rank dim
    if axis < 0 ∨ rank ≤ axis then Steps.fault (.concatAxis dim first.rank)
    else
      let axis ← Steps.position axis
      let sum ← joinShapesSteps axis first ⟨0, false⟩ inputs.zipIdx
      let dims ← Steps.replace first.dims axis sum.dim
      return ⟨⟨dims⟩, []⟩

def residualSteps (params : Params) (input : Shape) : Steps RuleFault RuleResult := do
  Steps.ended (expectRank "residual block" [4] input)
  let outChannels ← Steps.ended (intParam params "out_channels")
  let stride ← Steps.ended (intParam params "stride")
  let dims ← windowSteps input.dims (.fixed outChannels) ⟨3, stride, 1⟩
  let channels ← Steps.item input.dims 1
  return ⟨⟨dims⟩, learn "in_channels" channels⟩

def inceptionSteps (params : Params) (input : Shape) : Steps RuleFault RuleResult := do
  Steps.ended (expectRank "inception block" [4] input)
  let total ←
    Steps.ended (branchChannels params 0 ["out_1x1", "out_3x3", "out_5x5", "pool_proj"])
  let dims ← Steps.replace input.dims 1 (.fixed total)
  let channels ← Steps.item input.dims 1
  return ⟨⟨dims⟩, learn "in_channels" channels⟩

/-- The rules step by step. Where nothing can be trapped, the rule is one step. -/
def steps (rule : Rule) (params : Params) (inputs : List Shape) : Steps RuleFault RuleResult :=
  match rule with
  | linear => Steps.ended (onlyInput inputs) >>= linearSteps params
  | conv spatial => Steps.ended (onlyInput inputs) >>= convSteps spatial params
  | pool spatial => Steps.ended (onlyInput inputs) >>= poolSteps spatial params
  | adaptivePool => Steps.ended (onlyInput inputs) >>= adaptivePoolSteps params
  | flatten => Steps.ended (onlyInput inputs) >>= flattenSteps params
  | batchNorm ranks => Steps.ended (onlyInput inputs) >>= batchNormSteps ranks
  | add => addSteps inputs
  | concat => concatSteps params inputs
  | block .residual => Steps.ended (onlyInput inputs) >>= residualSteps params
  | block .inception => Steps.ended (onlyInput inputs) >>= inceptionSteps params
  | dataset => Steps.ended (datasetShape params)
  | preserve => Steps.ended ((onlyInput inputs).map (⟨·, []⟩))
  | scalar => Steps.ended ((onlyInput inputs).map fun _ => ⟨⟨[]⟩, []⟩)
  | layerNorm => Steps.ended (onlyInput inputs) >>= fun input => Steps.ended (layerNormShape input)

end Rule
end LayerGraph
