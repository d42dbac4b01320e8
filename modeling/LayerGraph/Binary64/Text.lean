import LayerGraph.Binary64.Shortest
/-!
# Texts of floating-point numbers

One printer writes the shortest digits of a number; a `FloatLayout` says where positional notation
ends and how the rest looks. The project has three layouts:

* `FloatLayout.source` for the generated program;
* `FloatLayout.json` for documents;
* `FloatLayout.plain` for messages about bounds.
-/

namespace LayerGraph
set_option autoImplicit false

/-- How a floating-point number is laid out. -/
structure FloatLayout where
  /-- The powers of ten from which on, and below which, a number is written positionally; without
  them every number is. -/
  positional : Option (Int × Int)
  /-- A whole number ends in a point and a zero when written positionally. -/
  showsPoint : Bool
  /-- A positive exponent has a plus sign. -/
  showsPlus : Bool
  tie : Tie
  deriving DecidableEq, Repr

namespace FloatLayout

/-- The generated program writes numbers from `0.0001` below `10 ^ 16` positionally. -/
def source : FloatLayout := ⟨some (-4, 16), true, false, .up⟩

/-- Documents write numbers from `0.00001` below `10 ^ 16` positionally. -/
def json : FloatLayout := ⟨some (-5, 16), true, true, .even⟩

/-- Messages write every number positionally, and whole numbers without a point. -/
def plain : FloatLayout := ⟨none, false, false, .up⟩

end FloatLayout

namespace Decimal

/-- The digits before zeros at the end, with the exponent moved accordingly. -/
def trimmed (d : Decimal) : List Char × Int :=
  let digits := Nat.toDigits 10 d.digits
  let zeros := (digits.reverse.takeWhile (· = '0')).length
  (digits.take (digits.length - zeros), d.exponent + zeros)

def positional (showsPoint : Bool) (digits : List Char) (exponent : Int) : List Char :=
  let before := digits.length + exponent
  if 0 ≤ exponent then
    digits ++ List.replicate exponent.toNat '0' ++ (if showsPoint then ['.', '0'] else [])
  else if 0 < before then digits.take before.toNat ++ '.' :: digits.drop before.toNat
  else '0' :: '.' :: List.replicate (-before).toNat '0' ++ digits

/-- The number in scientific notation, one digit before the point. -/
def scientific (showsPlus : Bool) (digits : List Char) (exponent : Int) : List Char :=
  let leading := exponent + digits.length - 1
  let sign := if leading < 0 then ['-'] else if showsPlus then ['+'] else []
  let fraction := match digits.drop 1 with
    | [] => []
    | rest => '.' :: rest
  digits.take 1 ++ fraction ++ 'e' :: sign ++ Nat.toDigits 10 leading.natAbs

def layout (layout : FloatLayout) (d : Decimal) : List Char :=
  let (digits, exponent) := d.trimmed
  let leading := exponent + digits.length - 1
  match layout.positional with
  | none => positional layout.showsPoint digits exponent
  | some (least, limit) =>
    if least ≤ leading ∧ leading < limit then positional layout.showsPoint digits exponent
    else scientific layout.showsPlus digits exponent

end Decimal

namespace Binary64

def magnitudeText (layout : FloatLayout) (m : Magnitude) : List Char :=
  if m.code = 0 then (if layout.showsPoint then ['0', '.', '0'] else ['0'])
  else (m.shortest layout.tie).layout layout

/-- The number in a layout; zero keeps its sign. -/
def text (layout : FloatLayout) : Binary64 → String
  | nan => "NaN"
  | signed negative m =>
    let magnitude := if m.isFinite then magnitudeText layout m else ['i', 'n', 'f']
    String.ofList (if negative then '-' :: magnitude else magnitude)

end Binary64
end LayerGraph
