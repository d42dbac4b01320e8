import LayerGraph.Binary64.Basic
/-!
# Shortest digits

Of the decimal numbers that round back to a magnitude, the ones with the fewest digits, and of
these the nearest.

* `Magnitude.between` is the interval of numbers that round to a magnitude, with its centre, in a
  common unit; the ends belong to it exactly when the mantissa is even.
* `Magnitude.onGrid?` looks at the two multiples of a power of ten next to the magnitude.
* `Magnitude.shortest` takes the coarsest grid that has a point in the interval. Whenever a grid
  has a point there at all, one of the two multiples next to the magnitude is such a point, so no
  decimal number with fewer digits rounds back. Seventeen digits always suffice.
-/

namespace LayerGraph
set_option autoImplicit false

/-- Where an exact tie between two decimal numbers goes. -/
inductive Tie
  | up
  | even
  deriving DecidableEq, Repr

/-- The number `digits * 10 ^ exponent`. -/
structure Decimal where
  digits : Nat
  exponent : Int
  deriving DecidableEq, Repr, Inhabited

namespace Magnitude

/-- The interval around a magnitude in units of a quarter of its last place: lower end, centre and
upper end. Below a power of two the neighbour is half as far away. -/
def between (m : Magnitude) : Nat × Nat × Nat :=
  let centre := 4 * m.mantissa
  let lower := if m.mantissa = Nat.pow 2 52 ∧ m.exponent ≠ -1074 then centre - 1 else centre - 2
  (lower, centre, centre + 2)

/-- The number of decimal digits of a natural number; zero has one. -/
def digitCount (n : Nat) : Nat := (Nat.toDigits 10 n).length

/-- The power of ten of the first digit of a positive quotient. -/
def leadingPlace (num den : Nat) : Int :=
  if den ≤ num then digitCount (num / den) - 1
  else -(digitCount ((den + num - 1) / num - 1) : Int)

/-- The multiple of `10 ^ place` that lies in the interval next to the magnitude, the nearer of
two. -/
def onGrid? (m : Magnitude) (tie : Tie) (place : Int) : Option Decimal :=
  let factor := Nat.pow 2 (m.exponent - 2).toNat * Nat.pow 10 (-place).toNat
  let step := Nat.pow 2 (2 - m.exponent).toNat * Nat.pow 10 place.toNat
  let (lower, centre, upper) := m.between
  let holds (digits : Nat) : Bool :=
    if m.mantissa % 2 = 0 then lower * factor ≤ digits * step ∧ digits * step ≤ upper * factor
    else lower * factor < digits * step ∧ digits * step < upper * factor
  let below := centre * factor / step
  let toBelow := centre * factor - below * step
  let toAbove := (below + 1) * step - centre * factor
  match holds below, holds (below + 1) with
  | false, false => none
  | true, false => some ⟨below, place⟩
  | false, true => some ⟨below + 1, place⟩
  | true, true =>
    if toBelow < toAbove then some ⟨below, place⟩
    else if toAbove < toBelow then some ⟨below + 1, place⟩
    else if tie = .even ∧ below % 2 = 0 then some ⟨below, place⟩
    else some ⟨below + 1, place⟩

/-- The first grid with a point in the interval, from the grid of `place` down to finer ones. -/
def search (m : Magnitude) (tie : Tie) : Nat → Int → Option Decimal
  | 0, _ => none
  | grids + 1, place =>
    match m.onGrid? tie place with
    | some decimal => some decimal
    | none => search m tie grids (place - 1)

/-- The shortest decimal number that rounds to a positive finite magnitude. -/
def shortest (m : Magnitude) (tie : Tie) : Decimal :=
  (m.search tie 17 (leadingPlace m.ratio.1 m.ratio.2)).getD ⟨0, 0⟩

end Magnitude
end LayerGraph
