import LayerGraph.Json.Basic
/-!
# JSON numerals

A numeral is a number as it is written. `Numeral.read?` takes a numeral apart by the JSON grammar
and `Numeral.number?` gives its value:

* whole numbers from `-2 ^ 63` to `2 ^ 64 - 1` are integers, except that `-0` is negative zero;
* of any other numeral the leading digits that fit an unsigned word of 64 bits are kept as the
  significand, which is rounded to a floating-point number and then multiplied or divided by a
  rounded power of ten, in steps of `10 ^ 308`;
* a numeral whose value would be infinite has no number, and one that is too small is zero.
-/

namespace LayerGraph
set_option autoImplicit false

/-- The parts of a numeral: sign, digits before and after the point, and a signed exponent. -/
structure Numeral where
  negative : Bool
  whole : List Nat
  fraction : Option (List Nat)
  exponent : Option (Bool × List Nat)
  deriving DecidableEq, Repr

namespace Numeral

def greatestWord : Nat := 18446744073709551615

def digit? (c : Char) : Option Nat := if c.isDigit then some (c.toNat - 48) else none

def digits : List Char → List Nat × List Char
  | [] => ([], [])
  | c :: rest =>
    match digit? c with
    | some d => (d :: (digits rest).1, (digits rest).2)
    | none => ([], c :: rest)

def exponentPart? : List Char → Option (Option (Bool × List Nat))
  | [] => some none
  | mark :: rest =>
    if mark = 'e' ∨ mark = 'E' then
      let (negative, rest) := match rest with
        | '-' :: rest => (true, rest)
        | '+' :: rest => (false, rest)
        | rest => (false, rest)
      match digits rest with
      | ([], _) => none
      | (exponent, []) => some (some (negative, exponent))
      | _ => none
    else none

/-- The digits after a point, if there is one, and what follows them. -/
def fractionPart? : List Char → Option (Option (List Nat) × List Char)
  | '.' :: rest =>
    match digits rest with
    | ([], _) => none
    | (fraction, rest) => some (some fraction, rest)
  | rest => some (none, rest)

/-- The numeral that a list of characters spells; a whole part of several digits does not start
with zero. -/
def read? (cs : List Char) : Option Numeral := do
  let (negative, cs) := match cs with
    | '-' :: cs => (true, cs)
    | cs => (false, cs)
  let (whole, cs) := digits cs
  if whole.isEmpty ∨ (whole.head? = some 0 ∧ 1 < whole.length) then none
  else
    let (fraction, cs) ← fractionPart? cs
    let exponent ← exponentPart? cs
    some ⟨negative, whole, fraction, exponent⟩

def valueOf (digits : List Nat) : Nat := digits.foldl (fun n d => 10 * n + d) 0

/-- The significand extended by the digits that still fit an unsigned word, and how many do not. -/
def absorb (significand : Nat) : List Nat → Nat × Nat
  | [] => (significand, 0)
  | d :: rest =>
    if 10 * significand + d ≤ greatestWord then absorb (10 * significand + d) rest
    else (significand, rest.length + 1)

def scaled (n : Numeral) : Nat × Int :=
  let (whole, dropped) := absorb 0 n.whole
  let fraction := n.fraction.getD []
  let (significand, ignored) := absorb whole fraction
  let shift : Int := match n.exponent with
    | none => 0
    | some (true, digits) => -valueOf digits
    | some (false, digits) => valueOf digits
  (significand, dropped - (fraction.length - ignored : Nat) + shift)

/-- A magnitude times a power of ten, at most `10 ^ 308` a step; nothing when it is infinite. -/
def scale? (m : Magnitude) (exponent : Int) : Option Magnitude :=
  if exponent.natAbs ≤ 308 then
    if 0 ≤ exponent then
      let product := m.mul (Magnitude.ofNat (Nat.pow 10 exponent.toNat))
      if product.isFinite then some product else none
    else some (m.div (Magnitude.ofNat (Nat.pow 10 exponent.natAbs)))
  else if m.code = 0 then some m
  else if 0 ≤ exponent then none
  else scale? (m.div (Magnitude.ofNat (Nat.pow 10 308))) (exponent + 308)
termination_by exponent.natAbs
decreasing_by omega

def float? (n : Numeral) : Option Number :=
  let (significand, exponent) := n.scaled
  (scale? (Magnitude.ofNat significand) exponent).map fun m => .float (.signed n.negative m)

def number? (n : Numeral) : Option Number :=
  let value := valueOf n.whole
  if n.fraction.isSome ∨ n.exponent.isSome ∨ greatestWord < value then n.float?
  else if ¬ n.negative then some (.int value)
  else if 0 < value ∧ value ≤ 9223372036854775808 then some (.int (-value))
  else some (.float (.signed true (Magnitude.ofNat value)))

end Numeral
end LayerGraph
