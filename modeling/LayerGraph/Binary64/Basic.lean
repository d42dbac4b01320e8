/-!
# Binary floating-point numbers of 64 bits

A number is a sign and a magnitude, and a magnitude is held as its code: the 63 bits below the
sign, read as a natural number. Codes ascend with the magnitudes, neighbouring magnitudes have
neighbouring codes, and the greatest code is the infinite magnitude. Equality is therefore
decidable, comparison is comparison of codes, and all arithmetic is on natural numbers.

* `Magnitude.mantissa` and `Magnitude.exponent` read a code as `mantissa * 2 ^ exponent`.
* `Magnitude.ofRatio` rounds a quotient of naturals to the nearest magnitude, a tie to the even
  code; `Magnitude.ofDecimal` does so for digits with a power of ten.
* `Binary64.lt` is the numeric order: both zeros are one number, and NaN is below and above none.
-/

namespace LayerGraph
set_option autoImplicit false

/-! ## Rounding a quotient -/

/-- The natural number nearest to `num / den`; a tie goes to the even neighbour. -/
def nearestEven (num den : Nat) : Nat :=
  let quotient := num / den
  let remainder := num % den
  if 2 * remainder < den then quotient
  else if den < 2 * remainder then quotient + 1
  else if quotient % 2 = 0 then quotient
  else quotient + 1

/-- The quotient `num / den` in units of `2 ^ exponent`, as a quotient again. -/
def inUnits (num den : Nat) (exponent : Int) : Nat × Nat :=
  (num * Nat.pow 2 (-exponent).toNat, den * Nat.pow 2 exponent.toNat)

/-! ## Magnitudes -/

def infinityCode : Nat := 2047 * Nat.pow 2 52

/-- A magnitude of a binary floating-point number of 64 bits. -/
structure Magnitude where
  code : Nat
  code_le : code ≤ infinityCode
  deriving DecidableEq, Repr

namespace Magnitude

def zero : Magnitude := ⟨0, Nat.zero_le _⟩

def infinity : Magnitude := ⟨infinityCode, Nat.le_refl _⟩

instance : Inhabited Magnitude := ⟨zero⟩

def isFinite (m : Magnitude) : Bool := m.code < infinityCode

/-- The whole number whose multiple by a power of two the magnitude is; it has 53 bits, fewer only
next to zero. -/
def mantissa (m : Magnitude) : Nat :=
  if m.code < Nat.pow 2 52 then m.code else Nat.pow 2 52 + m.code % Nat.pow 2 52

/-- The power of two by which the mantissa is multiplied. -/
def exponent (m : Magnitude) : Int :=
  if m.code < Nat.pow 2 52 then -1074 else (m.code / Nat.pow 2 52 : Nat) - 1075

def ratio (m : Magnitude) : Nat × Nat :=
  (m.mantissa * Nat.pow 2 m.exponent.toNat, Nat.pow 2 (-m.exponent).toNat)

/-- The power of two that is the last place of the magnitudes near `num / den`: with it as unit the
quotient has 53 bits before the point, or fewer at the least exponent. -/
def lastPlace (num den : Nat) : Int :=
  let estimate : Int := (num.log2 : Int) - (den.log2 : Int) - 53
  let scaled := inUnits num den estimate
  max (-1074) (if scaled.1 / scaled.2 < Nat.pow 2 53 then estimate else estimate + 1)

/-- The magnitude nearest to `num / den`; a tie goes to the even code, and what is nearer to the
next power of two than to the greatest finite magnitude is infinite. -/
def ofRatio (num den : Nat) : Magnitude :=
  if num = 0 then zero
  else
    let place := lastPlace num den
    let scaled := inUnits num den place
    ⟨min infinityCode ((place + 1074).toNat * Nat.pow 2 52 + nearestEven scaled.1 scaled.2),
      Nat.min_le_left _ _⟩

def ofNat (n : Nat) : Magnitude := ofRatio n 1

/-- The magnitude nearest to `digits * 10 ^ exponent`. -/
def ofDecimal (digits : Nat) (exponent : Int) : Magnitude :=
  ofRatio (digits * Nat.pow 10 exponent.toNat) (Nat.pow 10 (-exponent).toNat)

/-- The product of two finite magnitudes, rounded. -/
def mul (a b : Magnitude) : Magnitude :=
  ofRatio (a.ratio.1 * b.ratio.1) (a.ratio.2 * b.ratio.2)

/-- The quotient of two finite magnitudes, rounded; the divisor is not zero. -/
def div (a b : Magnitude) : Magnitude :=
  ofRatio (a.ratio.1 * b.ratio.2) (a.ratio.2 * b.ratio.1)

end Magnitude

/-! ## Signed numbers -/

/-- A binary floating-point number of 64 bits: a signed magnitude, or not a number. -/
inductive Binary64
  | signed (negative : Bool) (magnitude : Magnitude)
  | nan
  deriving DecidableEq, Repr

namespace Binary64

instance : Inhabited Binary64 := ⟨.signed false .zero⟩

/-- The number nearest to `digits * 10 ^ exponent`. -/
def ofDecimal (digits : Nat) (exponent : Int) : Binary64 :=
  .signed false (Magnitude.ofDecimal digits exponent)

def ofInt (i : Int) : Binary64 := .signed (i < 0) (Magnitude.ofNat i.natAbs)

def isFinite : Binary64 → Bool
  | signed _ m => m.isFinite
  | nan => false

/-- The place of a number in the numeric order: the code with the number's sign. -/
def rank? : Binary64 → Option Int
  | signed true m => some (-m.code)
  | signed false m => some m.code
  | nan => none

def lt (a b : Binary64) : Bool :=
  match a.rank?, b.rank? with
  | some i, some j => i < j
  | _, _ => false

end Binary64
end LayerGraph
