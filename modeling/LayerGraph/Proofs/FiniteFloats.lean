import LayerGraph.Json.Numeral
import LayerGraph.Word
import Mathlib.Algebra.Order.Ring.Int
/-!
# Numerals that are read are finite

A numeral is read by rounding its leading digits and multiplying or dividing by rounded powers of
ten. A product is tested for being finite; a quotient need not be, since what is divided has come
from a word of 64 bits.

* `Magnitude.code_ofRatio_le` and `Magnitude.le_code_ofRatio` bound the code of a rounded quotient
  by its last place, and `Magnitude.lastPlace_le` the last place by the sizes of the two numbers.
* `Magnitude.code_div_le`: the code of a quotient of magnitudes, by their exponents.
* `Numeral.isFinite_of_scale?`: each step of scaling leaves a finite magnitude.
* `Numeral.inRange_of_number?`: every number that is read is a signed or unsigned word or finite.
-/

namespace LayerGraph
set_option autoImplicit false

/-- What one unit of the exponent is in a code. -/
def binade : Nat := 4503599627370496

theorem infinityCode_eq : infinityCode = 2047 * binade := rfl

theorem nearestEven_le {num den bound : Nat} (h : num < bound * den) :
    nearestEven num den ≤ bound := by
  have hquotient : num / den < bound := Nat.div_lt_of_lt_mul (Nat.mul_comm bound den ▸ h)
  unfold nearestEven
  dsimp only
  split
  · omega
  · split
    · omega
    · split <;> omega

namespace Magnitude

variable {num den : Nat}

/-! ## Rounded quotients -/

theorem le_lastPlace (num den : Nat) : (num.log2 : Int) - den.log2 - 53 ≤ lastPlace num den := by
  unfold lastPlace
  dsimp only
  split <;> omega

theorem lastPlace_le (num den : Nat) :
    lastPlace num den ≤ max (-1074) ((num.log2 : Int) - den.log2 - 52) := by
  unfold lastPlace
  dsimp only
  split <;> omega

/-- In units of the last place a quotient has at most 54 bits. -/
theorem inUnits_lt (hden : den ≠ 0) {place : Int}
    (hplace : (num.log2 : Int) - den.log2 - 53 ≤ place) :
    (inUnits num den place).1 < 4 * binade * (inUnits num den place).2 := by
  have hexponents : num.log2 + 1 + (-place).toNat ≤ 54 + (den.log2 + place.toNat) := by omega
  have hunit : 4 * binade = 2 ^ 54 := rfl
  calc num * 2 ^ (-place).toNat
      < 2 ^ (num.log2 + 1) * 2 ^ (-place).toNat :=
        Nat.mul_lt_mul_of_pos_right Nat.lt_log2_self (Nat.two_pow_pos _)
    _ = 2 ^ (num.log2 + 1 + (-place).toNat) := (Nat.pow_add 2 _ _).symm
    _ ≤ 2 ^ (54 + (den.log2 + place.toNat)) := Nat.pow_le_pow_right (by decide) hexponents
    _ = 4 * binade * (2 ^ den.log2 * 2 ^ place.toNat) := by rw [Nat.pow_add, Nat.pow_add, hunit]
    _ ≤ 4 * binade * (den * 2 ^ place.toNat) :=
        Nat.mul_le_mul_left _ (Nat.mul_le_mul_right _ (Nat.log2_self_le hden))

theorem code_ofRatio_le (hden : den ≠ 0) :
    (ofRatio num den).code ≤ ((lastPlace num den + 1074).toNat + 4) * binade := by
  unfold ofRatio
  split
  · exact Nat.zero_le _
  · have hnearest := nearestEven_le (inUnits_lt hden (le_lastPlace num den))
    have hunit : Nat.pow 2 52 = binade := rfl
    refine (Nat.min_le_right _ _).trans ?_
    rw [hunit, Nat.add_mul]
    exact Nat.add_le_add_left hnearest _

theorem le_code_ofRatio (hnum : num ≠ 0) :
    min infinityCode ((lastPlace num den + 1074).toNat * binade) ≤ (ofRatio num den).code := by
  rw [ofRatio, if_neg hnum]
  exact min_le_min (Nat.le_refl _) (Nat.le_add_right _ _)

/-! ## Quotients of magnitudes -/

/-- The magnitude is below a power of two that is well inside the range. -/
def IsModest (m : Magnitude) : Prop := m.code ≤ 1095 * binade

theorem IsModest.isFinite {m : Magnitude} (h : m.IsModest) : m.isFinite = true := by
  unfold IsModest at h
  rw [Magnitude.isFinite, decide_eq_true_iff, infinityCode_eq]
  unfold binade at *
  omega

theorem mantissa_lt (m : Magnitude) : m.mantissa < 2 ^ 53 := by
  have hunit : Nat.pow 2 52 = binade := rfl
  unfold mantissa
  rw [hunit]
  split
  · unfold binade at *
    omega
  · have hmod : m.code % binade < binade := Nat.mod_lt _ (by decide)
    unfold binade at *
    omega

theorem le_mantissa {m : Magnitude} (h : binade ≤ m.code) : 2 ^ 52 ≤ m.mantissa := by
  have hnot : ¬ m.code < Nat.pow 2 52 := Nat.not_lt.2 h
  rw [mantissa, if_neg hnot]
  exact Nat.le_add_right _ _

theorem exponent_le {m : Magnitude} {k : Nat} (h : m.code ≤ k * binade) :
    m.exponent ≤ max (-1074) ((k : Int) - 1075) := by
  have hunit : Nat.pow 2 52 = binade := rfl
  unfold exponent
  rw [hunit]
  split
  · exact le_max_left _ _
  · have hquotient : m.code / binade ≤ k := Nat.div_le_of_le_mul (Nat.mul_comm k binade ▸ h)
    omega

theorem le_exponent {m : Magnitude} {k : Nat} (hk : 1 ≤ k) (h : k * binade ≤ m.code) :
    (k : Int) - 1075 ≤ m.exponent := by
  have hunit : Nat.pow 2 52 = binade := rfl
  have hnot : ¬ m.code < binade := Nat.not_lt.2 ((Nat.le_mul_of_pos_left _ hk).trans h)
  unfold exponent
  rw [hunit, if_neg hnot]
  have hquotient : k ≤ m.code / binade := (Nat.le_div_iff_mul_le (by decide)).2 h
  omega

/-- A quotient by a magnitude that is not next to zero, by the exponents. -/
theorem code_div_le {a b : Magnitude} (hb : binade ≤ b.code) :
    (a.div b).code ≤ ((max (-1074) (a.exponent - b.exponent - 52) + 1074).toNat + 4) * binade := by
  unfold div
  let num := a.ratio.1 * b.ratio.2
  let den := a.ratio.2 * b.ratio.1
  show (ofRatio num den).code ≤ _
  by_cases hzero : num = 0
  · rw [ofRatio, if_pos hzero]
    exact Nat.zero_le _
  -- a mantissa has at most 53 bits, and that of the divisor has all of them
  have hnum : num < 2 ^ (53 + a.exponent.toNat + (-b.exponent).toNat) := by
    calc a.mantissa * 2 ^ a.exponent.toNat * 2 ^ (-b.exponent).toNat
        < 2 ^ 53 * 2 ^ a.exponent.toNat * 2 ^ (-b.exponent).toNat :=
          Nat.mul_lt_mul_of_pos_right
            (Nat.mul_lt_mul_of_pos_right a.mantissa_lt (Nat.two_pow_pos _)) (Nat.two_pow_pos _)
      _ = 2 ^ (53 + a.exponent.toNat + (-b.exponent).toNat) := by rw [Nat.pow_add, Nat.pow_add]
  have hden : 2 ^ ((-a.exponent).toNat + (52 + b.exponent.toNat)) ≤ den := by
    calc 2 ^ ((-a.exponent).toNat + (52 + b.exponent.toNat))
        = 2 ^ (-a.exponent).toNat * (2 ^ 52 * 2 ^ b.exponent.toNat) := by
          rw [Nat.pow_add, Nat.pow_add]
      _ ≤ 2 ^ (-a.exponent).toNat * (b.mantissa * 2 ^ b.exponent.toNat) :=
          Nat.mul_le_mul_left _ (Nat.mul_le_mul_right _ (le_mantissa hb))
  have hpositive : den ≠ 0 := by
    have hpow := Nat.two_pow_pos ((-a.exponent).toNat + (52 + b.exponent.toNat))
    omega
  have hnumLog := (Nat.log2_lt hzero).2 hnum
  have hdenLog := (Nat.le_log2 hpositive).2 hden
  have hplace := lastPlace_le num den
  refine (code_ofRatio_le hpositive).trans (Nat.mul_le_mul_right _ ?_)
  omega

/-! ## Whole numbers -/

theorem code_ofNat_le {n k : Nat} (h : n < 2 ^ k) :
    (ofNat n).code ≤ (k + 1025) * binade := by
  by_cases hzero : n = 0
  · rw [ofNat, ofRatio, if_pos hzero]
    exact Nat.zero_le _
  · refine (code_ofRatio_le (by decide)).trans (Nat.mul_le_mul_right _ ?_)
    have hlog := (Nat.log2_lt hzero).2 h
    have hplace := lastPlace_le n 1
    have hone : (1 : Nat).log2 = 0 := by decide
    omega

theorem le_code_ofNat {n k : Nat} (h : 2 ^ k ≤ n) (hk : k ≤ 1023) :
    (k + 1021) * binade ≤ (ofNat n).code := by
  have hpositive : n ≠ 0 := by
    have hpow := Nat.two_pow_pos k
    omega
  have hlog := (Nat.le_log2 hpositive).2 h
  have hplace := le_lastPlace n 1
  have hone : (1 : Nat).log2 = 0 := by decide
  have hmultiple : (k + 1021) * binade ≤ (lastPlace n 1 + 1074).toNat * binade :=
    Nat.mul_le_mul_right _ (by omega)
  have hinfinite : (k + 1021) * binade ≤ infinityCode := by
    rw [infinityCode_eq]
    exact Nat.mul_le_mul_right _ (by omega)
  exact (le_min hinfinite hmultiple).trans (le_code_ofRatio hpositive)

theorem isModest_ofNat {n : Nat} (h : n < 2 ^ 65) : (ofNat n).IsModest :=
  (code_ofNat_le h).trans (Nat.mul_le_mul_right _ (by decide))

/-- A modest magnitude over a whole number is finite. -/
theorem IsModest.isFinite_div {m : Magnitude} (h : m.IsModest) {n : Nat} (hn : n ≠ 0) :
    (m.div (ofNat n)).isFinite = true := by
  have hcode : 1021 * binade ≤ (ofNat n).code :=
    le_code_ofNat (Nat.pos_of_ne_zero hn) (Nat.zero_le _)
  have hexponent := le_exponent (by decide) hcode
  have hupper := exponent_le h
  have hdiv : (m.div (ofNat n)).code ≤ 1100 * binade := by
    refine (code_div_le ?_).trans (Nat.mul_le_mul_right _ ?_)
    · exact (Nat.le_mul_of_pos_left _ (by decide)).trans hcode
    · omega
  rw [Magnitude.isFinite, decide_eq_true_iff, infinityCode_eq]
  unfold binade at *
  omega

/-- A modest magnitude over the greatest power of ten in a step is modest. -/
theorem IsModest.div_step {m : Magnitude} (h : m.IsModest) :
    (m.div (ofNat (Nat.pow 10 308))).IsModest := by
  have hcode : 2044 * binade ≤ (ofNat (Nat.pow 10 308)).code :=
    le_code_ofNat (by decide +kernel) (Nat.le_refl 1023)
  have hexponent := le_exponent (by decide) hcode
  have hupper := exponent_le h
  refine (code_div_le ?_).trans (Nat.mul_le_mul_right _ ?_)
  · exact (Nat.le_mul_of_pos_left _ (by decide)).trans hcode
  · omega

end Magnitude

/-- A signed or unsigned word as a floating-point number is finite. -/
theorem Binary64.isFinite_ofInt {value : Int} (hleast : Word.least ≤ value)
    (hgreatest : value ≤ Numeral.greatestWord) : (Binary64.ofInt value).isFinite = true := by
  unfold Word.least Numeral.greatestWord at *
  exact (Magnitude.isModest_ofNat (by omega)).isFinite

/-! ## Numerals -/

/-- The numbers that a document can hold: signed and unsigned words, and finite numbers. -/
def Number.InRange : Number → Prop
  | .int value => Word.least ≤ value ∧ value ≤ Numeral.greatestWord
  | .float value => value.isFinite = true

namespace Numeral

open Magnitude (IsModest)

theorem absorb_le {significand : Nat} (h : significand ≤ greatestWord) (digits : List Nat) :
    (absorb significand digits).1 ≤ greatestWord := by
  induction digits generalizing significand with
  | nil => exact h
  | cons d rest ih =>
    rw [absorb]
    split
    · rename_i hfits
      exact ih hfits
    · exact h

/-- What scaling gives is finite. -/
theorem isFinite_of_scale? {m scaled : Magnitude} {exponent : Int} (hm : m.IsModest)
    (h : scale? m exponent = some scaled) : scaled.isFinite = true := by
  fun_induction scale? m exponent with
  | case1 m exponent _ _ product hfinite => exact Option.some.inj h ▸ hfinite
  | case2 => cases h
  | case3 m exponent _ _ =>
    have hpower : Nat.pow 10 exponent.natAbs ≠ 0 := (Nat.pow_pos (by decide)).ne'
    exact Option.some.inj h ▸ hm.isFinite_div hpower
  | case4 => exact Option.some.inj h ▸ hm.isFinite
  | case5 => cases h
  | case6 m exponent _ _ _ ih => exact ih hm.div_step h

theorem isModest_of_le {n : Nat} (h : n ≤ greatestWord) : (Magnitude.ofNat n).IsModest :=
  Magnitude.isModest_ofNat (Nat.lt_of_le_of_lt h (by decide))

theorem inRange_of_float? {n : Numeral} {number : Number} (h : n.float? = some number) :
    number.InRange := by
  have hsignificand : n.scaled.1 ≤ greatestWord :=
    absorb_le (absorb_le (Nat.zero_le _) _) _
  obtain ⟨m, hm, rfl⟩ := Option.map_eq_some_iff.1 h
  exact isFinite_of_scale? (isModest_of_le hsignificand) hm

/-- Every number that is read is in range. -/
theorem inRange_of_number? {n : Numeral} {number : Number} (h : n.number? = some number) :
    number.InRange := by
  unfold number? at h
  dsimp only at h
  split at h
  · exact inRange_of_float? h
  rename_i hplain
  have hvalue : valueOf n.whole ≤ greatestWord := by
    simp only [not_or, Nat.not_lt] at hplain
    exact hplain.2.2
  split at h
  · obtain rfl := Option.some.inj h
    refine ⟨?_, Int.ofNat_le.2 hvalue⟩
    unfold Word.least
    omega
  split at h
  · obtain rfl := Option.some.inj h
    refine ⟨?_, ?_⟩
    · unfold Word.least
      omega
    · unfold greatestWord
      omega
  · obtain rfl := Option.some.inj h
    exact (isModest_of_le hvalue).isFinite

end Numeral
end LayerGraph
