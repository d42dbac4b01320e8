import LayerGraph.Json.Token
import LayerGraph.Proofs.FiniteFloats
/-!
# Numbers and their numerals

* `Numeral.inNumeral_of_read?` and `Numeral.starts_of_read?`: the characters that a numeral has, and
  the one that it starts with.
* `Number.IsReadBack` says that a number is read from its own text. `Number.IsReadBack.int`: words,
  signed and unsigned, are.

Of floating-point numbers this is not so in general, since a numeral is read with one rounding for
its digits and one for its power of ten.
-/

namespace LayerGraph
set_option autoImplicit false
open Json (inNumeral)

namespace Numeral

/-! ## The characters of a numeral -/

theorem inNumeral_of_isDigit {c : Char} (h : c.isDigit = true) : inNumeral c = true := by
  simp [inNumeral, h]

theorem digits_cons_of_isDigit {c : Char} (h : c.isDigit = true) (rest : List Char) :
    digits (c :: rest) = ((c.toNat - 48) :: (digits rest).1, (digits rest).2) := by
  rw [digits, digit?, if_pos h]

theorem digits_cons_of_not {c : Char} (h : ¬ c.isDigit = true) (rest : List Char) :
    digits (c :: rest) = ([], c :: rest) := by
  rw [digits, digit?, if_neg h]

theorem digits_of_isDigit {cs : List Char} (h : ∀ c ∈ cs, c.isDigit = true) :
    digits cs = (cs.map fun c => c.toNat - 48, []) := by
  induction cs with
  | nil => rfl
  | cons c rest ih =>
    have hrest := ih fun other hother => h other (List.mem_cons_of_mem _ hother)
    rw [digits_cons_of_isDigit (h c List.mem_cons_self), hrest]
    rfl

theorem inNumeral_or_mem_digits {c : Char} {cs : List Char} (h : c ∈ cs) :
    inNumeral c = true ∨ c ∈ (digits cs).2 := by
  induction cs with
  | nil => cases h
  | cons head rest ih =>
    by_cases hhead : head.isDigit = true
    · rw [digits_cons_of_isDigit hhead]
      rcases List.mem_cons.1 h with rfl | hrest
      · exact .inl (inNumeral_of_isDigit hhead)
      · exact ih hrest
    · rw [digits_cons_of_not hhead]
      exact .inr h

theorem inNumeral_of_digits {c : Char} {cs : List Char} {ds : List Nat}
    (h : digits cs = (ds, [])) (hc : c ∈ cs) : inNumeral c = true := by
  rcases inNumeral_or_mem_digits hc with hnumeral | hrest
  · exact hnumeral
  · rw [h] at hrest
    cases hrest

theorem inNumeral_of_exponentPart? {c : Char} {cs : List Char} {exponent : Option (Bool × List Nat)}
    (h : exponentPart? cs = some exponent) (hc : c ∈ cs) : inNumeral c = true := by
  fun_cases exponentPart? cs with
  | case1 => cases hc
  | case3 mark rest hmark _ after hsign _ _ hdigits =>
    rcases List.mem_cons.1 hc with rfl | hrest
    · rcases hmark with rfl | rfl <;> rfl
    have hsplit : inNumeral c = true ∨ c ∈ after := by
      split at hsign
      · obtain rfl := congrArg Prod.snd hsign
        exact (List.mem_cons.1 hrest).imp (fun heq : c = _ => heq ▸ rfl) id
      · obtain rfl := congrArg Prod.snd hsign
        exact (List.mem_cons.1 hrest).imp (fun heq : c = _ => heq ▸ rfl) id
      · obtain rfl := congrArg Prod.snd hsign
        exact .inr hrest
    exact hsplit.elim id (inNumeral_of_digits hdigits)
  | case2 => simp_all [exponentPart?]
  | case4 => simp_all [exponentPart?]
  | case5 => simp_all [exponentPart?]

theorem inNumeral_or_mem_of_fractionPart? {c : Char} {cs rest : List Char}
    {fraction : Option (List Nat)} (h : fractionPart? cs = some (fraction, rest)) (hc : c ∈ cs) :
    inNumeral c = true ∨ c ∈ rest := by
  unfold fractionPart? at h
  split at h
  · rename_i after
    rcases List.mem_cons.1 hc with rfl | hafter
    · exact .inl rfl
    split at h
    · cases h
    · rename_i hdigits
      obtain ⟨rfl, rfl⟩ := Prod.mk.inj (Option.some.inj h)
      have hsplit := inNumeral_or_mem_digits hafter
      rwa [hdigits] at hsplit
  · obtain ⟨rfl, rfl⟩ := Prod.mk.inj (Option.some.inj h)
    exact .inr hc

/-- The numeral behind a sign. -/
def unsigned? (negative : Bool) (cs : List Char) : Option Numeral :=
  if (digits cs).1.isEmpty = true ∨ ((digits cs).1.head? = some 0 ∧ 1 < (digits cs).1.length) then
    none
  else (fractionPart? (digits cs).2).bind fun part =>
    (exponentPart? part.2).bind fun exponent => some ⟨negative, (digits cs).1, part.1, exponent⟩

theorem read?_minus (cs : List Char) : read? ('-' :: cs) = unsigned? true cs := rfl

theorem read?_of_ne_minus {cs : List Char} (h : ∀ rest, cs ≠ '-' :: rest) :
    read? cs = unsigned? false cs := by
  unfold read?
  dsimp only
  split
  · rename_i rest
    exact absurd rfl (h rest)
  · rfl

/-- A numeral is a sign, if it is negative, and what stands behind it. -/
theorem exists_unsigned? {cs : List Char} {n : Numeral} (h : read? cs = some n) :
    ∃ negative rest, (cs = '-' :: rest ∨ cs = rest) ∧ unsigned? negative rest = some n := by
  by_cases hminus : ∃ rest, cs = '-' :: rest
  · obtain ⟨rest, rfl⟩ := hminus
    exact ⟨true, rest, .inl rfl, h⟩
  · rw [read?_of_ne_minus fun rest hrest => hminus ⟨rest, hrest⟩] at h
    exact ⟨false, cs, .inr rfl, h⟩

theorem parts_of_unsigned? {negative : Bool} {cs : List Char} {n : Numeral}
    (h : unsigned? negative cs = some n) :
    (digits cs).1 ≠ [] ∧ ∃ fraction after exponent,
      fractionPart? (digits cs).2 = some (fraction, after) ∧
      exponentPart? after = some exponent := by
  unfold unsigned? at h
  split at h
  · cases h
  rename_i hwhole
  obtain ⟨⟨fraction, after⟩, hfraction, h⟩ := Option.bind_eq_some_iff.1 h
  obtain ⟨exponent, hexponent, -⟩ := Option.bind_eq_some_iff.1 h
  exact ⟨fun hnil => hwhole (.inl (List.isEmpty_iff.2 hnil)), fraction, after, exponent, hfraction,
    hexponent⟩

theorem inNumeral_of_unsigned? {negative : Bool} {cs : List Char} {n : Numeral}
    (h : unsigned? negative cs = some n) {c : Char} (hc : c ∈ cs) : inNumeral c = true := by
  obtain ⟨-, fraction, after, exponent, hfraction, hexponent⟩ := parts_of_unsigned? h
  rcases inNumeral_or_mem_digits hc with hnumeral | hrest
  · exact hnumeral
  rcases inNumeral_or_mem_of_fractionPart? hfraction hrest with hnumeral | hafter
  · exact hnumeral
  · exact inNumeral_of_exponentPart? hexponent hafter

theorem inNumeral_of_read? {cs : List Char} {n : Numeral} (h : read? cs = some n) {c : Char}
    (hc : c ∈ cs) : inNumeral c = true := by
  obtain ⟨negative, rest, hsign, hrest⟩ := exists_unsigned? h
  rcases hsign with rfl | rfl
  · rcases List.mem_cons.1 hc with rfl | hc
    · rfl
    · exact inNumeral_of_unsigned? hrest hc
  · exact inNumeral_of_unsigned? hrest hc

/-- A numeral starts with a sign or a digit. -/
theorem starts_of_read? {cs : List Char} {n : Numeral} (h : read? cs = some n) :
    ∃ c rest, cs = c :: rest ∧ (c = '-' ∨ c.isDigit = true) := by
  obtain ⟨negative, rest, hsign, hrest⟩ := exists_unsigned? h
  rcases hsign with rfl | rfl
  · exact ⟨'-', rest, rfl, .inl rfl⟩
  have hwhole := (parts_of_unsigned? hrest).1
  cases cs with
  | nil => exact absurd rfl hwhole
  | cons c others =>
    by_cases hc : c.isDigit = true
    · exact ⟨c, others, rfl, .inr hc⟩
    · rw [digits_cons_of_not hc] at hwhole
      exact absurd rfl hwhole

/-! ## Whole numbers -/

/-- The digits of a whole number, as the numbers that they stand for. -/
def wholeDigits (n : Nat) : List Nat := (Nat.toDigits 10 n).map fun c => c.toNat - 48

theorem isDigit_of_mem_toDigits {n : Nat} {c : Char} (h : c ∈ Nat.toDigits 10 n) :
    c.isDigit = true :=
  Nat.isDigit_of_mem_toDigits (by decide) (by decide) h

theorem digits_toDigits (n : Nat) : digits (Nat.toDigits 10 n) = (wholeDigits n, []) :=
  digits_of_isDigit fun _ hc => isDigit_of_mem_toDigits hc

theorem valueOf_wholeDigits (n : Nat) : valueOf (wholeDigits n) = n := by
  calc valueOf (wholeDigits n) = Nat.ofDigitChars 10 (Nat.toDigits 10 n) 0 := by
        rw [valueOf, wholeDigits, List.foldl_map, Nat.ofDigitChars_eq_foldl]
        rfl
    _ = n := Nat.ofDigitChars_ten_toDigits

theorem wholeDigits_ne_nil (n : Nat) : wholeDigits n ≠ [] := fun h =>
  Nat.toDigits_ne_nil (List.map_eq_nil_iff.1 h)

/-- A positive number does not start with zero. -/
theorem head?_wholeDigits {n : Nat} (h : 0 < n) : (wholeDigits n).head? ≠ some 0 := by
  -- the digits of a number of several digits start like those of its tenth
  induction n using Nat.strongRecOn with
  | ind n ih =>
    by_cases hsmall : n < 10
    · rw [wholeDigits, Nat.toDigits_of_lt_base hsmall, List.map_singleton,
        Nat.toNat_digitChar_sub_48_of_lt_ten hsmall]
      intro hzero
      exact h.ne' (Option.some.inj hzero)
    · have hsplit : wholeDigits n = wholeDigits (n / 10) ++ [(n % 10).digitChar.toNat - 48] := by
        rw [wholeDigits, Nat.toDigits_of_base_le (by decide) (Nat.not_lt.1 hsmall), List.map_append]
        rfl
      have hfront := ih (n / 10) (by omega) (by omega)
      obtain ⟨first, others, hfirst⟩ := List.exists_cons_of_ne_nil (wholeDigits_ne_nil (n / 10))
      rw [hfirst] at hfront
      rw [hsplit, hfirst]
      exact hfront

theorem length_wholeDigits_zero : (wholeDigits 0).length = 1 := by decide

/-- A whole number is not refused for a zero in front. -/
theorem accepts_wholeDigits (n : Nat) :
    ¬((wholeDigits n).isEmpty = true ∨
      ((wholeDigits n).head? = some 0 ∧ 1 < (wholeDigits n).length)) := by
  rintro (hempty | ⟨hhead, hlength⟩)
  · exact wholeDigits_ne_nil n (List.isEmpty_iff.1 hempty)
  · rcases Nat.eq_zero_or_pos n with rfl | hpos
    · rw [length_wholeDigits_zero] at hlength
      exact absurd hlength (by decide)
    · exact head?_wholeDigits hpos hhead

theorem unsigned?_toDigits (negative : Bool) (n : Nat) :
    unsigned? negative (Nat.toDigits 10 n) = some ⟨negative, wholeDigits n, none, none⟩ := by
  rw [unsigned?, digits_toDigits]
  exact if_neg (accepts_wholeDigits n)

theorem read?_toDigits (n : Nat) :
    read? (Nat.toDigits 10 n) = some ⟨false, wholeDigits n, none, none⟩ := by
  rw [read?_of_ne_minus, unsigned?_toDigits]
  intro rest hminus
  have hdigit : '-'.isDigit = true := isDigit_of_mem_toDigits (hminus ▸ List.mem_cons_self)
  exact absurd hdigit (by decide)

theorem number?_wholeDigits {n : Nat} (h : n ≤ greatestWord) :
    number? ⟨false, wholeDigits n, none, none⟩ = some (.int n) := by
  have hplain : ¬((none : Option (List Nat)).isSome = true ∨
      (none : Option (Bool × List Nat)).isSome = true ∨ greatestWord < n) := by
    simpa using h
  unfold number?
  dsimp only
  rw [valueOf_wholeDigits, if_neg hplain, if_pos (by decide)]

theorem number?_neg_wholeDigits {n : Nat} (hpos : 0 < n) (h : n ≤ 9223372036854775808) :
    number? ⟨true, wholeDigits n, none, none⟩ = some (.int (-n)) := by
  have hfits : n ≤ greatestWord := h.trans (by decide)
  have hplain : ¬((none : Option (List Nat)).isSome = true ∨
      (none : Option (Bool × List Nat)).isSome = true ∨ greatestWord < n) := by
    simpa using hfits
  unfold number?
  dsimp only
  rw [valueOf_wholeDigits, if_neg hplain, if_neg (by decide), if_pos ⟨hpos, h⟩]

end Numeral

/-! ## Numbers that are read back -/

/-- The number is read from its own text. -/
def Number.IsReadBack (n : Number) : Prop :=
  (Numeral.read? n.text.toList).bind Numeral.number? = some n

instance (n : Number) : Decidable n.IsReadBack := inferInstanceAs (Decidable (_ = _))

def Binary64.IsReadBack (x : Binary64) : Prop := (Number.float x).IsReadBack

instance (x : Binary64) : Decidable x.IsReadBack :=
  inferInstanceAs (Decidable (Number.IsReadBack _))

/-- The numeral of a number that is read back. -/
theorem Number.IsReadBack.exists_read? {n : Number} (h : n.IsReadBack) :
    ∃ numeral, Numeral.read? n.text.toList = some numeral ∧ numeral.number? = some n :=
  Option.bind_eq_some_iff.1 h

/-- Signed and unsigned words are read back. -/
theorem Number.IsReadBack.int {value : Int} (h : (Number.int value).InRange) :
    (Number.int value).IsReadBack := by
  obtain ⟨hleast, hgreatest⟩ := h
  show (Numeral.read? value.repr.toList).bind Numeral.number? = some (.int value)
  rw [Int.repr_eq_if]
  split
  · rename_i hnonneg
    have hfits : value.toNat ≤ Numeral.greatestWord := by omega
    rw [Nat.toList_repr, Numeral.read?_toDigits, Option.bind_some,
      Numeral.number?_wholeDigits hfits, Int.toNat_of_nonneg hnonneg]
  · rename_i hneg
    unfold Word.least at hleast
    have hminus : ("-" ++ (-value).toNat.repr).toList = '-' :: Nat.toDigits 10 (-value).toNat := by
      rw [String.toList_append, Nat.toList_repr]
      rfl
    rw [hminus, Numeral.read?_minus, Numeral.unsigned?_toDigits, Option.bind_some,
      Numeral.number?_neg_wholeDigits (by omega) (by omega), Int.toNat_of_nonneg (by omega),
      Int.neg_neg]

end LayerGraph
