import Lox.Number.Text
import Mathlib.Algebra.Group.Nat.Defs

/-!
# Decimals that read back

A decimal that is exactly a magnitude has that magnitude for its nearest one: nothing is left
to round, and the shift that leaves 53 binary places is the one the magnitude has. All digits of
a magnitude therefore read back, and so do the fewest, for no others are ever chosen.

Written out, a decimal is digits, with a point and further digits or without, and as a numeral
they stand for the fraction that the decimal is.
-/

namespace Lox.Number

namespace Magnitude

/-! ## Exact fractions -/

/-- The significand has at most 53 binary places, and it has all of them unless nothing is
shifted. -/
structure Canonical (x : Magnitude) : Prop where
  lt : x.significand < 2 ^ 53
  full : x.shift = 0 ∨ 2 ^ 52 ≤ x.significand

theorem canonical_ofBits (bits : Nat) : (ofBits bits).Canonical := by
  have hpow : Nat.pow 2 52 = 2 ^ 52 := rfl
  constructor
  · simp only [ofBits, hpow]
    omega
  · simp only [ofBits, hpow]
    omega

theorem toBits_ofBits {bits : Nat} (h : bits < infinityBits) : (ofBits bits).toBits = bits := by
  have hpow : Nat.pow 2 52 = 2 ^ 52 := rfl
  simp only [toBits, ofBits, hpow]
  omega

variable {x : Magnitude}

/-- The shift is what the size has beyond 53 binary places. -/
theorem Canonical.shift_eq (h : x.Canonical) : x.units.log2 + 1 - 53 = x.shift := by
  obtain ⟨significand, shift⟩ := x
  obtain ⟨hlt, hfull⟩ := h
  rcases hfull with hshift | hfull
  · obtain rfl : shift = 0 := hshift
    have hunits : (⟨significand, 0⟩ : Magnitude).units = significand := Nat.mul_one _
    have hlog : significand.log2 < 53 := by
      by_cases hzero : significand = 0
      · subst hzero
        decide
      · exact (Nat.log2_lt hzero).mpr hlt
    rw [hunits]
    show significand.log2 + 1 - 53 = 0
    omega
  · have hlow : 2 ^ (52 + shift) ≤ significand * 2 ^ shift := by
      rw [Nat.pow_add]
      exact Nat.mul_le_mul_right _ hfull
    have hhigh : significand * 2 ^ shift < 2 ^ (52 + shift + 1) := by
      rw [Nat.add_right_comm, Nat.pow_add]
      exact Nat.mul_lt_mul_of_pos_right hlt (Nat.two_pow_pos shift)
    have hne : significand * 2 ^ shift ≠ 0 := fun hzero =>
      absurd (hzero ▸ hlow) (Nat.not_le.mpr (Nat.two_pow_pos _))
    have hlog : (significand * 2 ^ shift).log2 = 52 + shift :=
      (Nat.log2_eq_iff hne).mpr ⟨hlow, hhigh⟩
    show (significand * 2 ^ shift).log2 + 1 - 53 = shift
    omega

theorem roundHalfEven_exact {num den : Nat} (hden : 0 < den) :
    roundHalfEven (num * den) den = num := by
  rw [roundHalfEven, Nat.mul_div_cancel _ hden, Nat.mul_mod_left, if_pos (.inl hden)]

/-- What is exactly the magnitude is not rounded. -/
theorem Canonical.nearest_eq (h : x.Canonical) {num den : Nat} (hden : 0 < den)
    (heq : num * unitsPerOne = x.units * den) : nearest num den = x := by
  have hscaled : x.units * den = x.significand * (den * Nat.pow 2 x.shift) := by
    rw [units, Nat.mul_assoc, Nat.mul_comm den]
  have hround : roundHalfEven (x.units * den) (den * Nat.pow 2 x.shift) = x.significand := by
    rw [hscaled]
    exact roundHalfEven_exact (Nat.mul_pos hden (Nat.two_pow_pos _))
  rw [nearest, heq, Nat.mul_div_cancel _ hden, h.shift_eq, hround]

/-! ## The fewest digits -/

/-- With a digit for each place of a unit nothing is lost. -/
theorem Canonical.readsBack_all (h : x.Canonical) {places : Nat}
    (hunit : unitsPerOne = Nat.pow 2 places) :
    Decimal.readsBack ⟨x.units * Nat.pow 5 places, -places⟩ x = true := by
  have hnum : Decimal.num ⟨x.units * Nat.pow 5 places, -places⟩ = x.units * Nat.pow 5 places := by
    rw [Decimal.num, Int.toNat_of_nonpos (Int.neg_nonpos_of_nonneg (Int.natCast_nonneg _))]
    exact Nat.mul_one _
  have hden : Decimal.den ⟨x.units * Nat.pow 5 places, -places⟩ =
      Nat.pow 5 places * unitsPerOne := by
    rw [Decimal.den, Int.neg_neg, Int.toNat_natCast, hunit]
    exact Nat.mul_pow 5 2 places
  have hpos : 0 < Decimal.den ⟨x.units * Nat.pow 5 places, -places⟩ := Nat.pow_pos (by decide)
  rw [Decimal.readsBack, h.nearest_eq hpos]
  · exact decide_eq_true rfl
  · rw [hnum, hden, Nat.mul_assoc]

/-- What is chosen reads back. -/
theorem of_choose {tie : Tie} {low high d : Decimal} {lowReads highReads : Bool} {twice den : Nat}
    (h : tie.choose low high lowReads highReads twice den = some d) :
    d = low ∧ lowReads = true ∨ d = high ∧ highReads = true := by
  unfold Tie.choose at h
  grind

theorem readsBack_onGrid {tie : Tie} {exponent : Int} {d : Decimal}
    (h : x.onGrid tie exponent = some d) : d.readsBack x = true := by
  rw [onGrid] at h
  rcases of_choose h with ⟨rfl, hlow⟩ | ⟨rfl, hhigh⟩
  · exact hlow
  · exact hhigh

theorem Canonical.readsBack_shortest (h : x.Canonical) (tie : Tie) :
    (x.shortest tie).readsBack x = true := by
  rw [shortest]
  cases hfound : (List.range 18).findSome? fun (i : Nat) => x.onGrid tie (x.position - i) with
  | none =>
      have hunit : unitsPerOne = Nat.pow 2 1074 := by
        unfold unitsPerOne
        exact Eq.refl _
      have hall := h.readsBack_all hunit
      exact hall
  | some d =>
      obtain ⟨i, -, hgrid⟩ := List.exists_of_findSome?_eq_some hfound
      exact readsBack_onGrid hgrid

end Magnitude

/-! ## Decimals in writing -/

/-- Digits, with a point and the digits behind it if there are any. -/
def written (whole fraction : List Char) : List Char :=
  if fraction = [] then whole else whole ++ '.' :: fraction

/-- A text that is the numeral of the double nearest to a fraction. -/
def Writes (text : List Char) (num den : Nat) : Prop :=
  ∃ whole fraction, text = written whole fraction ∧ whole ≠ [] ∧
    (∀ c ∈ whole ++ fraction, c.isDigit = true) ∧ ofNumeral whole fraction = ofFraction num den

theorem isDigit_numeral {n : Nat} : ∀ c ∈ numeral n, c.isDigit = true :=
  fun _ hc => Nat.isDigit_of_mem_toDigits (by decide) (by decide) hc

theorem writes_numeral (n : Nat) : Writes (numeral n) n 1 := by
  refine ⟨numeral n, [], rfl, Nat.toDigits_ne_nil, ?_, ?_⟩
  · rw [List.append_nil]
    exact isDigit_numeral
  · rw [ofNumeral, List.append_nil, numeral, Nat.ofDigitChars_ten_toDigits]
    rfl

section Padded

variable {places n : Nat}

theorem isDigit_paddedNumeral : ∀ c ∈ paddedNumeral places n, c.isDigit = true := by
  intro c hc
  rcases List.mem_append.mp hc with hzero | hdigit
  · rw [List.eq_of_mem_replicate hzero]
    decide
  · exact isDigit_numeral c hdigit

theorem length_paddedNumeral (hplaces : 0 < places) (h : n < 10 ^ places) :
    (paddedNumeral places n).length = places := by
  have hle : (numeral n).length ≤ places :=
    (Nat.length_toDigits_le_iff (by decide) hplaces).mpr h
  rw [paddedNumeral, List.length_append, List.length_replicate]
  omega

/-- Leading zeros count for nothing. -/
theorem ofDigitChars_paddedNumeral :
    Nat.ofDigitChars 10 (paddedNumeral places n) 0 = n := by
  rw [paddedNumeral, Nat.ofDigitChars_append, Nat.ofDigitChars_replicate_zero, Nat.mul_zero,
    numeral, Nat.ofDigitChars_ten_toDigits]

end Padded

theorem writes_positional (d : Decimal) : Writes d.positional d.num d.den := by
  rw [Decimal.positional]
  split
  · rename_i hexponent
    have hden : d.den = 1 := by
      rw [Decimal.den, Int.toNat_of_nonpos (by omega)]
    rw [hden]
    exact writes_numeral d.num
  · rename_i hexponent
    have hplaces : 0 < (-d.exponent).toNat := by omega
    have hnum : d.num = d.digits := by
      rw [Decimal.num, Int.toNat_of_nonpos (by omega)]
      exact Nat.mul_one _
    have hlt : d.digits % d.den < 10 ^ (-d.exponent).toNat :=
      Nat.mod_lt _ (Nat.pow_pos (by decide))
    have hlength := length_paddedNumeral hplaces hlt
    have hne : paddedNumeral (-d.exponent).toNat (d.digits % d.den) ≠ [] := by
      rw [← List.length_pos_iff, hlength]
      exact hplaces
    refine ⟨_, _, (if_neg hne).symm, Nat.toDigits_ne_nil, ?_, ?_⟩
    · exact List.forall_mem_append.mpr ⟨isDigit_numeral, isDigit_paddedNumeral⟩
    · have hvalue : Nat.ofDigitChars 10 (numeral (d.digits / d.den) ++
          paddedNumeral (-d.exponent).toNat (d.digits % d.den)) 0 = d.digits := by
        rw [Nat.ofDigitChars_append, Nat.ofDigitChars_eq_ofDigitChars_zero, hlength,
          ofDigitChars_paddedNumeral, numeral, Nat.ofDigitChars_ten_toDigits]
        exact Nat.div_add_mod d.digits d.den
      rw [ofNumeral, hvalue, hlength, hnum, Decimal.den]

end Lox.Number
