import Lox.Number.Magnitude

/-!
# The double nearest to a fraction

Rounding is done once, on the exact fraction, so the result is the double nearest to it; of two
equally near ones it is the one with the even significand.
-/

namespace Lox.Number

/-- The whole number nearest to a quotient, of two equally near ones the even one. -/
def roundHalfEven (num den : Nat) : Nat :=
  let low := num / den
  let twice := 2 * (num % den)
  if twice < den ∨ (twice = den ∧ low % 2 = 0) then low else low + 1

/-- The magnitude nearest to `num / den`. The shift is the least one that leaves the significand
at most 53 binary places. -/
def nearest (num den : Nat) : Magnitude :=
  let scaled := num * unitsPerOne
  let shift := (scaled / den).log2 + 1 - 53
  ⟨roundHalfEven scaled (den * Nat.pow 2 shift), shift⟩

/-- The double nearest to `num / den`. -/
def ofFraction (num den : Nat) : Float :=
  Float.ofBits (UInt64.ofNat (nearest num den).toBits)

/-- The double that a numeral stands for: digits before the point, digits after it. -/
def ofNumeral (whole fraction : List Char) : Float :=
  ofFraction (Nat.ofDigitChars 10 (whole ++ fraction) 0) (Nat.pow 10 fraction.length)

end Lox.Number
