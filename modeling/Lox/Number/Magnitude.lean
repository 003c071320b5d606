/-!
# Finite doubles as whole numbers

The smallest positive double is 2⁻¹⁰⁷⁴ and every finite double is a whole multiple of it. With
that unit nothing here needs a fraction or a negative exponent: a magnitude is a significand and
a number of binary places by which it is shifted, and its size is a natural number of units.

The 63 bits below the sign hold shift and significand so that the two are read off by one
division, and the bit patterns of larger magnitudes are larger numbers.
-/

namespace Lox.Number

/-- The size of a finite double, `significand * 2 ^ shift` units of 2⁻¹⁰⁷⁴. -/
structure Magnitude where
  significand : Nat
  shift : Nat
deriving DecidableEq, Repr

/-- The number of units in one. -/
def unitsPerOne : Nat := Nat.pow 2 1074

/-- The bits of infinity, above those of every finite magnitude. -/
def infinityBits : Nat := 2047 * Nat.pow 2 52

namespace Magnitude

/-- The size in units. -/
def units (x : Magnitude) : Nat := x.significand * Nat.pow 2 x.shift

/-- Reads the bits below the sign. The topmost bit of a normal significand is not stored; the
subtraction restores it, because the stored exponent exceeds the shift by one just then. -/
def ofBits (bits : Nat) : Magnitude :=
  let shift := bits / Nat.pow 2 52 - 1
  ⟨bits - shift * Nat.pow 2 52, shift⟩

/-- The bits below the sign. A significand of 2⁵³ carries into the exponent, which is the same
number with the next shift; what is too large for a finite double becomes infinity. -/
def toBits (x : Magnitude) : Nat := min (x.shift * Nat.pow 2 52 + x.significand) infinityBits

/-- Is the number whole? -/
def isWhole (x : Magnitude) : Bool := x.units % unitsPerOne = 0

/-- The whole part. -/
def wholePart (x : Magnitude) : Nat := x.units / unitsPerOne

end Magnitude

/-- What a double is. -/
inductive Shape
  | nan
  | infinite (negative : Bool)
  | finite (negative : Bool) (size : Magnitude)
deriving DecidableEq, Repr

/-- Takes a double apart. -/
def Shape.ofFloat (value : Float) : Shape :=
  let bits := value.toBits.toNat
  let negative := decide (Nat.pow 2 63 ≤ bits)
  let low := bits % Nat.pow 2 63
  if low < infinityBits then .finite negative (Magnitude.ofBits low)
  else if low = infinityBits then .infinite negative
  else .nan

end Lox.Number
