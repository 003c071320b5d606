import Lox.Number.Nearest

/-!
# The fewest digits that read back

A decimal reads back if the double nearest to it is the one it was chosen for. The search goes
through ever finer decimal grids. On each it tries the two neighbours of the exact value: if any
point of a grid reads back, one of these does. The first grid with a hit fixes the number of
digits, the nearer of two hits the digits themselves. A tie is left to the caller.
-/

namespace Lox.Number

/-- The number `digits * 10 ^ exponent`. -/
structure Decimal where
  digits : Nat
  exponent : Int
deriving DecidableEq, Repr

namespace Decimal

def num (d : Decimal) : Nat := d.digits * Nat.pow 10 d.exponent.toNat

def den (d : Decimal) : Nat := Nat.pow 10 (-d.exponent).toNat

/-- Is `x` the magnitude nearest to the decimal? -/
def readsBack (d : Decimal) (x : Magnitude) : Bool := (nearest d.num d.den).toBits = x.toBits

end Decimal

/-- Which of two equally near decimals is taken. -/
inductive Tie
  | up
  | toEven
deriving DecidableEq, Repr

/-- Which of two neighbouring decimals is chosen: the one that reads back and, if both do, the
nearer one. Twice what lies between the number and the lower one is `twice`, and the two are `den`
apart. -/
def Tie.choose (tie : Tie) (low high : Decimal) (lowReads highReads : Bool) (twice den : Nat) :
    Option Decimal :=
  match lowReads, highReads with
  | true, true =>
    if twice < den then some low
    else if den < twice then some high
    else match tie with
      | .up => some high
      | .toEven => if low.digits % 2 = 0 then some low else some high
  | true, false => some low
  | false, true => some high
  | false, false => none

namespace Magnitude

/-- The power of ten just above the number: with the position `p`, the number is below `10 ^ p`
and not below `10 ^ (p - 1)`. -/
def position (x : Magnitude) : Int :=
  if unitsPerOne ≤ x.units then (Nat.toDigits 10 x.wholePart).length
  else 1 - (Nat.toDigits 10 ((unitsPerOne - 1) / x.units)).length

/-- The decimal on the grid of `10 ^ exponent` that is chosen for the number, if one reads
back. -/
def onGrid (x : Magnitude) (tie : Tie) (exponent : Int) : Option Decimal :=
  let num := x.units * Nat.pow 10 (-exponent).toNat
  let den := unitsPerOne * Nat.pow 10 exponent.toNat
  let low : Decimal := ⟨num / den, exponent⟩
  let high : Decimal := ⟨num / den + 1, exponent⟩
  tie.choose low high (low.readsBack x) (high.readsBack x) (2 * (num % den)) den

/-- All digits of the number: a unit is `5 ^ 1074 / 10 ^ 1074`. -/
def exact (x : Magnitude) : Decimal := ⟨x.units * Nat.pow 5 1074, -1074⟩

/-- The decimal with the fewest digits that reads back. Seventeen digits always suffice, so the
exact digits are never called upon. -/
def shortest (x : Magnitude) (tie : Tie) : Decimal :=
  ((List.range 18).findSome? fun (i : Nat) => x.onGrid tie (x.position - i)).getD x.exact

end Magnitude

end Lox.Number
