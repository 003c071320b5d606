import Lox.Number.Shortest

/-!
# Numbers in writing

Four places write numbers, each in its own way: the text of a value, the dump of a tree, the
listing of tokens and the JSON form of tokens. They agree on the digits, which are all of them
for a whole number and the fewest that read back otherwise, and differ in what stands around
them.
-/

namespace Lox.Number

/-- The digits of a natural number. -/
def numeral (n : Nat) : List Char := Nat.toDigits 10 n

/-- Digits filled up with leading zeros to a given number of places. -/
def paddedNumeral (places n : Nat) : List Char :=
  List.replicate (places - (numeral n).length) '0' ++ numeral n

/-- A decimal written out without an exponent. -/
def Decimal.positional (d : Decimal) : List Char :=
  if 0 ≤ d.exponent then numeral d.num
  else numeral (d.digits / d.den) ++ '.' :: paddedNumeral (-d.exponent).toNat (d.digits % d.den)

/-- A minus sign for a negative number. -/
def sign (negative : Bool) : List Char := if negative then ['-'] else []

/-- The names of the numbers that are not finite. -/
def nanText : List Char := ['N', 'a', 'N']

/-- Infinity, with its sign. -/
def infinityText (negative : Bool) : List Char := sign negative ++ ['i', 'n', 'f']

/-- A number as the text of a value: a whole number has no point, zero keeps its sign, and no
number has an exponent. -/
def valueText (value : Float) : String :=
  String.ofList <| match Shape.ofFloat value with
    | .nan => nanText
    | .infinite negative => infinityText negative
    | .finite negative size =>
      sign negative ++
        if size.isWhole then numeral size.wholePart else (size.shortest .up).positional

/-- A number in the dump of a tree: as the text of a value, but a whole number ends in `.0`. -/
def dumpText (value : Float) : String :=
  String.ofList <| match Shape.ofFloat value with
    | .nan => nanText
    | .infinite negative => infinityText negative
    | .finite negative size =>
      sign negative ++
        if size.isWhole then numeral size.wholePart ++ ['.', '0']
        else (size.shortest .up).positional

/-- A number in the listing of tokens. Whole numbers below 2⁶³ end in `.0`, and zero has no sign;
larger ones have the fewest digits that read back, followed by zeros. -/
def listingText (value : Float) : String :=
  String.ofList <| match Shape.ofFloat value with
    | .nan => nanText
    | .infinite negative => infinityText negative
    | .finite negative size =>
      if size.isWhole ∧ size.wholePart < Nat.pow 2 63 then
        sign (negative && size.wholePart != 0) ++ numeral size.wholePart ++ ['.', '0']
      else sign negative ++ (size.shortest .up).positional

/-- A number in JSON, which has no name for one that is not finite. Numbers from `10 ^ -5` to below
`10 ^ 16` are written out, whole ones with `.0`; others have one digit before the point and an
exponent with its sign. -/
def jsonText (value : Float) : String :=
  String.ofList <| match Shape.ofFloat value with
    | .nan | .infinite _ => ['n', 'u', 'l', 'l']
    | .finite negative size =>
      sign negative ++
        if size.units = 0 then ['0', '.', '0']
        else
          let d := size.shortest .toEven
          let written := numeral d.digits
          let leading := d.exponent + written.length - 1
          if -5 ≤ leading ∧ leading ≤ 15 then
            d.positional ++ if 0 ≤ d.exponent then ['.', '0'] else []
          else
            written.take 1 ++ (if written.length = 1 then [] else '.' :: written.drop 1) ++
              ['e', if leading < 0 then '-' else '+'] ++ numeral leading.natAbs

end Lox.Number
