import Lox.Number.Magnitude
import Mathlib

/-!
# Doubles and their bits

A finite double is made again from the bits below its sign, with the sign put before. The bits
are three fields; what a double is taken apart into for arithmetic is put together from the
same exponent and significand, whatever sign it is given.
-/

namespace Lox.Number

open Float.Model Float.Model.UnpackedFloat

/-! ## Fields -/

theorem toNat_unpackExponent (b : BitVec 64) :
    (@unpackExponent Format.binary64 b).toNat = b.toNat / 2 ^ 52 % 2 ^ 11 := by
  simp only [unpackExponent, BitVec.toNat_cast, BitVec.extractLsb_toNat, Nat.shiftRight_eq_div_pow]

theorem toNat_unpackMantissa (b : BitVec 64) :
    (@unpackMantissa Format.binary64 b).toNat = b.toNat % 2 ^ 52 := by
  simp only [unpackMantissa, BitVec.toNat_cast, BitVec.extractLsb_toNat, Nat.shiftRight_zero]

theorem toNat_unpackSign (b : BitVec 64) :
    (@unpackSign Format.binary64 b).toNat = b.toNat / 2 ^ 63 % 2 := by
  simp only [unpackSign, BitVec.toNat_cast, BitVec.extractLsb_toNat, Nat.shiftRight_eq_div_pow]

theorem toNat_packComponents (s : Sign) (e : BitVec 11) (m : BitVec 52) :
    (packComponents Format.binary64 s e m).toNat =
      s.toBitVec.toNat * 2 ^ 63 + (e.toNat * 2 ^ 52 + m.toNat) := by
  rw [packComponents, BitVec.toNat_append, ← Nat.shiftLeft_add_eq_or_of_lt m.isLt,
    BitVec.toNat_append, ← Nat.shiftLeft_add_eq_or_of_lt e.isLt, Nat.shiftLeft_eq, Nat.shiftLeft_eq]
  show (_ * 2 ^ 11 + _) * 2 ^ 52 + _ = _
  omega

/-! ## Packing what was unpacked -/

/-- The number with another sign. -/
def signed (s : Sign) : UnpackedFloat → UnpackedFloat
  | .notANumber => .notANumber
  | .infinity _ => .infinity s
  | .zero _ => .zero s
  | .finite _ m e h => .finite s m e h

theorem neg_signed (s : Sign) (f : UnpackedFloat) : (signed s f).neg = signed (-s) f := by
  cases f <;> rfl

/-- Under another sign the same fields are unpacked as the same number with that sign. -/
theorem unpack_packComponents (s : Sign) (b : BitVec 64) :
    UnpackedFloat.unpack .binary64
        (packComponents .binary64 s (unpackExponent b) (unpackMantissa b)) =
      signed s (UnpackedFloat.unpack .binary64 b) := by
  rw [UnpackedFloat.unpack, UnpackedFloat.unpack]
  simp only [unpackExponent_packComponents, unpackMantissa_packComponents,
    unpackSign_packComponents, Sign.ofBitVec_toBitVec]
  split
  · split <;> rfl
  · split
    · split <;> rfl
    · rfl

theorem signed_unpack (b : BitVec 64) :
    signed (.ofBitVec (@unpackSign Format.binary64 b)) (UnpackedFloat.unpack .binary64 b) =
      UnpackedFloat.unpack .binary64 b := by
  rw [← unpack_packComponents, packComponents_unpackSign_unpackExponent_unpackMantissa]

section Finite

variable {b : BitVec 64} (h : @unpackExponent Format.binary64 b ≠ -1#11)
include h

theorem exponent_lt : (@unpackExponent Format.binary64 b).toNat < 2047 := by
  have hlt : (@unpackExponent Format.binary64 b).toNat < 2048 := BitVec.isLt _
  have hne : (@unpackExponent Format.binary64 b).toNat ≠ 2047 := fun heq =>
    h (BitVec.eq_of_toNat_eq heq)
  omega

theorem pack_unpack_finite : UnpackedFloat.pack .binary64 (.unpack .binary64 b) = b := by
  have hnan : ¬ @isNaNBits Format.binary64 b := fun hnan => h (of_decide_eq_true hnan).1
  exact (@pack_unpack Format.binary64 b (by decide)).trans (if_neg hnan)

/-- The bits below the sign are what they were. -/
theorem toNat_pack_signed_unpack (s : Sign) :
    (UnpackedFloat.pack .binary64 (signed s (UnpackedFloat.unpack .binary64 b))).toNat =
      s.toBitVec.toNat * 2 ^ 63 + b.toNat % 2 ^ 63 := by
  rw [← unpack_packComponents, pack_unpack_finite, toNat_packComponents, toNat_unpackExponent,
    toNat_unpackMantissa]
  · omega
  · rwa [unpackExponent_packComponents]

end Finite

/-! ## Finite doubles -/

/-- The bits below the sign. -/
def lowBits (v : Float) : Nat := v.toBits.toNat % Nat.pow 2 63

def isNegative (v : Float) : Bool := decide (Nat.pow 2 63 ≤ v.toBits.toNat)

theorem lowBits_lt {v : Float} (h : v.isFinite = true) : lowBits v < infinityBits := by
  have hexponent : @unpackExponent Format.binary64 v.toBits.toBitVec ≠ -1#11 := by
    intro heq
    have hinf : UnpackedFloat.isFinite (UnpackedFloat.unpack .binary64 v.toBits.toBitVec) =
        true := h
    rw [UnpackedFloat.unpack] at hinf
    dsimp only at hinf
    rw [if_pos heq] at hinf
    split at hinf <;> cases hinf
  have hlt := exponent_lt hexponent
  rw [toNat_unpackExponent] at hlt
  show v.toBits.toBitVec.toNat % 9223372036854775808 < 9218868437227405312
  omega

section OfBits

variable {low : Nat} (h : low < infinityBits)
include h

theorem toNat_ofNat_low : (UInt64.ofNat low).toBitVec.toNat = low := by
  have hlt : low < 9218868437227405312 := h
  show (UInt64.ofNat low).toNat = low
  rw [UInt64.toNat_ofNat']
  omega

theorem exponent_ofNat_low :
    @unpackExponent Format.binary64 (UInt64.ofNat low).toBitVec ≠ -1#11 := by
  have hlt : low < 9218868437227405312 := h
  intro heq
  have hnat := congrArg BitVec.toNat heq
  rw [toNat_unpackExponent, toNat_ofNat_low h] at hnat
  have hones : (-1#11).toNat = 2047 := rfl
  omega

theorem signed_unpack_low :
    signed .positive (UnpackedFloat.unpack .binary64 (UInt64.ofNat low).toBitVec) =
      UnpackedFloat.unpack .binary64 (UInt64.ofNat low).toBitVec := by
  have hlt : low < 9218868437227405312 := h
  have hsign : @unpackSign Format.binary64 (UInt64.ofNat low).toBitVec = 0#1 := by
    apply BitVec.eq_of_toNat_eq
    rw [toNat_unpackSign, toNat_ofNat_low h]
    show low / 9223372036854775808 % 2 = 0
    omega
  have hs := signed_unpack (UInt64.ofNat low).toBitVec
  rw [hsign] at hs
  exact hs

theorem toBits_ofBits : (Float.ofBits (UInt64.ofNat low)).toBits = UInt64.ofNat low :=
  UInt64.toBitVec_inj.mp (pack_unpack_finite (exponent_ofNat_low h))

/-- Negation sets the sign. -/
theorem toBits_neg_ofBits :
    (-Float.ofBits (UInt64.ofNat low)).toBits.toNat = 2 ^ 63 + low := by
  have hlt : low < 9218868437227405312 := h
  have hpack := toNat_pack_signed_unpack (exponent_ofNat_low h) .negative
  rw [toNat_ofNat_low h] at hpack
  show (UnpackedFloat.pack _ (UnpackedFloat.neg (UnpackedFloat.unpack .binary64
    (Float.ofBits (UInt64.ofNat low)).toBits.toBitVec))).toNat = _
  rw [toBits_ofBits h, ← signed_unpack_low h, neg_signed]
  show (UnpackedFloat.pack _ (signed .negative _)).toNat = _
  rw [hpack]
  show 1 * 2 ^ 63 + low % 9223372036854775808 = _
  omega

end OfBits

/-- A finite double is the one with its low bits, or the negative of it. -/
theorem eq_ofBits_lowBits {v : Float} (h : v.isFinite = true) :
    v = if isNegative v then -Float.ofBits (UInt64.ofNat (lowBits v))
      else Float.ofBits (UInt64.ofNat (lowBits v)) := by
  have hlow := lowBits_lt h
  have hdiv : v.toBits.toNat < 2 ^ 64 := v.toBits.toNat_lt
  refine Float.toBits_inj.mp (UInt64.toNat_inj.mp ?_)
  cases hn : isNegative v with
  | true =>
      have hle : 9223372036854775808 ≤ v.toBits.toNat := of_decide_eq_true hn
      rw [if_pos rfl, toBits_neg_ofBits hlow]
      show _ = 2 ^ 63 + v.toBits.toNat % 9223372036854775808
      omega
  | false =>
      have hlt : ¬ 9223372036854775808 ≤ v.toBits.toNat := of_decide_eq_false hn
      rw [if_neg Bool.false_ne_true, toBits_ofBits hlow]
      refine Eq.trans ?_ (toNat_ofNat_low hlow).symm
      show _ = v.toBits.toNat % 9223372036854775808
      omega

theorem shape_of_isFinite {v : Float} (h : v.isFinite = true) :
    Shape.ofFloat v = .finite (isNegative v) (Magnitude.ofBits (lowBits v)) :=
  if_pos (lowBits_lt h)

end Lox.Number
