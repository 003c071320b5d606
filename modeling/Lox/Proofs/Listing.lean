import Lox.Proofs.Layout
import Lox.Proofs.Number.Bits
import Lox.Proofs.Number.Digits
import Lox.Token.Text
import Lox.Tree.Dump

/-!
# Numbers in the listing and in the dump

Both mark a whole number by `.0`, the dump at any size and the listing up to the largest number
of 63 binary places. Above that the listing falls back on the fewest digits, filled up with
zeros, and a number of that size has more than seventeen digits: there is no point in the text
at all. The two texts of a number that was scanned are the same except for these.
-/

namespace Lox

open Number Token

/-! ## Whole numbers -/

namespace Number

/-- The whole number that a double is, if it is one. -/
def whole? (value : Float) : Option Int :=
  match Shape.ofFloat value with
  | .finite negative size =>
    if size.isWhole then some (if negative then -(size.wholePart : Int) else size.wholePart)
    else none
  | _ => none

/-- The sign and the magnitude in the shape of a double are those of its bits. -/
theorem of_shape {v : Float} {negative : Bool} {size : Magnitude}
    (h : Shape.ofFloat v = .finite negative size) :
    negative = isNegative v ∧ size = Magnitude.ofBits (lowBits v) := by
  rw [Shape.ofFloat] at h
  split at h
  · cases h
    exact ⟨rfl, rfl⟩
  · split at h <;> cases h

theorem canonical_of_shape {v : Float} {negative : Bool} {size : Magnitude}
    (h : Shape.ofFloat v = .finite negative size) : size.Canonical :=
  (of_shape h).2 ▸ Magnitude.canonical_ofBits _

theorem shape_of_whole? {v : Float} {z : Int} (h : whole? v = some z) :
    ∃ negative size, Shape.ofFloat v = .finite negative size ∧ size.isWhole = true ∧
      z = if negative then -(size.wholePart : Int) else size.wholePart := by
  rw [whole?] at h
  split at h
  · rename_i negative size hshape
    split at h
    · rename_i hwhole
      exact ⟨negative, size, hshape, hwhole, (Option.some.inj h).symm⟩
    · cases h
  · cases h

theorem natAbs_signed (negative : Bool) (n : Nat) :
    (if negative then -(n : Int) else n).natAbs = n := by
  cases negative <;> simp

theorem toList_toString (negative : Bool) (n : Nat) :
    (toString (if negative then -(n : Int) else n)).toList =
      sign (negative && n != 0) ++ numeral n := by
  cases negative with
  | false => exact String.toList_ofList
  | true =>
      cases n with
      | zero => rfl
      | succ n =>
          show (String.append "-" (String.ofList (numeral (n + 1)))).toList = _
          exact String.toList_append.trans (congrArg _ String.toList_ofList)

theorem pointed_toString (negative : Bool) (n : Nat) :
    String.ofList (sign (negative && n != 0) ++ numeral n ++ ['.', '0']) =
      toString (if negative then -(n : Int) else n) ++ ".0" := by
  rw [← toList_toString, String.ofList_append, String.ofList_toList]

/-! ## The listing -/

theorem listingText_small {v : Float} {z : Int} (h : whole? v = some z)
    (hsmall : z.natAbs < 2 ^ 63) : listingText v = toString z ++ ".0" := by
  obtain ⟨negative, size, hshape, hwhole, rfl⟩ := shape_of_whole? h
  rw [natAbs_signed] at hsmall
  rw [listingText, hshape]
  dsimp only
  rw [if_pos ⟨hwhole, hsmall⟩, pointed_toString]

theorem point_not_mem_sign (negative : Bool) : '.' ∉ sign negative := by
  cases negative <;> decide

theorem point_not_mem_numeral (n : Nat) : '.' ∉ numeral n := fun hmem =>
  absurd (isDigit_numeral _ hmem) (by decide)

/-- Above 63 binary places there is no point. -/
theorem listingText_large {v : Float} {z : Int} (h : whole? v = some z)
    (hlarge : 2 ^ 63 ≤ z.natAbs) : '.' ∉ (listingText v).toList := by
  obtain ⟨negative, size, hshape, hwhole, rfl⟩ := shape_of_whole? h
  rw [natAbs_signed] at hlarge
  have hexponent := (canonical_of_shape hshape).exponent_shortest
    (Nat.le_trans (by decide) hlarge) .up
  have hnot : ¬ (size.isWhole = true ∧ size.wholePart < Nat.pow 2 63) := fun hsmall =>
    Nat.not_lt.mpr hlarge hsmall.2
  rw [listingText, hshape]
  dsimp only
  rw [if_neg hnot, String.toList_ofList, Decimal.positional, if_pos hexponent]
  exact List.not_mem_append (point_not_mem_sign negative) (point_not_mem_numeral _)

theorem listingText_eq_iff {v : Float} {z : Int} (h : whole? v = some z) :
    listingText v = toString z ++ ".0" ↔ z.natAbs < 2 ^ 63 := by
  constructor
  · intro heq
    refine Nat.lt_of_not_le fun hlarge => listingText_large h hlarge ?_
    rw [heq, String.toList_append]
    exact List.mem_append_right _ (List.mem_cons_self ..)
  · exact listingText_small h

/-! ## The dump -/

theorem dumpText_whole {v : Float} {z : Int} (hv : isNegative v = false)
    (h : whole? v = some z) : dumpText v = toString z ++ ".0" := by
  obtain ⟨negative, size, hshape, hwhole, rfl⟩ := shape_of_whole? h
  obtain rfl : negative = false := (of_shape hshape).1.trans hv
  rw [dumpText, hshape]
  dsimp only
  rw [if_pos hwhole, ← pointed_toString]
  rfl

/-- What is not a whole number is written in one way. -/
theorem listingText_eq_dumpText {v : Float} (h : whole? v = none) :
    listingText v = dumpText v := by
  rw [whole?] at h
  rw [listingText, dumpText]
  split at h
  · rename_i negative size hshape
    split at h
    · cases h
    · rename_i hwhole
      rw [hshape]
      dsimp only
      rw [if_neg fun hboth => hwhole hboth.1, if_neg hwhole]
  · split
    · rfl
    · rfl
    · rename_i hnot _ negative size hshape
      exact (hnot negative size hshape).elim

theorem listingText_eq_dumpText_iff {v : Float} (hv : isNegative v = false) :
    listingText v = dumpText v ↔ ∀ z, whole? v = some z → z.natAbs < 2 ^ 63 := by
  cases hwhole : whole? v with
  | none =>
      constructor
      · intro _ z hz
        cases hz
      · exact fun _ => listingText_eq_dumpText hwhole
  | some z =>
      rw [dumpText_whole hv hwhole, listingText_eq_iff hwhole]
      constructor
      · intro hsmall z' hz'
        cases hz'
        exact hsmall
      · exact fun h => h z rfl

/-- A fraction has no sign, whether it is rounded to a finite number or not. -/
theorem isNegative_ofFraction (num den : Nat) : isNegative (ofFraction num den) = false := by
  rw [ofFraction]
  have hle : (nearest num den).toBits ≤ infinityBits := Nat.min_le_right _ _
  rcases Nat.eq_or_lt_of_le hle with heq | hlt
  · rw [heq]
    decide +kernel
  · have hbits : (UInt64.ofNat (nearest num den).toBits).toNat = (nearest num den).toBits :=
      toNat_ofNat_low hlt
    have hsmall : infinityBits < Nat.pow 2 63 := by decide
    rw [isNegative, toBits_ofBits hlt, hbits]
    exact decide_eq_false (by omega)

end Number

/-! ## What was scanned -/

/-- The value of a number is a fraction that was rounded. -/
theorem Token.Lexeme.rounded {text : List Char} {v : Float} (h : Lexeme text (.number v)) :
    ∃ num den, v = ofFraction num den := by
  cases h with
  | operator h => exact absurd h (by simp [operators])
  | whole => exact ⟨_, _, rfl⟩
  | decimal => exact ⟨_, _, rfl⟩
  | keyword h => exact absurd h (by simp [Kind.keywords])

theorem Token.Lexeme.isNegative {text : List Char} {v : Float} (h : Lexeme text (.number v)) :
    Number.isNegative v = false := by
  obtain ⟨num, den, rfl⟩ := h.rounded
  exact isNegative_ofFraction num den

theorem Token.isNegative_of_mem {source : String} {t : Token} {v : Float}
    (ht : t ∈ tokens (scan source)) (hkind : t.kind = .number v) :
    Number.isNegative v = false := by
  rw [tokens_scan] at ht
  rcases List.mem_append.mp ht with hword | heof
  · have hlexeme := lexeme_of_mem_words hword
    rw [hkind] at hlexeme
    exact hlexeme.isNegative
  · rw [List.mem_singleton.mp heof] at hkind
    cases hkind

/-- Of a token with a whole number the listing shows that number followed by `.0`, but only if it
has at most 63 binary places; the value of a larger one is shown without a point. The dump of a
tree writes a number that was scanned in the same way unless it is such a larger one, which it
writes with `.0` as well. -/
theorem Token.valueText_number (v : Float) :
    (∀ z, whole? v = some z →
      ((Kind.number v).valueText = toString z ++ ".0" ↔ z.natAbs < 2 ^ 63) ∧
      (2 ^ 63 ≤ z.natAbs → '.' ∉ (Kind.number v).valueText.toList)) ∧
    ∀ source, ∀ t ∈ tokens (scan source), t.kind = .number v →
      (∀ z, whole? v = some z → (Literal.number v).dump = toString z ++ ".0") ∧
      (t.kind.valueText = (Literal.number v).dump ↔
        ∀ z, whole? v = some z → z.natAbs < 2 ^ 63) := by
  refine ⟨fun z hz => ⟨listingText_eq_iff hz, listingText_large hz⟩, ?_⟩
  intro source t ht hkind
  have hv := isNegative_of_mem ht hkind
  rw [hkind]
  exact ⟨fun z => dumpText_whole hv, listingText_eq_dumpText_iff hv⟩

/-- Three is marked as a whole number in the listing, and 2⁶³ in the dump alone. -/
theorem Token.valueText_two_pow :
    (Kind.number (.ofBits 0x4008000000000000)).valueText = "3.0" ∧
      '.' ∉ (Kind.number (.ofBits 0x43E0000000000000)).valueText.toList ∧
      (Literal.number (.ofBits 0x43E0000000000000)).dump = "9223372036854775808.0" := by
  have hthree : whole? (.ofBits 0x4008000000000000) = some 3 := by decide +kernel
  have hlarge : whole? (.ofBits 0x43E0000000000000) = some (2 ^ 63) := by decide +kernel
  have hmem : (⟨.number (.ofBits 0x43E0000000000000), "9223372036854775808", 1⟩ : Token) ∈
      tokens (scan "9223372036854775808") := by
    rw [show scan "9223372036854775808" = [.ok ⟨.number (.ofBits 0x43E0000000000000),
      "9223372036854775808", 1⟩, .ok ⟨.eof, "", 1⟩] from by decide +kernel]
    exact List.mem_cons_self ..
  refine ⟨((valueText_number _).1 3 hthree).1.mpr (by decide),
    ((valueText_number _).1 _ hlarge).2 (by decide), ?_⟩
  exact ((valueText_number _).2 _ _ hmem rfl).1 _ hlarge

end Lox
