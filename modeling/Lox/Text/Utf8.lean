/-!
# Text from bytes

UTF-8 is read character by character. A byte sequence that is none has a first place at which it goes
wrong: either it ends within a character that has been right so far, or it holds a byte that cannot
come next. In the second case the bytes of the character before that byte, but at least one, are the
invalid sequence.
-/

namespace Lox.Text

/-- Where a byte sequence goes wrong. -/
inductive Utf8Fault
  | invalid (length index : Nat)
  | incomplete (index : Nat)
deriving DecidableEq, Repr

def Utf8Fault.message : Utf8Fault → String
  | invalid length index => s!"invalid utf-8 sequence of {length} bytes from index {index}"
  | incomplete index => s!"incomplete utf-8 byte sequence from index {index}"

/-- What a first byte says: the number of bytes that follow it, the bounds of the first of them and
the bits that it gives to the character. Later bytes lie between `0x80` and `0xbf`. -/
structure Lead where
  following : Nat
  low : Nat
  high : Nat
  bits : Nat

/-- The meaning of a first byte. The bounds rule out what could be written shorter, surrogates and
what lies beyond the last character. -/
def lead? (byte : Nat) : Option Lead :=
  if byte < 0x80 then some ⟨0, 0x80, 0xbf, byte⟩
  else if byte < 0xc2 then none
  else if byte < 0xe0 then some ⟨1, 0x80, 0xbf, byte - 0xc0⟩
  else if byte = 0xe0 then some ⟨2, 0xa0, 0xbf, 0⟩
  else if byte = 0xed then some ⟨2, 0x80, 0x9f, 0xd⟩
  else if byte < 0xf0 then some ⟨2, 0x80, 0xbf, byte - 0xe0⟩
  else if byte = 0xf0 then some ⟨3, 0x90, 0xbf, 0⟩
  else if byte < 0xf4 then some ⟨3, 0x80, 0xbf, byte - 0xf0⟩
  else if byte = 0xf4 then some ⟨3, 0x80, 0x8f, 4⟩
  else none

/-- The state between two bytes: the place and the bits of the character that has begun, how many
bytes it has had and needs, and the bounds of the next one. -/
structure Pending where
  index : Nat
  taken : Nat
  missing : Nat
  low : Nat
  high : Nat
  bits : Nat

/-- Decodes bytes from a place on, within a character or between two. -/
def decodeFrom (index : Nat) : Option Pending → List UInt8 → Except Utf8Fault (List Char)
  | none, [] => .ok []
  | some p, [] => .error (.incomplete p.index)
  | none, byte :: rest =>
    match lead? byte.toNat with
    | none => .error (.invalid 1 index)
    | some ⟨0, _, _, bits⟩ => (Char.ofNat bits :: ·) <$> decodeFrom (index + 1) none rest
    | some ⟨missing, low, high, bits⟩ =>
      decodeFrom (index + 1) (some ⟨index, 1, missing, low, high, bits⟩) rest
  | some p, byte :: rest =>
    let value := byte.toNat
    if value < p.low ∨ p.high < value then .error (.invalid p.taken p.index)
    else
      let bits := p.bits * 64 + (value - 0x80)
      if p.missing ≤ 1 then (Char.ofNat bits :: ·) <$> decodeFrom (index + 1) none rest
      else
        decodeFrom (index + 1) (some ⟨p.index, p.taken + 1, p.missing - 1, 0x80, 0xbf, bits⟩) rest

/-- Decodes bytes. -/
def decodeUtf8 (bytes : List UInt8) : Except Utf8Fault String :=
  String.ofList <$> decodeFrom 0 none bytes

end Lox.Text
