import Lox.Machine.Exec
import Lox.Proofs.Layout
import Lox.Proofs.Number.Bits
import Lox.Proofs.Number.Decimals
import Lox.Proofs.Parser.Unended

/-!
# Printed numbers are read back

The text of a finite number is a sign for a negative one and then a numeral, of which the
scanner makes a number again. Of whole numbers all digits are written and of others the fewest
that read back, and either way the number is the one whose bits below the sign were written.
The sign is scanned as an operator of its own, and when it is applied it puts the sign back.
-/

namespace Lox

open Number Parse Token

/-! ## The text of a number -/

theorem Number.ofFraction_eq_ofBits {num den low : Nat}
    (h : (nearest num den).toBits = low) : ofFraction num den = .ofBits (UInt64.ofNat low) := by
  rw [ofFraction, h]

theorem Number.Magnitude.nearest_wholePart {x : Magnitude} (hx : x.Canonical)
    (h : x.isWhole = true) : nearest x.wholePart 1 = x := by
  have hmod : x.units % unitsPerOne = 0 := of_decide_eq_true h
  refine hx.nearest_eq Nat.one_pos ?_
  rw [wholePart, Nat.mul_one, Nat.div_mul_cancel (Nat.dvd_of_mod_eq_zero hmod)]

/-- A number is written as a sign and the numeral of its bits below the sign. -/
theorem Value.text_number {v : Float} (h : v.isFinite = true) :
    ∃ whole fraction, (Value.number v).text =
        String.ofList (sign (isNegative v) ++ written whole fraction) ∧
      whole ≠ [] ∧ (∀ c ∈ whole ++ fraction, c.isDigit = true) ∧
      ofNumeral whole fraction = .ofBits (UInt64.ofNat (lowBits v)) := by
  have hcanonical := Magnitude.canonical_ofBits (lowBits v)
  have hbits := Magnitude.toBits_ofBits (lowBits_lt h)
  have htext : ∃ num den, (nearest num den).toBits = lowBits v ∧
      ∃ digits, Writes digits num den ∧
        (Value.number v).text = String.ofList (sign (isNegative v) ++ digits) := by
    rw [Value.text, valueText, shape_of_isFinite h]
    dsimp only
    split
    · rename_i hwhole
      refine ⟨_, 1, ?_, _, writes_numeral _, rfl⟩
      rw [Magnitude.nearest_wholePart hcanonical hwhole, hbits]
    · refine ⟨_, _, ?_, _, writes_positional _, rfl⟩
      exact (of_decide_eq_true (hcanonical.readsBack_shortest .up)).trans hbits
  obtain ⟨num, den, hlow, digits, ⟨whole, fraction, rfl, hne, hdigits, hvalue⟩, htext⟩ := htext
  exact ⟨whole, fraction, htext, hne, hdigits, hvalue.trans (ofFraction_eq_ofBits hlow)⟩

/-! ## Scanning it -/

theorem Token.lexeme_written {whole fraction : List Char} (hne : whole ≠ [])
    (hdigits : ∀ c ∈ whole ++ fraction, c.isDigit = true) :
    Lexeme (written whole fraction) (.number (ofNumeral whole fraction)) := by
  rw [written]
  split
  · rename_i hnone
    rw [hnone, List.append_nil] at hdigits
    rw [hnone, ofNumeral, List.append_nil]
    exact .whole hne hdigits
  · rename_i hsome
    exact .decimal hne hsome hdigits

theorem Token.lineEnds_written {whole fraction : List Char}
    (hdigits : ∀ c ∈ whole ++ fraction, c.isDigit = true) :
    (written whole fraction).count '\n' = 0 := by
  refine List.count_eq_zero.mpr fun hmem => ?_
  have hnot : '\n' ∉ whole ++ fraction := fun hc => absurd (hdigits _ hc) (by decide)
  rw [written] at hmem
  split at hmem
  · exact hnot (List.mem_append_left _ hmem)
  · exact hnot (by simpa using hmem)

/-- The tokens of a number with a sign or without. -/
def signedTokens (negative : Bool) (size : Float) (digits : List Char) : List Token :=
  (if negative then [⟨.minus, "-", 1⟩] else []) ++ [⟨.number size, String.ofList digits, 1⟩]

theorem Token.slices_minus (rest : List Char) :
    slices ('-' :: rest) = ⟨['-'], .token .minus⟩ :: slices rest := by
  have hcut : cut '-' rest = (⟨['-'], .token .minus⟩, rest) := by
    rw [cut, if_neg (by decide), if_neg (fun h => absurd h.1 (by decide)), if_neg (by decide),
      if_neg (by decide), if_neg (by decide)]
    rfl
  rw [slices_cons, hcut]

theorem Token.scan_signed {digits : List Char} {size : Float}
    (h : Lexeme digits (.number size)) (hline : digits.count '\n' = 0) (negative : Bool) :
    scan (String.ofList (sign negative ++ digits)) =
      (signedTokens negative size digits ++ [(⟨.eof, "", 1⟩ : Token)]).map .ok := by
  have hdigits : slices digits = [⟨digits, .token (.number size)⟩] := by
    have hs : slices (digits ++ []) = _ := h.slices (fun c hc => by cases hc)
    rwa [List.append_nil, slices_nil] at hs
  rw [scan, String.toList_ofList]
  cases negative with
  | false =>
      show ofSlices 1 (slices digits) = _
      simp [hdigits, ofSlices, hline, signedTokens]
  | true =>
      show ofSlices 1 (slices ('-' :: digits)) = _
      simp [slices_minus, hdigits, ofSlices, hline, signedTokens]

/-! ## Reading and evaluating it -/

/-- The tree of a number with a sign or without. -/
def signedLiteral (negative : Bool) (size : Float) : Expr :=
  if negative then .unary ⟨.minus, "-", 1⟩ (.literal (.number size)) else .literal (.number size)

theorem Parse.reads_signedLiteral (negative : Bool) (size : Float) (digits : List Char)
    (i : NodeId) :
    Reads .expression (signedTokens negative size digits) i (signedLiteral negative size) i := by
  have hliteral : Reads .unary [⟨.number size, String.ofList digits, 1⟩] i
      (.literal (.number size)) i := .call (.constant rfl) .callEnd
  cases negative with
  | false => exact .value (.of_unary hliteral)
  | true => exact .value (.of_unary (.operator rfl hliteral))

theorem Parse.start_signedTokens (negative : Bool) (size : Float) (digits : List Char)
    (i : NodeId) : Parsed.start (signedTokens negative size digits ++ [⟨.eof, "", 1⟩]) i =
      ⟨signedTokens negative size digits ++ [], ⟨.eof, "", 1⟩, i, []⟩ := by
  cases negative <;> rfl

theorem Run.evaluate_signedLiteral (n : Nat) (negative : Bool) (size : Float) (m : Machine) :
    (evaluate (n + 2) (signedLiteral negative size)).run m =
      some (.ok (.number (if negative then -size else size)), m) := by
  cases negative <;> rfl

theorem Token.tokens_map_ok (l : List Token) : tokens (l.map .ok) = l := by
  rw [tokens, List.filterMap_map]
  exact List.filterMap_some

/-- What is printed for a finite number is digits, with a point and digits behind it or
without, and a sign in front if its sign is set. It is scanned as a number, behind a minus sign
if there is one, and read as an expression it has that very number as its value. -/
theorem Value.text_number_reads_back {v : Float} (h : v.isFinite = true) :
    ∃ (whole fraction : List Char) (size : Float),
      (Value.number v).text = String.ofList (sign (isNegative v) ++ written whole fraction) ∧
      whole ≠ [] ∧ (∀ c ∈ whole ++ fraction, c.isDigit = true) ∧
      scan (Value.number v).text = (signedTokens (isNegative v) size (written whole fraction) ++
        [(⟨.eof, "", 1⟩ : Token)]).map .ok ∧
      ∀ firstId fuel, Parsed.fuel (tokens (scan (Value.number v).text)) ≤ fuel → ∃ e s,
        (expression fuel).run (Parsed.start (tokens (scan (Value.number v).text)) firstId) =
          some (.ok e, s) ∧ s.rest = [] ∧ s.faults = [] ∧
        ∀ n m, (Run.evaluate (n + 2) e).run m = some (.ok (.number v), m) := by
  obtain ⟨whole, fraction, htext, hne, hdigits, hvalue⟩ := text_number h
  have hscan := scan_signed (lexeme_written hne hdigits) (lineEnds_written hdigits) (isNegative v)
  rw [← htext] at hscan
  refine ⟨whole, fraction, _, htext, hne, hdigits, hscan, ?_⟩
  intro firstId fuel hfuel
  rw [hscan, tokens_map_ok] at hfuel ⊢
  have hlength := hfuel
  rw [Parsed.fuel, List.length_append] at hlength
  have hread := reads_signedLiteral (isNegative v) (ofNumeral whole fraction)
    (written whole fraction) firstId
  have htakes : Takes (expression fuel) _ [] firstId _ firstId :=
    takes_expression ⟨fun _ _ => rfl, rfl⟩ rfl hread (by omega)
  refine ⟨signedLiteral (isNegative v) (ofNumeral whole fraction),
    ⟨[], ⟨.eof, "", 1⟩, firstId, []⟩, ?_, rfl, rfl, fun n m => ?_⟩
  · rw [start_signedTokens]
    exact htakes _ _
  · rw [Run.evaluate_signedLiteral, hvalue, ← eq_ofBits_lowBits h]

/-- A tenth has no end in binary, and the double nearest to it is written as a tenth. -/
theorem Value.text_tenth_reads_back :
    (Float.ofBits 0xBFB999999999999A).isFinite = true ∧
      (Value.number (.ofBits 0xBFB999999999999A)).text = "-0.1" ∧
      ∃ e s, (expression 128).run (Parsed.start (tokens (scan "-0.1")) 0) = some (.ok e, s) ∧
        ∀ m, (Run.evaluate 2 e).run m =
          some (.ok (.number (.ofBits 0xBFB999999999999A)), m) := by
  have hfinite : (Float.ofBits 0xBFB999999999999A).isFinite = true := by decide +kernel
  have htext : (Value.number (.ofBits 0xBFB999999999999A)).text = "-0.1" := by decide +kernel
  obtain ⟨-, -, -, -, -, -, -, hread⟩ := text_number_reads_back hfinite
  rw [htext] at hread
  obtain ⟨e, s, hrun, -, -, hvalue⟩ := hread 0 128 (by decide +kernel)
  exact ⟨hfinite, htext, e, s, hrun, hvalue 0⟩

end Lox
