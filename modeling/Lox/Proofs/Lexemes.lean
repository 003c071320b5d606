import Lox.Proofs.Scan

/-!
# The longest lexeme

What the language counts as a lexeme is said here without regard to how a source is
cut: the operators as a table, strings, numerals and words by the characters they are
made of. The scanner is then shown to take, wherever it stands, the longest piece of
the text that is a lexeme, and to report a fault exactly where there is none.

The first character decides between the classes, so that each class can be gone
through by itself: what the cut takes is a lexeme, and no lexeme of the class that
begins there is longer.
-/

namespace Lox.Token

/-! ## Lexemes -/

/-- The operators and brackets, with their kinds. -/
def operators : List (List Char × Kind) := [
  (['('], .leftParen), ([')'], .rightParen), (['\x7b'], .leftBrace), (['\x7d'], .rightBrace),
  ([','], .comma), (['.'], .dot), (['-'], .minus), (['+'], .plus), ([';'], .semicolon),
  (['*'], .star), (['/'], .slash),
  (['!'], .bang), (['!', '='], .bangEqual), (['='], .equal), (['=', '='], .equalEqual),
  (['>'], .greater), (['>', '='], .greaterEqual), (['<'], .less), (['<', '='], .lessEqual)]

/-- The double nearest to the value of decimal digits, so many of which stand behind
the point. -/
def decimalValue (digits : List Char) (places : Nat) : Float :=
  Number.ofFraction (Nat.ofDigitChars 10 digits 0) (Nat.pow 10 places)

/-- A word begins with a letter of ASCII, an underscore or a letter beyond ASCII. -/
def IsWord : List Char → Prop
  | [] => False
  | first :: rest =>
    (first.isAlpha = true ∨ first = '_' ∨ 0x80 ≤ first.toNat ∧ Text.isLetter first = true) ∧
      ∀ c ∈ rest, c = '_' ∨ Text.isLetter c = true ∨ Text.isNumeric c = true

/-- The lexemes of the language, with the kind of token that each of them is. -/
inductive Lexeme : List Char → Kind → Prop
  | operator {text : List Char} {kind : Kind} (h : (text, kind) ∈ operators) : Lexeme text kind
  | string {body : List Char} (h : '"' ∉ body) :
    Lexeme ('"' :: (body ++ ['"'])) (.string (String.ofList body))
  | whole {digits : List Char} (hne : digits ≠ []) (h : ∀ c ∈ digits, c.isDigit = true) :
    Lexeme digits (.number (decimalValue digits 0))
  | decimal {whole fraction : List Char} (hw : whole ≠ []) (hf : fraction ≠ [])
    (h : ∀ c ∈ whole ++ fraction, c.isDigit = true) :
    Lexeme (whole ++ '.' :: fraction)
      (.number (decimalValue (whole ++ fraction) fraction.length))
  | keyword {text : List Char} {kind : Kind} (h : (String.ofList text, kind) ∈ Kind.keywords) :
    Lexeme text kind
  | identifier {text : List Char} (hw : IsWord text)
    (h : ∀ kind, (String.ofList text, kind) ∉ Kind.keywords) : Lexeme text .identifier

/-- Of the pieces at the beginning of a text the longest that is a lexeme. -/
structure Longest (text piece : List Char) (kind : Kind) : Prop where
  lexeme : Lexeme piece kind
  begins : piece <+: text
  longest : ∀ other kind', Lexeme other kind' → other <+: text → other.length ≤ piece.length

/-- Does the text begin with a lexeme? -/
def BeginsLexeme (text : List Char) : Prop := ∃ piece kind, Lexeme piece kind ∧ piece <+: text

/-- Does the text begin with a blank or a comment? -/
def BeginsBlank (text : List Char) : Prop :=
  (∃ c ∈ text.head?, isBlank c = true) ∨ ['/', '/'] <+: text

/-! ## Characters of one sort -/

/-- No piece of characters of one sort goes beyond the first one of another sort. -/
theorem length_le_takeWhile {p : Char → Bool} {piece text : List Char}
    (hp : ∀ c ∈ piece, p c = true) (h : piece <+: text) :
    piece.length ≤ (text.takeWhile p).length := by
  obtain ⟨after, rfl⟩ := h
  rw [List.takeWhile_append_of_pos hp, List.length_append]
  exact Nat.le_add_right _ _

theorem forall_mem_takeWhile (p : Char → Bool) (text : List Char) :
    ∀ c ∈ text.takeWhile p, p c = true :=
  List.all_eq_true.mp List.all_takeWhile

theorem takeWhile_before {p : Char → Bool} {x : Char} (hx : p x = false) {l : List Char}
    (hl : ∀ c ∈ l, p c = true) (r : List Char) :
    (l ++ x :: r).takeWhile p = l ∧ (l ++ x :: r).dropWhile p = x :: r := by
  rw [List.takeWhile_append_of_pos hl, List.dropWhile_append_of_pos hl, List.takeWhile_cons,
    List.dropWhile_cons, hx]
  exact ⟨List.append_nil l, rfl⟩

/-! ## Words -/

theorem toNat_of_isAlpha {c : Char} (h : c.isAlpha = true) :
    'A'.toNat ≤ c.toNat ∧ c.toNat ≤ 'z'.toNat := by
  have hranges : (decide ('A'.val ≤ c.val ∧ c.val ≤ 'Z'.val) ||
      (decide ('a'.val ≤ c.val) && decide (c.val ≤ 'z'.val))) = true := h
  simp only [Bool.or_eq_true, Bool.and_eq_true, decide_eq_true_eq, UInt32.le_iff_toNat_le]
    at hranges
  have hZ : 'Z'.toNat ≤ 'z'.toNat := by decide
  have ha : 'A'.toNat ≤ 'a'.toNat := by decide
  rcases hranges with ⟨hA, hle⟩ | ⟨hle, hz⟩
  · exact ⟨hA, Nat.le_trans hle hZ⟩
  · exact ⟨Nat.le_trans ha hle, hz⟩

theorem isAlpha_of_beyond {c : Char} (h : ¬ c.toNat < 0x80) : c.isAlpha = false :=
  Bool.eq_false_iff.mpr fun halpha =>
    h (Nat.lt_of_le_of_lt (toNat_of_isAlpha halpha).2 (by decide))

theorem isLetter_of_isAlpha {c : Char} (h : c.isAlpha = true) : Text.isLetter c = true := by
  unfold Text.isLetter
  split
  · exact h
  · exact absurd h (Bool.eq_false_iff.mp (isAlpha_of_beyond ‹_›))

theorem beginsWord_iff (c : Char) : beginsWord c = true ↔
    c.isAlpha = true ∨ c = '_' ∨ 0x80 ≤ c.toNat ∧ Text.isLetter c = true := by
  simp only [beginsWord, Text.isLetter, Bool.or_eq_true, beq_iff_eq]
  by_cases h : c.toNat < 0x80
  · rw [if_pos h]
    grind
  · rw [if_neg h, isAlpha_of_beyond h]
    grind

theorem continuesWord_iff (c : Char) : continuesWord c = true ↔
    c = '_' ∨ Text.isLetter c = true ∨ Text.isNumeric c = true := by
  simp only [continuesWord, Bool.or_eq_true, beq_iff_eq]
  grind

theorem isWord_cons_iff (first : Char) (rest : List Char) : IsWord (first :: rest) ↔
    beginsWord first = true ∧ ∀ c ∈ rest, continuesWord c = true := by
  simp only [IsWord, beginsWord_iff, continuesWord_iff]

theorem isWord_of_isAlpha {text : List Char} (hne : text ≠ [])
    (h : text.all Char.isAlpha = true) : IsWord text := by
  cases text with
  | nil => exact absurd rfl hne
  | cons first rest =>
      obtain ⟨hfirst, hrest⟩ := List.forall_mem_cons.mp (List.all_eq_true.mp h)
      refine (isWord_cons_iff first rest).mpr ⟨(beginsWord_iff first).mpr (.inl hfirst), ?_⟩
      intro c hc
      exact (continuesWord_iff c).mpr (.inr (.inl (isLetter_of_isAlpha (hrest c hc))))

/-- Reserved words are words like any other. -/
theorem isWord_of_mem_keywords {text : List Char} {kind : Kind}
    (h : (String.ofList text, kind) ∈ Kind.keywords) : IsWord text := by
  have hletters : ∀ w ∈ Kind.keywords, w.1.toList ≠ [] ∧ w.1.toList.all Char.isAlpha = true := by
    decide
  obtain ⟨hne, hall⟩ := hletters _ h
  rw [String.toList_ofList] at hne hall
  exact isWord_of_isAlpha hne hall

theorem ofWord_of_mem_keywords {word : String} {kind : Kind} (h : (word, kind) ∈ Kind.keywords) :
    Kind.ofWord word = kind := by
  have hall : ∀ w ∈ Kind.keywords, Kind.ofWord w.1 = w.2 := by decide
  exact hall _ h

theorem ofWord_of_not_mem_keywords {word : String} (h : ∀ kind, (word, kind) ∉ Kind.keywords) :
    Kind.ofWord word = .identifier := by
  have hl : Kind.keywords.lookup word = none := by
    refine List.lookup_eq_none_iff.mpr fun w hw => bne_iff_ne.mpr ?_
    rintro rfl
    exact h w.2 hw
  rw [Kind.ofWord, hl]
  rfl

/-- A word is a lexeme, reserved or not. -/
theorem lexeme_of_isWord {text : List Char} (h : IsWord text) :
    Lexeme text (.ofWord (String.ofList text)) := by
  by_cases hreserved : ∃ kind, (String.ofList text, kind) ∈ Kind.keywords
  · obtain ⟨kind, hmem⟩ := hreserved
    rw [ofWord_of_mem_keywords hmem]
    exact .keyword hmem
  · have hnot : ∀ kind, (String.ofList text, kind) ∉ Kind.keywords :=
      fun kind hmem => hreserved ⟨kind, hmem⟩
    rw [ofWord_of_not_mem_keywords hnot]
    exact .identifier h hnot

/-! ## What begins a lexeme -/

/-- A digit and what follows it as a number, with a point or without. -/
abbrev Numeral (first : Char) (rest : List Char) (kind : Kind) : Prop :=
  (∀ c ∈ rest, c.isDigit = true) ∧ kind = .number (decimalValue (first :: rest) 0) ∨
    ∃ whole fraction, rest = whole ++ '.' :: fraction ∧ fraction ≠ [] ∧
      (∀ c ∈ whole ++ fraction, c.isDigit = true) ∧
      kind = .number (decimalValue (first :: whole ++ fraction) fraction.length)

theorem Numeral.unique {first : Char} {rest : List Char} {kind kind' : Kind}
    (h : Numeral first rest kind) (h' : Numeral first rest kind') : kind = kind' := by
  rcases h with ⟨hall, rfl⟩ | ⟨whole, fraction, rfl, -, hall, rfl⟩ <;>
    rcases h' with ⟨hagain, rfl⟩ | ⟨whole', fraction', hrest, -, hagain, rfl⟩
  · rfl
  · exact absurd (hall '.' (by simp [hrest])) (by decide)
  · exact absurd (hagain '.' (by simp)) (by decide)
  · have hpoint : Char.isDigit '.' = false := by decide
    obtain ⟨htake, hdrop⟩ := takeWhile_before hpoint (List.forall_mem_append.mp hall).1 fraction
    obtain ⟨htake', hdrop'⟩ := takeWhile_before hpoint (List.forall_mem_append.mp hagain).1 fraction'
    rw [hrest] at htake hdrop
    obtain rfl := htake.symm.trans htake'
    obtain rfl := (List.cons.inj (hdrop.symm.trans hdrop')).2
    rfl

/-- The character with which an operator begins belongs to no other class. -/
theorem operators_begin {o : List Char × Kind} (ho : o ∈ operators) :
    ∃ c ∈ o.1.head?, c.isDigit = false ∧ beginsWord c = false ∧ c ≠ '"' := by
  have hall : ∀ o ∈ operators,
      o.1.head?.any (fun c => !c.isDigit && !beginsWord c && c != '"') = true := by
    decide
  simpa [Option.any_eq_true, and_assoc] using hall o ho

theorem beginsWord_of_isDigit {c : Char} (h : c.isDigit = true) : beginsWord c = false := by
  have hrange : (decide ('0'.val ≤ c.val) && decide (c.val ≤ '9'.val)) = true := h
  simp only [Bool.and_eq_true, decide_eq_true_eq, UInt32.le_iff_toNat_le] at hrange
  have hnine : c.toNat ≤ '9'.toNat := hrange.2
  rw [Bool.eq_false_iff, Ne, beginsWord_iff]
  rintro (halpha | rfl | ⟨hbeyond, -⟩)
  · exact absurd (Nat.le_trans (toNat_of_isAlpha halpha).1 hnine) (by decide)
  · exact absurd hnine (by decide)
  · exact absurd (Nat.le_trans hbeyond hnine) (by decide)

theorem Lexeme.ne_nil {text : List Char} {kind : Kind} (h : Lexeme text kind) : text ≠ [] := by
  cases h with
  | operator h =>
      obtain ⟨c, hc, -⟩ := operators_begin h
      rintro rfl
      cases hc
  | string => exact List.cons_ne_nil _ _
  | whole hne => exact hne
  | decimal => simp
  | keyword h =>
      rintro rfl
      exact isWord_of_mem_keywords h
  | identifier hw =>
      rintro rfl
      exact hw

/-- A lexeme is of the class that its first character begins. -/
theorem Lexeme.cases_first {first : Char} {rest : List Char} {kind : Kind}
    (h : Lexeme (first :: rest) kind) :
    (first = '"' ∧ ∃ body, '"' ∉ body ∧ rest = body ++ ['"'] ∧
      kind = .string (String.ofList body)) ∨
    (first.isDigit = true ∧ Numeral first rest kind) ∨
    (beginsWord first = true ∧ (∀ c ∈ rest, continuesWord c = true) ∧
      kind = .ofWord (String.ofList (first :: rest))) ∨
    (first :: rest, kind) ∈ operators := by
  generalize htext : first :: rest = text at h
  cases h with
  | operator h => exact .inr (.inr (.inr h))
  | @string body h =>
      obtain ⟨rfl, rfl⟩ := List.cons.inj htext
      exact .inl ⟨rfl, body, h, rfl, rfl⟩
  | whole _ h =>
      subst htext
      obtain ⟨hfirst, hrest⟩ := List.forall_mem_cons.mp h
      exact .inr (.inl ⟨hfirst, .inl ⟨hrest, rfl⟩⟩)
  | @decimal whole fraction hw hf h =>
      cases whole with
      | nil => exact absurd rfl hw
      | cons digit whole =>
          obtain ⟨rfl, rfl⟩ := List.cons.inj htext
          obtain ⟨hfirst, hrest⟩ := List.forall_mem_cons.mp h
          exact .inr (.inl ⟨hfirst, .inr ⟨whole, fraction, rfl, hf, hrest, rfl⟩⟩)
  | keyword h =>
      subst htext
      obtain ⟨hfirst, hrest⟩ := (isWord_cons_iff first rest).mp (isWord_of_mem_keywords h)
      exact .inr (.inr (.inl ⟨hfirst, hrest, (ofWord_of_mem_keywords h).symm⟩))
  | identifier hw h =>
      subst htext
      obtain ⟨hfirst, hrest⟩ := (isWord_cons_iff first rest).mp hw
      exact .inr (.inr (.inl ⟨hfirst, hrest, (ofWord_of_not_mem_keywords h).symm⟩))

section First

variable {first : Char} {rest : List Char} {kind : Kind} (h : Lexeme (first :: rest) kind)
include h

theorem Lexeme.of_quote (hf : first = '"') :
    ∃ body, '"' ∉ body ∧ rest = body ++ ['"'] ∧ kind = .string (String.ofList body) := by
  subst hf
  rcases h.cases_first with ⟨-, hbody⟩ | ⟨hdigit, -⟩ | ⟨hword, -⟩ | hmem
  · exact hbody
  · exact absurd hdigit (by decide)
  · exact absurd hword (by decide)
  · obtain ⟨c, hc, -, -, hquote⟩ := operators_begin hmem
    cases hc
    exact absurd rfl hquote

theorem Lexeme.of_isDigit (hf : first.isDigit = true) : Numeral first rest kind := by
  rcases h.cases_first with ⟨rfl, -⟩ | ⟨-, hdigits⟩ | ⟨hword, -⟩ | hmem
  · exact absurd hf (by decide)
  · exact hdigits
  · rw [beginsWord_of_isDigit hf] at hword
    cases hword
  · obtain ⟨c, hc, hdigit, -⟩ := operators_begin hmem
    cases hc
    exact absurd hf (Bool.eq_false_iff.mp hdigit)

theorem Lexeme.of_beginsWord (hf : beginsWord first = true) :
    (∀ c ∈ rest, continuesWord c = true) ∧ kind = .ofWord (String.ofList (first :: rest)) := by
  rcases h.cases_first with ⟨rfl, -⟩ | ⟨hdigit, -⟩ | ⟨-, hword⟩ | hmem
  · exact absurd hf (by decide)
  · rw [beginsWord_of_isDigit hdigit] at hf
    cases hf
  · exact hword
  · obtain ⟨c, hc, -, hword, -⟩ := operators_begin hmem
    cases hc
    exact absurd hf (Bool.eq_false_iff.mp hword)

theorem Lexeme.mem_operators (hquote : first ≠ '"') (hdigit : first.isDigit ≠ true)
    (hword : beginsWord first ≠ true) : (first :: rest, kind) ∈ operators := by
  rcases h.cases_first with ⟨hf, -⟩ | ⟨hf, -⟩ | ⟨hf, -⟩ | hmem
  · exact absurd hf hquote
  · exact absurd hf hdigit
  · exact absurd hf hword
  · exact hmem

end First

theorem operators_unique : ∀ o ∈ operators, ∀ o' ∈ operators, o.1 = o'.1 → o.2 = o'.2 := by
  decide

/-- No lexeme is of two kinds. -/
theorem Lexeme.kind_unique {text : List Char} {kind kind' : Kind} (h : Lexeme text kind)
    (h' : Lexeme text kind') : kind = kind' := by
  cases text with
  | nil => exact absurd rfl h.ne_nil
  | cons first rest =>
      rcases h.cases_first with ⟨hf, body, -, rfl, rfl⟩ | ⟨hf, hnumber⟩ | ⟨hf, -, rfl⟩ | hmem
      · obtain ⟨body', -, hrest, rfl⟩ := h'.of_quote hf
        rw [List.append_cancel_right hrest]
      · exact Numeral.unique hnumber (h'.of_isDigit hf)
      · exact (h'.of_beginsWord hf).2.symm
      · obtain ⟨c, hc, hdigit, hword, hquote⟩ := operators_begin hmem
        cases hc
        exact operators_unique _ hmem _ (h'.mem_operators hquote (Bool.eq_false_iff.mp hdigit)
          (Bool.eq_false_iff.mp hword)) rfl

/-! ## Each class by itself -/

/-- A lexeme at the beginning of a text has the first character of the text. -/
theorem longest_cons {first : Char} {rest piece : List Char} {kind : Kind}
    (hl : Lexeme (first :: piece) kind) (hb : piece <+: rest)
    (h : ∀ other kind', Lexeme (first :: other) kind' → other <+: rest →
      other.length ≤ piece.length) : Longest (first :: rest) (first :: piece) kind where
  lexeme := hl
  begins := List.cons_prefix_cons.mpr ⟨rfl, hb⟩
  longest other kind' ho hprefix := by
    cases other with
    | nil => exact Nat.zero_le _
    | cons c other =>
        obtain ⟨rfl, hrest⟩ := List.cons_prefix_cons.mp hprefix
        exact Nat.succ_le_succ (h other kind' ho hrest)

theorem BeginsLexeme.cons {first : Char} {rest : List Char} (h : BeginsLexeme (first :: rest)) :
    ∃ piece kind, Lexeme (first :: piece) kind ∧ piece <+: rest := by
  obtain ⟨piece, kind, hl, hb⟩ := h
  cases piece with
  | nil => exact absurd rfl hl.ne_nil
  | cons c piece =>
      obtain ⟨rfl, hrest⟩ := List.cons_prefix_cons.mp hb
      exact ⟨piece, kind, hl, hrest⟩

theorem longest_cutWord {first : Char} (rest : List Char) (hf : beginsWord first = true) :
    Longest (first :: rest) (cutWord first rest).1.text
      (.ofWord (String.ofList (cutWord first rest).1.text)) := by
  refine longest_cons (lexeme_of_isWord ?_) (List.takeWhile_prefix _) fun other kind' ho hb => ?_
  · exact (isWord_cons_iff first _).mpr ⟨hf, forall_mem_takeWhile continuesWord rest⟩
  · exact length_le_takeWhile (ho.of_beginsWord hf).1 hb

section Strings

variable {body : List Char} (h : '"' ∉ body)
include h

theorem unquoted : ∀ c ∈ body, (c != '"') = true := by
  intro c hc
  exact bne_iff_ne.mpr fun heq => h (heq ▸ hc)

theorem quoted_before (after : List Char) :
    (body ++ '"' :: after).takeWhile (· != '"') = body ∧
      (body ++ '"' :: after).dropWhile (· != '"') = '"' :: after :=
  takeWhile_before (by decide) (unquoted h) after

/-- A string goes up to the next quote. -/
theorem longest_cutString (after : List Char) :
    (cutString (body ++ '"' :: after)).1 =
        ⟨'"' :: (body ++ ['"']), .token (.string (String.ofList body))⟩ ∧
      Longest ('"' :: (body ++ '"' :: after)) ('"' :: (body ++ ['"']))
        (.string (String.ofList body)) := by
  obtain ⟨htake, hdrop⟩ := quoted_before h after
  constructor
  · simp only [cutString, htake, hdrop, List.cons_append]
  · refine longest_cons (.string h) ⟨after, by simp⟩ fun other kind' ho hb => ?_
    obtain ⟨body', h', rfl, -⟩ := ho.of_quote rfl
    obtain ⟨t, ht⟩ := hb
    rw [List.append_assoc] at ht
    obtain rfl : body' = body := by
      rw [← htake, ← ht]
      exact (quoted_before h' t).1.symm
    exact Nat.le_refl _

/-- Without another quote a quote takes all that is left. -/
theorem cutString_open : (cutString body).1 = ⟨'"' :: body, .fault .unterminatedString⟩ ∧
    ¬ BeginsLexeme ('"' :: body) := by
  constructor
  · have htake : body.takeWhile (· != '"') = body := by
      simpa using @List.takeWhile_append_of_pos _ _ body [] (unquoted h)
    have hdrop : body.dropWhile (· != '"') = [] := by
      simpa using @List.dropWhile_append_of_pos _ _ body [] (unquoted h)
    simp only [cutString, htake, hdrop]
  · intro hbegins
    obtain ⟨piece, kind, hl, hrest⟩ := hbegins.cons
    obtain ⟨inner, -, rfl, -⟩ := hl.of_quote rfl
    exact h (hrest.subset (List.mem_append_right inner (List.mem_singleton.mpr rfl)))

end Strings

section Numerals

variable {first : Char} (hf : first.isDigit = true) {whole fraction : List Char}
  (hw : ∀ c ∈ whole, c.isDigit = true)
include hf hw

/-- Digits with no point and digits behind them. -/
theorem longest_whole {rest : List Char} (hrest : rest.takeWhile Char.isDigit = whole)
    (hend : ∀ digit after, digit.isDigit = true →
      rest.dropWhile Char.isDigit ≠ '.' :: digit :: after) :
    Longest (first :: rest) (first :: whole) (.number (decimalValue (first :: whole) 0)) := by
  refine longest_cons (.whole (List.cons_ne_nil _ _) (List.forall_mem_cons.mpr ⟨hf, hw⟩))
    (hrest ▸ List.takeWhile_prefix _) fun other kind' ho hb => ?_
  rcases ho.of_isDigit hf with ⟨hdigits, -⟩ | ⟨whole', fraction', rfl, hne, hdigits, -⟩
  · exact hrest ▸ length_le_takeWhile hdigits hb
  · obtain ⟨t, rfl⟩ := hb
    obtain ⟨digit, after, rfl⟩ := List.exists_cons_of_ne_nil hne
    obtain ⟨hwhole', hfraction'⟩ := List.forall_mem_append.mp hdigits
    refine absurd ?_ (hend digit (after ++ t) (hfraction' digit (List.mem_cons_self ..)))
    rw [List.append_assoc]
    exact (takeWhile_before (by decide) hwhole' _).2

/-- Digits with a point and digits behind them. -/
theorem longest_decimal {after : List Char} (hne : fraction ≠ [])
    (hfraction : after.takeWhile Char.isDigit = fraction) :
    Longest (first :: (whole ++ '.' :: after)) (first :: (whole ++ '.' :: fraction))
      (.number (decimalValue (first :: whole ++ fraction) fraction.length)) := by
  have hdigits : ∀ c ∈ fraction, c.isDigit = true := hfraction ▸ forall_mem_takeWhile _ _
  refine longest_cons (.decimal (List.cons_ne_nil _ _) hne ?_) ?_ fun other kind' ho hb => ?_
  · exact List.forall_mem_append.mpr ⟨List.forall_mem_cons.mpr ⟨hf, hw⟩, hdigits⟩
  · rw [List.prefix_append_right_inj, List.cons_prefix_cons]
    exact ⟨rfl, hfraction ▸ List.takeWhile_prefix _⟩
  obtain ⟨htake, hdrop⟩ := takeWhile_before (by decide : Char.isDigit '.' = false) hw after
  rcases ho.of_isDigit hf with ⟨hall, -⟩ | ⟨whole', fraction', rfl, hne', hall, -⟩
  · have hle := length_le_takeWhile hall hb
    rw [htake] at hle
    rw [List.length_append]
    omega
  · obtain ⟨hwhole', hfraction'⟩ := List.forall_mem_append.mp hall
    obtain ⟨t, ht⟩ := hb
    rw [List.append_assoc] at ht
    obtain ⟨htake', hdrop'⟩ := takeWhile_before (by decide : Char.isDigit '.' = false) hwhole'
      (fraction' ++ t)
    have hsame : whole' = whole := by
      rw [← htake, ← ht]
      exact htake'.symm
    have hrest : fraction' ++ t = after := by
      subst hsame
      exact (List.cons.inj (List.append_cancel_left ht)).2
    have hle := length_le_takeWhile hfraction' ⟨t, hrest⟩
    rw [hfraction] at hle
    simp only [List.length_append, List.length_cons, hsame]
    omega

end Numerals

theorem longest_cutNumeral {first : Char} (rest : List Char) (hf : first.isDigit = true) :
    ∃ value, (cutNumeral first rest).1.role = .token (.number value) ∧
      Longest (first :: rest) (cutNumeral first rest).1.text (.number value) := by
  have hw := forall_mem_takeWhile Char.isDigit rest
  have hrest := List.takeWhile_append_dropWhile (p := Char.isDigit) (l := rest)
  have hwhole : ∀ w : List Char, Number.ofNumeral w [] = decimalValue w 0 := by
    intro w
    rw [Number.ofNumeral, List.append_nil]
    rfl
  unfold cutNumeral
  dsimp only
  split
  · rename_i digit after hdrop
    split
    · rename_i hdigit
      refine ⟨_, rfl, ?_⟩
      rw [hdrop] at hrest
      have htake : (digit :: after).takeWhile Char.isDigit =
          digit :: after.takeWhile Char.isDigit := List.takeWhile_cons_of_pos hdigit
      have h := longest_decimal hf hw (List.cons_ne_nil _ _) htake
      rw [hrest] at h
      exact h
    · rename_i hdigit
      refine ⟨_, rfl, ?_⟩
      rw [hwhole]
      refine longest_whole hf hw rfl fun digit' after' hdigit' heq => ?_
      rw [hdrop] at heq
      cases heq
      exact hdigit hdigit'
  · rename_i hno
    refine ⟨_, rfl, ?_⟩
    rw [hwhole]
    exact longest_whole hf hw rfl fun digit after _ heq => hno digit after heq

/-! ## Operators -/

theorem mem_operators_of_single {c : Char} {kind : Kind} (h : single? c = some kind) :
    ([c], kind) ∈ operators := by
  unfold single? at h
  split at h <;> cases h <;> decide

theorem mem_operators_of_withEqual {c : Char} {kind : Kind} (h : withEqual? c = some kind) :
    ([c, '='], kind) ∈ operators := by
  unfold withEqual? at h
  split at h <;> cases h <;> decide

/-- The scanner knows all operators, and what goes on with an equals sign is one without it. -/
theorem operators_known {o : List Char × Kind} (ho : o ∈ operators) :
    ∃ c ∈ o.1.head?, (single? c).isSome ∧
      (o.1 = [c] ∨ o.1 = [c, '='] ∧ (withEqual? c).isSome) := by
  have hall : ∀ o ∈ operators, o.1.head?.any (fun c => (single? c).isSome &&
      (o.1 == [c] || o.1 == [c, '='] && (withEqual? c).isSome)) = true := by
    decide
  simpa [Option.any_eq_true] using hall o ho

theorem longest_cutSymbol {first : Char} (rest : List Char) (hquote : first ≠ '"')
    (hdigit : first.isDigit ≠ true) (hword : beginsWord first ≠ true) :
    (∃ kind, (cutSymbol first rest).1.role = .token kind ∧
      Longest (first :: rest) (cutSymbol first rest).1.text kind) ∨
    ((cutSymbol first rest).1 = ⟨[first], .fault .unexpectedCharacter⟩ ∧
      ¬ BeginsLexeme (first :: rest)) := by
  have hknown : ∀ piece kind, Lexeme (first :: piece) kind → (single? first).isSome ∧
      (piece = [] ∨ piece = ['='] ∧ (withEqual? first).isSome) := by
    intro piece kind hl
    obtain ⟨c, hc, hsingle, hpiece⟩ :=
      operators_known (hl.mem_operators hquote hdigit hword)
    cases hc
    simpa using And.intro hsingle hpiece
  unfold cutSymbol
  split
  · rename_i kind after hequal
    refine .inl ⟨kind, rfl, longest_cons (.operator (mem_operators_of_withEqual hequal))
      ⟨after, rfl⟩ fun other kind' ho _ => ?_⟩
    rcases (hknown other kind' ho).2 with rfl | ⟨rfl, -⟩ <;> decide
  · rename_i hno
    split
    · rename_i kind hsingle
      refine .inl ⟨kind, rfl, longest_cons (.operator (mem_operators_of_single hsingle))
        (List.nil_prefix ..) fun other kind' ho hb => ?_⟩
      rcases (hknown other kind' ho).2 with rfl | ⟨rfl, hequal⟩
      · exact Nat.le_refl _
      · obtain ⟨kind'', hk⟩ := Option.isSome_iff_exists.mp hequal
        obtain ⟨after, rfl⟩ := hb
        exact absurd rfl (hno kind'' after hk)
    · rename_i hsingle
      refine .inr ⟨rfl, fun hbegins => ?_⟩
      obtain ⟨piece, kind, hl, -⟩ := hbegins.cons
      have := (hknown piece kind hl).1
      rw [hsingle] at this
      cases this

/-! ## Every position of a source -/

/-- What the scanner takes is the longest lexeme or, where none begins, a fault. -/
theorem cut_longest {first : Char} {rest : List Char} (hb : ¬ BeginsBlank (first :: rest)) :
    (∃ kind, (cut first rest).1.role = .token kind ∧
      Longest (first :: rest) (cut first rest).1.text kind) ∨
    (¬ BeginsLexeme (first :: rest) ∧ (cut first rest).1 =
      if first = '"' then ⟨first :: rest, .fault .unterminatedString⟩
      else ⟨[first], .fault .unexpectedCharacter⟩) := by
  have hblank : ¬ isBlank first = true := fun h => hb (.inl ⟨first, rfl, h⟩)
  have hcomment : ¬ (first = '/' ∧ rest.head? = some '/') := by
    rintro ⟨rfl, hhead⟩
    obtain ⟨after, rfl⟩ := List.head?_eq_some_iff.mp hhead
    exact hb (.inr ⟨after, rfl⟩)
  rw [cut, if_neg hblank, if_neg hcomment]
  by_cases hquote : first = '"'
  · subst hquote
    rw [if_pos rfl, if_pos rfl]
    by_cases hclosed : '"' ∈ rest
    · obtain ⟨body, after, rfl, hbody⟩ := List.eq_append_cons_of_mem hclosed
      obtain ⟨hcut, hlongest⟩ := longest_cutString hbody after
      rw [hcut]
      exact .inl ⟨_, rfl, hlongest⟩
    · obtain ⟨hcut, hnone⟩ := cutString_open hclosed
      exact .inr ⟨hnone, hcut⟩
  rw [if_neg hquote, if_neg hquote]
  by_cases hdigit : first.isDigit = true
  · rw [if_pos hdigit]
    obtain ⟨value, hrole, hlongest⟩ := longest_cutNumeral rest hdigit
    exact .inl ⟨_, hrole, hlongest⟩
  rw [if_neg hdigit]
  by_cases hword : beginsWord first = true
  · rw [if_pos hword]
    exact .inl ⟨_, rfl, longest_cutWord rest hword⟩
  · rw [if_neg hword]
    exact (longest_cutSymbol rest hquote hdigit hword).imp_right And.symm

/-- What scanning finds in slices, without the end of the source. -/
def findings (line : Nat) (l : List Slice) : List Scanned := (ofSlices line l).dropLast

theorem ofSlices_ne_nil (line : Nat) (l : List Slice) : ofSlices line l ≠ [] := by
  induction l generalizing line with
  | nil => exact List.cons_ne_nil _ _
  | cons slice rest ih =>
      rw [ofSlices]
      cases slice.role with
      | blank => exact ih _
      | _ => exact List.cons_ne_nil _ _

theorem ofSlices_append (line : Nat) (l r : List Slice) :
    ofSlices line (l ++ r) = findings line l ++ ofSlices (line + newlines l) r := by
  induction l generalizing line with
  | nil => rfl
  | cons slice rest ih =>
      have hne := ofSlices_ne_nil (line + slice.text.count '\n') rest
      rw [List.cons_append, newlines_cons, ← Nat.add_assoc, findings, ofSlices, ofSlices]
      cases slice.role with
      | blank => exact ih _
      | _ => exact (congrArg (_ :: ·) (ih _)).trans (by rw [List.dropLast_cons_of_ne_nil hne]; rfl)

/-- The scanner goes on where it stands as if the text began there. -/
theorem slices_behind {source : List Char} {before after : List Slice}
    (h : slices source = before ++ after) : slices (after.flatMap Slice.text) = after := by
  induction before generalizing source with
  | nil =>
      rw [List.nil_append] at h
      rw [← h, flatMap_slices]
  | cons slice before ih =>
      cases source with
      | nil =>
          rw [slices_nil] at h
          cases h
      | cons first rest =>
          rw [slices_cons, List.cons_append] at h
          exact ih (List.cons.inj h).2

/-- The scanner is the lexer that takes the longest match: wherever it begins something
that is neither blank nor comment it finds the longest lexeme there and, where there is
none, makes one fault of all that is left after a quote and of one character otherwise. -/
theorem scan_longest {source : String} {done rest : List Slice} {slice : Slice} {text : List Char}
    {line : Nat} (hslices : slices source.toList = done ++ slice :: rest)
    (htext : source.toList = done.flatMap Slice.text ++ text) (hblank : ¬ BeginsBlank text)
    (hline : line = 1 + newlines done + slice.text.count '\n') :
    ∃ found, scan source = findings 1 done ++ found :: ofSlices line rest ∧
      (BeginsLexeme text → ∃ kind, Longest text slice.text kind ∧
        found = .ok ⟨kind, String.ofList slice.text, line⟩) ∧
      (¬ BeginsLexeme text → ∃ cause, found = .error ⟨cause, line⟩ ∧
        if text.head? = some '"' then
          slice.text = text ∧ cause.message = "Unterminated string."
        else slice.text = text.take 1 ∧ cause.message = "Unexpected character.") := by
  have hleft : text = (slice :: rest).flatMap Slice.text := by
    have hall := flatMap_slices source.toList
    rw [hslices, List.flatMap_append] at hall
    exact List.append_cancel_left (htext.symm.trans hall.symm)
  have hbehind := slices_behind hslices
  rw [← hleft] at hbehind
  cases text with
  | nil =>
      rw [slices_nil] at hbehind
      cases hbehind
  | cons first after =>
      rw [slices_cons] at hbehind
      obtain ⟨hcut, -⟩ := List.cons.inj hbehind
      have hcuts := cut_longest hblank
      rw [hcut] at hcuts
      rw [scan, hslices, ofSlices_append, ofSlices, ← hline]
      rcases hcuts with ⟨kind, hrole, hlongest⟩ | ⟨hnone, hfault⟩
      · rw [hrole]
        refine ⟨.ok ⟨kind, String.ofList slice.text, line⟩, rfl, ?_, ?_⟩
        · exact fun _ => ⟨kind, hlongest, rfl⟩
        · exact fun hno => absurd ⟨_, kind, hlongest.lexeme, hlongest.begins⟩ hno
      · by_cases hquote : first = '"'
        · rw [if_pos hquote] at hfault
          rw [hfault]
          refine ⟨_, rfl, fun hbegins => absurd hbegins hnone, fun _ => ⟨_, rfl, ?_⟩⟩
          rw [List.head?_cons, if_pos (congrArg some hquote)]
          exact ⟨rfl, rfl⟩
        · rw [if_neg hquote] at hfault
          rw [hfault]
          refine ⟨_, rfl, fun hbegins => absurd hbegins hnone, fun _ => ⟨_, rfl, ?_⟩⟩
          rw [List.head?_cons, if_neg fun heq => hquote (Option.some.inj heq)]
          exact ⟨rfl, rfl⟩

/-- A second point ends a numeral. -/
theorem scan_longest_second_point :
    ∃ found, scan "=1.5.2" = findings 1 [⟨['='], .token .equal⟩] ++ found ::
        ofSlices 1 [⟨['.'], .token .dot⟩, ⟨['2'], .token (.number (decimalValue ['2'] 0))⟩] ∧
      ∃ kind, Longest "1.5.2".toList "1.5".toList kind ∧ found = .ok ⟨kind, "1.5", 1⟩ := by
  have hslices : slices "=1.5.2".toList = [⟨['='], .token .equal⟩] ++
      ⟨['1', '.', '5'], .token (.number (decimalValue ['1', '5'] 1))⟩ ::
      [⟨['.'], .token .dot⟩, ⟨['2'], .token (.number (decimalValue ['2'] 0))⟩] := by
    simp [slices_cons, slices_nil, cut, isBlank, beginsWord, Text.isLetter, cutNumeral, cutSymbol,
      withEqual?, single?, Number.ofNumeral, decimalValue]
  have hbegins : BeginsLexeme ['1', '.', '5', '.', '2'] :=
    ⟨['1'], _, .whole (List.cons_ne_nil _ _) (by simp), _, rfl⟩
  obtain ⟨found, hscan, hlexeme, -⟩ := @scan_longest _ _ _ _ ['1', '.', '5', '.', '2'] 1 hslices
    (by decide) (by simp [BeginsBlank, isBlank]) rfl
  exact ⟨found, hscan, hlexeme hbegins⟩

end Lox.Token
