import Lox.Proofs.Account

/-!
# Layout does not matter

The tokens of a source can be written out again, each behind the one before with any blanks
and comments between them, and they are scanned as the same tokens. That the source they come
from has faults makes no difference, for what it is made of is looked at token by token.

A token is a lexeme, and a blank goes on with no lexeme: the only lexemes with a blank in them
are strings, and a string ends with its second quote. So behind a lexeme that is followed by a
blank, or by nothing, the longest lexeme is that very one.
-/

namespace Lox.Token

/-! ## Separators -/

/-- Blanks and comments, each comment with the end of its line. -/
inductive Spacing : List Char → Prop
  | nil : Spacing []
  | blank {c : Char} {rest : List Char} (hc : c = ' ' ∨ c = '\r' ∨ c = '\t' ∨ c = '\n')
    (h : Spacing rest) : Spacing (c :: rest)
  | comment {body rest : List Char} (hb : '\n' ∉ body) (h : Spacing rest) :
    Spacing ('/' :: '/' :: (body ++ '\n' :: rest))

/-- What may stand between two tokens: it begins with a blank, for a comment right behind a
`/` would take that away. -/
structure Separates (text : String) : Prop where
  blank : ∃ c ∈ text.toList.head?, c = ' ' ∨ c = '\r' ∨ c = '\t' ∨ c = '\n'
  spacing : Spacing text.toList

/-- The lexemes of tokens, each behind its separator. -/
def laidOut : List String → List Token → String
  | separator :: separators, token :: rest =>
    separator ++ token.lexeme ++ laidOut separators rest
  | _, _ => ""

@[simp] theorem laidOut_nil (separators : List String) : laidOut separators [] = "" := by
  cases separators <;> rfl

/-- What is written up to a token does not depend on what is written behind. -/
theorem laidOut_take (separators : List String) (written : List Token) (n : Nat) :
    laidOut separators (written.take n) ++ laidOut (separators.drop n) (written.drop n) =
      laidOut separators written := by
  induction n generalizing separators written with
  | zero => simp
  | succ n ih =>
      cases separators with
      | nil => cases written <;> simp [laidOut]
      | cons separator separators =>
          cases written with
          | nil => simp
          | cons token written => simp [laidOut, String.append_assoc, ih]

/-- The tokens that scanning finds, without the end of the source. -/
def goodTokens (source : String) : List Token :=
  (tokens (scan source)).filter fun token => token.kind != .eof

theorem goodTokens_eq (source : String) : goodTokens source = wordsOf source := by
  have hwords : ∀ token ∈ wordsOf source, (token.kind != .eof) = true :=
    fun token ht => bne_iff_ne.mpr (kind_of_mem_wordsOf ht)
  rw [goodTokens, tokens_scan, List.filter_append, List.filter_eq_self.mpr hwords]
  exact List.append_nil _

/-! ## Spacing is passed over -/

theorem isBlank_iff (c : Char) : isBlank c = true ↔ c = ' ' ∨ c = '\r' ∨ c = '\t' ∨ c = '\n' := by
  simp [isBlank, or_assoc]

theorem ofSlices_blank {c : Char} (hc : isBlank c = true) (line : Nat) (rest : List Char) :
    ofSlices line (slices (c :: rest)) = ofSlices (line + [c].count '\n') (slices rest) := by
  rw [slices_cons, cut, if_pos hc, ofSlices]

theorem cut_comment {body : List Char} (hb : '\n' ∉ body) (rest : List Char) :
    cut '/' ('/' :: (body ++ '\n' :: rest)) = (⟨'/' :: '/' :: body, .blank⟩, '\n' :: rest) := by
  have hline : ∀ c ∈ body, (c != '\n') = true := fun c hc => bne_iff_ne.mpr fun h => hb (h ▸ hc)
  obtain ⟨htake, hdrop⟩ :=
    takeWhile_before (p := fun c => c != '\n') (x := '\n') (by decide) hline rest
  rw [cut, if_neg (by decide), if_pos ⟨rfl, rfl⟩, List.tail_cons, cutComment, htake, hdrop]

/-- Spacing counts lines and does nothing else. -/
theorem Spacing.ofSlices {text : List Char} (h : Spacing text) (line : Nat) (rest : List Char) :
    ofSlices line (slices (text ++ rest)) =
      Token.ofSlices (line + text.count '\n') (slices rest) := by
  induction h generalizing line with
  | nil => rfl
  | @blank c text hc _ ih =>
      rw [List.cons_append, ofSlices_blank ((isBlank_iff c).mpr hc), ih, Nat.add_assoc,
        ← List.count_append, List.singleton_append]
  | @comment body text hb _ ih =>
      have hcut : slices ('/' :: '/' :: (body ++ '\n' :: text) ++ rest) =
          ⟨'/' :: '/' :: body, .blank⟩ :: slices ('\n' :: (text ++ rest)) := by
        rw [List.cons_append, List.cons_append, List.append_assoc, List.cons_append, slices_cons,
          cut_comment hb]
      rw [hcut, Token.ofSlices, ofSlices_blank (by decide), ih]
      have hcount : ('/' :: '/' :: (body ++ '\n' :: text)).count '\n' =
          ('/' :: '/' :: body).count '\n' + ['\n'].count '\n' + text.count '\n' := by
        rw [← List.count_append, ← List.count_append]
        simp
      rw [hcount, ← Nat.add_assoc, ← Nat.add_assoc]

/-! ## A lexeme before a blank -/

/-- A separator, or the end of the text. -/
def Apart (rest : List Char) : Prop := ∀ c ∈ rest.head?, isBlank c = true

theorem Separates.apart {text : String} (h : Separates text) (rest : List Char) :
    Apart (text.toList ++ rest) := by
  obtain ⟨c, hc, hblank⟩ := h.blank
  obtain ⟨after, htext⟩ := List.head?_eq_some_iff.mp hc
  rw [htext]
  rintro _ ⟨⟩
  exact (isBlank_iff c).mpr hblank

theorem not_isBlank_of_isDigit {c : Char} (h : c.isDigit = true) : isBlank c ≠ true := by
  rw [Ne, isBlank_iff]
  rintro (rfl | rfl | rfl | rfl) <;> exact absurd h (by decide)

theorem not_isBlank_of_continuesWord {c : Char} (h : continuesWord c = true) :
    isBlank c ≠ true := by
  rw [Ne, isBlank_iff]
  rintro (rfl | rfl | rfl | rfl) <;> exact absurd h (by decide)

/-- What stands in a lexeme that is neither a string nor an operator. -/
theorem Lexeme.chars {text : List Char} {kind : Kind} (h : Lexeme text kind) {c : Char}
    (hc : c ∈ text) : text.head? = some '"' ∨ (text, kind) ∈ operators ∨ c.isDigit = true ∨
      c = '.' ∨ continuesWord c = true := by
  have hword : IsWord text → continuesWord c = true := by
    intro hw
    cases text with
    | nil => exact hw.elim
    | cons first rest =>
        obtain ⟨hfirst, hrest⟩ := (isWord_cons_iff first rest).mp hw
        rcases List.mem_cons.mp hc with rfl | hmem
        · rw [continuesWord, Bool.or_right_comm]
          exact Bool.or_eq_true_iff.mpr (.inl hfirst)
        · exact hrest c hmem
  cases h with
  | operator h => exact .inr (.inl h)
  | string => exact .inl rfl
  | whole _ h => exact .inr (.inr (.inl (h c hc)))
  | @decimal whole fraction _ _ h =>
      by_cases hpoint : c = '.'
      · exact .inr (.inr (.inr (.inl hpoint)))
      · have hmem : c ∈ whole ++ fraction := by simpa [hpoint] using hc
        exact .inr (.inr (.inl (h c hmem)))
  | keyword h => exact .inr (.inr (.inr (.inr (hword (isWord_of_mem_keywords h)))))
  | identifier hw => exact .inr (.inr (.inr (.inr (hword hw))))

/-- No lexeme but a string has a blank in it. -/
theorem Lexeme.quoted {text : List Char} {kind : Kind} (h : Lexeme text kind) {c : Char}
    (hc : c ∈ text) (hblank : isBlank c = true) : text.head? = some '"' := by
  rcases h.chars hc with hquote | hoperator | hdigit | rfl | hword
  · exact hquote
  · have hnone : ∀ o ∈ operators, o.1.all (fun c => !isBlank c) = true := by decide
    have hnot := List.all_eq_true.mp (hnone _ hoperator) c hc
    rw [hblank] at hnot
    cases hnot
  · exact absurd hblank (not_isBlank_of_isDigit hdigit)
  · exact absurd hblank (by decide)
  · exact absurd hblank (not_isBlank_of_continuesWord hword)

section Lexeme

variable {text : List Char} {kind : Kind} (h : Lexeme text kind)
include h

/-- A string is at its end, and nothing else goes on with a blank. -/
theorem Lexeme.not_extended {c : Char} (hblank : isBlank c = true) (more : List Char)
    (kind' : Kind) : ¬ Lexeme (text ++ c :: more) kind' := by
  intro hlong
  obtain ⟨first, rest, rfl⟩ := List.exists_cons_of_ne_nil h.ne_nil
  have hquote : first = '"' := Option.some.inj (hlong.quoted (by simp) hblank)
  obtain ⟨body, -, rfl, -⟩ := h.of_quote hquote
  obtain ⟨body', hnone, hrest, -⟩ := hlong.of_quote hquote
  have hbody : body' = body ++ ['"'] ++ (c :: more).dropLast := by
    have hlast : (body ++ ['"'] ++ c :: more).dropLast = body' :=
      (congrArg List.dropLast hrest).trans List.dropLast_concat
    rw [← hlast, List.dropLast_append_of_ne_nil (List.cons_ne_nil c more)]
  exact hnone (hbody ▸ by simp)

/-- A lexeme begins neither with a blank nor, if it is set apart from what follows, with a
comment. -/
theorem Lexeme.not_beginsBlank {rest : List Char} (hrest : Apart rest) :
    ¬ BeginsBlank (text ++ rest) := by
  obtain ⟨first, tail, rfl⟩ := List.exists_cons_of_ne_nil h.ne_nil
  rintro (⟨c, hc, hblank⟩ | hcomment)
  · cases hc
    have hquote : first = '"' := Option.some.inj (h.quoted (List.mem_cons_self ..) hblank)
    subst hquote
    exact absurd hblank (by decide)
  · obtain ⟨hfirst, hsecond⟩ := List.cons_prefix_cons.mp hcomment
    subst hfirst
    have hslash : ∀ o ∈ operators, o.1.head? = some '/' → o.1 = ['/'] := by decide
    have hmem := h.mem_operators (by decide) (by decide) (by decide)
    obtain rfl := (List.cons.inj (hslash _ hmem rfl)).2
    obtain ⟨after, rfl⟩ := hsecond
    exact absurd (hrest '/' rfl) (by decide)

/-- A lexeme that is set apart from what follows is cut as it is. -/
theorem Lexeme.slices {rest : List Char} (hrest : Apart rest) :
    slices (text ++ rest) = ⟨text, .token kind⟩ :: Token.slices rest := by
  have hnot := h.not_beginsBlank hrest
  have hbegins : BeginsLexeme (text ++ rest) := ⟨text, kind, h, List.prefix_append ..⟩
  obtain ⟨first, after, hsource⟩ :
      ∃ first after, text ++ rest = first :: after :=
    List.exists_cons_of_ne_nil fun hnil => h.ne_nil (List.append_eq_nil_iff.mp hnil).1
  rw [hsource] at hnot hbegins ⊢
  rcases cut_longest hnot with ⟨kind', hrole, hlongest⟩ | ⟨hnone, -⟩
  · obtain ⟨more, hmore⟩ : text <+: (cut first after).1.text :=
      List.prefix_of_prefix_length_le ⟨rest, hsource⟩ hlongest.begins
        (hlongest.longest text kind h ⟨rest, hsource⟩)
    have hwhole := cut_append first after
    rw [← hmore, ← hsource, List.append_assoc, List.append_cancel_left_eq] at hwhole
    have hlexeme := hlongest.lexeme
    rw [← hmore] at hlexeme
    cases more with
    | cons c more =>
        refine absurd hlexeme (h.not_extended (hrest c ?_) more kind')
        rw [← hwhole]
        rfl
    | nil =>
        rw [List.append_nil] at hmore hlexeme
        obtain rfl := h.kind_unique hlexeme
        rw [slices_cons, ← hwhole, List.nil_append, hmore, ← hrole]
  · exact absurd hbegins hnone

end Lexeme

/-! ## The tokens of a source are lexemes -/

theorem role_cut_of_beginsBlank {first : Char} {rest : List Char}
    (h : BeginsBlank (first :: rest)) : (cut first rest).1.role = .blank := by
  rcases h with ⟨c, hc, hblank⟩ | ⟨after, hcomment⟩
  · cases hc
    rw [cut, if_pos hblank]
  · cases hcomment
    rw [cut, if_neg (by decide), if_pos ⟨rfl, rfl⟩, cutComment]

theorem lexeme_cut {first : Char} {rest : List Char} {kind : Kind}
    (h : (cut first rest).1.role = .token kind) : Lexeme (cut first rest).1.text kind := by
  have hnot : ¬ BeginsBlank (first :: rest) := by
    intro hb
    rw [role_cut_of_beginsBlank hb] at h
    cases h
  rcases cut_longest hnot with ⟨kind', hrole, hlongest⟩ | ⟨-, hfault⟩
  · rw [hrole] at h
    cases h
    exact hlongest.lexeme
  · rw [hfault] at h
    split at h <;> cases h

theorem lexeme_of_mem_words {source : List Char} {line : Nat} {token : Token}
    (h : token ∈ words line (slices source)) : Lexeme token.lexeme.toList token.kind := by
  induction source using slices.induct generalizing line with
  | case1 =>
      rw [slices_nil] at h
      cases h
  | case2 first rest ih =>
      rw [slices_cons] at h
      cases hrole : (cut first rest).1.role with
      | token kind =>
          rw [words_cons_token hrole] at h
          rcases List.mem_cons.mp h with rfl | hrest
          · rw [String.toList_ofList]
            exact lexeme_cut hrole
          · exact ih hrest
      | _ =>
          rw [words_cons_skip (by simp [hrole])] at h
          exact ih h

/-! ## Lexemes laid out -/

theorem lineEnds_append (s t : String) : lineEnds (s ++ t) = lineEnds s + lineEnds t := by
  rw [lineEnds, String.toList_append, List.count_append]
  rfl

theorem apart_laidOut {separators : List String} (h : ∀ s ∈ separators, Separates s)
    (written : List Token) : Apart (laidOut separators written).toList := by
  cases separators with
  | nil =>
      intro c hc
      cases hc
  | cons separator separators =>
      cases written with
      | nil =>
          intro c hc
          cases hc
      | cons token written =>
          rw [laidOut, String.append_assoc, String.toList_append]
          exact (h separator (List.mem_cons_self ..)).apart _

/-- Lexemes that are set apart are found again, each on the line on which it ends. -/
theorem ofSlices_laidOut {written : List Token} {separators : List String}
    (hlexemes : ∀ token ∈ written, Lexeme token.lexeme.toList token.kind)
    (hlength : written.length ≤ separators.length)
    (hfirst : ∀ separator ∈ separators.head?, Spacing separator.toList)
    (hseparators : ∀ separator ∈ separators.tail, Separates separator) (line : Nat) :
    ofSlices line (slices (laidOut separators written).toList) =
      written.mapIdx (fun i token => .ok { token with
          line := line + lineEnds (laidOut separators (written.take (i + 1))) }) ++
        [.ok ⟨.eof, "", line + lineEnds (laidOut separators written)⟩] := by
  induction written generalizing separators line with
  | nil =>
      rw [laidOut_nil]
      exact congrArg (ofSlices line) slices_nil
  | cons token written ih =>
      cases separators with
      | nil => exact absurd hlength (Nat.not_succ_le_zero _)
      | cons separator separators =>
          obtain ⟨hlexeme, hlexemes⟩ := List.forall_mem_cons.mp hlexemes
          have hrest := ih hlexemes (Nat.le_of_succ_le_succ hlength)
            (fun s hs => (hseparators s (List.mem_of_mem_head? hs)).spacing)
            (fun s hs => hseparators s (List.mem_of_mem_tail hs))
            (line + lineEnds separator + lineEnds token.lexeme)
          have hapart : Apart (laidOut separators written).toList :=
            apart_laidOut hseparators written
          have htext : (laidOut (separator :: separators) (token :: written)).toList =
              separator.toList ++
                (token.lexeme.toList ++ (laidOut separators written).toList) := by
            rw [laidOut, String.toList_append, String.toList_append, List.append_assoc]
          have hends : ∀ l, line + lineEnds (laidOut (separator :: separators) (token :: l)) =
              line + lineEnds separator + lineEnds token.lexeme +
                lineEnds (laidOut separators l) := by
            intro l
            rw [laidOut, lineEnds_append, lineEnds_append]
            omega
          rw [htext, (hfirst separator rfl).ofSlices,
            hlexeme.slices hapart, ofSlices, String.ofList_toList, List.mapIdx_cons]
          simp only [List.take_succ_cons, List.take_zero, hends, laidOut_nil, List.cons_append]
          exact congrArg (_ :: ·) hrest

/-- The tokens that are found in a source, be it in order or not, can be laid out in any way:
scanned again they are the same tokens, each on the line that is reached with the end of its
lexeme, and there are no faults. -/
theorem scan_laidOut (source : String) {separators : List String}
    (hlength : (goodTokens source).length ≤ separators.length + 1)
    (hseparators : ∀ separator ∈ separators, Separates separator) :
    scan (laidOut ("" :: separators) (goodTokens source)) =
      (goodTokens source).mapIdx (fun i token => .ok { token with
          line := 1 + lineEnds (laidOut ("" :: separators) ((goodTokens source).take (i + 1))) }) ++
        [.ok ⟨.eof, "", 1 + lineEnds (laidOut ("" :: separators) (goodTokens source))⟩] := by
  have hlexemes : ∀ token ∈ goodTokens source, Lexeme token.lexeme.toList token.kind := by
    rw [goodTokens_eq]
    exact fun token ht => lexeme_of_mem_words ht
  refine @ofSlices_laidOut _ ("" :: separators) hlexemes hlength ?_ hseparators 1
  rintro _ ⟨⟩
  exact .nil

/-- What is salvaged from a source with two faults, among it a string over two lines, a
numeral before a point and a stroke before a comment. -/
theorem scan_laidOut_salvaged :
    let source := "12.if@/\"a\nb\"\"open"
    let separators := [" ", "\n// note\n", "\t", " //\n\r"]
    faults (scan source) = [⟨.unexpectedCharacter, 1⟩, ⟨.unterminatedString, 2⟩] ∧
      laidOut ("" :: separators) (goodTokens source) =
        "12 .\n// note\nif\t/ //\n\r\"a\nb\"" ∧
      (scan (laidOut ("" :: separators) (goodTokens source))).map lineOf = [1, 1, 3, 3, 5, 5] := by
  have hnote : Separates "\n// note\n" :=
    ⟨⟨'\n', rfl, by decide⟩,
      .blank (by decide) (@Spacing.comment " note".toList [] (by decide) .nil)⟩
  have hempty : Separates " //\n\r" :=
    ⟨⟨' ', rfl, by decide⟩,
      .blank (by decide) (@Spacing.comment [] ['\r'] (by decide) (.blank (by decide) .nil))⟩
  have hspace : Separates " " := ⟨⟨' ', rfl, by decide⟩, .blank (by decide) .nil⟩
  have htab : Separates "\t" := ⟨⟨'\t', rfl, by decide⟩, .blank (by decide) .nil⟩
  have hscan := @scan_laidOut "12.if@/\"a\nb\"\"open" [" ", "\n// note\n", "\t", " //\n\r"]
    (by decide +kernel) (by simp [hnote, hempty, hspace, htab])
  refine ⟨by decide +kernel, by decide +kernel, ?_⟩
  rw [hscan]
  decide +kernel

end Lox.Token
