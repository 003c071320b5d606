import Lox.Proofs.Lexemes

/-!
# Every character of a source is accounted for

What scanning finds are pieces of the source, one behind the other, and what lies before,
between and behind them are blanks and comments. Pieces are given by positions in the
source, which are byte offsets at which a character begins or the source ends. A token
has the text of its piece, and a token or a fault the line on which its piece ends.

A scanner gives out its results one at a time. It goes on from where it stands and from
the line it has come to, and once it has given out the end of the source it gives out
nothing more: asked again and again it answers with the list that scanning makes, and
then with nothing.
-/

namespace Lox.Token

/-! ## One result at a time -/

/-- A scanner on its way through a source. -/
structure Scanner where
  /-- What it has not come to yet. -/
  rest : List Char
  line : Nat
  /-- Has the end of the source been given out? -/
  ended : Bool

namespace Scanner

def start (source : String) : Scanner := ⟨source.toList, 1, false⟩

/-- Goes on to the next token or fault, or to the end of the source. -/
def advance (line : Nat) : List Char → Scanned × Scanner
  | [] => (.ok ⟨.eof, "", line⟩, ⟨[], line, true⟩)
  | first :: rest =>
    let slice := (cut first rest).1
    let line := line + slice.text.count '\n'
    match slice.role with
    | .blank => advance line (cut first rest).2
    | .token kind =>
      (.ok ⟨kind, String.ofList slice.text, line⟩, ⟨(cut first rest).2, line, false⟩)
    | .fault cause => (.error ⟨cause, line⟩, ⟨(cut first rest).2, line, false⟩)
termination_by source => source.length
decreasing_by exact length_cut_lt first rest

/-- Gives out the next result, if there is one, and the scanner behind it. -/
def next (s : Scanner) : Option Scanned × Scanner :=
  if s.ended then (none, s) else (advance s.line s.rest).map some id

/-- What a scanner gives out when it has been asked so many times before. -/
def answer (s : Scanner) : Nat → Option Scanned
  | 0 => s.next.1
  | n + 1 => s.next.2.answer n

/-- What a scanner has still to give out. -/
def results (s : Scanner) : List Scanned :=
  if s.ended then [] else ofSlices s.line (slices s.rest)

theorem results_advance (line : Nat) (rest : List Char) :
    ofSlices line (slices rest) = (advance line rest).1 :: (advance line rest).2.results := by
  induction rest using slices.induct generalizing line with
  | case1 =>
      rw [slices_nil, advance]
      rfl
  | case2 first rest ih =>
      rw [slices_cons, ofSlices, advance]
      cases (cut first rest).1.role with
      | blank => exact ih _
      | _ => rfl

/-- To be asked once takes the first of the results. -/
theorem results_next (s : Scanner) :
    s.next.1 = s.results.head? ∧ s.next.2.results = s.results.tail := by
  cases hs : s.ended with
  | true => simp [next, results, hs]
  | false =>
      rw [next, results, hs, if_neg Bool.false_ne_true, if_neg Bool.false_ne_true, results_advance]
      exact ⟨rfl, rfl⟩

theorem answer_eq (s : Scanner) (n : Nat) : s.answer n = s.results[n]? := by
  induction n generalizing s with
  | zero => rw [answer, s.results_next.1, List.head?_eq_getElem?]
  | succ n ih => rw [answer, ih, s.results_next.2, List.getElem?_tail]

end Scanner

/-! ## Pieces of a source -/

/-- Nothing but blanks and comments, with so much of the source behind it. A comment goes
up to the end of its line or of the source. -/
inductive Filler (after : List Char) : List Char → Prop
  | nil : Filler after []
  | blank {c : Char} {rest : List Char} (hc : c = ' ' ∨ c = '\r' ∨ c = '\t' ∨ c = '\n')
    (h : Filler after rest) : Filler after (c :: rest)
  | comment {body rest : List Char} (hb : '\n' ∉ body)
    (hstop : ∀ c ∈ (rest ++ after).head?, c = '\n') (h : Filler after rest) :
    Filler after ('/' :: '/' :: (body ++ rest))

/-- The line that a result is given. -/
def lineOf : Scanned → Nat
  | .ok token => token.line
  | .error fault => fault.line

/-- The number of line ends in a text. -/
def lineEnds (text : String) : Nat := text.toList.count '\n'

/-- A piece of a source and what scanning makes of it. -/
structure Piece (source : String) where
  start : source.Pos
  stop : source.Pos
  lt : start < stop
  found : Scanned
  /-- A token has the text of its piece, and is not the end of the source. -/
  verbatim : ∀ token, found = .ok token →
    token.lexeme = source.extract start stop ∧ token.kind ≠ .eof
  line : lineOf found = 1 + lineEnds (source.extract source.startPos stop)

/-- Between two positions there is nothing that stands for a result. -/
structure Gap {source : String} (start stop : source.Pos) : Prop where
  le : start ≤ stop
  filler : Filler (source.extract stop source.endPos).toList (source.extract start stop).toList

/-- From a position on, the pieces follow one another up to the end of the source. -/
def Covered {source : String} : source.Pos → List (Piece source) → Prop
  | position, [] => Gap position source.endPos
  | position, piece :: rest => Gap position piece.start ∧ Covered piece.stop rest

/-! ## Positions -/

/-- The position between two texts that make up the source. -/
abbrev Between {source : String} (position : source.Pos) (done rest : List Char) : Prop :=
  position.Splits (String.ofList done) (String.ofList rest)

section Between

variable {source : String} {p q : source.Pos} {done text rest : List Char}

theorem between_start (source : String) : Between source.startPos [] source.toList := by
  rw [Between, String.ofList_toList]
  exact String.splits_startPos source

theorem Between.done_append (h : Between p done rest) : source.toList = done ++ rest := by
  rw [h.eq_append, String.toList_append, String.toList_ofList, String.toList_ofList]

/-- Behind the first part of what is left there is a position as well. -/
theorem Between.forward (h : Between p done (text ++ rest)) :
    ∃ q : source.Pos, Between q (done ++ text) rest := by
  rw [Between, String.ofList_append] at h
  refine ⟨h.rotateRight, ?_⟩
  rw [Between, String.ofList_append]
  exact h.splits_rotateRight

theorem Between.extract (hp : Between p done (text ++ rest)) (hq : Between q (done ++ text) rest) :
    p ≤ q ∧ source.extract p q = String.ofList text := by
  rw [Between, String.ofList_append] at hp hq
  obtain ⟨hle, hcopy⟩ := String.copy_slice_eq_iff_splits.mpr ⟨_, _, hp, hq⟩
  exact ⟨hle, (String.extract_eq_copy_slice p q hle).trans hcopy⟩

theorem Between.lt (hp : Between p done (text ++ rest)) (hq : Between q (done ++ text) rest)
    (ht : text ≠ []) : p < q := by
  rw [Between, String.ofList_append] at hp hq
  refine (hp.lt_iff_exists_eq_append hq).mpr ⟨_, fun hnil => ht ?_, rfl, rfl⟩
  exact String.ofList_eq_empty_iff.mp hnil

theorem Between.extract_start (h : Between p done rest) :
    source.extract source.startPos p = String.ofList done := by
  have hstart : Between source.startPos [] (done ++ rest) := by
    rw [← h.done_append]
    exact between_start source
  have hend : Between p ([] ++ done) rest := h
  exact (hstart.extract hend).2

theorem Between.extract_end (h : Between p done rest) :
    source.extract p source.endPos = String.ofList rest := by
  have hend : Between source.endPos (done ++ rest) [] := by
    rw [← h.done_append, Between, String.ofList_toList]
    exact String.splits_endPos source
  rw [Between, ← List.append_nil rest] at h
  exact (Between.extract h hend).2

/-- A position further on takes apart what is left. -/
theorem Between.further (h : Between p done rest) (hle : p ≤ q) :
    ∃ text after, rest = text ++ after ∧ Between q (done ++ text) after := by
  obtain ⟨text, hdone, hrest⟩ := (h.le_iff_exists_eq_append q.splits).mp hle
  refine ⟨text.toList, (source.sliceFrom q).copy.toList, ?_, ?_⟩
  · rw [← String.toList_append, ← hrest, String.toList_ofList]
  · rw [Between, String.ofList_append, String.ofList_toList, String.ofList_toList, ← hdone]
    exact q.splits

end Between

/-! ## Slices are pieces, or lie between them -/

theorem role_cutString_ne_blank (rest : List Char) : (cutString rest).1.role ≠ .blank := by
  rw [cutString]
  split <;> simp

theorem role_cutNumeral_ne_blank (first : Char) (rest : List Char) :
    (cutNumeral first rest).1.role ≠ .blank := by
  rw [cutNumeral]
  split
  · split <;> simp
  · simp

theorem role_cutSymbol_ne_blank (first : Char) (rest : List Char) :
    (cutSymbol first rest).1.role ≠ .blank := by
  unfold cutSymbol
  split
  · simp
  · split <;> simp

/-- What is cut as a blank is one, or a comment. -/
theorem cut_blank {first : Char} {rest : List Char} (h : (cut first rest).1.role = .blank) :
    isBlank first = true ∧ cut first rest = (⟨[first], .blank⟩, rest) ∨
      ∃ body, first :: rest = '/' :: '/' :: body ∧ cut first rest = cutComment body := by
  unfold cut at h ⊢
  split at h
  · rename_i hblank
    rw [if_pos hblank]
    exact .inl ⟨hblank, rfl⟩
  rename_i hblank
  rw [if_neg hblank]
  split at h
  · rename_i hcomment
    rw [if_pos hcomment]
    obtain ⟨rfl, hhead⟩ := hcomment
    obtain ⟨body, rfl⟩ := List.head?_eq_some_iff.mp hhead
    exact .inr ⟨body, rfl, rfl⟩
  split at h
  · exact absurd h (role_cutString_ne_blank rest)
  split at h
  · exact absurd h (role_cutNumeral_ne_blank first rest)
  split at h
  · cases h
  · exact absurd h (role_cutSymbol_ne_blank first rest)

/-- A blank in front of filler is filler, and a comment as far as it goes is so too. -/
theorem Filler.cut {first : Char} {rest gap after : List Char}
    (hrole : (cut first rest).1.role = .blank) (hrest : (Token.cut first rest).2 = gap ++ after)
    (h : Filler after gap) : Filler after ((Token.cut first rest).1.text ++ gap) := by
  rcases cut_blank hrole with ⟨hblank, hcut⟩ | ⟨body, -, hcut⟩
  · rw [hcut]
    refine .blank ?_ h
    simpa [isBlank, or_assoc] using hblank
  · rw [hcut] at hrest ⊢
    refine .comment (fun hmem => ?_) (fun c hc => ?_) h
    · exact bne_iff_ne.mp (forall_mem_takeWhile (· != '\n') body _ hmem) rfl
    · have hstop := List.head?_dropWhile_not (· != '\n') body
      rw [← hrest] at hc
      rw [show (body.dropWhile (· != '\n')).head? = some c from hc] at hstop
      exact bne_eq_false_iff_eq.mp hstop

section Pieces

variable {source : String} {p q r : source.Pos} {done rest : List Char}

theorem Between.gap (h : Between p done rest) : Gap p p where
  le := String.Pos.le_refl p
  filler := by
    have hp : Between p (done ++ []) rest := by rwa [List.append_nil]
    have hempty : Between p done ([] ++ rest) := h
    rw [(hempty.extract hp).2]
    exact .nil

/-- A gap goes on to the left over a slice that is blank. -/
theorem Gap.before {first : Char} (hp : Between p done (first :: rest))
    (hq : Between q (done ++ (cut first rest).1.text) (cut first rest).2)
    (hrole : (cut first rest).1.role = .blank) (h : Gap q r) : Gap p r := by
  obtain ⟨gap, after, hrest, hr⟩ := hq.further h.le
  rw [hrest] at hq
  have hfiller := h.filler
  rw [(hq.extract hr).2, hr.extract_end, String.toList_ofList, String.toList_ofList] at hfiller
  rw [← cut_append first rest, hrest, ← List.append_assoc] at hp
  rw [List.append_assoc] at hr
  obtain ⟨hle, htext⟩ := hp.extract hr
  refine ⟨hle, ?_⟩
  rw [htext, hr.extract_end, String.toList_ofList, String.toList_ofList]
  exact hfiller.cut hrole hrest

theorem Covered.before {first : Char} (hp : Between p done (first :: rest))
    (hq : Between q (done ++ (cut first rest).1.text) (cut first rest).2)
    (hrole : (cut first rest).1.role = .blank) {pieces : List (Piece source)}
    (h : Covered q pieces) : Covered p pieces := by
  cases pieces with
  | nil => exact Gap.before hp hq hrole h
  | cons piece pieces => exact ⟨h.1.before hp hq hrole, h.2⟩

theorem cut_text_ne_nil (first : Char) (rest : List Char) : (cut first rest).1.text ≠ [] := by
  intro hnil
  have hlen := length_cut_lt first rest
  rw [← cut_append first rest, hnil, List.nil_append] at hlen
  exact Nat.lt_irrefl _ hlen

/-- The piece for a slice that stands for a token or a fault. -/
def Between.piece {first : Char} (hp : Between p done (first :: rest))
    (hq : Between q (done ++ (cut first rest).1.text) (cut first rest).2) (found : Scanned)
    (hverbatim : ∀ token, found = .ok token →
      token.lexeme = String.ofList (cut first rest).1.text ∧ token.kind ≠ .eof)
    (hline : lineOf found = 1 + (done ++ (cut first rest).1.text).count '\n') : Piece source where
  start := p
  stop := q
  found := found
  lt := by
    rw [← cut_append first rest] at hp
    exact hp.lt hq (cut_text_ne_nil first rest)
  verbatim token ht := by
    rw [← cut_append first rest] at hp
    rw [(hp.extract hq).2]
    exact hverbatim token ht
  line := by rw [hline, lineEnds, hq.extract_start, String.toList_ofList]

/-- From wherever scanning stands, what it still finds are pieces of what is left. -/
theorem exists_covered (hp : Between p done rest) {line : Nat}
    (hline : line = 1 + done.count '\n') :
    ∃ pieces : List (Piece source), Covered p pieces ∧
      ofSlices line (slices rest) =
        pieces.map Piece.found ++ [.ok ⟨.eof, "", 1 + lineEnds source⟩] := by
  induction rest using slices.induct generalizing p done line with
  | case1 =>
      obtain rfl : p = source.endPos := (String.Pos.splits_empty_right_iff.mp hp).1
      refine ⟨[], hp.gap, ?_⟩
      rw [slices_nil, lineEnds, hp.done_append, List.append_nil, ← hline]
      rfl
  | case2 first rest ih =>
      obtain ⟨q, hq⟩ : ∃ q : source.Pos,
          Between q (done ++ (cut first rest).1.text) (cut first rest).2 := by
        rw [← cut_append first rest] at hp
        exact hp.forward
      have hnext : line + (cut first rest).1.text.count '\n' =
          1 + (done ++ (cut first rest).1.text).count '\n' := by
        rw [hline, List.count_append, Nat.add_assoc]
      obtain ⟨pieces, hcovered, hfound⟩ := ih hq hnext
      rw [slices_cons, ofSlices]
      cases hrole : (cut first rest).1.role with
      | blank => exact ⟨pieces, hcovered.before hp hq hrole, hfound⟩
      | token kind =>
          have hkind : kind ≠ .eof := fun h => role_cut first rest (h ▸ hrole)
          let token : Token := ⟨kind, String.ofList (cut first rest).1.text,
            line + (cut first rest).1.text.count '\n'⟩
          refine ⟨hp.piece hq (.ok token) ?_ hnext :: pieces, ⟨hp.gap, hcovered⟩, ?_⟩
          · rintro _ ⟨⟩
            exact ⟨rfl, hkind⟩
          · exact congrArg (_ :: ·) hfound
      | fault cause =>
          let fault : LexicalFault := ⟨cause, line + (cut first rest).1.text.count '\n'⟩
          refine ⟨hp.piece hq (.error fault) ?_ hnext :: pieces, ⟨hp.gap, hcovered⟩, ?_⟩
          · rintro _ ⟨⟩
          · exact congrArg (_ :: ·) hfound

end Pieces

/-- What scanning finds are pieces of the source that follow one another with nothing but
blanks and comments around them, then the end of the source, on the line behind its last
line end. A scanner gives out just that, and nothing ever after. -/
theorem scan_accounts (source : String) :
    (∃ pieces : List (Piece source), Covered source.startPos pieces ∧
      scan source = pieces.map Piece.found ++ [.ok ⟨.eof, "", 1 + lineEnds source⟩]) ∧
    ∀ n, (Scanner.start source).answer n = (scan source)[n]? :=
  ⟨exists_covered (between_start source) rfl, (Scanner.start source).answer_eq⟩

end Lox.Token
