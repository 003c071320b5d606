import Lox.Token.Scan

/-!
# Scanning two texts with a line end between them

No slice goes across the end of a line but a string, so a text that leaves no string
open is cut in the same way whatever follows on the next line. What follows is cut as
if it stood alone, only that its lines are counted from further down.
-/

namespace Lox.Token

/-! ## Cutting at a line end -/

theorem takeWhile_stop {p : Char → Bool} {x : Char} (hx : p x = false) (l r : List Char) :
    (l ++ x :: r).takeWhile p = l.takeWhile p := by
  induction l with
  | nil => simp [hx]
  | cons a l ih => simp only [List.cons_append, List.takeWhile_cons, ih]

theorem dropWhile_stop {p : Char → Bool} {x : Char} (hx : p x = false) (l r : List Char) :
    (l ++ x :: r).dropWhile p = l.dropWhile p ++ x :: r := by
  induction l with
  | nil => simp [hx]
  | cons a l ih =>
      simp only [List.cons_append, List.dropWhile_cons, ih]
      split <;> rfl

/-- What a search finds it finds before anything that is put behind. -/
theorem dropWhile_append_of_ne_nil {p : Char → Bool} {l : List Char} (h : l.dropWhile p ≠ [])
    (r : List Char) :
    (l ++ r).takeWhile p = l.takeWhile p ∧ (l ++ r).dropWhile p = l.dropWhile p ++ r := by
  induction l with
  | nil => exact absurd rfl h
  | cons a l ih =>
      rw [List.dropWhile_cons] at h
      simp only [List.cons_append, List.takeWhile_cons, List.dropWhile_cons]
      by_cases ha : p a = true
      · rw [if_pos ha] at h
        obtain ⟨htake, hdrop⟩ := ih h
        rw [if_pos ha, if_pos ha, if_pos ha, if_pos ha, htake, hdrop]
        exact ⟨rfl, rfl⟩
      · rw [if_neg ha, if_neg ha, if_neg ha, if_neg ha]
        exact ⟨rfl, rfl⟩

theorem cutComment_seam (rest tail : List Char) :
    cutComment (rest ++ '\n' :: tail) =
      ((cutComment rest).1, (cutComment rest).2 ++ '\n' :: tail) := by
  have htake := takeWhile_stop (p := fun c => c != '\n') (x := '\n') (by decide) rest tail
  have hdrop := dropWhile_stop (p := fun c => c != '\n') (x := '\n') (by decide) rest tail
  rw [cutComment, htake, hdrop]
  rfl

theorem cutString_seam {rest : List Char} (tail : List Char)
    (h : (cutString rest).1.role ≠ .fault .unterminatedString) :
    cutString (rest ++ '\n' :: tail) =
      ((cutString rest).1, (cutString rest).2 ++ '\n' :: tail) := by
  have hne : rest.dropWhile (· != '"') ≠ [] := by
    intro hnil
    simp [cutString, hnil] at h
  obtain ⟨htake, hdrop⟩ := dropWhile_append_of_ne_nil hne ('\n' :: tail)
  simp only [cutString, htake, hdrop]
  cases hd : rest.dropWhile (· != '"') with
  | nil => exact absurd hd hne
  | cons quote after => rfl

theorem cutNumeral_seam (first : Char) (rest tail : List Char) :
    cutNumeral first (rest ++ '\n' :: tail) =
      ((cutNumeral first rest).1, (cutNumeral first rest).2 ++ '\n' :: tail) := by
  have hstop : Char.isDigit '\n' = false := by decide
  simp only [cutNumeral, takeWhile_stop hstop, dropWhile_stop hstop]
  cases rest.dropWhile Char.isDigit with
  | nil => rfl
  | cons point l =>
      by_cases hp : point = '.'
      · subst hp
        cases l with
        | nil => rfl
        | cons digit after =>
            simp only [List.cons_append, takeWhile_stop hstop, dropWhile_stop hstop]
            split <;> rfl
      · simp [hp]

theorem cutWord_seam (first : Char) (rest tail : List Char) :
    cutWord first (rest ++ '\n' :: tail) =
      ((cutWord first rest).1, (cutWord first rest).2 ++ '\n' :: tail) := by
  have hstop : continuesWord '\n' = false := by decide
  rw [cutWord, takeWhile_stop hstop, dropWhile_stop hstop]
  rfl

theorem cutSymbol_seam (first : Char) (rest tail : List Char) :
    cutSymbol first (rest ++ '\n' :: tail) =
      ((cutSymbol first rest).1, (cutSymbol first rest).2 ++ '\n' :: tail) := by
  simp only [cutSymbol]
  cases rest with
  | nil =>
      cases withEqual? first <;> cases single? first <;> rfl
  | cons c rest =>
      by_cases hc : c = '='
      · subst hc
        cases withEqual? first <;> cases single? first <;> rfl
      · cases withEqual? first <;> cases single? first <;> simp [hc]

/-- A line end behind a slice does not change it, unless it is a string left open. -/
theorem cut_seam (first : Char) {rest : List Char} (tail : List Char)
    (h : (cut first rest).1.role ≠ .fault .unterminatedString) :
    cut first (rest ++ '\n' :: tail) =
      ((cut first rest).1, (cut first rest).2 ++ '\n' :: tail) := by
  have hslash : (rest ++ '\n' :: tail).head? = some '/' ↔ rest.head? = some '/' := by
    cases rest with
    | nil => simp
    | cons c rest => rfl
  have htail : rest.head? = some '/' → (rest ++ '\n' :: tail).tail = rest.tail ++ '\n' :: tail := by
    cases rest with
    | nil => simp
    | cons c rest => exact fun _ => rfl
  unfold cut at h ⊢
  simp only [hslash]
  by_cases hblank : isBlank first = true
  · rw [if_pos hblank, if_pos hblank]
  by_cases hcomment : first = '/' ∧ rest.head? = some '/'
  · rw [if_neg hblank, if_neg hblank, if_pos hcomment, if_pos hcomment, htail hcomment.2]
    exact cutComment_seam rest.tail tail
  rw [if_neg hblank, if_neg hcomment] at h
  rw [if_neg hblank, if_neg hblank, if_neg hcomment, if_neg hcomment]
  by_cases hquote : first = '"'
  · rw [if_pos hquote] at h
    rw [if_pos hquote, if_pos hquote]
    exact cutString_seam tail h
  rw [if_neg hquote, if_neg hquote]
  by_cases hdigit : first.isDigit = true
  · rw [if_pos hdigit, if_pos hdigit]
    exact cutNumeral_seam first rest tail
  rw [if_neg hdigit, if_neg hdigit]
  by_cases hword : beginsWord first = true
  · rw [if_pos hword, if_pos hword]
    exact cutWord_seam first rest tail
  · rw [if_neg hword, if_neg hword]
    exact cutSymbol_seam first rest tail

theorem slices_nil : slices [] = [] := by
  rw [slices]

theorem slices_cons (first : Char) (rest : List Char) :
    slices (first :: rest) = (cut first rest).1 :: slices (cut first rest).2 := by
  rw [slices]

/-- The line end between two texts is a slice of its own. -/
theorem slices_seam (source tail : List Char)
    (h : ∀ slice ∈ slices source, slice.role ≠ .fault .unterminatedString) :
    slices (source ++ '\n' :: tail) = slices source ++ ⟨['\n'], .blank⟩ :: slices tail := by
  induction source using slices.induct with
  | case1 =>
      rw [List.nil_append, slices_cons, slices_nil]
      rfl
  | case2 first rest ih =>
      rw [slices_cons] at h ⊢
      obtain ⟨hfirst, hrest⟩ := List.forall_mem_cons.mp h
      rw [List.cons_append, slices_cons, cut_seam first tail hfirst, ih hrest]
      rfl

/-- The slices put together are the source. -/
theorem flatMap_slices (source : List Char) : (slices source).flatMap Slice.text = source := by
  induction source using slices.induct with
  | case1 => rw [slices_nil, List.flatMap_nil]
  | case2 first rest ih => rw [slices_cons, List.flatMap_cons, ih, cut_append]

/-! ## The end of the source is no slice -/

theorem Kind.ofWord_ne_eof (word : String) : Kind.ofWord word ≠ .eof := by
  have key : ∀ words : List (String × Kind), (∀ w ∈ words, w.2 ≠ .eof) →
      (words.lookup word).getD .identifier ≠ .eof := by
    intro words h
    induction words with
    | nil => simp
    | cons w words ih =>
        rw [List.lookup_cons]
        split
        · exact h w (List.mem_cons_self ..)
        · exact ih fun w hw => h w (List.mem_cons_of_mem _ hw)
  exact key Kind.keywords (by decide)

theorem role_cutNumeral (first : Char) (rest : List Char) :
    (cutNumeral first rest).1.role ≠ .token .eof := by
  rw [cutNumeral]
  split
  · split <;> simp
  · simp

theorem role_cutSymbol (first : Char) (rest : List Char) :
    (cutSymbol first rest).1.role ≠ .token .eof := by
  have hsingle : single? first ≠ some .eof := by
    unfold single?
    split <;> simp
  have hequal : withEqual? first ≠ some .eof := by
    unfold withEqual?
    split <;> simp
  unfold cutSymbol
  split
  · rename_i kind after hk
    intro h
    cases h
    exact hequal hk
  · split
    · rename_i kind hk
      intro h
      cases h
      exact hsingle hk
    · simp

theorem role_cut (first : Char) (rest : List Char) : (cut first rest).1.role ≠ .token .eof := by
  unfold cut
  split
  · simp
  split
  · simp [cutComment]
  split
  · rw [cutString]
    split <;> simp
  split
  · exact role_cutNumeral first rest
  split
  · exact fun h => Kind.ofWord_ne_eof _ (Role.token.inj h)
  · exact role_cutSymbol first rest

theorem role_slices (source : List Char) : ∀ slice ∈ slices source, slice.role ≠ .token .eof := by
  induction source using slices.induct with
  | case1 =>
      rw [slices_nil]
      simp
  | case2 first rest ih =>
      rw [slices_cons]
      exact List.forall_mem_cons.mpr ⟨role_cut first rest, ih⟩

/-! ## Tokens and their lines -/

/-- The token so many lines further down. -/
def later (k : Nat) (t : Token) : Token := { t with line := t.line + k }

/-- The number of line ends in slices. -/
def newlines (l : List Slice) : Nat := (l.flatMap Slice.text).count '\n'

theorem newlines_cons (slice : Slice) (l : List Slice) :
    newlines (slice :: l) = slice.text.count '\n' + newlines l := by
  rw [newlines, List.flatMap_cons, List.count_append]
  rfl

/-- The tokens of slices, without the end of the source. -/
def words (line : Nat) : List Slice → List Token
  | [] => []
  | slice :: rest =>
    let line := line + slice.text.count '\n'
    match slice.role with
    | .token kind => ⟨kind, String.ofList slice.text, line⟩ :: words line rest
    | _ => words line rest

theorem words_cons_token {slice : Slice} {kind : Kind} (h : slice.role = .token kind)
    (line : Nat) (rest : List Slice) :
    words line (slice :: rest) =
      ⟨kind, String.ofList slice.text, line + slice.text.count '\n'⟩ ::
        words (line + slice.text.count '\n') rest := by
  simp only [words, h]

theorem words_cons_skip {slice : Slice} (h : ∀ kind, slice.role ≠ .token kind)
    (line : Nat) (rest : List Slice) :
    words line (slice :: rest) = words (line + slice.text.count '\n') rest := by
  cases hr : slice.role with
  | token kind => exact absurd hr (h kind)
  | _ => simp only [words, hr]

theorem tokens_ofSlices (line : Nat) (l : List Slice) :
    tokens (ofSlices line l) = words line l ++ [⟨.eof, "", line + newlines l⟩] := by
  induction l generalizing line with
  | nil => rfl
  | cons slice rest ih =>
      rw [newlines_cons, ← Nat.add_assoc, ofSlices]
      cases hr : slice.role with
      | blank =>
          rw [words_cons_skip (by simp [hr])]
          exact ih _
      | fault cause =>
          rw [words_cons_skip (by simp [hr])]
          exact ih _
      | token kind =>
          rw [words_cons_token hr]
          exact congrArg (_ :: ·) (ih _)

/-- There is a fault just where a slice stands for one. -/
theorem faults_ofSlices (line : Nat) (l : List Slice) :
    faults (ofSlices line l) = [] ↔ ∀ slice ∈ l, ∀ cause, slice.role ≠ .fault cause := by
  induction l generalizing line with
  | nil => simp [ofSlices, faults]
  | cons slice rest ih =>
      rw [List.forall_mem_cons, ← ih (line + slice.text.count '\n'), ofSlices]
      cases hr : slice.role with
      | fault cause => simp [faults]
      | _ => simp [faults]

theorem words_append (line : Nat) (l r : List Slice) :
    words line (l ++ r) = words line l ++ words (line + newlines l) r := by
  induction l generalizing line with
  | nil => rfl
  | cons slice rest ih =>
      rw [List.cons_append, newlines_cons, ← Nat.add_assoc]
      cases hr : slice.role with
      | token kind => rw [words_cons_token hr, words_cons_token hr, ih, List.cons_append]
      | _ => rw [words_cons_skip (by simp [hr]), words_cons_skip (by simp [hr]), ih]

theorem words_later (k line : Nat) (l : List Slice) :
    words (line + k) l = (words line l).map (later k) := by
  induction l generalizing line with
  | nil => rfl
  | cons slice rest ih =>
      have hline : line + k + slice.text.count '\n' = line + slice.text.count '\n' + k := by omega
      cases hr : slice.role with
      | token kind =>
          rw [words_cons_token hr, words_cons_token hr, hline, ih]
          rfl
      | _ => rw [words_cons_skip (by simp [hr]), words_cons_skip (by simp [hr]), hline, ih]

theorem mem_words {line : Nat} {l : List Slice} {t : Token} (h : t ∈ words line l) :
    line ≤ t.line ∧ t.line ≤ line + newlines l ∧ ∃ slice ∈ l, slice.role = .token t.kind := by
  induction l generalizing line with
  | nil => cases h
  | cons slice rest ih =>
      rw [newlines_cons]
      have hrest : t ∈ words (line + slice.text.count '\n') rest → line ≤ t.line ∧
          t.line ≤ line + (slice.text.count '\n' + newlines rest) ∧
            ∃ s ∈ slice :: rest, s.role = .token t.kind := by
        intro ht
        obtain ⟨hle, hge, s, hs, hrole⟩ := ih ht
        exact ⟨by omega, by omega, s, List.mem_cons_of_mem _ hs, hrole⟩
      cases hr : slice.role with
      | token kind =>
          rw [words_cons_token hr] at h
          rcases List.mem_cons.mp h with rfl | ht
          · refine ⟨Nat.le_add_right _ _, ?_, slice, List.mem_cons_self .., hr⟩
            show line + slice.text.count '\n' ≤ _
            omega
          · exact hrest ht
      | _ =>
          rw [words_cons_skip (by simp [hr])] at h
          exact hrest h

/-- The tokens of a source, without its end. -/
def wordsOf (source : String) : List Token := words 1 (slices source.toList)

theorem tokens_scan (source : String) :
    tokens (scan source) = wordsOf source ++ [⟨.eof, "", 1 + source.toList.count '\n'⟩] := by
  have h := tokens_ofSlices 1 (slices source.toList)
  rw [newlines, flatMap_slices] at h
  exact h

theorem kind_of_mem_wordsOf {source : String} {t : Token} (h : t ∈ wordsOf source) :
    t.kind ≠ .eof := by
  obtain ⟨-, -, slice, hs, hrole⟩ := mem_words h
  intro heof
  rw [heof] at hrole
  exact role_slices _ slice hs hrole

theorem line_of_mem_wordsOf {source : String} {t : Token} (h : t ∈ wordsOf source) :
    1 ≤ t.line ∧ t.line ≤ 1 + source.toList.count '\n' := by
  obtain ⟨hle, hge, -⟩ := mem_words h
  rw [newlines, flatMap_slices] at hge
  exact ⟨hle, hge⟩

section Seam

variable {source : String} (h : faults (scan source) = []) (tail : String)
include h

theorem slices_join : slices (source ++ "\n" ++ tail).toList =
    slices source.toList ++ ⟨['\n'], .blank⟩ :: slices tail.toList := by
  have hopen := (faults_ofSlices 1 (slices source.toList)).mp h
  rw [← slices_seam _ _ fun slice hs => hopen slice hs .unterminatedString]
  simp

/-- Two texts that are in order are so together. -/
theorem faults_join (htail : faults (scan tail) = []) :
    faults (scan (source ++ "\n" ++ tail)) = [] := by
  refine (faults_ofSlices 1 _).mpr ?_
  rw [slices_join h tail]
  intro slice hs
  rcases List.mem_append.mp hs with hs | hs
  · exact (faults_ofSlices 1 _).mp h slice hs
  · rcases List.mem_cons.mp hs with rfl | hs
    · simp
    · exact (faults_ofSlices 1 _).mp htail slice hs

/-- The tokens behind the line end are those of the second text, further down. -/
theorem wordsOf_join : wordsOf (source ++ "\n" ++ tail) =
    wordsOf source ++ (wordsOf tail).map (later (1 + source.toList.count '\n')) := by
  rw [wordsOf, slices_join h tail, words_append, words_cons_skip (by simp)]
  have hline : 1 + newlines (slices source.toList) + ['\n'].count '\n' =
      1 + (1 + source.toList.count '\n') := by
    rw [newlines, flatMap_slices, List.count_singleton_self]
    omega
  show words 1 _ ++ words (1 + newlines _ + ['\n'].count '\n') _ = _
  rw [hline, words_later]
  rfl

end Seam

end Lox.Token
