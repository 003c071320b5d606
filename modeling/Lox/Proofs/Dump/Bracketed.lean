import Lox.Proofs.Layout

/-!
# Words in parentheses

A dump is made of words, with a blank between two of them and parentheses around some. Here
such texts are trees whose words are tokens. A word has neither a blank nor a parenthesis in it,
so where it ends shows in the text, and since no two kinds share a lexeme, the text says what
kind of word it is. Read from the left, the text therefore gives the tree back: of two trees
whose texts begin the same text one is the other.
-/

namespace Lox

open Token

/-- Words in parentheses. -/
inductive Bracketed
  | word (t : Token)
  | list (parts : List Bracketed)

namespace Bracketed

mutual

def text : Bracketed → List Char
  | .word t => t.lexeme.toList
  | .list [] => ['(', ')']
  | .list (x :: rest) => '(' :: (x.text ++ restText rest)

/-- What follows the first part of a list, with the parenthesis that ends it. -/
def restText : List Bracketed → List Char
  | [] => [')']
  | x :: rest => ' ' :: (x.text ++ restText rest)

end

/-- A token that is a word: its text is a lexeme of its kind, without a blank or a parenthesis.
On which line it stands is not known. -/
structure Word (t : Token) : Prop where
  lexeme : Lexeme t.lexeme.toList t.kind
  unbroken : ∀ c ∈ t.lexeme.toList, c ≠ ' ' ∧ c ≠ '(' ∧ c ≠ ')'
  line : t.line = 0

theorem unbroken_of_all {l : List Char}
    (h : l.all (fun c => c != ' ' && c != '(' && c != ')') = true) :
    ∀ c ∈ l, c ≠ ' ' ∧ c ≠ '(' ∧ c ≠ ')' := by
  intro c hc
  simpa [and_assoc] using List.all_eq_true.mp h c hc

mutual

/-- All words of the tree are words. -/
def Worded : Bracketed → Prop
  | .word t => Word t
  | .list parts => WordedAll parts

def WordedAll : List Bracketed → Prop
  | [] => True
  | x :: rest => x.Worded ∧ WordedAll rest

end

/-! ## Where a word ends -/

/-- Here a word cannot go on. -/
def Ends (rest : List Char) : Prop := ∀ c ∈ rest.head?, c = ' ' ∨ c = ')'

theorem ends_restText (parts : List Bracketed) (rest : List Char) :
    Ends (restText parts ++ rest) := by
  cases parts with
  | nil =>
      rintro _ ⟨⟩
      exact .inr rfl
  | cons =>
      rintro _ ⟨⟩
      exact .inl rfl

/-- Of two words that begin the same text one is the other. -/
theorem unbroken_append {l l' u v : List Char}
    (hl : ∀ c ∈ l, c ≠ ' ' ∧ c ≠ '(' ∧ c ≠ ')') (hl' : ∀ c ∈ l', c ≠ ' ' ∧ c ≠ '(' ∧ c ≠ ')')
    (hu : Ends u) (hv : Ends v) (h : l ++ u = l' ++ v) : l = l' ∧ u = v := by
  induction l generalizing l' with
  | nil =>
      cases l' with
      | nil => exact ⟨rfl, h⟩
      | cons c l' =>
          have hc := hl' c (List.mem_cons_self ..)
          rcases hu c (by rw [show u = _ from h]; rfl) with rfl | rfl
          · exact absurd rfl hc.1
          · exact absurd rfl hc.2.2
  | cons c l ih =>
      cases l' with
      | nil =>
          have hc := hl c (List.mem_cons_self ..)
          rcases hv c (by rw [show v = _ from h.symm]; rfl) with rfl | rfl
          · exact absurd rfl hc.1
          · exact absurd rfl hc.2.2
      | cons c' l' =>
          obtain ⟨rfl, hrest⟩ := List.cons.inj h
          obtain ⟨rfl, hends⟩ :=
            ih (List.forall_mem_cons.mp hl).2 (List.forall_mem_cons.mp hl').2 hrest
          exact ⟨rfl, hends⟩

theorem Word.eq_of_lexeme {t t' : Token} (h : Word t) (h' : Word t')
    (heq : t.lexeme.toList = t'.lexeme.toList) : t = t' := by
  have hlexeme := h'.lexeme
  rw [← heq] at hlexeme
  have hkind := h.lexeme.kind_unique hlexeme
  have hline := h.line.trans h'.line.symm
  cases t
  cases t'
  cases hkind
  cases hline
  cases String.toList_inj.mp heq
  rfl

/-- A word does not begin with a parenthesis. -/
theorem Word.not_list {t : Token} (h : Word t) {u v : List Char} :
    t.lexeme.toList ++ u ≠ '(' :: v := by
  intro heq
  cases hl : t.lexeme.toList with
  | nil => exact h.lexeme.ne_nil hl
  | cons c rest =>
      rw [hl] at heq
      have hc := h.unbroken c (hl ▸ List.mem_cons_self ..)
      exact hc.2.1 (List.cons.inj heq).1

/-- No tree begins with a closing parenthesis. -/
theorem not_closing {a : Bracketed} (ha : a.Worded) {u v : List Char} :
    a.text ++ u ≠ ')' :: v := by
  intro heq
  match a with
  | .list [] | .list (_ :: _) => cases heq
  | .word t =>
      obtain ⟨hlexeme, hunbroken, -⟩ : Word t := ha
      rw [text] at heq
      cases hl : t.lexeme.toList with
      | nil => exact hlexeme.ne_nil hl
      | cons c rest =>
          rw [hl] at heq hunbroken
          exact (hunbroken c (List.mem_cons_self ..)).2.2 (List.cons.inj heq).1

/-! ## Unique readability -/

mutual

/-- Of two trees that begin the same text one is the other. -/
theorem eq_of_text_append {a b : Bracketed} (ha : a.Worded) (hb : b.Worded) {u v : List Char}
    (hu : Ends u) (hv : Ends v) (h : a.text ++ u = b.text ++ v) : a = b ∧ u = v := by
  match a, b with
  | .word t, .word t' =>
      obtain ⟨hl, hrest⟩ := unbroken_append ha.unbroken hb.unbroken hu hv h
      exact ⟨congrArg word (ha.eq_of_lexeme hb hl), hrest⟩
  | .word _, .list [] | .word _, .list (_ :: _) => exact absurd h ha.not_list
  | .list [], .word _ | .list (_ :: _), .word _ => exact absurd h.symm hb.not_list
  | .list [], .list [] => exact ⟨rfl, (List.cons.inj (List.cons.inj h).2).2⟩
  | .list [], .list (y :: rest) =>
      have hrest : ')' :: u = (y.text ++ restText rest) ++ v := (List.cons.inj h).2
      rw [List.append_assoc] at hrest
      exact absurd hrest.symm (not_closing hb.1)
  | .list (x :: rest), .list [] =>
      have hrest : (x.text ++ restText rest) ++ u = ')' :: v := (List.cons.inj h).2
      rw [List.append_assoc] at hrest
      exact absurd hrest (not_closing ha.1)
  | .list (x :: rest), .list (y :: rest') =>
      have hrest : (x.text ++ restText rest) ++ u = (y.text ++ restText rest') ++ v :=
        (List.cons.inj h).2
      rw [List.append_assoc, List.append_assoc] at hrest
      obtain ⟨rfl, hparts⟩ :=
        eq_of_text_append ha.1 hb.1 (ends_restText _ _) (ends_restText _ _) hrest
      obtain ⟨rfl, hends⟩ := eq_of_restText_append ha.2 hb.2 hu hv hparts
      exact ⟨rfl, hends⟩

theorem eq_of_restText_append {as bs : List Bracketed} (ha : WordedAll as) (hb : WordedAll bs)
    {u v : List Char} (hu : Ends u) (hv : Ends v) (h : restText as ++ u = restText bs ++ v) :
    as = bs ∧ u = v := by
  match as, bs with
  | [], [] => exact ⟨rfl, (List.cons.inj h).2⟩
  | [], _ :: _ | _ :: _, [] => cases h
  | a :: as, b :: bs =>
      have hrest : (a.text ++ restText as) ++ u = (b.text ++ restText bs) ++ v :=
        (List.cons.inj h).2
      rw [List.append_assoc, List.append_assoc] at hrest
      obtain ⟨rfl, hparts⟩ :=
        eq_of_text_append ha.1 hb.1 (ends_restText _ _) (ends_restText _ _) hrest
      obtain ⟨rfl, hends⟩ := eq_of_restText_append ha.2 hb.2 hu hv hparts
      exact ⟨rfl, hends⟩

end

/-- A tree of words can be read off its text. -/
theorem eq_of_text {a b : Bracketed} (ha : a.Worded) (hb : b.Worded) (h : a.text = b.text) :
    a = b := by
  have hend : Ends [] := fun _ hc => nomatch hc
  refine (eq_of_text_append ha hb hend hend ?_).1
  rw [List.append_nil, List.append_nil, h]

theorem eq_of_map_text {as bs : List Bracketed} (ha : WordedAll as) (hb : WordedAll bs)
    (h : as.map text = bs.map text) : as = bs := by
  induction as generalizing bs with
  | nil => exact (List.map_eq_nil_iff.mp h.symm).symm
  | cons a as ih =>
      obtain ⟨b, bs, rfl, hfirst, hrest⟩ := List.map_eq_cons_iff.mp h.symm
      rw [eq_of_text ha.1 hb.1 hfirst.symm, ih ha.2 hb.2 hrest.symm]

end Bracketed

end Lox
