import Lox.Proofs.Parser.Complete
import Lox.Proofs.Parser.Renumbered

/-!
# One declaration after the other

A program is read by reading its first declaration and then what that has left. Broken or
not, the first declaration hands on nothing but the tokens behind it and the next number, so
what is read from the rest is what would be read from the rest alone.
-/

namespace Lox

namespace Parse

variable {α : Type}

/-! ## Fuel -/

/-- More fuel does not change an answer. -/
theorem Uniform.answer {f : α → α} {p p' : Parse α} (h : Uniform [] 0 f p p') (hf : ∀ a, f a = a)
    {s s' : State} {result : Except Fault α} (hrun : p.run s = some (result, s')) :
    p'.run s = some (result, s') := by
  have hmap : result.map f = result := by
    cases result with
    | error fault => rfl
    | ok a => exact congrArg Except.ok (hf a)
  have hrun' := h s result s' hrun
  rwa [hmap] at hrun'

theorem run_declaration_mono {n m : Nat} (hnm : n ≤ m) {s s' : State}
    {result : Except Fault (Option Stmt)} (h : (declaration n).run s = some (result, s')) :
    (declaration m).run s = some (result, s') :=
  (indifferent [] 0 hnm).declaration.answer Stmt.movedOptional_zero h

theorem run_declarations_mono {n m : Nat} (hnm : n ≤ m) {inBlock : Bool} {s s' : State}
    {result : Except Fault (List Stmt)} (h : (declarations n inBlock).run s = some (result, s')) :
    (declarations m inBlock).run s = some (result, s') :=
  ((indifferent [] 0 hnm).declarations inBlock).answer Stmt.movedAll_zero h

/-! ## Nothing is thrown past a declaration -/

theorem declaration_catches {n : Nat} {s s' : State} {fault : Fault} :
    (declaration n).run s ≠ some (.error fault, s') := by
  intro h
  cases n with
  | zero => cases h
  | succ n =>
      rw [declaration, run_tryCatch] at h
      rcases hd : (some <$> declared n : Parse (Option Stmt)).run s with _ | ⟨fault | a, s₁⟩ <;>
        rw [hd] at h <;> cases h

theorem declarations_catch {n : Nat} {inBlock : Bool} {s s' : State} {fault : Fault} :
    (declarations n inBlock).run s ≠ some (.error fault, s') := by
  induction n generalizing s s' fault with
  | zero => exact nofun
  | succ n ih =>
      rw [run_declarations]
      split
      · exact nofun
      · rw [run_bind]
        rcases hd : (declaration n).run s with _ | ⟨fault' | first, s₁⟩
        · exact nofun
        · exact absurd hd declaration_catches
        · show ((declarations n inBlock) >>= _ : Parse (List Stmt)).run s₁ ≠ _
          rw [run_bind]
          rcases hr : (declarations n inBlock).run s₁ with _ | ⟨fault' | rest, s₂⟩
          · exact nofun
          · exact absurd hr ih
          · exact nofun

/-- A list of declarations is read declaration by declaration. -/
theorem run_declarations_more {n : Nat} {inBlock : Bool} {s s₁ s₂ : State} {first : Option Stmt}
    {rest : List Stmt}
    (hs : ¬(s.rest = [] ∨ inBlock = true ∧ Ahead (· = .rightBrace) s.rest = true))
    (hfirst : (declaration n).run s = some (.ok first, s₁))
    (hrest : (declarations n inBlock).run s₁ = some (.ok rest, s₂)) :
    (declarations (n + 1) inBlock).run s = some (.ok (first.toList ++ rest), s₂) := by
  rw [run_declarations, if_neg hs, run_bind, hfirst]
  show ((declarations n inBlock) >>= _ : Parse (List Stmt)).run s₁ = _
  rw [run_bind, hrest]
  rfl

end Parse

namespace Parsed

open Parse

/-! ## Programs -/

/-- The token at which a fault behind the last token is reported. -/
def mark (tokens : List Token) : Token := (start tokens 0).last

theorem kind_mark (tokens : List Token) : (mark tokens).kind = .eof := by
  show ((tokens.find? (·.kind = .eof)).getD _).kind = .eof
  cases h : tokens.find? (·.kind = .eof) with
  | none => rfl
  | some t =>
      have ht := List.find?_some h
      exact of_decide_eq_true ht

/-- The tokens up to the mark, and the mark, are a program again. -/
theorem start_marked {rest : List Token} {last : Token} (hrest : ∀ t ∈ rest, t.kind ≠ .eof)
    (hlast : last.kind = .eof) (i : NodeId) : start (rest ++ [last]) i = ⟨rest, last, i, []⟩ := by
  have hne : ∀ t ∈ rest, decide (t.kind ≠ .eof) = true := fun t ht => decide_eq_true (hrest t ht)
  have hfind : rest.find? (·.kind = .eof) = none :=
    List.find?_eq_none.mpr fun t ht => by simpa using hrest t ht
  have htake : (rest ++ [last]).takeWhile (·.kind ≠ .eof) = rest := by
    rw [List.takeWhile_append_of_pos hne, List.takeWhile_cons_of_neg (by simp [hlast]),
      List.append_nil]
  rw [start, htake, List.find?_append, hfind, List.find?_cons_of_pos (by simpa using hlast)]
  rfl

theorem mark_marked {rest : List Token} {last : Token} (hrest : ∀ t ∈ rest, t.kind ≠ .eof)
    (hlast : last.kind = .eof) : mark (rest ++ [last]) = last :=
  congrArg State.last (start_marked hrest hlast 0)

theorem readable_append {p : List Token} (hp : ∀ t ∈ p, t.kind ≠ .eof) (q : List Token) :
    readable (p ++ q) = p ++ readable q :=
  List.takeWhile_append_of_pos fun t ht => decide_eq_true (hp t ht)

theorem readable_eq_self {tokens : List Token} (h : ∀ t ∈ tokens, t.kind ≠ .eof) :
    readable tokens = tokens := by
  have happend := readable_append h []
  rw [List.append_nil] at happend
  exact happend.trans (List.append_nil tokens)

theorem mark_append {p q : List Token} (hp : ∀ t ∈ p, t.kind ≠ .eof) (hq : q ≠ []) :
    mark (p ++ q) = mark q := by
  have hfind : p.find? (·.kind = .eof) = none :=
    List.find?_eq_none.mpr fun t ht => by simpa using hp t ht
  have hlast : (p ++ q).getLast? = q.getLast? := by
    rw [List.getLast?_append, List.getLast?_eq_some_getLast hq, Option.some_or]
  rw [mark, mark, start, start, List.find?_append, hfind, hlast]
  rfl

theorem readable_ne_eof (tokens : List Token) : ∀ t ∈ readable tokens, t.kind ≠ .eof :=
  fun t ht => of_decide_eq_true (List.all_eq_true.mp List.all_takeWhile t ht)

/-- The parser answers with the declarations it has read. -/
theorem ofTokens_answers (tokens : List Token) (i : NodeId) :
    ∃ n s, (declarations n false).run (start tokens i) =
        some (.ok (ofTokens tokens i).statements, s) ∧
      s.faults = (ofTokens tokens i).faults ∧ s.nextId = (ofTokens tokens i).nextId := by
  obtain ⟨result, s, hrun, -, -⟩ :=
    obeys_declarations tokens (start tokens i) (length_readable_le tokens)
  rw [ofTokens, hrun]
  cases result with
  | error fault => exact absurd hrun declarations_catch
  | ok body => exact ⟨fuel tokens, s, hrun, rfl, rfl⟩

/-- With whatever fuel the parser answers, it is its answer. -/
theorem ofTokens_of_run {tokens : List Token} {i : NodeId} {n : Nat} {body : List Stmt} {s : State}
    (h : (declarations n false).run (start tokens i) = some (.ok body, s)) :
    ofTokens tokens i = ⟨body, s.faults, s.nextId⟩ := by
  obtain ⟨m, s', h', hfaults, hnextId⟩ := ofTokens_answers tokens i
  have heq := (run_declarations_mono (Nat.le_max_left n m) h).symm.trans
    (run_declarations_mono (Nat.le_max_right n m) h')
  obtain ⟨hbody, rfl⟩ := Prod.mk.inj (Option.some.inj heq)
  rw [Except.ok.inj hbody]
  rw [hfaults, hnextId]

theorem ofTokens_mark {last : Token} (hlast : last.kind = .eof) (i : NodeId) :
    ofTokens [last] i = ⟨[], [], i⟩ := by
  have hreadable : readable [last] = [] := List.takeWhile_cons_of_neg (by simp [hlast])
  exact (ofTokens_iff_reads _ _ _ _).mpr (by rw [hreadable]; exact .declarationsEnd)

/-- What stands behind the mark is not read. -/
theorem ofTokens_marked (tokens : List Token) (i : NodeId) :
    ofTokens (readable tokens ++ [mark tokens]) i = ofTokens tokens i := by
  obtain ⟨n, s, hrun, hfaults, hnextId⟩ := ofTokens_answers tokens i
  have hstart : start (readable tokens ++ [mark tokens]) i = start tokens i :=
    start_marked (readable_ne_eof tokens) (kind_mark tokens) i
  rw [← hstart] at hrun
  rw [ofTokens_of_run hrun, hfaults, hnextId]

/-- Behind other tokens the mark is that of the tokens at the end. -/
theorem ofTokens_marked_append {p : List Token} (hp : ∀ t ∈ p, t.kind ≠ .eof) (q : List Token)
    (i : NodeId) : ofTokens (readable q ++ [mark (p ++ q)]) i = ofTokens q i := by
  cases q with
  | nil => exact ofTokens_mark (kind_mark _) i
  | cons t q => rw [mark_append hp (List.cons_ne_nil t q), ofTokens_marked]

/-- What is read first, and what is read after it. -/
def andThen (p q : Parsed) : Parsed :=
  ⟨p.statements ++ q.statements, p.faults ++ q.faults, q.nextId⟩

theorem andThen_end (p : Parsed) : p.andThen ⟨[], [], p.nextId⟩ = p := by
  simp only [andThen, List.append_nil]

theorem andThen_assoc (p q r : Parsed) : (p.andThen q).andThen r = p.andThen (q.andThen r) := by
  simp only [andThen, List.append_assoc]

/-- The tokens behind the first declaration are read as a program of their own, from the number
that the first declaration has left. -/
theorem ofTokens_step {tokens rest : List Token} {i j : NodeId} {n : Nat} {first : Option Stmt}
    {faults : List Fault} (htokens : readable tokens ≠ [])
    (h : (declaration n).run (start tokens i) = some (.ok first, ⟨rest, mark tokens, j, faults⟩))
    (hrest : ∀ t ∈ rest, t.kind ≠ .eof) :
    ofTokens tokens i = andThen ⟨first.toList, faults, j⟩ (ofTokens (rest ++ [mark tokens]) j) := by
  obtain ⟨m, s, hrun, hs⟩ := ofTokens_answers (rest ++ [mark tokens]) j
  rw [start_marked hrest (kind_mark tokens)] at hrun
  have hshift := ((indifferent faults 0 (Nat.le_max_right n m)).declarations false) _ _ _ hrun
  have hrest : (declarations (max n m) false).run ⟨rest, mark tokens, j, faults⟩ =
      some (.ok (ofTokens (rest ++ [mark tokens]) j).statements, s.shifted faults 0) := by
    rw [State.shifted, List.append_nil] at hshift
    exact hshift.trans (by rw [Except.map, Stmt.movedAll_zero])
  have hgoes : ¬(readable tokens = [] ∨
      false = true ∧ Ahead (· = .rightBrace) (readable tokens) = true) :=
    fun hstop => hstop.elim htokens fun hbrace => Bool.false_ne_true hbrace.1
  have hmore := run_declarations_more hgoes (run_declaration_mono (Nat.le_max_left n m) h) hrest
  rw [ofTokens_of_run hmore, State.shifted, hs.1, hs.2]
  rfl

end Parsed

end Lox
