import Lox.Proofs.Parser.Script

/-!
# The parser ends, and in bounds

Any list of tokens can be given to the parser: an empty one, one without a mark of the end, one
with several. On a cursor it comes to the first mark and stops there, and it has looked at
no position out of bounds on the way. What moves it on is the declaration. A phrase may fail and
leave the cursor where it is, but before the end a declaration is never left at the place at
which it was begun, because recovery passes over a token if nothing else has.
-/

namespace Lox

namespace Parse

/-- The first mark of the end is as far away as there are tokens to read. -/
theorem Cursor.At.current_add {c : Cursor} {s : State} (h : c.At s) :
    c.current + s.rest.length = c.tape.findIdx (·.kind = .eof) := by
  obtain ⟨done, behind, htape, hcurrent, hdone⟩ := h.tape
  have hread : (done ++ s.rest).findIdx (·.kind = .eof) = (done ++ s.rest).length :=
    List.findIdx_eq_length.mpr fun t ht => decide_eq_false <|
      (List.mem_append.mp ht).elim (hdone t) (h.rest t)
  rw [htape, ← List.append_assoc, List.findIdx_append, hread, if_neg (Nat.lt_irrefl _),
    List.findIdx_cons, h.last, hcurrent]
  simp

/-! ## Progress -/

/-- Before the end a declaration answers, and takes at least one token. -/
theorem declaration_answers {n : Nat} {s : State} (hs : s.rest ≠ [])
    (hn : 18 + 32 * s.rest.length ≤ n) :
    ∃ o s', (declaration n).run s = some (.ok o, s') ∧ s'.rest.length < s.rest.length := by
  obtain ⟨result, s', hrun, -, hok, -⟩ := sound n .declaration s hn hs
  cases result with
  | error fault => exact absurd hrun declaration_catches
  | ok o => exact ⟨o, s', hrun, (hok o rfl).1⟩

/-- Whatever the fuel is, a declaration that has an answer has taken a token. -/
theorem declaration_takes {n : Nat} {s s' : State} {result : Except Fault (Option Stmt)}
    (hs : s.rest ≠ []) (h : (declaration n).run s = some (result, s')) :
    s'.rest.length < s.rest.length := by
  obtain ⟨o, s'', hrun, htakes⟩ := declaration_answers hs (Nat.le_max_right n _)
  have heq := (run_declaration_mono (Nat.le_max_left ..) h).symm.trans hrun
  cases heq
  exact htakes

/-- Outside of blocks declarations are read until no token is left. -/
theorem declarations_end {n : Nat} {s s' : State} {body : List Stmt}
    (h : (declarations n false).run s = some (.ok body, s')) : s'.rest = [] := by
  induction n generalizing s body with
  | zero => cases h
  | succ n ih =>
      rw [run_declarations] at h
      split at h
      next hstop =>
        cases h
        exact hstop.resolve_right fun hbrace => Bool.false_ne_true hbrace.1
      next =>
        obtain ⟨first, s₁, -, h⟩ := ok_of_bind h
        obtain ⟨rest, s₂, hrest, h⟩ := ok_of_bind h
        cases h
        exact ih hrest

end Parse

namespace Parsed

open Parse

/-- The tokens with a mark of the end behind them, unless the last of them is one. -/
def tape (tokens : List Token) : List Token :=
  if tokens.getLast?.any (·.kind = .eof) then tokens
  else tokens ++ [⟨.eof, "", (tokens.getLast?.map Token.line).getD 1⟩]

/-- The cursor before the first token. -/
def cursor (tokens : List Token) (i : NodeId) : Cursor := ⟨tape tokens, 0, i, []⟩

theorem tape_split (tokens : List Token) :
    ∃ behind, tape tokens = readable tokens ++ mark tokens :: behind := by
  rw [mark, start, readable]
  cases hfind : tokens.find? (·.kind = .eof) with
  | none =>
      have hne : ∀ t ∈ tokens, t.kind ≠ .eof := by simpa using hfind
      have hlast : tokens.getLast?.any (·.kind = .eof) = false := by
        cases h : tokens.getLast? with
        | none => rfl
        | some t => exact decide_eq_false (hne t (List.mem_of_getLast? h))
      rw [tape, hlast]
      exact ⟨[], congrArg (· ++ _) (readable_eq_self hne).symm⟩
  | some t =>
      obtain ⟨ht, read, behind, rfl, hread⟩ := List.find?_eq_some_iff_append.mp hfind
      have hne : ∀ u ∈ read, u.kind ≠ .eof := fun u hu => by simpa using hread u hu
      have hreadable : readable (read ++ t :: behind) = read := by
        rw [readable_append hne, readable, List.takeWhile_cons_of_neg (by simpa using ht),
          List.append_nil]
      rw [← readable, hreadable, tape]
      split
      · exact ⟨behind, rfl⟩
      · exact ⟨_, List.append_assoc ..⟩

theorem at_start (tokens : List Token) (i : NodeId) : (cursor tokens i).At (start tokens i) := by
  obtain ⟨behind, htape⟩ := tape_split tokens
  exact ⟨⟨[], behind, htape, rfl, fun _ ht => nomatch ht⟩, readable_ne_eof tokens, kind_mark tokens,
    rfl, rfl⟩

/-- The cursor comes to the first mark, with the parser's answer. -/
theorem declarations_onCursor (tokens : List Token) (i : NodeId) {n : Nat} (hn : fuel tokens ≤ n)
    {script : Script (List Stmt)} (hscript : script.read = declarations n false) :
    ∃ c, script.onCursor.run (cursor tokens i) = some (.ok (ofTokens tokens i).statements, c) ∧
      c.faults = (ofTokens tokens i).faults ∧ c.nextId = (ofTokens tokens i).nextId ∧
      c.tape = tape tokens ∧ c.current = c.tape.findIdx (·.kind = .eof) ∧
      c.current < c.tape.length := by
  obtain ⟨result, s, hanswer, -, -⟩ :=
    obeys_declarations tokens (start tokens i) (length_readable_le tokens)
  cases result with
  | error fault => exact absurd hanswer declarations_catch
  | ok body =>
      obtain ⟨c, hrun, hat, htape⟩ :=
        script.onCursor_of_read (at_start tokens i) (hscript ▸ run_declarations_mono hn hanswer)
      have hcurrent : c.current = c.tape.findIdx (·.kind = .eof) := by
        rw [← hat.current_add, declarations_end hanswer]
        rfl
      have hlength := hat.length_lt
      rw [ofTokens_of_run hanswer]
      exact ⟨c, hrun, hat.faults, hat.nextId, htape, hcurrent, by omega⟩

/-- Before the end a declaration answers on the cursor, and moves it on. -/
theorem declaration_onCursor {n : Nat} {script : Script (Option Stmt)}
    (hscript : script.read = declaration n) {c : Cursor} {s : State} (hc : c.At s)
    (hgoes : c.atEnd = some false) :
    (fuel c.tape ≤ n → ∃ o c', script.onCursor.run c = some (.ok o, c')) ∧
      ∀ result c', script.onCursor.run c = some (result, c') →
        c.current < c'.current ∧ c'.tape = c.tape ∧ ∃ s', c'.At s' := by
  have hrest : s.rest ≠ [] := by
    intro hs
    rw [hc.atEnd, hs] at hgoes
    cases hgoes
  refine ⟨fun hn => ?_, fun result c' hrun => ?_⟩
  · have hlength := hc.length_lt
    rw [fuel] at hn
    obtain ⟨o, s', hanswer, -⟩ := declaration_answers hrest (show _ ≤ n by omega)
    obtain ⟨c', hrun, -⟩ := script.onCursor_of_read hc (hscript ▸ hanswer)
    exact ⟨o, c', hrun⟩
  · obtain ⟨s', hread, hat, htape⟩ := script.read_of_onCursor hc hrun
    have htakes := declaration_takes hrest (hscript ▸ hread)
    have hbefore := hc.current_add
    have hafter := hat.current_add
    rw [htape] at hafter
    exact ⟨by omega, htape, s', hat⟩

/-- Whatever the tokens are, reading them ends on the first mark, and is never out of bounds: no
script for the parser is stuck on the cursor. A declaration that is begun before the end, be it at
the top or in a block, answers and moves the cursor on. There are no more faults than tokens
before the mark. -/
theorem reads_within_bounds (tokens : List Token) (i : NodeId) :
    (∀ n, Scripted (declarations n false) ∧ Scripted (declaration n)) ∧
    (∀ n (script : Script (List Stmt)), fuel tokens ≤ n → script.read = declarations n false →
      ∃ c, script.onCursor.run (cursor tokens i) = some (.ok (ofTokens tokens i).statements, c) ∧
        c.faults = (ofTokens tokens i).faults ∧ c.nextId = (ofTokens tokens i).nextId ∧
        c.tape = tape tokens ∧ c.current = c.tape.findIdx (·.kind = .eof) ∧
        c.current < c.tape.length) ∧
    (∀ n (script : Script (Option Stmt)) c s, script.read = declaration n → c.At s →
      c.atEnd = some false →
        (fuel c.tape ≤ n → ∃ o c', script.onCursor.run c = some (.ok o, c')) ∧
        ∀ result c', script.onCursor.run c = some (result, c') →
          c.current < c'.current ∧ c'.tape = c.tape ∧ ∃ s', c'.At s') ∧
    (ofTokens tokens i).faults.length ≤ (tape tokens).findIdx (·.kind = .eof) := by
  have hmark : (readable tokens).length = (tape tokens).findIdx (·.kind = .eof) :=
    (Nat.zero_add _).symm.trans (at_start tokens i).current_add
  exact ⟨fun n => ⟨(scripting n).declarations false, (scripting n).declaration⟩,
    fun _ _ hn hscript => declarations_onCursor tokens i hn hscript,
    fun _ _ _ _ hscript hc hgoes => declaration_onCursor hscript hc hgoes,
    hmark ▸ length_faults_le tokens i⟩

/-- A parenthesis that closes nothing is one fault, and the one token it takes pays for it. -/
theorem stray_parenthesis_passed :
    let tokens : List Token := [⟨.rightParen, ")", 1⟩]
    (∃ (script : Script (List Stmt)) (c : Cursor), script.read = declarations 64 false ∧
      script.onCursor.run (cursor tokens 0) = some (.ok [], c) ∧ c.current = 1 ∧
      c.faults.length = 1) ∧
    ∃ (script : Script (Option Stmt)) (c : Cursor), script.read = declaration 64 ∧
      script.onCursor.run (cursor tokens 0) = some (.ok none, c) ∧ 0 < c.current := by
  intro tokens
  obtain ⟨hscripted, hruns, htakes, -⟩ := reads_within_bounds tokens 0
  have hparsed : ofTokens tokens 0 = ⟨[], [⟨.expectExpression, ⟨.rightParen, ")", 1⟩⟩], 0⟩ := rfl
  refine ⟨?_, ?_⟩
  · obtain ⟨script, hscript⟩ := (hscripted 64).1
    obtain ⟨c, hrun, hfaults, -, htape, hcurrent, -⟩ := hruns 64 script (by decide) hscript
    rw [hparsed] at hrun hfaults
    rw [htape] at hcurrent
    exact ⟨script, c, hscript, hrun, hcurrent, congrArg List.length hfaults⟩
  · obtain ⟨script, hscript⟩ := (hscripted 64).2
    have hread : script.read.run (start tokens 0) = some (.ok none,
        ⟨[], mark tokens, 0, [⟨.expectExpression, ⟨.rightParen, ")", 1⟩⟩]⟩) := hscript ▸ rfl
    obtain ⟨c, hrun, -⟩ := script.onCursor_of_read (at_start tokens 0) hread
    have hdeclaration := htakes 64 script _ _ hscript (at_start tokens 0) rfl
    exact ⟨script, c, hscript, hrun, (hdeclaration.2 _ c hrun).1⟩

end Parsed

end Lox
