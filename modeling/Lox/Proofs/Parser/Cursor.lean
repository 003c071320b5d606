import Lox.Proofs.Parser.InTurn

/-!
# A position in the list of tokens

The parser's state keeps the tokens not yet read, and so there is no place in it that could be out
of bounds. A cursor is the same state with the whole list and a position. It can only look
at the token at its position and at the one before, and where there is no such token it is
stuck: then there is no answer. It knows the end by its mark, not by the length of the list.

`Cursor.At` ties the two together: the position is behind the tokens that have been read, the
first mark of the end stands behind those that have not. As long as that holds no operation is
stuck, and each does to the cursor what its counterpart does to the state.
-/

namespace Lox.Parse

/-- The state of the parser with a position in place of the tokens not yet read. -/
structure Cursor where
  /-- All tokens. -/
  tape : List Token
  /-- The position of the next token. -/
  current : Nat
  nextId : NodeId
  faults : List Fault

namespace Cursor

/-! ## Operations -/

/-- The token at the cursor. -/
def peek (c : Cursor) : Option Token := c.tape[c.current]?

/-- The token before the cursor or, at the start, the first. -/
def previous (c : Cursor) : Option Token := c.tape[c.current - 1]?

def atEnd (c : Cursor) : Option Bool := return (← c.peek).kind = .eof

/-- Is the token at the cursor of a wanted kind? The mark of the end never is. -/
def check (c : Cursor) (wanted : Token.Kind → Bool) : Option Bool := do
  if ← c.atEnd then return false
  else return wanted (← c.peek).kind

/-- The cursor one position further on. -/
def next (c : Cursor) : Cursor := { c with current := c.current + 1 }

/-- Moves on, but not past the end, and gives the token that is before the cursor then. -/
def advance (c : Cursor) : Option (Token × Cursor) := do
  let c := if ← c.atEnd then c else c.next
  return (← c.previous, c)

/-- Moves past the token at the cursor if it is of a wanted kind. -/
def acceptIf (c : Cursor) (wanted : Token.Kind → Bool) : Option (Option Token × Cursor) := do
  if ← c.check wanted then
    let (t, c) ← c.advance
    return (some t, c)
  else return (none, c)

/-- Moves on to where a statement may begin. -/
def skip : Nat → Cursor → Option Cursor
  | 0, _ => none
  | n + 1, c => do
    if ← c.atEnd then return c
    else if (← c.previous).kind = .semicolon ∨ (← c.peek).kind.beginsStatement then return c
    else
      let (_, c) ← c.advance
      skip n c

/-- Moves past the token that is in the way and on to where a statement may begin. -/
def synchronize (c : Cursor) : Option Cursor := do
  let (_, c) ← c.advance
  skip c.tape.length c

/-! ## The cursor and the state -/

/-- The cursor is in a state: behind the tokens that have been read come those that have not,
then the first mark of the end, then what nobody reads. -/
structure At (c : Cursor) (s : State) : Prop where
  tape : ∃ done behind, c.tape = done ++ (s.rest ++ s.last :: behind) ∧ c.current = done.length ∧
    ∀ t ∈ done, t.kind ≠ .eof
  rest : ∀ t ∈ s.rest, t.kind ≠ .eof
  last : s.last.kind = .eof
  nextId : c.nextId = s.nextId
  faults : c.faults = s.faults

variable {c : Cursor} {s : State}

theorem At.peek (h : c.At s) : c.peek = some s.peek := by
  obtain ⟨done, behind, htape, hcurrent, -⟩ := h.tape
  rw [Cursor.peek, htape, hcurrent, List.getElem?_append_right (Nat.le_refl _), Nat.sub_self,
    State.peek]
  cases s.rest <;> rfl

theorem At.atEnd (h : c.At s) : c.atEnd = some s.rest.isEmpty := by
  rw [Cursor.atEnd, h.peek]
  obtain ⟨rest, last, i, faults⟩ := s
  cases rest with
  | nil => exact congrArg some (decide_eq_true h.last)
  | cons t rest => exact congrArg some (decide_eq_false (h.rest t (List.mem_cons_self ..)))

theorem At.check (h : c.At s) (wanted : Token.Kind → Bool) :
    c.check wanted = some (Ahead wanted s.rest) := by
  rw [Cursor.check, h.atEnd, h.peek]
  obtain ⟨rest, last, i, faults⟩ := s
  cases rest <;> rfl

/-- Past the next token the cursor is in the state without it. -/
theorem At.next {t : Token} {rest : List Token} (h : c.At s) (hs : s.rest = t :: rest) :
    c.next.At { s with rest } := by
  obtain ⟨done, behind, htape, hcurrent, hdone⟩ := h.tape
  have hsplit : c.tape = (done ++ [t]) ++ (rest ++ s.last :: behind) := by
    rw [htape, hs, List.append_assoc]
    rfl
  refine ⟨⟨done ++ [t], behind, hsplit, ?_, fun t' ht => ?_⟩, fun t' ht => ?_, h.last,
    h.nextId, h.faults⟩
  · rw [Cursor.next, hcurrent, List.length_append]
    rfl
  · rcases List.mem_append.mp ht with ht | ht
    · exact hdone t' ht
    · rw [List.mem_singleton.mp ht]
      exact h.rest t (hs ▸ List.mem_cons_self ..)
  · exact h.rest t' (hs ▸ List.mem_cons_of_mem t ht)

theorem At.previous_next {t : Token} {rest : List Token} (h : c.At s) (hs : s.rest = t :: rest) :
    c.next.previous = some t := by
  have hpeek := h.peek
  rw [State.peek, hs] at hpeek
  exact hpeek

theorem At.advance {t : Token} {rest : List Token} (h : c.At s) (hs : s.rest = t :: rest) :
    c.advance = some (t, c.next) := by
  rw [Cursor.advance, h.atEnd, hs]
  show c.next.previous.bind _ = _
  rw [h.previous_next hs]
  rfl

theorem At.acceptIf_none {wanted : Token.Kind → Bool} (h : c.At s)
    (hs : Ahead wanted s.rest = false) : c.acceptIf wanted = some (none, c) := by
  rw [Cursor.acceptIf, h.check, hs]
  rfl

theorem At.acceptIf_cons {wanted : Token.Kind → Bool} {t : Token} {rest : List Token}
    (h : c.At s) (hs : s.rest = t :: rest) (ht : wanted t.kind = true) :
    c.acceptIf wanted = some (some t, c.next) := by
  rw [Cursor.acceptIf, h.check, hs, ahead_cons, ht]
  show c.advance.bind _ = _
  rw [h.advance hs]
  rfl

theorem At.report (h : c.At s) (fault : Fault) :
    Cursor.At { c with faults := c.faults ++ [fault] }
      { s with faults := s.faults ++ [fault] } :=
  ⟨h.tape, h.rest, h.last, h.nextId, congrArg (· ++ [fault]) h.faults⟩

/-! ## Recovery -/

theorem At.length_lt (h : c.At s) : c.current + s.rest.length < c.tape.length := by
  obtain ⟨done, behind, htape, hcurrent, -⟩ := h.tape
  rw [htape, hcurrent, List.length_append, List.length_append, List.length_cons]
  omega

theorem At.previous (h : c.At s) : ∃ t, c.previous = some t := by
  have hlength := h.length_lt
  exact ⟨_, List.getElem?_eq_getElem (show c.current - 1 < c.tape.length by omega)⟩

/-- Where the cursor stops depends on the token before it and on the next one. -/
theorem run_skip (n : Nat) (h : c.At s) {t : Token} (hprevious : c.previous = some t) :
    skip (n + 1) c =
      if s.rest = [] ∨ t.kind = .semicolon ∨ s.peek.kind.beginsStatement = true then some c
      else c.advance.bind fun moved => skip n moved.2 := by
  rw [skip, h.atEnd, hprevious, h.peek]
  cases s.rest <;> simp

/-- Where recovery stops depends on the same two. At the end of the tokens it does not matter. -/
theorem recover_cons (t : Token) (rest : List Token) (last : Token) :
    recover (t :: rest) =
      if rest = [] ∨ t.kind = .semicolon ∨ (rest.headD last).kind.beginsStatement = true then rest
      else recover rest := by
  cases rest with
  | nil =>
      rw [if_pos (.inl rfl), recover]
      split <;> rfl
  | cons u rest =>
      rw [recover]
      exact ite_congr (by simp) (fun _ => rfl) fun _ => rfl

/-- Behind a token the cursor stops where recovery does. -/
theorem At.skip {n : Nat} {t : Token} (h : c.At s) (hprevious : c.previous = some t)
    (hn : s.rest.length < n) :
    ∃ c', Cursor.skip n c = some c' ∧ c'.At { s with rest := recover (t :: s.rest) } ∧
      c'.tape = c.tape := by
  induction n generalizing c s t with
  | zero => exact absurd hn (Nat.not_lt_zero _)
  | succ n ih =>
      rw [run_skip n h hprevious, recover_cons t s.rest s.last, ← State.peek]
      by_cases hstop : s.rest = [] ∨ t.kind = .semicolon ∨ s.peek.kind.beginsStatement = true
      · rw [if_pos hstop, if_pos hstop]
        exact ⟨c, rfl, h, rfl⟩
      · obtain ⟨u, rest, hrest⟩ := List.exists_cons_of_ne_nil fun hs => hstop (.inl hs)
        have hlength : rest.length < n := by
          rw [hrest, List.length_cons] at hn
          omega
        rw [if_neg hstop, if_neg hstop, h.advance hrest, hrest]
        exact ih (h.next hrest) (h.previous_next hrest) hlength

/-- At the end nothing is passed over, and the cursor stays where it is. -/
theorem At.synchronize (h : c.At s) :
    ∃ c', c.synchronize = some c' ∧ c'.At { s with rest := recover s.rest } ∧
      c'.tape = c.tape := by
  have hlength := h.length_lt
  cases hrest : s.rest with
  | nil =>
      obtain ⟨t, hprevious⟩ := h.previous
      have hadvance : c.advance = some (t, c) := by
        rw [Cursor.advance, h.atEnd, hrest]
        show c.previous.bind _ = _
        rw [hprevious]
        rfl
      obtain ⟨c', hskip, hat, htape⟩ := h.skip (n := c.tape.length) hprevious (by omega)
      rw [Cursor.synchronize, hadvance]
      refine ⟨c', hskip, ?_, htape⟩
      rwa [recover_cons t s.rest s.last, if_pos (.inl hrest), hrest] at hat
  | cons t rest =>
      rw [hrest, List.length_cons] at hlength
      rw [Cursor.synchronize, h.advance hrest]
      exact (h.next hrest).skip (h.previous_next hrest) (show rest.length < c.tape.length by omega)

end Cursor

end Lox.Parse
