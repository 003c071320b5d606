import Lox.Proofs.Answer
import Lox.Tree.Parse.Stmt

/-!
# Running the small parsers

What each operation on the state answers, as equations for `run`, and the next token
as the only thing that the parser asks of the tokens.
-/

namespace Lox.Parse

variable {α β : Type}

theorem run_fail (cause : Cause) (s : State) :
    (fail cause : Parse α).run s = some (.error ⟨cause, s.peek⟩, s) := rfl

theorem run_record (fault : Fault) (s : State) :
    (record fault).run s = some (.ok (), { s with faults := s.faults ++ [fault] }) := rfl

theorem run_recordHere (cause : Cause) (s : State) :
    (recordHere cause).run s =
      some (.ok (), { s with faults := s.faults ++ [⟨cause, s.peek⟩] }) := rfl

theorem run_freshId (s : State) :
    freshId.run s = some (.ok s.nextId, { s with nextId := s.nextId + 1 }) := rfl

theorem run_atEnd (s : State) : atEnd.run s = some (.ok s.rest.isEmpty, s) := rfl

/-- Is the first of the tokens of a wanted kind? -/
def Ahead (wanted : Token.Kind → Bool) (tokens : List Token) : Bool :=
  tokens.head?.any fun t => wanted t.kind

@[simp] theorem ahead_nil (wanted : Token.Kind → Bool) : Ahead wanted [] = false := rfl

@[simp] theorem ahead_cons (wanted : Token.Kind → Bool) (t : Token) (rest : List Token) :
    Ahead wanted (t :: rest) = wanted t.kind := rfl

theorem run_nextIs (kind : Token.Kind) (s : State) :
    (nextIs kind).run s = some (.ok (Ahead (· = kind) s.rest), s) := rfl

theorem run_acceptIf_cons {wanted : Token.Kind → Bool} {s : State} {t : Token}
    {rest : List Token} (hs : s.rest = t :: rest) (ht : wanted t.kind = true) :
    (acceptIf wanted).run s = some (.ok (some t), { s with rest }) := by
  obtain ⟨_, last, i, faults⟩ := s
  subst hs
  show (if wanted t.kind = true then _ else _) = _
  rw [if_pos ht]

theorem run_acceptIf_none {wanted : Token.Kind → Bool} {s : State}
    (hs : Ahead wanted s.rest = false) : (acceptIf wanted).run s = some (.ok none, s) := by
  obtain ⟨rest, last, i, faults⟩ := s
  cases rest with
  | nil => rfl
  | cons t rest =>
      rw [ahead_cons] at hs
      show (if wanted t.kind = true then _ else _) = _
      rw [if_neg (by rw [hs]; exact Bool.false_ne_true)]

/-- A list of declarations ends with the tokens or, in a block, before a closing brace. -/
theorem run_declarations (n : Nat) (inBlock : Bool) (s : State) :
    (declarations (n + 1) inBlock).run s =
      if s.rest = [] ∨ inBlock = true ∧ Ahead (· = .rightBrace) s.rest = true then
        some (.ok [], s)
      else (do
        let first ← declaration n
        let rest ← declarations n inBlock
        return first.toList ++ rest : Parse (List Stmt)).run s := by
  rw [declarations, run_bind, run_atEnd]
  show ((nextIs .rightBrace : Parse Bool) >>= _).run s = _
  rw [run_bind, run_nextIs]
  simp only [Bool.or_eq_true, List.isEmpty_iff, Bool.and_eq_true]
  split
  · rfl
  · rfl

/-- Recovery passes over at least one token, if there is one. -/
theorem length_recover_le (tokens : List Token) : (recover tokens).length ≤ tokens.length - 1 := by
  induction tokens with
  | nil => exact Nat.le_refl 0
  | cons t rest ih =>
      rw [recover]
      split
      · exact Nat.le_refl _
      · rw [List.length_cons]
        omega

end Lox.Parse
