import Lox.Machine.Exec
import Lox.Proofs.Machine.Run
import Lox.Proofs.Scoping.Linked

/-!
# Returns belong to functions

A return outside of all functions keeps a program from being run. In a program that is
run, a statement outside of all functions therefore never returns, and of two programs
that stand one behind the other the second is run where the first has ended.
-/

namespace Lox

open Binding

mutual

/-- No return belongs to the statement but those in the functions that it declares. -/
def Stmt.Returnless : Stmt → Prop
  | .expression _ | .print _ | .var .. | .function .. => True
  | .block body => Stmt.ReturnlessAll body
  | .ifThen _ thenBranch elseBranch =>
    thenBranch.Returnless ∧ Stmt.ReturnlessOptional elseBranch
  | .whileLoop _ body => body.Returnless
  | .forLoop initializer _ _ body => Stmt.ReturnlessOptional initializer ∧ body.Returnless
  | .ret .. => False

def Stmt.ReturnlessAll : List Stmt → Prop
  | [] => True
  | s :: rest => s.Returnless ∧ Stmt.ReturnlessAll rest

def Stmt.ReturnlessOptional : Option Stmt → Prop
  | none => True
  | some s => s.Returnless

end

section Linked

variable {recorded : Recorded}

mutual

theorem Stmt.Linked.returnless {scopes : Scopes} (s : Stmt) (h : s.Linked recorded false scopes) :
    s.Returnless := by
  match s with
  | .expression _ | .print _ | .var .. | .function .. => trivial
  | .block body => exact Stmt.LinkedAll.returnless body h
  | .ifThen _ thenBranch elseBranch =>
      exact ⟨Stmt.Linked.returnless thenBranch h.2.1.2,
        Stmt.LinkedBranch.returnless elseBranch h.2.2⟩
  | .whileLoop _ body => exact Stmt.Linked.returnless body h.2.2
  | .ret .. => exact absurd h.1 Bool.false_ne_true

theorem Stmt.LinkedAll.returnless {scopes : Scopes} (body : List Stmt)
    (h : Stmt.LinkedAll recorded false scopes body) : Stmt.ReturnlessAll body := by
  match body with
  | [] => trivial
  | s :: rest => exact ⟨Stmt.Linked.returnless s h.1, Stmt.LinkedAll.returnless rest h.2⟩

theorem Stmt.LinkedBranch.returnless {scopes : Scopes} (o : Option Stmt)
    (h : Stmt.LinkedBranch recorded false scopes o) : Stmt.ReturnlessOptional o := by
  match o with
  | none => trivial
  | some s => exact Stmt.Linked.returnless s h.2

end

end Linked

namespace Run

variable {α β : Type}

/-- What a run gives, if it gives anything. -/
def Yields (r : Run α) (P : α → Prop) : Prop := ∀ m a m', r.run m = some (.ok a, m') → P a

section Rules

variable {P : α → Prop}

theorem Yields.pure {a : α} (h : P a) : Yields (pure a) P := by
  intro m b m' hb
  cases hb
  exact h

theorem Yields.exhausted : Yields (exhausted : Run α) P := fun _ _ _ h => by cases h

theorem Yields.bind {r : Run β} {f : β → Run α} {Q : β → Prop} (hr : Yields r Q)
    (hf : ∀ b, Q b → Yields (f b) P) : Yields (r >>= f) P := by
  intro m a m' ha
  obtain ⟨b, m₁, hb, hrest⟩ := ok_of_bind ha
  exact hf b (hr m b m₁ hb) m₁ a m' hrest

theorem Yields.after {r : Run β} {f : β → Run α} (hf : ∀ b, Yields (f b) P) :
    Yields (r >>= f) P :=
  Yields.bind (Q := fun _ => True) (fun _ _ _ _ => trivial) fun b _ => hf b

theorem Yields.within {r : Run α} (scope : ScopeId) (hr : Yields r P) :
    Yields (within scope r) P := by
  intro m a m' ha
  rw [run_within] at ha
  obtain ⟨⟨o, m₁⟩, hm, ho⟩ := Option.map_eq_some_iff.mp ha
  cases ho
  exact hr _ a m₁ hm

end Rules

/-- With so much fuel a statement without a return of its own does not return. -/
structure Unreturned (n : Nat) : Prop where
  execute : ∀ {s : Stmt}, s.Returnless → Yields (execute n s) (· = .normal)
  executeAll : ∀ {body}, Stmt.ReturnlessAll body → Yields (executeAll n body) (· = .normal)
  loop : ∀ {body : Stmt} (condition increment), body.Returnless →
    Yields (loop n condition body increment) (· = .normal)

section Steps

variable {n : Nat} (ih : Unreturned n)
include ih

theorem execute_unreturned {s : Stmt} (h : s.Returnless) :
    Yields (execute (n + 1) s) (· = .normal) := by
  cases s with
  | expression value => exact .after fun _ => .pure rfl
  | print value | function name params body => exact .after fun _ => .after fun _ => .pure rfl
  | var name initializer =>
      cases initializer with
      | none => exact .after fun _ => .pure rfl
      | some initializer => exact .after fun _ => .after fun _ => .pure rfl
  | block body => exact .after fun scope => .within scope (ih.executeAll h)
  | ifThen condition thenBranch elseBranch =>
      refine .after ?_
      intro value
      by_cases hv : value.truthy = true
      · rw [if_pos hv]
        exact ih.execute h.1
      · rw [if_neg hv]
        cases elseBranch with
        | none => exact .pure rfl
        | some elseBranch => exact ih.execute h.2
  | whileLoop condition body => exact ih.loop condition none h
  | forLoop initializer condition increment body =>
      cases initializer with
      | none => exact ih.loop _ _ h.2
      | some initializer =>
          refine .after fun scope => .within scope ((ih.execute h.1).bind ?_)
          intro k hk
          subst hk
          exact ih.loop _ _ h.2
  | ret => exact h.elim

theorem executeAll_unreturned {body : List Stmt} (h : Stmt.ReturnlessAll body) :
    Yields (executeAll (n + 1) body) (· = .normal) := by
  cases body with
  | nil => exact .pure rfl
  | cons first rest =>
      refine (ih.execute h.1).bind ?_
      intro k hk
      subst hk
      exact ih.executeAll h.2

theorem loop_unreturned {body : Stmt} (condition : Expr) (increment : Option Expr)
    (h : body.Returnless) : Yields (loop (n + 1) condition body increment) (· = .normal) := by
  refine .after ?_
  intro value
  by_cases hv : value.truthy = true
  · rw [if_pos hv]
    refine (ih.execute h).bind ?_
    intro k hk
    subst hk
    cases increment with
    | none => exact ih.loop condition none h
    | some step => exact .after fun _ => ih.loop condition (some step) h
  · rw [if_neg hv]
    exact .pure rfl

end Steps

theorem unreturned (n : Nat) : Unreturned n := by
  induction n with
  | zero => exact ⟨fun _ => .exhausted, fun _ => .exhausted, fun _ _ _ => .exhausted⟩
  | succ n ih =>
      exact ⟨execute_unreturned ih, executeAll_unreturned ih, loop_unreturned ih⟩

/-- The second of two programs is run where the first has ended. -/
theorem program_append {recorded : Recorded} {body : List Stmt}
    (h : Stmt.LinkedAll recorded false [] body) (n : Nat) (rest : List Stmt) (m : Machine) :
    (program n (body ++ rest)).run m = (program n body >>= fun _ => program n rest).run m := by
  induction body generalizing m with
  | nil => rfl
  | cons first body ih =>
      have hnormal := (unreturned n).execute (Stmt.Linked.returnless first h.1)
      rw [List.cons_append, program, run_bind, run_bind, program, run_bind]
      cases hm : (execute n first).run m with
      | none => rfl
      | some answer =>
          obtain ⟨fault | k, m'⟩ := answer
          · rfl
          · cases hnormal m k m' hm
            show (program n (body ++ rest)).run m' = _
            rw [ih (Scopes.behind_nil first ▸ h.2), run_bind]

end Run

end Lox
