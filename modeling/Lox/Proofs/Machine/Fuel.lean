import Lox.Machine.Exec
import Lox.Proofs.Machine.Run

/-!
# Fuel only bounds

A run that has an answer has the same one with more fuel. So the answer of a program is
its own and no matter of the fuel that it was run with.
-/

namespace Lox.Run

variable {α β : Type}

/-- The second run answers wherever the first does, and in the same way. -/
def Extends (r r' : Run α) : Prop := ∀ m o, r.run m = some o → r'.run m = some o

section Rules

theorem Extends.refl (r : Run α) : Extends r r := fun _ _ h => h

theorem Extends.trans {r₁ r₂ r₃ : Run α} (h : Extends r₁ r₂) (h' : Extends r₂ r₃) :
    Extends r₁ r₃ := fun m o ho => h' m o (h m o ho)

theorem Extends.exhausted (r : Run α) : Extends exhausted r := fun _ _ h => by cases h

theorem Extends.bind {r r' : Run α} {f f' : α → Run β} (h : Extends r r')
    (hf : ∀ a, Extends (f a) (f' a)) : Extends (r >>= f) (r' >>= f') := by
  intro m o ho
  rw [run_bind] at ho ⊢
  cases hr : r.run m with
  | none =>
      rw [hr] at ho
      cases ho
  | some answer =>
      rw [hr] at ho
      rw [h m answer hr]
      obtain ⟨fault | a, m'⟩ := answer
      · exact ho
      · exact hf a m' o ho

theorem Extends.within {r r' : Run α} (scope : ScopeId) (h : Extends r r') :
    Extends (within scope r) (within scope r') := by
  intro m o ho
  rw [run_within] at ho ⊢
  obtain ⟨answer, ha, rfl⟩ := Option.map_eq_some_iff.mp ho
  rw [h _ answer ha]
  rfl

end Rules

/-- One unit of fuel more changes no answer of any rule. -/
structure Extended (n : Nat) : Prop where
  evaluate : ∀ e, Extends (evaluate n e) (evaluate (n + 1) e)
  evaluateAll : ∀ es, Extends (evaluateAll n es) (evaluateAll (n + 1) es)
  call : ∀ callee paren arguments,
    Extends (call n callee paren arguments) (call (n + 1) callee paren arguments)
  execute : ∀ s, Extends (execute n s) (execute (n + 1) s)
  executeAll : ∀ body, Extends (executeAll n body) (executeAll (n + 1) body)
  loop : ∀ condition body increment,
    Extends (loop n condition body increment) (loop (n + 1) condition body increment)

section Steps

variable {n : Nat} (ih : Extended n)
include ih

theorem evaluate_extends (e : Expr) : Extends (evaluate (n + 1) e) (evaluate (n + 2) e) := by
  cases e with
  | literal | «variable» => exact .refl _
  | group inner => exact ih.evaluate inner
  | unary operator operand => exact (ih.evaluate operand).bind fun _ => .refl _
  | binary left operator right =>
      exact (ih.evaluate left).bind fun _ => (ih.evaluate right).bind fun _ => .refl _
  | logical left operator right =>
      refine (ih.evaluate left).bind ?_
      intro a
      by_cases h : decidedBy operator a = true
      · rw [if_pos h, if_pos h]
        exact .refl _
      · rw [if_neg h, if_neg h]
        exact ih.evaluate right
  | assign id name value => exact (ih.evaluate value).bind fun _ => .refl _
  | call callee paren arguments =>
      exact (ih.evaluate callee).bind fun callee =>
        (ih.evaluateAll arguments).bind fun arguments => ih.call callee paren arguments

theorem evaluateAll_extends (es : List Expr) :
    Extends (evaluateAll (n + 1) es) (evaluateAll (n + 2) es) := by
  cases es with
  | nil => exact .refl _
  | cons first rest =>
      exact (ih.evaluate first).bind fun _ => (ih.evaluateAll rest).bind fun _ => .refl _

theorem call_extends (callee : Value) (paren : Token) (arguments : List Value) :
    Extends (call (n + 1) callee paren arguments) (call (n + 2) callee paren arguments) := by
  cases callee with
  | function serial declaration closure =>
      exact (Extends.refl _).bind fun _ => (Extends.refl _).bind fun scope =>
        (Extends.within scope (ih.executeAll declaration.body)).bind fun _ => .refl _
  | _ => exact .refl _

theorem execute_extends (s : Stmt) : Extends (execute (n + 1) s) (execute (n + 2) s) := by
  cases s with
  | expression value => exact (ih.evaluate value).bind fun _ => .refl _
  | print value => exact (ih.evaluate value).bind fun _ => .refl _
  | var name initializer =>
      cases initializer with
      | none => exact .refl _
      | some initializer => exact (ih.evaluate initializer).bind fun _ => .refl _
  | block body =>
      exact (Extends.refl enterBlock).bind fun scope => .within scope (ih.executeAll body)
  | ifThen condition thenBranch elseBranch =>
      refine (ih.evaluate condition).bind ?_
      intro value
      by_cases h : value.truthy = true
      · rw [if_pos h, if_pos h]
        exact ih.execute thenBranch
      · rw [if_neg h, if_neg h]
        cases elseBranch with
        | none => exact .refl _
        | some elseBranch => exact ih.execute elseBranch
  | whileLoop condition body => exact ih.loop condition body none
  | forLoop initializer condition increment body =>
      cases initializer with
      | none => exact ih.loop (Stmt.loopCondition condition) body increment
      | some initializer =>
          refine (Extends.refl enterBlock).bind fun scope => .within scope ?_
          refine (ih.execute initializer).bind ?_
          intro completion
          cases completion with
          | returned value => exact .refl _
          | normal => exact ih.loop (Stmt.loopCondition condition) body increment
  | function => exact .refl _
  | ret keyword value =>
      cases value with
      | none => exact .refl _
      | some value => exact (ih.evaluate value).bind fun _ => .refl _

theorem executeAll_extends (body : List Stmt) :
    Extends (executeAll (n + 1) body) (executeAll (n + 2) body) := by
  cases body with
  | nil => exact .refl _
  | cons first rest =>
      refine (ih.execute first).bind ?_
      intro completion
      cases completion with
      | returned value => exact .refl _
      | normal => exact ih.executeAll rest

theorem loop_extends (condition : Expr) (body : Stmt) (increment : Option Expr) :
    Extends (loop (n + 1) condition body increment) (loop (n + 2) condition body increment) := by
  refine (ih.evaluate condition).bind ?_
  intro value
  by_cases h : value.truthy = true
  · rw [if_pos h, if_pos h]
    refine (ih.execute body).bind ?_
    intro completion
    cases completion with
    | returned value => exact .refl _
    | normal =>
        cases increment with
        | none => exact ih.loop condition body none
        | some step =>
            exact (ih.evaluate step).bind fun _ => ih.loop condition body (some step)
  · rw [if_neg h, if_neg h]
    exact .refl _

end Steps

theorem extended (n : Nat) : Extended n := by
  induction n with
  | zero =>
      exact ⟨fun _ => .exhausted _, fun _ => .exhausted _, fun _ _ _ => .exhausted _,
        fun _ => .exhausted _, fun _ => .exhausted _, fun _ _ _ => .exhausted _⟩
  | succ n ih =>
      exact ⟨evaluate_extends ih, evaluateAll_extends ih, call_extends ih, execute_extends ih,
        executeAll_extends ih, loop_extends ih⟩

theorem program_extends (n : Nat) (body : List Stmt) :
    Extends (program n body) (program (n + 1) body) := by
  induction body with
  | nil => exact .refl _
  | cons first rest ih =>
      refine ((extended n).execute first).bind ?_
      intro completion
      cases completion with
      | returned value => exact .refl _
      | normal => exact ih

/-- The answer of a program stays the same with more fuel. -/
theorem program_extends_of_le {n n' : Nat} (h : n ≤ n') (body : List Stmt) :
    Extends (program n body) (program n' body) := by
  induction h with
  | refl => exact .refl _
  | step _ ih => exact ih.trans (program_extends _ body)

end Lox.Run
