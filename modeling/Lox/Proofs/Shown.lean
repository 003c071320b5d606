import Lox.Proofs.Scoping.Steps

/-!
# What is left of a value when only what it shows counts

A declared function shows its number, its name and its parameters. What its body says and
in which scope it was declared is known to the machine alone. Without these two, a value
is still printed as it was, it is equal to the same values, and operators make the same of
it. A native function is superficial if what its answer shows depends on no more than what
its arguments show.
-/

namespace Lox

/-- The value without the body and the scope of a declared function. -/
def Value.shown : Value → Value
  | .function serial declaration _ => .function serial { declaration with body := [] } 0
  | v => v

namespace Value

/-- What is no declared function shows all there is to it. -/
theorem eq_of_shown {v v' : Value} (h : v.Simple) (hs : v'.shown = v.shown) : v' = v := by
  cases v <;> cases v' <;> first | exact h.elim | cases hs <;> rfl

theorem truthy_shown (v : Value) : v.shown.truthy = v.truthy := by cases v <;> rfl

theorem text_shown (v : Value) : v.shown.text = v.text := by cases v <;> rfl

theorem equals_shown (a b : Value) : a.shown.equals b.shown = a.equals b := by
  cases a <;> cases b <;> rfl

theorem decidedBy_shown (operator : Token) (v : Value) :
    Run.decidedBy operator v.shown = Run.decidedBy operator v := by
  rw [Run.decidedBy, Run.decidedBy, truthy_shown]

theorem applyUnary_shown (operator : Token) (v : Value) :
    Run.applyUnary operator v.shown = Run.applyUnary operator v := by
  cases v with
  | function =>
      unfold Run.applyUnary
      cases operator.kind <;> rfl
  | _ => rfl

theorem applyBinary_shown (operator : Token) (a b : Value) :
    Run.applyBinary operator a.shown b.shown = Run.applyBinary operator a b := by
  have heq := equals_shown a b
  unfold Run.applyBinary
  rw [heq]
  cases a <;> cases b <;> first | rfl | (cases operator.kind <;> rfl)

end Value

namespace Native

/-- What the function answers shows no more of its arguments than they show. -/
def Superficial (native : Native) : Prop :=
  ∀ args args' : List Value, args.map Value.shown = args'.map Value.shown →
    (native.apply args).map Value.shown = (native.apply args').map Value.shown

theorem superficial_clock (seconds : Float) : (clock seconds).Superficial := fun _ _ _ => rfl

end Native

end Lox
