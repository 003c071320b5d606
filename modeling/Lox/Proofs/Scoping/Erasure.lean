import Lox.Proofs.Machine.Run
import Lox.Proofs.Scoping.Traced

/-!
# Keeping track does not change a run

With its chronicle left out, a traced run is the run itself: it ends in the same way
and in the same machine. So whatever is said of the machines that a traced run goes
through is said of the run.
-/

namespace Lox.Traced

variable {α β : Type}

theorem run_bind (t : Traced α) (f : α → Traced β) (c : Chronicle) :
    (t >>= f).run.run c = match t.run.run c with
      | (.error halt, c') => (.error halt, c')
      | (.ok a, c') => (f a).run.run c' := by
  show ExceptT.bindCont f (t c).1 (t c).2 = match t c with
    | (.error halt, c') => _
    | (.ok a, c') => _
  rcases t c with ⟨halt | a, c'⟩ <;> rfl

theorem run_lift (r : Run α) (c : Chronicle) :
    (lift r).run.run c = match r.run c.machine with
      | none => (.error .exhausted, c)
      | some (.error fault, machine) => (.error (.fault fault), { c with machine })
      | some (.ok a, machine) => (.ok a, { c with machine }) := rfl

theorem run_within (scope : ScopeId) (t : Traced α) (c : Chronicle) :
    (within scope t).run.run c = ((t.run.run (c.moved scope)).1,
      (t.run.run (c.moved scope)).2.moved c.machine.current) := rfl

/-- A traced answer without the chronicle. -/
def answer : Except Halt α × Chronicle → Option (Except Machine.Fault α × Machine)
  | (.error .exhausted, _) => none
  | (.error (.fault fault), c) => some (.error fault, c.machine)
  | (.ok a, c) => some (.ok a, c.machine)

/-- The traced run is the run, whatever chronicle it starts with. -/
def Traces (t : Traced α) (r : Run α) : Prop := ∀ c, r.run c.machine = answer (t.run.run c)

section Rules

theorem Traces.exhausted : Traces (exhausted : Traced α) Run.exhausted := fun _ => rfl

theorem Traces.pure (a : α) : Traces (pure a : Traced α) (pure a) := fun _ => rfl

theorem Traces.lift (r : Run α) : Traces (lift r) r := by
  intro c
  rw [run_lift]
  rcases r.run c.machine with _ | ⟨fault | a, machine⟩ <;> rfl

theorem Traces.bind {t : Traced α} {r : Run α} {f : α → Traced β} {g : α → Run β}
    (ht : Traces t r) (hf : ∀ a, Traces (f a) (g a)) : Traces (t >>= f) (r >>= g) := by
  intro c
  rw [Lox.run_bind, run_bind, ht c]
  rcases t.run.run c with ⟨⟨_ | _⟩ | a, c'⟩
  · rfl
  · rfl
  · exact hf a c'

/-- What leaves the machine alone does not show. -/
theorem Traces.skip {t : Traced α} {f : α → Traced β} {r : Run β}
    (ht : ∀ c, ∃ a c', t.run.run c = (.ok a, c') ∧ c'.machine = c.machine)
    (hf : ∀ a, Traces (f a) r) : Traces (t >>= f) r := by
  intro c
  obtain ⟨a, c', hrun, hm⟩ := ht c
  rw [run_bind, hrun, ← hm]
  exact hf a c'

theorem Traces.note {access : Access} {id : NodeId} {name : Token} {frames : Frames}
    {t : Traced α} {r : Run α} (ht : Traces t r) :
    Traces (Traced.note access id name frames >>= fun _ => t) r :=
  .skip (fun _ => ⟨_, _, rfl, rfl⟩) fun _ => ht

theorem Traces.close (declaration : Declaration) (frames : Frames) :
    Traces (Traced.close declaration frames) (Run.close declaration) := fun _ => rfl

theorem Traces.within {t : Traced α} {r : Run α} (scope : ScopeId) (ht : Traces t r) :
    Traces (within scope t) (Run.within scope r) := by
  intro c
  have h := ht (c.moved scope)
  change r.run { c.machine with current := scope } = _ at h
  rw [Run.run_within, run_within, h]
  rcases t.run.run (c.moved scope) with ⟨⟨_ | _⟩ | a, c'⟩ <;> rfl

end Rules

/-- All rules of evaluation are traced faithfully with an amount of fuel. -/
structure Faithful (n : Nat) : Prop where
  evaluate : ∀ frames e, Traces (evaluate n frames e) (Run.evaluate n e)
  evaluateAll : ∀ frames es, Traces (evaluateAll n frames es) (Run.evaluateAll n es)
  call : ∀ callee paren arguments,
    Traces (call n callee paren arguments) (Run.call n callee paren arguments)
  execute : ∀ frames s, Traces (execute n frames s) (Run.execute n s)
  executeAll : ∀ frames body, Traces (executeAll n frames body) (Run.executeAll n body)
  loop : ∀ frames condition body increment,
    Traces (loop n frames condition body increment) (Run.loop n condition body increment)

section Steps

variable {n : Nat} (ih : Faithful n)
include ih

theorem evaluate_faithful (frames : Frames) (e : Expr) :
    Traces (evaluate (n + 1) frames e) (Run.evaluate (n + 1) e) := by
  cases e with
  | literal value => exact .pure value.value
  | group inner => exact ih.evaluate frames inner
  | unary operator operand =>
      exact (ih.evaluate frames operand).bind fun value => .lift (Run.applyUnary operator value)
  | binary left operator right =>
      exact (ih.evaluate frames left).bind fun a =>
        (ih.evaluate frames right).bind fun b => .lift (Run.applyBinary operator a b)
  | logical left operator right =>
      refine (ih.evaluate frames left).bind ?_
      intro a
      by_cases h : Run.decidedBy operator a = true
      · rw [if_pos h, if_pos h]
        exact .pure a
      · rw [if_neg h, if_neg h]
        exact ih.evaluate frames right
  | «variable» id name => exact .note (.lift (Run.readVariable id name))
  | assign id name value =>
      exact (ih.evaluate frames value).bind fun value =>
        .note ((Traces.lift (Run.writeVariable id name value)).bind fun _ => .pure value)
  | call callee paren arguments =>
      exact (ih.evaluate frames callee).bind fun callee =>
        (ih.evaluateAll frames arguments).bind fun arguments => ih.call callee paren arguments

theorem evaluateAll_faithful (frames : Frames) (es : List Expr) :
    Traces (evaluateAll (n + 1) frames es) (Run.evaluateAll (n + 1) es) := by
  cases es with
  | nil => exact .pure []
  | cons first rest =>
      exact (ih.evaluate frames first).bind fun value =>
        (ih.evaluateAll frames rest).bind fun values => .pure (value :: values)

theorem call_faithful (callee : Value) (paren : Token) (arguments : List Value) :
    Traces (call (n + 1) callee paren arguments) (Run.call (n + 1) callee paren arguments) := by
  cases callee with
  | function serial declaration closure =>
      refine (Traces.lift _).bind ?_
      intro _
      refine .skip (t := framesOf serial) (fun _ => ⟨_, _, rfl, rfl⟩) ?_
      intro frames
      exact (Traces.lift _).bind fun scope =>
        (Traces.within scope (ih.executeAll _ declaration.body)).bind fun completion =>
          .pure completion.value
  | native serial name arity =>
      exact (Traces.lift _).bind fun _ => .lift (Run.applyNative serial arguments paren)
  | _ => exact .lift (Run.fail .notCallable paren)

theorem execute_faithful (frames : Frames) (s : Stmt) :
    Traces (execute (n + 1) frames s) (Run.execute (n + 1) s) := by
  cases s with
  | expression value => exact (ih.evaluate frames value).bind fun _ => .pure Completion.normal
  | print value =>
      exact (ih.evaluate frames value).bind fun value =>
        (Traces.lift (Run.print value)).bind fun _ => .pure Completion.normal
  | var name initializer =>
      cases initializer with
      | none => exact (Traces.lift (Run.define name .nil)).bind fun _ => .pure Completion.normal
      | some initializer =>
          exact (ih.evaluate (frames.declare name) initializer).bind fun value =>
            (Traces.lift (Run.define name value)).bind fun _ => .pure Completion.normal
  | block body =>
      exact (Traces.lift Run.enterBlock).bind fun scope =>
        .within scope (ih.executeAll (frames.block scope) body)
  | ifThen condition thenBranch elseBranch =>
      refine (ih.evaluate frames condition).bind ?_
      intro value
      by_cases h : value.truthy = true
      · rw [if_pos h, if_pos h]
        exact ih.execute frames thenBranch
      · rw [if_neg h, if_neg h]
        cases elseBranch with
        | none => exact .pure Completion.normal
        | some elseBranch => exact ih.execute frames elseBranch
  | whileLoop condition body => exact ih.loop frames condition body none
  | forLoop initializer condition increment body =>
      cases initializer with
      | none => exact ih.loop frames (Stmt.loopCondition condition) body increment
      | some initializer =>
          refine (Traces.lift Run.enterBlock).bind fun scope => .within scope ?_
          refine (ih.execute (frames.block scope) initializer).bind ?_
          intro completion
          cases completion with
          | returned value => exact .pure (Completion.returned value)
          | normal => exact ih.loop _ (Stmt.loopCondition condition) body increment
  | function name params body =>
      exact (Traces.close ⟨name, params, body⟩ (frames.introduce name)).bind fun value =>
        (Traces.lift (Run.define name value)).bind fun _ => .pure Completion.normal
  | ret keyword value =>
      cases value with
      | none => exact .pure (Completion.returned .nil)
      | some value =>
          exact (ih.evaluate frames value).bind fun value => .pure (Completion.returned value)

theorem executeAll_faithful (frames : Frames) (body : List Stmt) :
    Traces (executeAll (n + 1) frames body) (Run.executeAll (n + 1) body) := by
  cases body with
  | nil => exact .pure Completion.normal
  | cons first rest =>
      refine (ih.execute frames first).bind ?_
      intro completion
      cases completion with
      | returned value => exact .pure (Completion.returned value)
      | normal => exact ih.executeAll (frames.behind first) rest

theorem loop_faithful (frames : Frames) (condition : Expr) (body : Stmt)
    (increment : Option Expr) :
    Traces (loop (n + 1) frames condition body increment)
      (Run.loop (n + 1) condition body increment) := by
  refine (ih.evaluate frames condition).bind ?_
  intro value
  by_cases h : value.truthy = true
  · rw [if_pos h, if_pos h]
    refine (ih.execute frames body).bind ?_
    intro completion
    cases completion with
    | returned value => exact .pure (Completion.returned value)
    | normal =>
        cases increment with
        | none => exact ih.loop frames condition body none
        | some step =>
            exact (ih.evaluate frames step).bind fun _ =>
              ih.loop frames condition body (some step)
  · rw [if_neg h, if_neg h]
    exact .pure Completion.normal

end Steps

theorem faithful (n : Nat) : Faithful n := by
  induction n with
  | zero =>
      exact ⟨fun _ _ => .exhausted, fun _ _ => .exhausted, fun _ _ _ => .exhausted,
        fun _ _ => .exhausted, fun _ _ => .exhausted, fun _ _ _ _ => .exhausted⟩
  | succ n ih =>
      exact ⟨evaluate_faithful ih, evaluateAll_faithful ih, call_faithful ih,
        execute_faithful ih, executeAll_faithful ih, loop_faithful ih⟩

theorem program_faithful (n : Nat) (body : List Stmt) :
    Traces (program n body) (Run.program n body) := by
  induction body with
  | nil => exact .pure ()
  | cons first rest ih =>
      refine ((faithful n).execute [] first).bind ?_
      intro completion
      cases completion with
      | returned value => exact .pure ()
      | normal => exact ih

end Lox.Traced
