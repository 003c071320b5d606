import Lox.Machine.Exec
import Lox.Proofs.Machine.Run

/-!
# What every run keeps

There are few things that a run does to its machine: it prints, it binds a name in the
current scope, it changes a variable, it makes a function, and it goes into a new scope
and comes back. `Machine.Kept` asks of a relation between the machine before and the one
after that it holds over each of them and over one run behind another. Then it holds over
every run, whatever the program is and whether it ends in a value, a return or a fault.
-/

namespace Lox

/-- The machine in a new scope with bindings. -/
def Machine.entered (m : Machine) (parent : ScopeId) (bindings : List (Token × Value)) :
    Machine :=
  { m with
    store := bindings.foldl (fun store b => store.define m.store.scopes.size b.1.lexeme b.2)
      (m.store.push (some parent)).2
    current := m.store.scopes.size }

/-- A relation between machines before and after holds over all that a run can do. -/
structure Machine.Kept (R : Machine → Machine → Prop) : Prop where
  refl : ∀ m, R m m
  trans : ∀ {m₁ m₂ m₃}, R m₁ m₂ → R m₂ m₃ → R m₁ m₃
  print : ∀ m text, R m { m with output := m.output ++ text }
  define : ∀ m name value, R m { m with store := m.store.define m.current name value }
  write : ∀ m scope name value, (m.store.lookup? scope name).isSome →
    R m { m with store := m.store.define scope name value }
  close : ∀ m, R m { m with functions := m.functions + 1 }
  /-- Whatever happens in a new scope, behind it the scope in force is the one before. -/
  leave : ∀ m parent bindings m', R (m.entered parent bindings) m' →
    R m { m' with current := m.current }

namespace Run

variable {α β : Type} {R : Machine → Machine → Prop}

/-- Into a new scope, through a run there, and back. -/
theorem run_entering (parent : ScopeId) (bindings : List (Token × Value)) (body : Run α)
    (m : Machine) : (enterScope parent bindings >>= fun s => within s body).run m =
      (body.run (m.entered parent bindings)).map fun o =>
        (o.1, { o.2 with current := m.current }) := by
  rw [run_bind]
  exact run_within ..

theorem run_enteringBlock (body : Run α) (m : Machine) :
    (enterBlock >>= fun s => within s body).run m = (body.run (m.entered m.current [])).map fun o =>
      (o.1, { o.2 with current := m.current }) := by
  rw [← run_entering, run_bind, run_bind, enterBlock, run_bind, run_get]

/-- The relation holds between the machine before the run and the one behind it. -/
def Keeps (R : Machine → Machine → Prop) (r : Run α) : Prop :=
  ∀ m result m', r.run m = some (result, m') → R m m'

section Rules

theorem Keeps.exhausted : Keeps R (exhausted : Run α) := fun _ _ _ h => by cases h

variable (hR : Machine.Kept R)
include hR

theorem Keeps.pure (a : α) : Keeps R (pure a : Run α) := by
  intro m result m' h
  cases h
  exact hR.refl m

theorem Keeps.fail (cause : Machine.Cause) (token : Token) :
    Keeps R (fail cause token : Run α) := by
  intro m result m' h
  cases h
  exact hR.refl m

/-- A fault of the first run is the end of both. -/
theorem Keeps.bind {r : Run α} {f : α → Run β} (hr : Keeps R r) (hf : ∀ a, Keeps R (f a)) :
    Keeps R (r >>= f) := by
  intro m result m' h
  rw [run_bind] at h
  cases hm : r.run m with
  | none =>
      rw [hm] at h
      cases h
  | some answer =>
      rw [hm] at h
      obtain ⟨fault | a, m₁⟩ := answer
      · cases h
        exact hr m _ _ hm
      · exact hR.trans (hr m _ _ hm) (hf a m₁ result m' h)

theorem Keeps.print (value : Value) : Keeps R (print value) := by
  intro m result m' h
  cases h
  have hp := hR.print m (value.text ++ "\n")
  rwa [← String.append_assoc] at hp

theorem Keeps.define (name : Token) (value : Value) : Keeps R (define name value) := by
  intro m result m' h
  cases h
  exact hR.define m name.lexeme value

theorem Keeps.close (declaration : Declaration) : Keeps R (close declaration) := by
  intro m result m' h
  cases h
  exact hR.close m

theorem Keeps.readVariable (id : NodeId) (name : Token) : Keeps R (readVariable id name) := by
  intro m result m' h
  rw [run_readVariable] at h
  split at h <;> cases h <;> exact hR.refl m

theorem Keeps.writeVariable (id : NodeId) (name : Token) (value : Value) :
    Keeps R (writeVariable id name value) := by
  intro m result m' h
  rw [run_writeVariable] at h
  split at h
  · rename_i scope hscope
    cases h
    exact hR.write m scope name.lexeme value (Machine.isSome_of_target? hscope)
  · cases h
    exact hR.refl m

theorem Keeps.entering (parent : ScopeId) (bindings : List (Token × Value)) {body : Run α}
    (hb : Keeps R body) : Keeps R (enterScope parent bindings >>= fun s => within s body) := by
  intro m result m' h
  rw [run_entering] at h
  obtain ⟨⟨result₁, m₁⟩, hm, ho⟩ := Option.map_eq_some_iff.mp h
  cases ho
  exact hR.leave m parent bindings m₁ (hb _ _ _ hm)

theorem Keeps.enteringBlock {body : Run α} (hb : Keeps R body) :
    Keeps R (enterBlock >>= fun s => within s body) := by
  intro m result m' h
  rw [run_enteringBlock, ← run_entering] at h
  exact Keeps.entering hR m.current [] hb m result m' h

theorem Keeps.applyUnary (operator : Token) (operand : Value) :
    Keeps R (applyUnary operator operand) := by
  unfold Run.applyUnary
  split
  · exact .pure hR _
  · exact .fail hR _ _
  · exact .pure hR _
  · exact .fail hR _ _

theorem Keeps.applyNumeric (operator : Token) (a b : Float) :
    Keeps R (applyNumeric operator a b) := by
  unfold Run.applyNumeric
  split <;> first | exact .pure hR _ | exact .fail hR _ _

theorem Keeps.applyBinary (operator : Token) (left right : Value) :
    Keeps R (applyBinary operator left right) := by
  unfold Run.applyBinary
  split
  · exact .pure hR _
  · exact .pure hR _
  · exact .fail hR _ _
  · exact .pure hR _
  · exact .pure hR _
  · exact .applyNumeric hR _ _ _
  · exact .fail hR _ _

theorem Keeps.checkArity (expected given : Nat) (paren : Token) :
    Keeps R (checkArity expected given paren) := by
  unfold Run.checkArity
  split
  · exact .pure hR _
  · exact .fail hR _ _

theorem Keeps.applyNative (serial : Nat) (arguments : List Value) (paren : Token) :
    Keeps R (applyNative serial arguments paren) := by
  refine .bind hR (fun m _ _ h => by cases h; exact hR.refl m) fun m => ?_
  split
  · exact .fail hR _ _
  · split
    · exact .pure hR _
    · exact .fail hR _ _

end Rules

/-! ## Rule by rule -/

/-- With so much fuel every rule keeps the relation. -/
structure Keeping (R : Machine → Machine → Prop) (n : Nat) : Prop where
  evaluate : ∀ e, Keeps R (evaluate n e)
  evaluateAll : ∀ es, Keeps R (evaluateAll n es)
  call : ∀ callee paren arguments, Keeps R (call n callee paren arguments)
  execute : ∀ s, Keeps R (execute n s)
  executeAll : ∀ body, Keeps R (executeAll n body)
  loop : ∀ condition body increment, Keeps R (loop n condition body increment)

section Steps

variable (hR : Machine.Kept R) {n : Nat} (ih : Keeping R n)
include hR ih

theorem evaluate_keeps (e : Expr) : Keeps R (evaluate (n + 1) e) := by
  cases e with
  | literal value => exact .pure hR _
  | group inner => exact ih.evaluate inner
  | unary operator operand => exact (ih.evaluate operand).bind hR fun _ => .applyUnary hR _ _
  | binary left operator right =>
      exact (ih.evaluate left).bind hR fun _ => (ih.evaluate right).bind hR fun _ =>
        .applyBinary hR _ _ _
  | logical left operator right =>
      refine (ih.evaluate left).bind hR fun a => ?_
      split
      · exact .pure hR _
      · exact ih.evaluate right
  | «variable» id name => exact .readVariable hR id name
  | assign id name value =>
      exact (ih.evaluate value).bind hR fun _ => (Keeps.writeVariable hR _ _ _).bind hR fun _ =>
        .pure hR _
  | call callee paren arguments =>
      exact (ih.evaluate callee).bind hR fun _ => (ih.evaluateAll arguments).bind hR fun _ =>
        ih.call _ _ _

theorem evaluateAll_keeps (es : List Expr) : Keeps R (evaluateAll (n + 1) es) := by
  cases es with
  | nil => exact .pure hR _
  | cons first rest =>
      exact (ih.evaluate first).bind hR fun _ => (ih.evaluateAll rest).bind hR fun _ =>
        .pure hR _

theorem call_keeps (callee : Value) (paren : Token) (arguments : List Value) :
    Keeps R (call (n + 1) callee paren arguments) := by
  cases callee with
  | function serial declaration closure =>
      refine (Keeps.checkArity hR _ _ _).bind hR fun _ => ?_
      have hbody := Keeps.entering hR closure (declaration.params.zip arguments)
        (ih.executeAll declaration.body)
      have hcall := hbody.bind hR fun completion => Keeps.pure hR completion.value
      rwa [bind_assoc] at hcall
  | native serial name arity =>
      exact (Keeps.checkArity hR _ _ _).bind hR fun _ => .applyNative hR _ _ _
  | _ => exact .fail hR _ _

theorem execute_keeps (s : Stmt) : Keeps R (execute (n + 1) s) := by
  cases s with
  | expression value => exact (ih.evaluate value).bind hR fun _ => .pure hR _
  | print value =>
      exact (ih.evaluate value).bind hR fun _ => (Keeps.print hR _).bind hR fun _ => .pure hR _
  | var name initializer =>
      cases initializer with
      | none => exact (Keeps.define hR _ _).bind hR fun _ => .pure hR _
      | some initializer =>
          exact (ih.evaluate initializer).bind hR fun _ => (Keeps.define hR _ _).bind hR fun _ =>
            .pure hR _
  | block body => exact .enteringBlock hR (ih.executeAll body)
  | ifThen condition thenBranch elseBranch =>
      refine (ih.evaluate condition).bind hR fun value => ?_
      split
      · exact ih.execute thenBranch
      · split
        · exact ih.execute _
        · exact .pure hR _
  | whileLoop condition body => exact ih.loop condition body none
  | forLoop initializer condition increment body =>
      cases initializer with
      | none => exact ih.loop (Stmt.loopCondition condition) body increment
      | some initializer =>
          refine .enteringBlock hR ((ih.execute initializer).bind hR fun completion => ?_)
          cases completion with
          | returned value => exact .pure hR _
          | normal => exact ih.loop _ _ _
  | function name params body =>
      exact (Keeps.close hR _).bind hR fun _ => (Keeps.define hR _ _).bind hR fun _ => .pure hR _
  | ret keyword value =>
      cases value with
      | none => exact .pure hR _
      | some value => exact (ih.evaluate value).bind hR fun _ => .pure hR _

theorem executeAll_keeps (body : List Stmt) : Keeps R (executeAll (n + 1) body) := by
  cases body with
  | nil => exact .pure hR _
  | cons first rest =>
      refine (ih.execute first).bind hR fun completion => ?_
      cases completion with
      | returned value => exact .pure hR _
      | normal => exact ih.executeAll rest

theorem loop_keeps (condition : Expr) (body : Stmt) (increment : Option Expr) :
    Keeps R (loop (n + 1) condition body increment) := by
  refine (ih.evaluate condition).bind hR fun value => ?_
  split
  · refine (ih.execute body).bind hR fun completion => ?_
    cases completion with
    | returned value => exact .pure hR _
    | normal =>
        cases increment with
        | none => exact ih.loop condition body none
        | some step => exact (ih.evaluate step).bind hR fun _ => ih.loop condition body (some step)
  · exact .pure hR _

end Steps

theorem keeping (hR : Machine.Kept R) (n : Nat) : Keeping R n := by
  induction n with
  | zero =>
      exact ⟨fun _ => .exhausted, fun _ => .exhausted, fun _ _ _ => .exhausted,
        fun _ => .exhausted, fun _ => .exhausted, fun _ _ _ => .exhausted⟩
  | succ n ih =>
      exact ⟨evaluate_keeps hR ih, evaluateAll_keeps hR ih, call_keeps hR ih, execute_keeps hR ih,
        executeAll_keeps hR ih, loop_keeps hR ih⟩

theorem program_keeps (hR : Machine.Kept R) (n : Nat) (body : List Stmt) :
    Keeps R (program n body) := by
  induction body with
  | nil => exact .pure hR _
  | cons first rest ih =>
      refine ((keeping hR n).execute first).bind hR fun completion => ?_
      cases completion with
      | returned value => exact .pure hR _
      | normal => exact ih

end Run

end Lox
