import Lox.Proofs.Parser.Parts
import Lox.Proofs.Rooted

/-!
# Executable programs are carried out

The rules for operators end in a fault when the operator is none that they know. No run of
an executable program comes to that: what is at hand is always a part of the program, or
the body of a function, and a function that is stored or held was once declared by a part
of an executable program. Native functions make up no functions, so that they bring no
other bodies in.
-/

namespace Lox

/-- The body of a declared function is executable. -/
def Value.Executable : Value → Prop
  | .function _ declaration _ => Stmt.ExecutableAll declaration.body
  | _ => True

/-- What is handed on when a statement has ended is executable. -/
def Completion.Executable (completion : Completion) : Prop :=
  ∀ value ∈ completion.values, value.Executable

theorem Value.Simple.executable {v : Value} (h : v.Simple) : v.Executable := by
  cases v with
  | function => exact h.elim
  | _ => trivial

theorem Completion.Executable.value {completion : Completion} (h : completion.Executable) :
    completion.value.Executable := by
  cases completion with
  | normal => trivial
  | returned value => exact h value (List.mem_singleton_self value)

theorem Completion.executable_returned {value : Value} (h : value.Executable) :
    (Completion.returned value).Executable :=
  fun _ hmem => List.mem_singleton.mp hmem ▸ h

theorem Native.Honest.executable {native : Native} (h : native.Honest) {arguments : List Value}
    {v : Value} (hv : native.apply arguments = .ok v) (ha : ∀ a ∈ arguments, a.Executable) :
    v.Executable := by
  cases v with
  | function serial declaration closure => exact ha _ (h arguments serial declaration closure hv)
  | _ => trivial

namespace Machine

/-- All functions that are stored have executable bodies. -/
structure Executable (m : Machine) : Prop where
  stored : ∀ scope name v, m.store.lookup? scope name = some v → v.Executable
  natives : ∀ native ∈ m.natives, native.Honest

/-- It is not for want of a rule for an operator. -/
def Cause.Ordinary : Cause → Prop
  | unknownUnaryOperator | unknownBinaryOperator => False
  | _ => True

section Steps

variable {m m' : Machine}

theorem executable_iff : m.Executable ↔ m.Stores Value.Executable Native.Honest :=
  ⟨fun h => ⟨h.stored, h.natives⟩, fun h => ⟨h.stored, h.natives⟩⟩

/-- Neither the scope in force nor what is printed or counted matters. -/
theorem Executable.congr (h : m.Executable) (hs : m'.store = m.store)
    (hn : m'.natives = m.natives) : m'.Executable :=
  executable_iff.mpr ((executable_iff.mp h).congr hs hn)

theorem Executable.define (h : m.Executable) (scope : ScopeId) (name : String) {v : Value}
    (hv : v.Executable) : { m with store := m.store.define scope name v }.Executable :=
  executable_iff.mpr ((executable_iff.mp h).define scope name hv)

theorem Executable.entered (h : m.Executable) (parent : ScopeId)
    {bindings : List (Token × Value)} (hb : ∀ b ∈ bindings, b.2.Executable) :
    (m.entered parent bindings).Executable :=
  executable_iff.mpr ((executable_iff.mp h).entered parent hb)

end Steps

end Machine

namespace Run

variable {α β : Type}

/-- From a machine whose functions are executable the run comes to such a machine. What it
gives is good, and a fault is about no operator. -/
def Performs (good : α → Prop) (r : Run α) : Prop :=
  ∀ m result m', m.Executable → r.run m = some (result, m') →
    m'.Executable ∧ (∀ a, result = .ok a → good a) ∧
      ∀ fault, result = .error fault → fault.cause.Ordinary

section Rules

variable {good : α → Prop} {good' : β → Prop}

theorem Performs.exhausted : Performs good (exhausted : Run α) := fun _ _ _ _ h => nomatch h

/-- A run that leaves the machine as it is and gives a result. -/
theorem Performs.of_ok {r : Run α}
    (h : ∀ m, m.Executable → ∃ a, r.run m = some (.ok a, m) ∧ good a) : Performs good r := by
  intro m result m' hm hrun
  obtain ⟨a, ha, hgood⟩ := h m hm
  obtain ⟨rfl, rfl⟩ := Prod.mk.inj (Option.some.inj (ha.symm.trans hrun))
  exact ⟨hm, fun b hb => Except.ok.inj hb ▸ hgood, nofun⟩

theorem Performs.pure {a : α} (h : good a) : Performs good (pure a : Run α) :=
  .of_ok fun _ _ => ⟨a, rfl, h⟩

theorem Performs.fail {cause : Machine.Cause} (token : Token) (h : cause.Ordinary) :
    Performs good (fail cause token : Run α) := by
  intro m result m' hm hrun
  cases hrun
  exact ⟨hm, nofun, fun fault hf => Except.error.inj hf ▸ h⟩

theorem Performs.bind {r : Run α} {f : α → Run β} (hr : Performs good r)
    (hf : ∀ a, good a → Performs good' (f a)) : Performs good' (r >>= f) := by
  intro m result m' hm hrun
  rw [run_bind] at hrun
  rcases hs : r.run m with _ | ⟨fault | a, m₁⟩ <;> rw [hs] at hrun
  · cases hrun
  · cases hrun
    obtain ⟨hm₁, -, hfault⟩ := hr m _ _ hm hs
    exact ⟨hm₁, nofun, fun fault' h => Except.error.inj h ▸ hfault fault rfl⟩
  · obtain ⟨hm₁, ha, -⟩ := hr m _ _ hm hs
    exact hf a (ha a rfl) m₁ result m' hm₁ hrun

theorem Performs.print (value : Value) : Performs (fun _ => True) (print value) := by
  intro m result m' hm hrun
  cases hrun
  exact ⟨hm.congr rfl rfl, fun _ _ => trivial, nofun⟩

theorem Performs.define (name : Token) {value : Value} (h : value.Executable) :
    Performs (fun _ => True) (define name value) := by
  intro m result m' hm hrun
  cases hrun
  exact ⟨hm.define _ _ h, fun _ _ => trivial, nofun⟩

theorem Performs.close {declaration : Declaration} (h : Stmt.ExecutableAll declaration.body) :
    Performs Value.Executable (close declaration) := by
  intro m result m' hm hrun
  cases hrun
  exact ⟨hm.congr rfl rfl, fun _ hv => Except.ok.inj hv ▸ h, nofun⟩

theorem Performs.readVariable (id : NodeId) (name : Token) :
    Performs Value.Executable (readVariable id name) := by
  intro m result m' hm hrun
  rw [run_readVariable] at hrun
  cases hr : m.read? id name with
  | some value =>
      rw [hr] at hrun
      cases hrun
      obtain ⟨scope, hv⟩ := Machine.lookup?_of_read? hr
      exact ⟨hm, fun _ h => Except.ok.inj h ▸ hm.stored _ _ _ hv, nofun⟩
  | none =>
      rw [hr] at hrun
      cases hrun
      exact ⟨hm, nofun, fun _ h => Except.error.inj h ▸ trivial⟩

theorem Performs.writeVariable (id : NodeId) (name : Token) {value : Value}
    (h : value.Executable) : Performs (fun _ => True) (writeVariable id name value) := by
  intro m result m' hm hrun
  rw [run_writeVariable] at hrun
  cases ht : m.target? id name with
  | some scope =>
      rw [ht] at hrun
      cases hrun
      exact ⟨hm.define _ _ h, fun _ _ => trivial, nofun⟩
  | none =>
      rw [ht] at hrun
      cases hrun
      exact ⟨hm, nofun, fun _ h => Except.error.inj h ▸ trivial⟩

theorem Performs.entering (parent : ScopeId) {bindings : List (Token × Value)}
    (hb : ∀ b ∈ bindings, b.2.Executable) {body : Run α} (h : Performs good body) :
    Performs good (enterScope parent bindings >>= fun s => within s body) := by
  intro m result m' hm hrun
  rw [run_entering] at hrun
  obtain ⟨⟨result₁, m₁⟩, hbody, ho⟩ := Option.map_eq_some_iff.mp hrun
  cases ho
  obtain ⟨hm₁, hrest⟩ := h _ _ _ (hm.entered parent hb) hbody
  exact ⟨hm₁.congr rfl rfl, hrest⟩

theorem Performs.enteringBlock {body : Run α} (h : Performs good body) :
    Performs good (enterBlock >>= fun s => within s body) := by
  intro m result m' hm hrun
  rw [run_enteringBlock, ← run_entering] at hrun
  exact Performs.entering m.current (List.forall_mem_nil _) h m result m' hm hrun

/-- The operators with one operand are the two that are read. -/
theorem Performs.applyUnary {operator : Token}
    (h : operator.kind = .bang ∨ operator.kind = .minus) (operand : Value) :
    Performs Value.Executable (applyUnary operator operand) := by
  rw [applyUnary.eq_def]
  rcases h with h | h <;> rw [h]
  · exact .pure trivial
  · cases operand with
    | number value => exact .pure trivial
    | _ => exact .fail _ trivial

/-- The other operators that are read are for numbers. -/
theorem Performs.applyNumeric {operator : Token} (h : operator.kind ∈ Token.Kind.binary)
    (hplus : operator.kind ≠ .plus) (hequal : operator.kind ≠ .equalEqual)
    (hunequal : operator.kind ≠ .bangEqual) (a b : Float) :
    Performs Value.Executable (applyNumeric operator a b) := by
  rw [Run.applyNumeric]
  split
  case h_8 =>
    simp only [Token.Kind.binary, List.mem_cons, List.not_mem_nil] at h
    grind
  all_goals exact .pure trivial

theorem Performs.applyBinary {operator : Token} (h : operator.kind ∈ Token.Kind.binary)
    (left right : Value) : Performs Value.Executable (applyBinary operator left right) := by
  rw [applyBinary.eq_def]
  split
  · exact .pure trivial
  · exact .pure trivial
  · exact .fail _ trivial
  · exact .pure trivial
  · exact .pure trivial
  · exact .applyNumeric h (by grind) (by assumption) (by assumption) _ _
  · exact .fail _ trivial

theorem Performs.checkArity (expected given : Nat) (paren : Token) :
    Performs (fun _ => given = expected) (checkArity expected given paren) := by
  rw [Run.checkArity]
  split
  · exact .pure ‹_›
  · exact .fail _ trivial

theorem Performs.applyNative (serial : Nat) {arguments : List Value}
    (h : ∀ a ∈ arguments, a.Executable) (paren : Token) :
    Performs Value.Executable (applyNative serial arguments paren) := by
  have hget : Performs Machine.Executable (get : Run Machine) := .of_ok fun m hm => ⟨m, rfl, hm⟩
  refine hget.bind fun m hm => ?_
  split
  · exact .fail _ trivial
  · rename_i native hn
    split
    · exact .pure ((hm.natives native (Array.mem_of_getElem? hn)).executable ‹_› h)
    · exact .fail _ trivial

end Rules

/-! ## Rule by rule -/

/-- With so much fuel what is executable is carried out. -/
structure Performing (n : Nat) : Prop where
  evaluate : ∀ e, e.Executable → Performs Value.Executable (evaluate n e)
  evaluateAll : ∀ es, Expr.ExecutableAll es →
    Performs (fun values => ∀ v ∈ values, v.Executable) (evaluateAll n es)
  call : ∀ callee paren arguments, callee.Executable → (∀ a ∈ arguments, a.Executable) →
    Performs Value.Executable (call n callee paren arguments)
  execute : ∀ s, s.Executable → Performs Completion.Executable (execute n s)
  executeAll : ∀ body, Stmt.ExecutableAll body →
    Performs Completion.Executable (executeAll n body)
  loop : ∀ condition body, condition.Executable → body.Executable →
    Performs Completion.Executable (loop n condition body none)

section Steps

variable {n : Nat} (ih : Performing n)
include ih

theorem evaluate_performs {e : Expr} (he : e.Executable) :
    Performs Value.Executable (evaluate (n + 1) e) := by
  cases e with
  | literal value => exact .pure value.simple_value.executable
  | group inner => exact ih.evaluate inner (Part.executables_cons.mp he).2
  | unary operator operand =>
      obtain ⟨hknown, ho⟩ := Part.executables_cons.mp he
      exact (ih.evaluate operand ho).bind fun value _ => .applyUnary hknown value
  | binary left operator right =>
      obtain ⟨hknown, hparts⟩ := Part.executables_cons.mp he
      obtain ⟨hl, hr⟩ := Part.executables_append.mp hparts
      exact (ih.evaluate left hl).bind fun a _ => (ih.evaluate right hr).bind fun b _ =>
        .applyBinary hknown a b
  | logical left operator right =>
      obtain ⟨hl, hr⟩ := Part.executables_append.mp (Part.executables_cons.mp he).2
      refine (ih.evaluate left hl).bind fun a ha => ?_
      split
      · exact .pure ha
      · exact ih.evaluate right hr
  | «variable» id name => exact .readVariable id name
  | assign id name value =>
      exact (ih.evaluate value (Part.executables_cons.mp he).2).bind fun v hv =>
        (Performs.writeVariable id name hv).bind fun _ _ => .pure hv
  | call callee paren arguments =>
      obtain ⟨hc, ha⟩ := Part.executables_append.mp (Part.executables_cons.mp he).2
      exact (ih.evaluate callee hc).bind fun v hv =>
        (ih.evaluateAll arguments ha).bind fun vs hvs => ih.call v paren vs hv hvs

theorem evaluateAll_performs {es : List Expr} (hes : Expr.ExecutableAll es) :
    Performs (fun values => ∀ v ∈ values, v.Executable) (evaluateAll (n + 1) es) := by
  cases es with
  | nil => exact .pure (List.forall_mem_nil _)
  | cons first rest =>
      obtain ⟨hf, hr⟩ := Part.executables_append.mp hes
      exact (ih.evaluate first hf).bind fun v hv => (ih.evaluateAll rest hr).bind fun vs hvs =>
        .pure (List.forall_mem_cons.mpr ⟨hv, hvs⟩)

theorem call_performs {callee : Value} (hc : callee.Executable) (paren : Token)
    {arguments : List Value} (ha : ∀ a ∈ arguments, a.Executable) :
    Performs Value.Executable (call (n + 1) callee paren arguments) := by
  cases callee with
  | function serial declaration closure =>
      refine (Performs.checkArity _ _ _).bind fun _ _ => ?_
      have hb : ∀ b ∈ declaration.params.zip arguments, b.2.Executable :=
        fun b hb => ha b.2 (List.of_mem_zip hb).2
      have hbody := Performs.entering closure hb (ih.executeAll declaration.body hc)
      have hcall := hbody.bind fun completion h => Performs.pure h.value
      rwa [bind_assoc] at hcall
  | native serial name arity =>
      exact (Performs.checkArity _ _ _).bind fun _ _ => .applyNative serial ha paren
  | _ => exact .fail _ trivial

theorem execute_performs {s : Stmt} (hs : s.Executable) :
    Performs Completion.Executable (execute (n + 1) s) := by
  have hnormal : Completion.normal.Executable := List.forall_mem_nil _
  have hparts : Part.Executables s.parts.tail :=
    fun part hmem => hs part (List.mem_of_mem_tail hmem)
  cases s with
  | expression value => exact (ih.evaluate value hparts).bind fun _ _ => .pure hnormal
  | print value =>
      exact (ih.evaluate value hparts).bind fun v _ => (Performs.print v).bind fun _ _ =>
        .pure hnormal
  | var name initializer =>
      cases initializer with
      | none =>
          have hnil : Value.nil.Executable := trivial
          exact (Performs.define name hnil).bind fun _ _ => .pure hnormal
      | some initializer =>
          exact (ih.evaluate initializer hparts).bind fun v hv =>
            (Performs.define name hv).bind fun _ _ => .pure hnormal
  | block body => exact .enteringBlock (ih.executeAll body hparts)
  | ifThen condition thenBranch elseBranch =>
      obtain ⟨hc, hthen, helse⟩ := hs.ofIf
      refine (ih.evaluate condition hc).bind fun value _ => ?_
      split
      · exact ih.execute thenBranch hthen.2
      · split
        · exact ih.execute _ (helse _ rfl).2
        · exact .pure hnormal
  | whileLoop condition body =>
      obtain ⟨hc, hbody⟩ := hs.ofWhile
      exact ih.loop condition body hc hbody.2
  | forLoop initializer condition increment body => exact hs.not_for.elim
  | function name params body =>
      have hclose : Performs Value.Executable (close ⟨name, params, body⟩) := .close hparts
      exact hclose.bind fun v hv => (Performs.define name hv).bind fun _ _ => .pure hnormal
  | ret keyword value =>
      cases value with
      | none =>
          have hnil : Value.nil.Executable := trivial
          exact .pure (Completion.executable_returned hnil)
      | some value =>
          exact (ih.evaluate value hparts).bind fun v hv =>
            .pure (Completion.executable_returned hv)

theorem executeAll_performs {body : List Stmt} (hb : Stmt.ExecutableAll body) :
    Performs Completion.Executable (executeAll (n + 1) body) := by
  cases body with
  | nil => exact .pure (List.forall_mem_nil _)
  | cons first rest =>
      obtain ⟨hf, hr⟩ := Part.executables_append.mp hb
      refine (ih.execute first hf).bind fun completion hcompletion => ?_
      cases completion with
      | returned value => exact .pure hcompletion
      | normal => exact ih.executeAll rest hr

theorem loop_performs {condition : Expr} (hc : condition.Executable) {body : Stmt}
    (hb : body.Executable) :
    Performs Completion.Executable (loop (n + 1) condition body none) := by
  refine (ih.evaluate condition hc).bind fun value _ => ?_
  split
  · refine (ih.execute body hb).bind fun completion hcompletion => ?_
    cases completion with
    | returned value => exact .pure hcompletion
    | normal => exact ih.loop condition body hc hb
  · exact .pure (List.forall_mem_nil _)

end Steps

theorem performing (n : Nat) : Performing n := by
  induction n with
  | zero =>
      exact ⟨fun _ _ => .exhausted, fun _ _ => .exhausted, fun _ _ _ _ _ => .exhausted,
        fun _ _ => .exhausted, fun _ _ => .exhausted, fun _ _ _ _ => .exhausted⟩
  | succ n ih =>
      exact ⟨fun _ => evaluate_performs ih, fun _ => evaluateAll_performs ih,
        fun _ paren _ hc ha => call_performs ih hc paren ha, fun _ => execute_performs ih,
        fun _ => executeAll_performs ih, fun _ _ hc hb => loop_performs ih hc hb⟩

theorem program_performs (n : Nat) {body : List Stmt} (hb : Stmt.ExecutableAll body) :
    Performs (fun _ => True) (program n body) := by
  induction body with
  | nil => exact .pure trivial
  | cons first rest ih =>
      obtain ⟨hf, hr⟩ := Part.executables_append.mp hb
      refine ((performing n).execute first hf).bind fun completion _ => ?_
      cases completion with
      | returned value => exact .pure trivial
      | normal => exact ih hr

end Run

end Lox
