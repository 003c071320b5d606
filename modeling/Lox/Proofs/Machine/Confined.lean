import Lox.Proofs.Parser.Parts
import Lox.Proofs.Rooted
import Lox.Proofs.Scoping.Places
import Mathlib.Logic.Relation

/-!
# What a statement does to the scopes that are there

A statement binds names in the scope in force only by declaring them itself. All else that
is declared on the way is declared in a block or a call, and there the scope in force is a
new one. What is left are the assignments, which change the values of variables that are
there already.

Of a name in a scope that is there before a job, the contract of the job says that it is
bound behind the job just if it was bound before, and that its value is the same unless an
assignment to this very name and scope was come to on the way.
-/

namespace Lox

open Relation

/-- On the way from the moment an assignment gives the name in the scope its value. -/
def Moment.Writes (p : Moment) (scope : ScopeId) (name : String) : Prop :=
  ∃ (q : Moment) (id : NodeId) (token : Token) (e : Expr) (value : Value) (m : Machine),
    ReflTransGen Enters p q ∧ q.job = .evaluate (.assign id token e) ∧
      (Job.evaluate e).Gives q.machine value m ∧ m.target? id token = some scope ∧
      token.lexeme = name

theorem Moment.Writes.enter {p q : Moment} {scope : ScopeId} {name : String}
    (h : q.Writes scope name) (hpq : Enters p q) : p.Writes scope name := by
  obtain ⟨r, id, token, e, value, m, hr, hrest⟩ := h
  exact ⟨r, id, token, e, value, m, .head hpq hr, hrest⟩

/-- A name in a scope stays bound or unbound, and if its value changes then something is so. -/
structure Machine.Leaves (scope : ScopeId) (name : String) (W : Prop) (m m' : Machine) : Prop where
  size : m.store.size ≤ m'.store.size
  current : m'.current = m.current
  bound : (m'.store.lookup? scope name).isSome = (m.store.lookup? scope name).isSome
  value : m'.store.lookup? scope name = m.store.lookup? scope name ∨ W

namespace Machine.Leaves

variable {scope : ScopeId} {name : String} {W W' : Prop} {m m₁ m' : Machine}

/-- The scopes are not touched. -/
theorem of_store (hs : m'.store = m.store) (hc : m'.current = m.current) :
    Leaves scope name W m m' :=
  ⟨Nat.le_of_eq (congrArg Store.size hs).symm, hc, by rw [hs], .inl (by rw [hs])⟩

theorem refl (m : Machine) : Leaves scope name W m m := .of_store rfl rfl

theorem trans (h : Leaves scope name W m m₁) (h' : Leaves scope name W m₁ m') :
    Leaves scope name W m m' where
  size := Nat.le_trans h.size h'.size
  current := h'.current.trans h.current
  bound := h'.bound.trans h.bound
  value := by
    rcases h'.value with heq | hw
    · exact heq ▸ h.value
    · exact .inr hw

theorem mono (h : Leaves scope name W m m') (hW : W → W') : Leaves scope name W' m m' :=
  ⟨h.size, h.current, h.bound, h.value.imp_right hW⟩

/-- Another name is bound, or the name in another scope. -/
theorem define {s : ScopeId} {n : String} (hne : ¬ (scope = s ∧ name = n)) (value : Value) :
    Leaves scope name W m { m with store := m.store.define s n value } := by
  have hsame : (m.store.define s n value).lookup? scope name = m.store.lookup? scope name := by
    rw [Store.lookup?_define, if_neg fun h => hne ⟨h.1, h.2.1⟩]
  exact ⟨Nat.le_of_eq (Store.size_define ..).symm, rfl, congrArg Option.isSome hsame, .inl hsame⟩

/-- A name that is bound gets another value. -/
theorem write {s : ScopeId} {n : String} (hbound : (m.store.lookup? s n).isSome)
    (hW : s = scope → n = name → W) (value : Value) :
    Leaves scope name W m { m with store := m.store.define s n value } := by
  by_cases h : scope = s ∧ name = n
  · obtain ⟨rfl, rfl⟩ := h
    refine ⟨Nat.le_of_eq (Store.size_define ..).symm, rfl, ?_, .inr (hW rfl rfl)⟩
    rw [Store.lookup?_define]
    split
    · exact hbound.symm
    · rfl
  · exact .define h value

/-- Into a new scope, through what is left there, and back. -/
theorem leave {parent : ScopeId} {bindings : List (Token × Value)} (hs : scope < m.store.size)
    (h : Leaves scope name W (m.entered parent bindings) m') :
    Leaves scope name W m { m' with current := m.current } := by
  have hsame : (m.entered parent bindings).store.lookup? scope name =
      m.store.lookup? scope name := by
    rw [store_entered, Store.lookup?_defineAll_of_ne (Nat.ne_of_lt hs), Store.lookup?_push]
  have hsize : m.store.size ≤ (m.entered parent bindings).store.size :=
    (Grows.entered m parent bindings).size
  exact ⟨Nat.le_trans hsize h.size, rfl, h.bound.trans (congrArg Option.isSome hsame),
    hsame ▸ h.value⟩

end Machine.Leaves

open Machine

namespace Run

variable {α β : Type} {scope : ScopeId} {name : String} {W W' : Prop} {m : Machine}

/-- From this machine the run leaves the name in the scope as it is, or something is so. -/
def Spares (scope : ScopeId) (name : String) (W : Prop) (m : Machine) (r : Run α) : Prop :=
  ∀ result m', r.run m = some (result, m') → Leaves scope name W m m'

section Rules

theorem Spares.exhausted : Spares scope name W m (exhausted : Run α) := fun _ _ h => nomatch h

theorem Spares.mono {r : Run α} (h : Spares scope name W m r) (hW : W → W') :
    Spares scope name W' m r :=
  fun result m' hrun => (h result m' hrun).mono hW

/-- A run that leaves the machine as it is. -/
theorem Spares.of_asks {r : Run α} {P : α → Prop} (h : r.Asks m P) : Spares scope name W m r := by
  intro result m' hrun
  rcases h with ⟨a, ha, -⟩ | ⟨fault, hf⟩
  · cases ha.symm.trans hrun
    exact .refl m
  · cases hf.symm.trans hrun
    exact .refl m

theorem Spares.pure (a : α) : Spares scope name W m (pure a : Run α) :=
  .of_asks (P := fun _ => True) (.pure trivial)

/-- The second run begins where the first has ended. -/
theorem Spares.bind {r : Run α} {f : α → Run β} (hr : Spares scope name W m r)
    (hf : ∀ a m₁, r.run m = some (.ok a, m₁) → Leaves scope name W m m₁ →
      Spares scope name W m₁ (f a)) : Spares scope name W m (r >>= f) := by
  intro result m' h
  rw [run_bind] at h
  rcases hs : r.run m with _ | ⟨fault | a, m₁⟩ <;> rw [hs] at h
  · cases h
  · cases h
    exact hr _ _ hs
  · have hfirst := hr _ _ hs
    exact hfirst.trans (hf a m₁ hs hfirst result m' h)

/-- A question first. -/
theorem Spares.asking {r : Run α} {f : α → Run β} {P : α → Prop} (hr : r.Asks m P)
    (hf : ∀ a, P a → Spares scope name W m (f a)) : Spares scope name W m (r >>= f) := by
  intro result m' h
  rw [run_bind] at h
  rcases hr with ⟨a, ha, hP⟩ | ⟨fault, hfault⟩
  · rw [ha] at h
    exact hf a hP result m' h
  · rw [hfault] at h
    cases h
    exact .refl m

theorem Spares.print (value : Value) : Spares scope name W m (print value) := by
  intro result m' h
  cases h
  exact .of_store rfl rfl

theorem Spares.close (declaration : Declaration) :
    Spares scope name W m (close declaration) := by
  intro result m' h
  cases h
  exact .of_store rfl rfl

theorem Spares.define {token : Token} (hne : ¬ (scope = m.current ∧ name = token.lexeme))
    (value : Value) : Spares scope name W m (define token value) := by
  intro result m' h
  cases h
  exact .define hne value

theorem Spares.writeVariable {id : NodeId} {token : Token}
    (hW : m.target? id token = some scope → token.lexeme = name → W) (value : Value) :
    Spares scope name W m (writeVariable id token value) := by
  intro result m' h
  rw [run_writeVariable] at h
  cases ht : m.target? id token with
  | none =>
      rw [ht] at h
      cases h
      exact .refl m
  | some s =>
      rw [ht] at h
      cases h
      exact .write (isSome_of_target? ht) (fun hs => hW (ht.trans (congrArg some hs))) value

theorem Spares.entering (hs : scope < m.store.size) (parent : ScopeId)
    (bindings : List (Token × Value)) {body : Run α}
    (h : Spares scope name W (m.entered parent bindings) body) :
    Spares scope name W m (enterScope parent bindings >>= fun s => within s body) := by
  intro result m' hrun
  rw [run_entering] at hrun
  obtain ⟨⟨result₁, m₁⟩, hbody, ho⟩ := Option.map_eq_some_iff.mp hrun
  cases ho
  exact (h _ _ hbody).leave hs

theorem Spares.enteringBlock (hs : scope < m.store.size) {body : Run α}
    (h : Spares scope name W (m.entered m.current []) body) :
    Spares scope name W m (enterBlock >>= fun s => within s body) := by
  intro result m' hrun
  rw [run_enteringBlock, ← run_entering] at hrun
  exact h.entering hs m.current [] result m' hrun

end Rules

/-! ## Rule by rule -/

end Run

/-- A statement that declares nothing under the name, and nothing below a condition. -/
def Stmt.Sparing (s : Stmt) (name : String) : Prop :=
  s.Executable ∧ name ∉ s.declares.map Prod.fst

theorem Stmt.ExecutableBranch.sparing {s : Stmt} (h : s.ExecutableBranch) (name : String) :
    s.Sparing name :=
  ⟨h.2, by rw [declares_of_plain h.1]; exact List.not_mem_nil⟩

namespace Run

/-- With so much fuel a name in a scope that is there is spared, unless it is the scope in force
and declarations are run there. -/
structure Sparing (scope : ScopeId) (name : String) (n : Nat) : Prop where
  evaluate : ∀ e m held, scope < m.store.size →
    Spares scope name (Moment.Writes ⟨.evaluate e, m, held⟩ scope name) m (evaluate n e)
  evaluateAll : ∀ es m held, scope < m.store.size →
    Spares scope name (Moment.Writes ⟨.evaluateAll es, m, held⟩ scope name) m (evaluateAll n es)
  call : ∀ callee paren arguments m held, scope < m.store.size →
    Spares scope name (Moment.Writes ⟨.call callee paren arguments, m, held⟩ scope name) m
      (call n callee paren arguments)
  execute : ∀ s m held, scope < m.store.size → (scope = m.current → s.Sparing name) →
    Spares scope name (Moment.Writes ⟨.execute s, m, held⟩ scope name) m (execute n s)
  executeAll : ∀ body m held, scope < m.store.size → scope ≠ m.current →
    Spares scope name (Moment.Writes ⟨.executeAll body, m, held⟩ scope name) m
      (executeAll n body)
  loop : ∀ condition body increment m held, scope < m.store.size →
    (scope = m.current → body.ExecutableBranch) →
    Spares scope name (Moment.Writes ⟨.loop condition body increment, m, held⟩ scope name) m
      (loop n condition body increment)

section Steps

variable {scope : ScopeId} {name : String} {n : Nat} (ih : Sparing scope name n) {m : Machine}
  (hs : scope < m.store.size) (held : List Value)
include ih hs

theorem evaluate_spares (e : Expr) :
    Spares scope name (Moment.Writes ⟨.evaluate e, m, held⟩ scope name) m
      (evaluate (n + 1) e) := by
  cases e with
  | literal value => exact .pure _
  | group inner => exact (ih.evaluate inner m held hs).mono (·.enter .group)
  | unary operator operand =>
      exact ((ih.evaluate operand m held hs).mono (·.enter .operand)).bind fun v m₁ _ _ =>
        .of_asks (applyUnary_asks operator v m₁)
  | binary left operator right =>
      refine ((ih.evaluate left m held hs).mono (·.enter .left)).bind fun a m₁ ha hl => ?_
      have hr := ih.evaluate right m₁ (a :: held) (Nat.lt_of_lt_of_le hs hl.size)
      exact (hr.mono (·.enter (.right ⟨n, ha⟩))).bind fun b m₂ _ _ =>
        .of_asks (applyBinary_asks operator a b m₂)
  | logical left operator right =>
      refine ((ih.evaluate left m held hs).mono (·.enter .deciding)).bind fun a m₁ ha hl => ?_
      split
      · exact .pure a
      · rename_i hd
        have hr := ih.evaluate right m₁ held (Nat.lt_of_lt_of_le hs hl.size)
        exact hr.mono (·.enter (.undecided ⟨n, ha⟩ (Bool.eq_false_iff.mpr hd)))
  | «variable» id token => exact .of_asks (readVariable_asks id token m)
  | assign id token value =>
      refine ((ih.evaluate value m held hs).mono (·.enter .assigned)).bind fun v m₁ hv _ => ?_
      exact (Spares.writeVariable (fun ht hname =>
        ⟨_, id, token, value, v, m₁, .refl, rfl, ⟨n, hv⟩, ht, hname⟩) v).bind fun _ _ _ _ =>
          .pure v
  | call callee paren arguments =>
      refine ((ih.evaluate callee m held hs).mono (·.enter .callee)).bind fun v m₁ hv hl => ?_
      have hs₁ := Nat.lt_of_lt_of_le hs hl.size
      have ha := ih.evaluateAll arguments m₁ (v :: held) hs₁
      refine (ha.mono (·.enter (.arguments ⟨n, hv⟩))).bind fun vs m₂ hvs hl' => ?_
      have hc := ih.call v paren vs m₂ held (Nat.lt_of_lt_of_le hs₁ hl'.size)
      exact hc.mono (·.enter (.call ⟨n, hv⟩ ⟨n, hvs⟩))

theorem evaluateAll_spares (es : List Expr) :
    Spares scope name (Moment.Writes ⟨.evaluateAll es, m, held⟩ scope name) m
      (evaluateAll (n + 1) es) := by
  cases es with
  | nil => exact .pure _
  | cons first rest =>
      refine ((ih.evaluate first m held hs).mono (·.enter .firstArgument)).bind
        fun v m₁ hv hl => ?_
      have hr := ih.evaluateAll rest m₁ (v :: held) (Nat.lt_of_lt_of_le hs hl.size)
      exact (hr.mono (·.enter (.moreArguments ⟨n, hv⟩))).bind fun _ _ _ _ => .pure _

/-- The body of a function is run in a new scope. -/
theorem call_spares (callee : Value) (paren : Token) (arguments : List Value) :
    Spares scope name (Moment.Writes ⟨.call callee paren arguments, m, held⟩ scope name) m
      (call (n + 1) callee paren arguments) := by
  cases callee with
  | function serial declaration closure =>
      refine .asking (checkArity_asks _ _ paren m) fun _ harity => ?_
      have hin := Nat.lt_of_lt_of_le hs
        (Grows.entered m closure (declaration.params.zip arguments)).size
      have hbody := ih.executeAll declaration.body _
        (.function serial declaration closure :: held) hin (Nat.ne_of_lt hs)
      have hall : Spares scope name (Moment.Writes ⟨.call _ paren arguments, m, held⟩ scope name)
          _ (executeAll n declaration.body) := hbody.mono (·.enter (.callBody harity))
      have hcall := (hall.entering hs closure _).bind fun completion _ _ _ =>
        .pure completion.value
      rwa [bind_assoc] at hcall
  | native serial name' arity =>
      exact .asking (checkArity_asks _ _ paren m) fun _ _ =>
        .of_asks (applyNative_asks serial arguments paren m)
  | _ => exact .of_asks (P := fun _ => False) (.fail _ paren)

/-- What stands below a condition in the scope in force declares nothing there. -/
theorem ifThen_spares (condition : Expr) (thenBranch : Stmt) (elseBranch : Option Stmt)
    (hbranches : scope = m.current → thenBranch.ExecutableBranch ∧
      ∀ s ∈ elseBranch, s.ExecutableBranch) :
    Spares scope name
      (Moment.Writes ⟨.execute (.ifThen condition thenBranch elseBranch), m, held⟩ scope name) m
      (execute (n + 1) (.ifThen condition thenBranch elseBranch)) := by
  refine ((ih.evaluate condition m held hs).mono (·.enter .condition)).bind fun v m₁ hv hl => ?_
  have hs₁ := Nat.lt_of_lt_of_le hs hl.size
  split
  · rename_i ht
    have hthen := ih.execute thenBranch m₁ held hs₁
      fun hc => (hbranches (hc.trans hl.current)).1.sparing name
    exact hthen.mono (·.enter (.within (.thenBranch ⟨n, hv⟩ ht)))
  · rename_i ht
    cases elseBranch with
    | none => exact .pure _
    | some s =>
        have helse := ih.execute s m₁ held hs₁
          fun hc => ((hbranches (hc.trans hl.current)).2 s rfl).sparing name
        exact helse.mono (·.enter (.within (.elseBranch ⟨n, hv⟩ (Bool.eq_false_iff.mpr ht))))

/-- In the scope in force there is no such loop, and the scope of its own is a new one. -/
theorem forLoop_spares (initializer : Option Stmt) (condition increment : Option Expr)
    (body : Stmt) (hne : scope ≠ m.current) :
    Spares scope name
      (Moment.Writes ⟨.execute (.forLoop initializer condition increment body), m, held⟩ scope
        name) m
      (execute (n + 1) (.forLoop initializer condition increment body)) := by
  cases initializer with
  | none =>
      have hloop := ih.loop (Stmt.loopCondition condition) body increment m held hs
        fun hc => absurd hc hne
      exact hloop.mono (·.enter (.within .forLoop))
  | some initializer =>
      have hin := Nat.lt_of_lt_of_le hs (Grows.entered m m.current []).size
      have hnew : scope ≠ (m.entered m.current []).current := Nat.ne_of_lt hs
      have hi := ih.execute initializer (m.entered m.current []) held hin fun hc => absurd hc hnew
      refine .enteringBlock hs ((hi.mono (·.enter (.within .initializer))).bind
        fun completion m₁ hc hl => ?_)
      cases completion with
      | returned value => exact .pure _
      | normal =>
          have hloop := ih.loop (Stmt.loopCondition condition) body increment m₁ held
            (Nat.lt_of_lt_of_le hin hl.size) fun h => absurd (h.trans hl.current) hnew
          exact hloop.mono (·.enter (.within (.initialized ⟨n, hc⟩)))

theorem execute_spares (s : Stmt) (hsparing : scope = m.current → s.Sparing name) :
    Spares scope name (Moment.Writes ⟨.execute s, m, held⟩ scope name) m (execute (n + 1) s) := by
  cases s with
  | expression value =>
      exact ((ih.evaluate value m held hs).mono (·.enter .value)).bind fun _ _ _ _ => .pure _
  | print value =>
      exact ((ih.evaluate value m held hs).mono (·.enter .printed)).bind fun v _ _ _ =>
        (Spares.print v).bind fun _ _ _ _ => .pure _
  | var token initializer =>
      have hne (m₁ : Machine) (hc : m₁.current = m.current) :
          ¬ (scope = m₁.current ∧ name = token.lexeme) :=
        fun h => (hsparing (h.1.trans hc)).2 (List.mem_singleton.mpr h.2)
      cases initializer with
      | none => exact (Spares.define (hne m rfl) _).bind fun _ _ _ _ => .pure _
      | some initializer =>
          exact ((ih.evaluate initializer m held hs).mono (·.enter .initialValue)).bind
            fun v m₁ _ hl => (Spares.define (hne m₁ hl.current) v).bind fun _ _ _ _ => .pure _
  | block body =>
      have hin := Nat.lt_of_lt_of_le hs (Grows.entered m m.current []).size
      have hbody := ih.executeAll body (m.entered m.current []) held hin (Nat.ne_of_lt hs)
      exact .enteringBlock hs (hbody.mono (·.enter (.within .block)))
  | ifThen condition thenBranch elseBranch =>
      exact ifThen_spares ih hs held condition thenBranch elseBranch fun hc =>
        (hsparing hc).1.ofIf.2
  | whileLoop condition body =>
      have hloop := ih.loop condition body none m held hs fun hc => (hsparing hc).1.ofWhile.2
      exact hloop.mono (·.enter (.within .whileLoop))
  | forLoop initializer condition increment body =>
      exact forLoop_spares ih hs held initializer condition increment body fun hc =>
        (hsparing hc).1.not_for
  | function token params body =>
      refine (Spares.close _).bind fun v m₁ _ hl => ?_
      have hne : ¬ (scope = m₁.current ∧ name = token.lexeme) :=
        fun h => (hsparing (h.1.trans hl.current)).2 (List.mem_singleton.mpr h.2)
      exact (Spares.define hne v).bind fun _ _ _ _ => .pure _
  | ret keyword value =>
      cases value with
      | none => exact .pure _
      | some value =>
          exact ((ih.evaluate value m held hs).mono (·.enter .returned)).bind fun _ _ _ _ =>
            .pure _

theorem executeAll_spares (body : List Stmt) (hne : scope ≠ m.current) :
    Spares scope name (Moment.Writes ⟨.executeAll body, m, held⟩ scope name) m
      (executeAll (n + 1) body) := by
  cases body with
  | nil => exact .pure _
  | cons first rest =>
      have hf := ih.execute first m held hs fun hc => absurd hc hne
      refine (hf.mono (·.enter (.within .first))).bind fun completion m₁ hc hl => ?_
      cases completion with
      | returned value => exact .pure _
      | normal =>
          have hr := ih.executeAll rest m₁ held (Nat.lt_of_lt_of_le hs hl.size)
            fun h => hne (h.trans hl.current)
          exact hr.mono (·.enter (.within (.rest ⟨n, hc⟩)))

theorem loop_spares (condition : Expr) (body : Stmt) (increment : Option Expr)
    (hbranch : scope = m.current → body.ExecutableBranch) :
    Spares scope name (Moment.Writes ⟨.loop condition body increment, m, held⟩ scope name) m
      (loop (n + 1) condition body increment) := by
  refine ((ih.evaluate condition m held hs).mono (·.enter .loopCondition)).bind
    fun v m₁ hv hl => ?_
  split
  · rename_i ht
    have hs₁ := Nat.lt_of_lt_of_le hs hl.size
    have hbody := ih.execute body m₁ held hs₁
      fun hc => (hbranch (hc.trans hl.current)).sparing name
    refine (hbody.mono (·.enter (.within (.body ⟨n, hv⟩ ht)))).bind fun completion m₂ hc hl₂ => ?_
    have hs₂ := Nat.lt_of_lt_of_le hs₁ hl₂.size
    cases completion with
    | returned value => exact .pure _
    | normal =>
        have hagain (m₃ : Machine) (hl₃ : m₃.current = m₂.current)
            (hs₃ : scope < m₃.store.size) (hstep : Stepped increment m₂ m₃) :=
          (ih.loop condition body increment m₃ held hs₃ fun h =>
            hbranch (h.trans (hl₃.trans (hl₂.current.trans hl.current)))).mono
              (·.enter (.within (.again ⟨n, hv⟩ ht ⟨n, hc⟩ hstep)))
        cases increment with
        | none => exact hagain m₂ rfl hs₂ rfl
        | some step =>
            have hr := ih.evaluate step m₂ held hs₂
            refine (hr.mono (·.enter (.increment ⟨n, hv⟩ ht ⟨n, hc⟩))).bind
              fun v' m₃ hv' hl₃ => ?_
            exact hagain m₃ hl₃.current (Nat.lt_of_lt_of_le hs₂ hl₃.size) ⟨v', n, hv'⟩
  · exact .pure _

end Steps

theorem sparing (scope : ScopeId) (name : String) (n : Nat) : Sparing scope name n := by
  induction n with
  | zero =>
      exact ⟨fun _ _ _ _ => .exhausted, fun _ _ _ _ => .exhausted, fun _ _ _ _ _ _ => .exhausted,
        fun _ _ _ _ _ => .exhausted, fun _ _ _ _ _ => .exhausted,
        fun _ _ _ _ _ _ _ => .exhausted⟩
  | succ n ih =>
      exact ⟨fun e _ held hs => evaluate_spares ih hs held e,
        fun es _ held hs => evaluateAll_spares ih hs held es,
        fun callee paren arguments _ held hs => call_spares ih hs held callee paren arguments,
        fun s _ held hs => execute_spares ih hs held s,
        fun body _ held hs => executeAll_spares ih hs held body,
        fun condition body increment _ held hs =>
          loop_spares ih hs held condition body increment⟩

end Run

/-- Scopes do not leak. A statement of a program that has been read, be it in order or not,
is executed on any machine, whatever functions are called and however it ends. In a scope
that was there before, every name that was bound is bound. No other is, but for the name
that the statement itself declares, and that in the scope in force. And unless it is this
name, a value is the same as before or an assignment to the variable was come to. -/
theorem Job.scopes_never_leak (tokens : List Token) (i : NodeId) {s : Stmt}
    (hs : .statement s ∈ Stmt.partsAll (Parsed.ofTokens tokens i).desugar.statements)
    {m m' : Machine} {result : Except Machine.Fault Completion}
    (h : (execute s).Ends m result m') :
    ∀ scope < m.store.size, ∀ name,
      ((m.store.lookup? scope name).isSome → (m'.store.lookup? scope name).isSome) ∧
      (¬ (scope = m.current ∧ name ∈ s.declares.map Prod.fst) →
        (m'.store.lookup? scope name).isSome = (m.store.lookup? scope name).isSome ∧
        (m'.store.lookup? scope name = m.store.lookup? scope name ∨
          Moment.Writes ⟨.execute s, m, []⟩ scope name)) := by
  intro scope hscope name
  refine ⟨(h.keeps kept_grows).bound scope name, fun hown => ?_⟩
  have hexec : s.Executable := fun part hpart =>
    Parsed.executable_ofTokens tokens i part (Stmt.closed_partsAll _ _ hs hpart)
  obtain ⟨n, hn⟩ := h
  have hleaves := (Run.sparing scope name n).execute s m [] hscope
    (fun hc => ⟨hexec, fun hname => hown ⟨hc, hname⟩⟩) result m' hn
  exact ⟨hleaves.bound, hleaves.value⟩

/-- A block declares a name of its own and assigns to a global variable. -/
theorem block_declares_inside :
    let tokens := Token.tokens (Token.scan "\x7b var b; a = true; \x7d")
    let m := (Machine.new (.clock 0)).register ⟨"a", 0, fun _ => .ok .nil⟩
    ∃ s ∈ (Parsed.ofTokens tokens 0).desugar.statements, ∃ m',
      (Job.execute s).Ends m (.ok .normal) m' ∧ m'.store.lookup? m.current "b" = none ∧
      Moment.Writes ⟨.execute s, m, []⟩ m.current "a" := by
  intro tokens m
  have hrun : (Parsed.ofTokens tokens 0).desugar.statements.any (fun s =>
      s.declares.isEmpty && ((Run.execute 20 s).run m).any fun o =>
        (o.1.toOption.any fun completion => completion.values.isEmpty) &&
          (o.2.store.lookup? m.current "a").any fun v => v.signature?.isNone) = true := by
    decide +kernel
  simp only [List.any_eq_true, Option.any_eq_true, Bool.and_eq_true, List.isEmpty_iff] at hrun
  obtain ⟨s, hs, hplain, ⟨result, m'⟩, hm, ⟨completion, hok, hnormal⟩, v, hv, hvalue⟩ := hrun
  obtain rfl : result = .ok .normal := by
    cases result with
    | error fault => cases hok
    | ok c =>
        cases hok
        cases completion with
        | normal => rfl
        | returned => cases hnormal
  have hends : (Job.execute s).Ends m (.ok .normal) m' := ⟨20, hm⟩
  have hleak := Job.scopes_never_leak tokens 0 (Stmt.mem_partsAll hs) hends m.current (by decide)
  have hown (name : String) : ¬ (m.current = m.current ∧ name ∈ s.declares.map Prod.fst) := by
    rw [hplain]
    exact fun h => List.not_mem_nil h.2
  have hold : (m.store.lookup? m.current "a").any (fun v => v.signature?.isSome) = true := by
    decide +kernel
  refine ⟨s, hs, m', hends, ?_, ((hleak "a").2 (hown "a")).2.resolve_left fun hsame => ?_⟩
  · have hb := ((hleak "b").2 (hown "b")).1
    rw [show (m.store.lookup? m.current "b").isSome = false by decide +kernel] at hb
    exact Option.not_isSome_iff_eq_none.mp (Bool.eq_false_iff.mp hb)
  · rw [← hsame, hv, Option.any_some, Option.isSome_eq_false_iff.mpr hvalue] at hold
    cases hold

end Lox
