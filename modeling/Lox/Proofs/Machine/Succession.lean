import Lox.Proofs.Machine.Returns

/-!
# One thing after the other

What a job does as its parts it does one after the other: of two different ones, one has
ended before the other begins. The machine counts the functions that are made and never
counts back, so the counter tells the times apart: an execution of a function declaration
that is come to finds a count that no other one finds.
-/

namespace Lox

open Job Relation

theorem Machine.kept_functions : Kept fun m m' => m.functions ≤ m'.functions where
  refl _ := Nat.le_refl _
  trans h h' := Nat.le_trans h h'
  print _ _ := Nat.le_refl _
  define _ _ _ := Nat.le_refl _
  write _ _ _ _ _ := Nat.le_refl _
  close _ := Nat.le_succ _
  leave _ _ _ _ h := h

namespace Job

variable {β : Type} {t : Job} {m m₁ m₂ m' : Machine} {n : Nat}

theorem Ends.succ {result : Except Machine.Fault t.Result} (h : t.Ends m result m') :
    ∃ n, (t.run (n + 1)).run m = some (result, m') := by
  obtain ⟨n, hn⟩ := h
  exact ⟨n, run_extends (Nat.le_succ n) t _ _ hn⟩

/-- From one machine a job ends in one way. -/
theorem Ends.unique {result result' : Except Machine.Fault t.Result} (h : t.Ends m result m₁)
    (h' : t.Ends m result' m₂) : result = result' ∧ m₁ = m₂ := by
  obtain ⟨n, hn, hn'⟩ := h.both h'
  exact Prod.mk.inj (Option.some.inj (hn.symm.trans hn'))

theorem Gives.unique {a b : t.Result} (h : t.Gives m a m₁) (h' : t.Gives m b m₂) :
    a = b ∧ m₁ = m₂ := by
  obtain ⟨heq, hm⟩ := Ends.unique h h'
  exact ⟨Except.ok.inj heq, hm⟩

/-- What comes behind a job that gives a result. -/
theorem Gives.behind {f : t.Result → Run β} {a : t.Result} {o : Except Machine.Fault β × Machine}
    (h : t.Gives m a m₁) (hrun : (t.run n >>= f).run m = some o) : (f a).run m₁ = some o := by
  rw [run_bind] at hrun
  rcases hs : (t.run n).run m with _ | ⟨result, m₂⟩ <;> rw [hs] at hrun
  · cases hrun
  · obtain ⟨rfl, rfl⟩ := Ends.unique ⟨n, hs⟩ h
    exact hrun

end Job

/-- The job ends, and then no more functions have been made than that. -/
def Moment.EndsBy (p : Moment) (k : Nat) : Prop :=
  ∃ result m', p.job.Ends p.machine result m' ∧ m'.functions ≤ k

section Parts

variable {β : Type} {t : Job} {m m₁ m' : Machine} {n k : Nat} {held : List Value}

theorem Job.Ends.endsBy {result : Except Machine.Fault t.Result} (h : t.Ends m result m')
    (hk : m'.functions ≤ k) : Moment.EndsBy ⟨t, m, held⟩ k := ⟨result, m', h, hk⟩

/-- The job that a run begins with has ended when the run has. -/
theorem Job.endsBy_of_bind {f : t.Result → Run β} {result : Except Machine.Fault β}
    (hrun : (t.run n >>= f).run m = some (result, m')) (hk : m'.functions ≤ k)
    (hf : ∀ a, Run.Keeps (fun m m' => m.functions ≤ m'.functions) (f a)) :
    Moment.EndsBy ⟨t, m, held⟩ k := by
  rw [run_bind] at hrun
  rcases hs : (t.run n).run m with _ | ⟨fault | a, m₁⟩ <;> rw [hs] at hrun
  · cases hrun
  · cases hrun
    exact Ends.endsBy ⟨n, hs⟩ hk
  · exact Ends.endsBy ⟨n, hs⟩ (Nat.le_trans (hf a m₁ _ _ hrun) hk)

open Run

/-- In a block that ends, what stands there has ended. -/
theorem Run.ends_inside {body : Run β} {o : Except Machine.Fault β × Machine}
    (h : (enterBlock >>= fun s => within s body).run m = some o) :
    ∃ m₁, body.run (m.entered m.current []) = some (o.1, m₁) ∧
      o.2 = { m₁ with current := m.current } := by
  obtain ⟨⟨result, m₁⟩, hbody, rfl⟩ :=
    Option.map_eq_some_iff.mp ((run_enteringBlock body m).symm.trans h)
  exact ⟨m₁, hbody, rfl⟩

/-- What is done as a part ends as soon as the whole does. -/
theorem Within.endsBy {p q : Moment} (h : Within p q) (hp : p.EndsBy k) : q.EndsBy k := by
  obtain ⟨result, m', hends, hk⟩ := hp
  obtain ⟨n, hn⟩ := hends.succ
  have hR := Machine.kept_functions
  have hkeeps := keeping hR n
  cases h with
  | @first s rest m held =>
      refine endsBy_of_bind (t := .execute s) hn hk fun completion => ?_
      cases completion with
      | normal => exact hkeeps.executeAll rest
      | returned value => exact .pure hR _
  | rest hfirst => exact Ends.endsBy ⟨n, hfirst.behind hn⟩ hk
  | block =>
      obtain ⟨m₁, hbody, rfl⟩ := Run.ends_inside hn
      exact Ends.endsBy ⟨n, hbody⟩ hk
  | thenBranch hcondition ht =>
      have hbranch := hcondition.behind hn
      rw [if_pos ht] at hbranch
      exact Ends.endsBy ⟨n, hbranch⟩ hk
  | elseBranch hcondition ht =>
      have hbranch := hcondition.behind hn
      rw [if_neg (Bool.eq_false_iff.mp ht)] at hbranch
      exact Ends.endsBy ⟨n, hbranch⟩ hk
  | whileLoop | forLoop => exact Ends.endsBy ⟨n, hn⟩ hk
  | @initializer s body condition increment m held =>
      obtain ⟨m₁, hbody, rfl⟩ := Run.ends_inside hn
      refine endsBy_of_bind (t := .execute s) hbody hk fun completion => ?_
      cases completion with
      | normal => exact hkeeps.loop _ _ _
      | returned value => exact .pure hR _
  | initialized hs =>
      obtain ⟨m₁, hbody, rfl⟩ := Run.ends_inside hn
      exact Ends.endsBy ⟨n, hs.behind hbody⟩ hk
  | @body condition body increment value m m₁ held hcondition ht =>
      have hround := hcondition.behind hn
      rw [if_pos ht] at hround
      refine endsBy_of_bind (t := .execute body) hround hk fun completion => ?_
      cases completion with
      | returned value => exact .pure hR _
      | normal =>
          cases increment with
          | none => exact hkeeps.loop _ _ _
          | some step => exact (hkeeps.evaluate step).bind hR fun _ => hkeeps.loop _ _ _
  | @again condition body increment value m m₁ m₂ m₃ held hcondition ht hbody hstep =>
      have hround := hcondition.behind hn
      rw [if_pos ht] at hround
      have hrest := hbody.behind hround
      cases increment with
      | none =>
          cases (hstep : m₃ = m₂)
          exact Ends.endsBy ⟨n, hrest⟩ hk
      | some step =>
          obtain ⟨value', hvalue⟩ := hstep
          exact Ends.endsBy ⟨n, hvalue.behind hrest⟩ hk

theorem Enters.endsBy {p q : Moment} (h : Enters p q) (hp : p.EndsBy k) : q.EndsBy k := by
  obtain ⟨result, m', hends, hk⟩ := id hp
  obtain ⟨n, hn⟩ := hends.succ
  have hR := Machine.kept_functions
  have hkeeps := keeping hR n
  cases h with
  | within h => exact h.endsBy hp
  | group => exact Ends.endsBy ⟨n, hn⟩ hk
  | @operand operator e m held =>
      exact endsBy_of_bind (t := .evaluate e) hn hk fun _ => .applyUnary hR _ _
  | @left left right operator m held =>
      exact endsBy_of_bind (t := .evaluate left) hn hk fun _ =>
        (hkeeps.evaluate right).bind hR fun _ => .applyBinary hR _ _ _
  | @right left right operator a m m₁ held hleft =>
      exact endsBy_of_bind (t := .evaluate right) (hleft.behind hn) hk fun _ =>
        .applyBinary hR _ _ _
  | @deciding left right operator m held =>
      refine endsBy_of_bind (t := .evaluate left) hn hk fun a => ?_
      split
      · exact .pure hR _
      · exact hkeeps.evaluate right
  | undecided hleft ha =>
      have hright := hleft.behind hn
      rw [if_neg (Bool.eq_false_iff.mp ha)] at hright
      exact Ends.endsBy ⟨n, hright⟩ hk
  | @assigned id name e m held =>
      exact endsBy_of_bind (t := .evaluate e) hn hk fun _ =>
        (Keeps.writeVariable hR _ _ _).bind hR fun _ => .pure hR _
  | @callee e paren es m held =>
      exact endsBy_of_bind (t := .evaluate e) hn hk fun _ =>
        (hkeeps.evaluateAll es).bind hR fun _ => hkeeps.call _ _ _
  | @arguments e paren es callee m m₁ held hcallee =>
      exact endsBy_of_bind (t := .evaluateAll es) (hcallee.behind hn) hk fun _ =>
        hkeeps.call _ _ _
  | call hcallee harguments =>
      exact Ends.endsBy ⟨n, harguments.behind (hcallee.behind hn)⟩ hk
  | @firstArgument e es m held =>
      exact endsBy_of_bind (t := .evaluate e) hn hk fun _ =>
        (hkeeps.evaluateAll es).bind hR fun _ => .pure hR _
  | @moreArguments e es a m m₁ held hfirst =>
      exact endsBy_of_bind (t := .evaluateAll es) (hfirst.behind hn) hk fun _ => .pure hR _
  | @callBody serial declaration closure paren arguments m held harity =>
      obtain ⟨⟨_, m₁⟩, hbody, ho⟩ :=
        Option.map_eq_some_iff.mp ((run_call harity serial n).symm.trans hn)
      cases ho
      exact Ends.endsBy ⟨n, hbody⟩ hk
  | @value e m held | @returned keyword e m held =>
      exact endsBy_of_bind (t := .evaluate e) hn hk fun _ => .pure hR _
  | @printed e m held =>
      exact endsBy_of_bind (t := .evaluate e) hn hk fun _ =>
        (Keeps.print hR _).bind hR fun _ => .pure hR _
  | @initialValue name e m held =>
      exact endsBy_of_bind (t := .evaluate e) hn hk fun _ =>
        (Keeps.define hR _ _).bind hR fun _ => .pure hR _
  | @condition condition s o m held =>
      refine endsBy_of_bind (t := .evaluate condition) hn hk fun _ => ?_
      split
      · exact hkeeps.execute s
      · split
        · exact hkeeps.execute _
        · exact .pure hR _
  | @loopCondition condition body increment m held =>
      refine endsBy_of_bind (t := .evaluate condition) hn hk fun _ => ?_
      split
      · refine (hkeeps.execute body).bind hR fun completion => ?_
        cases completion with
        | returned value => exact .pure hR _
        | normal =>
            cases increment with
            | none => exact hkeeps.loop _ _ _
            | some step => exact (hkeeps.evaluate step).bind hR fun _ => hkeeps.loop _ _ _
      · exact .pure hR _
  | @increment condition step body value m m₁ m₂ held hcondition ht hbody =>
      have hround := hcondition.behind hn
      rw [if_pos ht] at hround
      exact endsBy_of_bind (t := .evaluate step) (hbody.behind hround) hk fun _ =>
        hkeeps.loop _ _ _

end Parts

/-! ## Of two parts one comes first -/

/-- Two moments are the same, or at one of them the job of the other has ended. -/
def Moment.InTurn (p q : Moment) : Prop :=
  p = q ∨ p.EndsBy q.machine.functions ∨ q.EndsBy p.machine.functions

/-- Moments in turn, and when they begin no fewer functions have been made than that. -/
structure Moment.Row (k : Nat) (S : Moment → Prop) : Prop where
  later : ∀ q, S q → k ≤ q.machine.functions
  inTurn : ∀ q q', S q → S q' → q.InTurn q'

namespace Moment.Row

variable {m : Machine} {k : Nat} {S : Moment → Prop}

theorem none (h : ∀ q, ¬ S q) : Row k S :=
  ⟨fun q hq => absurd hq (h q), fun q _ hq => absurd hq (h q)⟩

theorem one (t : Job) (held : List Value) (hk : k ≤ m.functions)
    (h : ∀ q, S q → q = ⟨t, m, held⟩) : Row k S :=
  ⟨fun q hq => h q hq ▸ hk, fun q q' hq hq' => .inl ((h q hq).trans (h q' hq').symm)⟩

/-- One job, and the others behind it. -/
theorem bind (t : Job) (held : List Value) {S' : t.Result → Machine → Moment → Prop}
    (hk : k ≤ m.functions)
    (h : ∀ q, S q → q = ⟨t, m, held⟩ ∨ ∃ a m₁, t.Gives m a m₁ ∧ S' a m₁ q)
    (hrest : ∀ a m₁, Row m₁.functions (S' a m₁)) : Row k S where
  later q hq := by
    rcases h q hq with rfl | ⟨a, m₁, hgives, hq⟩
    · exact hk
    · have hm : m.functions ≤ m₁.functions := hgives.keeps Machine.kept_functions
      exact Nat.le_trans hk (Nat.le_trans hm ((hrest a m₁).later q hq))
  inTurn q q' hq hq' := by
    rcases h q hq with rfl | ⟨a, m₁, hgives, hq⟩
    · rcases h q' hq' with rfl | ⟨a, m₁, hgives, hq'⟩
      · exact .inl rfl
      · exact .inr (.inl (hgives.endsBy ((hrest a m₁).later q' hq')))
    · rcases h q' hq' with rfl | ⟨a', m₁', hgives', hq'⟩
      · exact .inr (.inr (hgives.endsBy ((hrest a m₁).later q hq)))
      · obtain ⟨rfl, rfl⟩ := hgives.unique hgives'
        exact (hrest a m₁).inTurn q q' hq hq'

/-- Under a condition. -/
theorem guard {c : Prop} (h : c → Row k S) : Row k fun q => c ∧ S q :=
  ⟨fun q hq => (h hq.1).later q hq.2, fun q q' hq hq' => (h hq.1).inTurn q q' hq.2 hq'.2⟩

end Moment.Row

open Moment

section Rows

variable (m : Machine) (held : List Value)

theorem evaluate_row (e : Expr) : Row m.functions (Enters ⟨.evaluate e, m, held⟩) := by
  have hle (m : Machine) := Nat.le_refl m.functions
  cases e with
  | literal | «variable» =>
      refine .none fun q h => ?_
      cases h with
      | within h => cases h
  | group inner | unary _ inner | assign _ _ inner =>
      refine .one (.evaluate inner) held (hle m) fun q h => ?_
      cases h with
      | within h => cases h
      | _ => rfl
  | binary left operator right =>
      refine .bind (.evaluate left) held (hle m) (fun q h => ?_)
        fun a m₁ => .one (.evaluate right) (a :: held) (hle m₁) fun _ hq => hq
      cases h with
      | left => exact .inl rfl
      | right hleft => exact .inr ⟨_, _, hleft, rfl⟩
      | within h => cases h
  | logical left operator right =>
      refine .bind (.evaluate left) held (hle m) (fun q h => ?_)
        fun _ m₁ => .one (.evaluate right) held (hle m₁) fun _ hq => hq
      cases h with
      | deciding => exact .inl rfl
      | undecided hleft => exact .inr ⟨_, _, hleft, rfl⟩
      | within h => cases h
  | call callee paren arguments =>
      refine .bind (.evaluate callee) held (hle m) (fun q h => ?_)
        fun f m₁ => .bind (.evaluateAll arguments) (f :: held) (hle m₁) (fun _ hq => hq)
          fun values m₂ => .one (.call f paren values) held (hle m₂) fun _ hq => hq
      cases h with
      | callee => exact .inl rfl
      | arguments hcallee => exact .inr ⟨_, _, hcallee, .inl rfl⟩
      | call hcallee harguments => exact .inr ⟨_, _, hcallee, .inr ⟨_, _, harguments, rfl⟩⟩
      | within h => cases h

theorem evaluateAll_row (es : List Expr) : Row m.functions (Enters ⟨.evaluateAll es, m, held⟩) := by
  cases es with
  | nil =>
      refine .none fun q h => ?_
      cases h with
      | within h => cases h
  | cons e es =>
      refine .bind (.evaluate e) held (Nat.le_refl _) (fun q h => ?_)
        fun a m₁ => .one (.evaluateAll es) (a :: held) (Nat.le_refl _) fun _ hq => hq
      cases h with
      | firstArgument => exact .inl rfl
      | moreArguments hfirst => exact .inr ⟨_, _, hfirst, rfl⟩
      | within h => cases h

theorem call_row (callee : Value) (paren : Token) (arguments : List Value) :
    Row m.functions (Enters ⟨.call callee paren arguments, m, held⟩) := by
  cases callee with
  | function serial declaration closure =>
      refine .one (m := m.entered closure (declaration.params.zip arguments))
        (.executeAll declaration.body) (.function serial declaration closure :: held)
        (Nat.le_refl _) fun q h => ?_
      cases h with
      | callBody => rfl
      | within h => cases h
  | _ =>
      refine .none fun q h => ?_
      cases h with
      | within h => cases h

theorem execute_row (s : Stmt) : Row m.functions (Enters ⟨.execute s, m, held⟩) := by
  have hle (m : Machine) := Nat.le_refl m.functions
  cases s with
  | expression e | print e =>
      refine .one (.evaluate e) held (hle m) fun q h => ?_
      cases h with
      | within h => cases h
      | _ => rfl
  | var name initializer =>
      cases initializer with
      | none =>
          refine .none fun q h => ?_
          cases h with
          | within h => cases h
      | some e =>
          refine .one (.evaluate e) held (hle m) fun q h => ?_
          cases h with
          | initialValue => rfl
          | within h => cases h
  | block body =>
      refine .one (m := m.entered m.current []) (.executeAll body) held (hle m) fun q h => ?_
      cases h with
      | within h =>
          cases h with
          | block => rfl
  | ifThen condition thenBranch elseBranch =>
      -- of the two branches one is come to, by the value of the condition
      have hparts (q) (h : Enters ⟨.execute (.ifThen condition thenBranch elseBranch), m, held⟩ q) :
          q = ⟨.evaluate condition, m, held⟩ ∨
            ∃ value m₁, (evaluate condition).Gives m value m₁ ∧
              ∃ s, (if value.truthy then some thenBranch else elseBranch) = some s ∧
                q = ⟨.execute s, m₁, held⟩ := by
        cases h with
        | condition => exact .inl rfl
        | within h =>
            cases h with
            | thenBranch hcondition ht =>
                exact .inr ⟨_, _, hcondition, _, if_pos ht, rfl⟩
            | elseBranch hcondition ht =>
                exact .inr ⟨_, _, hcondition, _, if_neg (Bool.eq_false_iff.mp ht), rfl⟩
      refine .bind _ _ (hle m) hparts fun value m₁ => ?_
      cases (if value.truthy then some thenBranch else elseBranch) with
      | none => exact .none fun q ⟨_, hnone, _⟩ => nomatch hnone
      | some s =>
          refine .one (.execute s) held (hle m₁) fun q ⟨s', hsome, hq⟩ => ?_
          rw [hq, Option.some.inj hsome]
  | whileLoop condition body =>
      refine .one (.loop condition body none) held (hle m) fun q h => ?_
      cases h with
      | within h =>
          cases h with
          | whileLoop => rfl
  | forLoop initializer condition increment body =>
      cases initializer with
      | none =>
          refine .one (.loop (Stmt.loopCondition condition) body increment) held (hle m)
            fun q h => ?_
          cases h with
          | within h =>
              cases h with
              | forLoop => rfl
      | some s =>
          refine .bind (m := m.entered m.current []) (.execute s) held (hle m) (fun q h => ?_)
            fun _ m₁ => .one (.loop (Stmt.loopCondition condition) body increment) held (hle m₁)
              fun _ hq => hq
          cases h with
          | within h =>
              cases h with
              | initializer => exact .inl rfl
              | initialized hs => exact .inr ⟨_, _, hs, rfl⟩
  | function =>
      refine .none fun q h => ?_
      cases h with
      | within h => cases h
  | ret keyword value =>
      cases value with
      | none =>
          refine .none fun q h => ?_
          cases h with
          | within h => cases h
      | some e =>
          refine .one (.evaluate e) held (hle m) fun q h => ?_
          cases h with
          | returned => rfl
          | within h => cases h

theorem executeAll_row (body : List Stmt) :
    Row m.functions (Enters ⟨.executeAll body, m, held⟩) := by
  cases body with
  | nil =>
      refine .none fun q h => ?_
      cases h with
      | within h => cases h
  | cons s rest =>
      refine .bind (.execute s) held (Nat.le_refl _) (fun q h => ?_)
        fun _ m₁ => .one (.executeAll rest) held (Nat.le_refl _) fun _ hq => hq
      cases h with
      | within h =>
          cases h with
          | first => exact .inl rfl
          | rest hfirst => exact .inr ⟨_, _, hfirst, rfl⟩

/-- What is done in a round of a loop behind its body. -/
def BehindBody (condition : Expr) (body : Stmt) (increment : Option Expr) (m : Machine)
    (held : List Value) (q : Moment) : Prop :=
  (∃ step, increment = some step ∧ q = ⟨.evaluate step, m, held⟩) ∨
    ∃ m', Stepped increment m m' ∧ q = ⟨.loop condition body increment, m', held⟩

theorem behind_row (condition : Expr) (body : Stmt) (increment : Option Expr) :
    Row m.functions (BehindBody condition body increment m held) := by
  have hle (m : Machine) := Nat.le_refl m.functions
  cases increment with
  | none =>
      refine .one (.loop condition body none) held (hle m) fun q hq => ?_
      rcases hq with ⟨step, hstep, -⟩ | ⟨m', hm, rfl⟩
      · cases hstep
      · cases hm
        rfl
  | some step =>
      refine .bind (.evaluate step) held (hle m) (fun q hq => ?_)
        fun _ m' => .one (.loop condition body (some step)) held (hle m') fun _ hq => hq
      rcases hq with ⟨_, hstep, rfl⟩ | ⟨m', ⟨a, ha⟩, rfl⟩
      · cases hstep
        exact .inl rfl
      · exact .inr ⟨a, m', ha, rfl⟩

theorem loop_row (condition : Expr) (body : Stmt) (increment : Option Expr) :
    Row m.functions (Enters ⟨.loop condition body increment, m, held⟩) := by
  have hparts (q) (h : Enters ⟨.loop condition body increment, m, held⟩ q) :
      q = ⟨.evaluate condition, m, held⟩ ∨
        ∃ value m₁, (evaluate condition).Gives m value m₁ ∧ value.truthy = true ∧
          (q = ⟨.execute body, m₁, held⟩ ∨ ∃ completion m₂,
            (execute body).Gives m₁ completion m₂ ∧ completion = .normal ∧
              BehindBody condition body increment m₂ held q) := by
    cases h with
    | loopCondition => exact .inl rfl
    | increment hcondition ht hbody =>
        exact .inr ⟨_, _, hcondition, ht, .inr ⟨_, _, hbody, rfl, .inl ⟨_, rfl, rfl⟩⟩⟩
    | within h =>
        cases h with
        | body hcondition ht => exact .inr ⟨_, _, hcondition, ht, .inl rfl⟩
        | again hcondition ht hbody hstep =>
            exact .inr ⟨_, _, hcondition, ht, .inr ⟨_, _, hbody, rfl, .inr ⟨_, hstep, rfl⟩⟩⟩
  refine .bind _ _ (Nat.le_refl _) hparts fun value m₁ => .guard fun _ => ?_
  exact .bind _ _ (Nat.le_refl _) (fun _ hq => hq) fun completion m₂ => .guard fun _ =>
    behind_row m₂ held condition body increment

end Rows

/-- Of two different parts of a job one has ended before the other begins. -/
theorem Enters.inTurn {p q q' : Moment} (h : Enters p q) (h' : Enters p q') : q.InTurn q' := by
  have hrow : Row p.machine.functions (Enters p) := by
    obtain ⟨t, m, held⟩ := p
    cases t with
    | evaluate e => exact evaluate_row m held e
    | evaluateAll es => exact evaluateAll_row m held es
    | call callee paren arguments => exact call_row m held callee paren arguments
    | execute s => exact execute_row m held s
    | executeAll body => exact executeAll_row m held body
    | loop condition body increment => exact loop_row m held condition body increment
  exact hrow.inTurn q q' h h'

/-! ## Executions of declarations -/

/-- A function declaration is being executed, and the value is the function that it makes. -/
def Moment.Makes (e : Moment) (v : Value) : Prop :=
  ∃ d m, e.job = .execute (.function d.name d.params d.body) ∧
    (Run.close d).run e.machine = some (.ok v, m)

section Makes

variable {p e e' : Moment} {v v' : Value} {k : Nat}

theorem Moment.Makes.eq (h : e.Makes v) :
    ∃ d, v = .function e.machine.functions d e.machine.current := by
  obtain ⟨d, m, -, hclose⟩ := h
  cases hclose
  exact ⟨d, rfl⟩

theorem Moment.Makes.unique (h : e.Makes v) (h' : e.Makes v') : v = v' := by
  obtain ⟨⟨name, params, body⟩, m, hjob, hclose⟩ := h
  obtain ⟨d, m', hjob', hclose'⟩ := h'
  cases hjob.symm.trans hjob'
  cases hclose
  cases hclose'
  rfl

/-- An execution ends with one function more. -/
theorem Moment.Makes.lt (h : e.Makes v) (hend : e.EndsBy k) : e.machine.functions < k := by
  obtain ⟨t, m, held⟩ := e
  obtain ⟨d, -, rfl, -⟩ := h
  obtain ⟨result, m', hends, hk⟩ := hend
  obtain ⟨n, hn⟩ := hends.succ
  cases hn
  exact hk

/-- An execution has no parts. -/
theorem Moment.Makes.last (h : e.Makes v) {q : Moment} : ¬ Enters e q := by
  obtain ⟨t, m, held⟩ := e
  obtain ⟨d, -, rfl, -⟩ := h
  intro h
  cases h with
  | within h => cases h

theorem Moment.EndsBy.reaches (h : p.EndsBy k) {q : Moment} (hq : ReflTransGen Enters p q) :
    q.EndsBy k := by
  induction hq with
  | refl => exact h
  | tail _ hstep ih => exact hstep.endsBy ih

theorem functions_le_of_reaches {p q : Moment} (h : ReflTransGen Enters p q) :
    p.machine.functions ≤ q.machine.functions := by
  induction h with
  | refl => exact Nat.le_refl _
  | tail _ hstep ih =>
      exact Nat.le_trans ih (hstep.keeps Machine.kept_functions fun _ _ _ => Nat.le_refl _)

/-- An execution that is come to finds a count of functions that no other one finds. -/
theorem Moment.Makes.alone (h : e.Makes v) (h' : e'.Makes v') (he : ReflTransGen Enters p e)
    (he' : ReflTransGen Enters p e') (heq : e.machine.functions = e'.machine.functions) :
    e = e' := by
  induction he using ReflTransGen.head_induction_on with
  | refl =>
      rcases he'.cases_head with rfl | ⟨q, hstep, -⟩
      · rfl
      · exact absurd hstep h.last
  | @head p q hstep hrest ih =>
      rcases he'.cases_head with rfl | ⟨q', hstep', hrest'⟩
      · exact absurd hstep h'.last
      · -- a part that has ended has not come to an execution with a count from later on
        rcases hstep.inTurn hstep' with rfl | hbefore | hbefore
        · exact ih hrest'
        · have hlt := h.lt (hbefore.reaches hrest)
          have hle := functions_le_of_reaches hrest'
          omega
        · have hlt := h'.lt (hbefore.reaches hrest')
          have hle := functions_le_of_reaches hrest
          omega

end Makes

end Lox
