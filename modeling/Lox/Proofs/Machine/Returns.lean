import Lox.Proofs.Machine.Moments
import Lox.Proofs.Machine.TopLevel
import Lox.Proofs.Restored
import Mathlib.Logic.Relation

/-!
# What becomes of a return

A return goes up through the blocks, the branches and the loops around it, and there the
machine stays as the return left it, but for the scope in force. So a statement returns a
value just when one of the return statements within it is come to and gives the value, and
a call has that value and nothing else is done in its body. The body of a call that ends
without a return has been executed statement by statement, each to its end.
-/

namespace Lox

open Job Relation

namespace Job

variable {t t' : Job} {m m₁ m₂ m' : Machine} {v : Value} {held : List Value}

theorem Ends.eventually {result : Except Machine.Fault t.Result} (h : t.Ends m result m') :
    ∃ k, ∀ n, k ≤ n → (t.run n).run m = some (result, m') := by
  obtain ⟨k, hk⟩ := h
  exact ⟨k, fun _ hn => run_extends hn t _ _ hk⟩

/-- There is fuel with which two jobs come to their ends. -/
theorem Ends.both {result : Except Machine.Fault t.Result}
    {result' : Except Machine.Fault t'.Result} (h : t.Ends m result m₁)
    (h' : t'.Ends m₂ result' m') :
    ∃ n, (t.run n).run m = some (result, m₁) ∧ (t'.run n).run m₂ = some (result', m') := by
  obtain ⟨k, hk⟩ := h.eventually
  obtain ⟨k', hk'⟩ := h'.eventually
  exact ⟨max k k', hk _ (Nat.le_max_left k k'), hk' _ (Nat.le_max_right k k')⟩

/-! ## Statement by statement -/

/-- The statements are executed one after the other, each to its end. -/
inductive Through : List Stmt → Machine → Machine → Prop
  | nil {m : Machine} : Through [] m m
  | cons {s : Stmt} {rest : List Stmt} {m m₁ m' : Machine}
    (hfirst : (execute s).Gives m .normal m₁) (hrest : Through rest m₁ m') :
    Through (s :: rest) m m'

theorem through_of_executeAll {n : Nat} {body : List Stmt}
    (h : (Run.executeAll n body).run m = some (.ok .normal, m')) : Through body m m' := by
  induction n generalizing body m with
  | zero => cases h
  | succ n ih =>
      cases body with
      | nil =>
          cases h
          exact .nil
      | cons first rest =>
          obtain ⟨completion, m₁, hfirst, hrest⟩ := ok_of_bind h
          cases completion with
          | normal => exact .cons ⟨n, hfirst⟩ (ih hrest)
          | returned value => cases hrest

theorem Through.gives {body : List Stmt} (h : Through body m m') :
    (executeAll body).Gives m .normal m' := by
  induction h with
  | nil => exact ⟨1, rfl⟩
  | cons hfirst _ ih =>
      obtain ⟨n, hn, hn'⟩ := hfirst.both ih
      exact ⟨n + 1, (run_bind_of_ok hn).trans hn'⟩

theorem through_iff {body : List Stmt} :
    Through body m m' ↔ (executeAll body).Gives m .normal m' :=
  ⟨Through.gives, fun ⟨_, h⟩ => through_of_executeAll h⟩

/-! ## Up to the call -/

/-- The job is to execute something, and that returns the value. -/
def Returns (t : Job) (m : Machine) (v : Value) (m' : Machine) : Prop :=
  match t with
  | .execute s => (execute s).Gives m (.returned v) m'
  | .executeAll body => (executeAll body).Gives m (.returned v) m'
  | .loop condition body increment => (loop condition body increment).Gives m (.returned v) m'
  | _ => False

theorem Returns.stays (h : t.Returns m v m') : m.Stays m' := by
  cases t with
  | execute | executeAll | loop => exact Ends.keeps Machine.kept_stays h
  | _ => exact h.elim

/-- Among the statements within the job is a return that is come to and gives the value. The
machine is then as the return left it, back in the scope in force. -/
def Raises (t : Job) (m : Machine) (v : Value) (m' : Machine) : Prop :=
  ∃ keyword value m₁ m₂,
    ReflTransGen Within ⟨t, m, []⟩ ⟨.execute (.ret keyword value), m₁, []⟩ ∧
    (execute (.ret keyword value)).Gives m₁ (.returned v) m₂ ∧
    m' = { m₂ with current := m.current }

/-- From a statement within the job. -/
theorem Raises.within (h : Within ⟨t, m, []⟩ ⟨t', m₁, []⟩) (ht : t'.Raises m₁ v m') :
    t.Raises m v { m' with current := m.current } := by
  obtain ⟨keyword, value, m₂, m₃, hway, hgives, rfl⟩ := ht
  exact ⟨keyword, value, m₂, m₃, hway.head h, hgives, rfl⟩

/-- In the same scope there is nothing to go back to. -/
theorem Raises.beside (h : Within ⟨t, m, []⟩ ⟨t', m₁, []⟩) (hm : m₁.current = m.current)
    (ht : t'.Raises m₁ v m') : t.Raises m v m' := by
  obtain ⟨keyword, value, m₂, m₃, hway, hgives, rfl⟩ := ht
  exact ⟨keyword, value, m₂, m₃, hway.head h, hgives, by rw [hm]⟩

end Job

namespace Run

variable {m m' : Machine} {v : Value}

/-- With so much fuel, what returns has come to a return statement. -/
structure Raising (n : Nat) : Prop where
  execute : ∀ {s m v m'}, (Run.execute n s).run m = some (.ok (.returned v), m') →
    (Job.execute s).Raises m v m'
  executeAll : ∀ {body m v m'}, (Run.executeAll n body).run m = some (.ok (.returned v), m') →
    (Job.executeAll body).Raises m v m'
  loop : ∀ {condition body increment m v m'},
    (Run.loop n condition body increment).run m = some (.ok (.returned v), m') →
    (Job.loop condition body increment).Raises m v m'

section Steps

variable {n : Nat} (ih : Raising n)
include ih

theorem execute_raises {s : Stmt}
    (h : (Run.execute (n + 1) s).run m = some (.ok (.returned v), m')) :
    (Job.execute s).Raises m v m' := by
  have hreturns (hs : s.Returnless) : False := nomatch (unreturned (n + 1)).execute hs _ _ _ h
  cases s with
  | expression | print | var | function => exact (hreturns trivial).elim
  | block body =>
      rw [show Run.execute (n + 1) (.block body) =
        enterBlock >>= fun s => Run.within s (Run.executeAll n body) from rfl,
        run_enteringBlock] at h
      obtain ⟨⟨_, m₁⟩, hbody, ho⟩ := Option.map_eq_some_iff.mp h
      cases ho
      exact (ih.executeAll hbody).within .block
  | ifThen condition thenBranch elseBranch =>
      obtain ⟨value, m₁, hcondition, hrest⟩ := ok_of_bind h
      have hgives : (Job.evaluate condition).Gives m value m₁ := ⟨n, hcondition⟩
      have hm₁ := (hgives.keeps Machine.kept_stays).current
      cases ht : value.truthy with
      | true =>
          rw [ht, if_pos rfl] at hrest
          exact (ih.execute hrest).beside (.thenBranch hgives ht) hm₁
      | false =>
          rw [ht, if_neg Bool.false_ne_true] at hrest
          cases elseBranch with
          | none => cases hrest
          | some elseBranch => exact (ih.execute hrest).beside (.elseBranch hgives ht) hm₁
  | whileLoop condition body => exact (ih.loop h).beside .whileLoop rfl
  | forLoop initializer condition increment body =>
      cases initializer with
      | none => exact (ih.loop h).beside .forLoop rfl
      | some initializer =>
          rw [Run.execute, run_enteringBlock] at h
          obtain ⟨⟨_, m₁⟩, hinside, ho⟩ := Option.map_eq_some_iff.mp h
          cases ho
          obtain ⟨completion, m₂, hinitializer, hrest⟩ := ok_of_bind hinside
          cases completion with
          | returned value =>
              cases hrest
              exact (ih.execute hinitializer).within .initializer
          | normal => exact (ih.loop hrest).within (.initialized ⟨n, hinitializer⟩)
  | ret keyword value =>
      have hgives : (Job.execute (.ret keyword value)).Gives m (.returned v) m' := ⟨n + 1, h⟩
      refine ⟨keyword, value, m, m', .refl, hgives, ?_⟩
      rw [← (hgives.keeps Machine.kept_stays).current]

theorem executeAll_raises {body : List Stmt}
    (h : (Run.executeAll (n + 1) body).run m = some (.ok (.returned v), m')) :
    (Job.executeAll body).Raises m v m' := by
  cases body with
  | nil => cases h
  | cons first rest =>
      obtain ⟨completion, m₁, hfirst, hrest⟩ := ok_of_bind h
      cases completion with
      | returned value =>
          cases hrest
          exact (ih.execute hfirst).beside .first rfl
      | normal =>
          have hgives : (Job.execute first).Gives m .normal m₁ := ⟨n, hfirst⟩
          exact (ih.executeAll hrest).beside (.rest hgives) (hgives.keeps Machine.kept_stays).current

theorem loop_raises {condition : Expr} {body : Stmt} {increment : Option Expr}
    (h : (Run.loop (n + 1) condition body increment).run m = some (.ok (.returned v), m')) :
    (Job.loop condition body increment).Raises m v m' := by
  obtain ⟨value, m₁, hcondition, hround⟩ := ok_of_bind h
  have hgives : (Job.evaluate condition).Gives m value m₁ := ⟨n, hcondition⟩
  have hm₁ := hgives.keeps Machine.kept_stays
  cases ht : value.truthy with
  | false =>
      rw [ht, if_neg Bool.false_ne_true] at hround
      cases hround
  | true =>
      rw [ht, if_pos rfl] at hround
      obtain ⟨completion, m₂, hbody, hrest⟩ := ok_of_bind hround
      cases completion with
      | returned value =>
          cases hrest
          exact (ih.execute hbody).beside (.body hgives ht) hm₁.current
      | normal =>
          have hgives' : (Job.execute body).Gives m₁ .normal m₂ := ⟨n, hbody⟩
          have hm₂ := hm₁.trans (hgives'.keeps Machine.kept_stays)
          cases increment with
          | none => exact (ih.loop hrest).beside (.again hgives ht hgives' rfl) hm₂.current
          | some step =>
              obtain ⟨value', m₃, hstep, hagain⟩ := ok_of_bind hrest
              have hstepped : Stepped (some step) m₂ m₃ := ⟨value', n, hstep⟩
              have hm₃ := hm₂.trans (hstepped.keeps Machine.kept_stays)
              exact (ih.loop hagain).beside (.again hgives ht hgives' hstepped) hm₃.current

end Steps

theorem raising (n : Nat) : Raising n := by
  induction n with
  | zero => exact ⟨(nomatch ·), (nomatch ·), (nomatch ·)⟩
  | succ n ih => exact ⟨execute_raises ih, executeAll_raises ih, loop_raises ih⟩

end Run

section Up

variable {m m' : Machine} {v : Value}

theorem Machine.Stays.back (h : m.Stays m') : { m' with current := m.current } = m' := by
  rw [← h.current]

/-- What returns in the scope in force leaves it in force. -/
theorem Job.Returns.back {t : Job} (h : t.Returns m v m') :
    t.Returns m v { m' with current := m.current } := by
  rwa [h.stays.back]

/-- What is within a statement returns for the statement as well. -/
theorem Within.returns {p q : Moment} (h : Within p q) (hq : q.job.Returns q.machine v m') :
    p.job.Returns p.machine v { m' with current := p.machine.current } := by
  cases h with
  | @first s rest m _ =>
      obtain ⟨n, hn⟩ := hq
      have hp : (executeAll (s :: rest)).Returns m v m' := ⟨n + 1, run_bind_of_ok hn⟩
      exact hp.back
  | @rest s rest m _ _ hfirst =>
      obtain ⟨n, hn, hn'⟩ := hfirst.both hq
      have hp : (executeAll (s :: rest)).Returns m v m' :=
        ⟨n + 1, (run_bind_of_ok hn).trans hn'⟩
      exact hp.back
  | block =>
      obtain ⟨n, hn⟩ := hq
      exact ⟨n + 1, (Run.run_enteringBlock _ _).trans (congrArg (Option.map _) hn)⟩
  | @thenBranch condition s o value m _ _ hcondition ht =>
      obtain ⟨n, hn, hn'⟩ := hcondition.both hq
      have hp : (execute (.ifThen condition s o)).Returns m v m' := by
        refine ⟨n + 1, (run_bind_of_ok hn).trans ?_⟩
        rw [if_pos ht]
        exact hn'
      exact hp.back
  | @elseBranch condition s s' value m _ _ hcondition ht =>
      obtain ⟨n, hn, hn'⟩ := hcondition.both hq
      have hp : (execute (.ifThen condition s (some s'))).Returns m v m' := by
        refine ⟨n + 1, (run_bind_of_ok hn).trans ?_⟩
        rw [if_neg (Bool.eq_false_iff.mp ht)]
        exact hn'
      exact hp.back
  | @whileLoop condition body m _ =>
      obtain ⟨n, hn⟩ := hq
      have hp : (execute (.whileLoop condition body)).Returns m v m' := ⟨n + 1, hn⟩
      exact hp.back
  | @forLoop condition increment body m _ =>
      obtain ⟨n, hn⟩ := hq
      have hp : (execute (.forLoop none condition increment body)).Returns m v m' := ⟨n + 1, hn⟩
      exact hp.back
  | initializer =>
      obtain ⟨n, hn⟩ := hq
      refine ⟨n + 1, (Run.run_enteringBlock _ _).trans ?_⟩
      exact (congrArg (Option.map _) (run_bind_of_ok hn)).trans rfl
  | initialized hs =>
      obtain ⟨n, hn, hn'⟩ := hs.both hq
      refine ⟨n + 1, (Run.run_enteringBlock _ _).trans ?_⟩
      refine (congrArg (Option.map _) (run_bind_of_ok hn)).trans ?_
      exact congrArg (Option.map _) hn'
  | @body condition body increment value m _ _ hcondition ht =>
      obtain ⟨n, hn, hn'⟩ := hcondition.both hq
      have hp : (loop condition body increment).Returns m v m' := by
        refine ⟨n + 1, (run_bind_of_ok hn).trans ?_⟩
        rw [if_pos ht]
        exact run_bind_of_ok hn'
      exact hp.back
  | @again condition body increment value m m₁ m₂ m₃ _ hcondition ht hbody hstep =>
      have hp : (loop condition body increment).Returns m v m' := by
        -- the parts of the round and the rounds behind it have each fuel of their own
        obtain ⟨a, ha⟩ := hcondition.eventually
        obtain ⟨b, hb⟩ := hbody.eventually
        obtain ⟨c, hc⟩ := Ends.eventually (t := loop condition body increment) hq
        cases increment with
        | none =>
            cases (hstep : m₃ = m₂)
            refine ⟨a + b + c + 1, (run_bind_of_ok (ha _ (by omega))).trans ?_⟩
            rw [if_pos ht]
            exact (run_bind_of_ok (hb _ (by omega))).trans (hc _ (by omega))
        | some step =>
            obtain ⟨value', hvalue⟩ := hstep
            obtain ⟨d, hd⟩ := hvalue.eventually
            refine ⟨a + b + c + d + 1, (run_bind_of_ok (ha _ (by omega))).trans ?_⟩
            rw [if_pos ht]
            refine (run_bind_of_ok (hb _ (by omega))).trans ?_
            exact (run_bind_of_ok (hd _ (by omega))).trans (hc _ (by omega))
      exact hp.back

/-- A call runs the body in the scope of its parameters and makes a value of its completion. -/
theorem Run.run_call {declaration : Declaration} {closure : ScopeId} {paren : Token}
    {arguments : List Value} (harity : arguments.length = declaration.params.length)
    (serial n : Nat) :
    (Run.call (n + 1) (.function serial declaration closure) paren arguments).run m =
      ((Run.executeAll n declaration.body).run
        (m.entered closure (declaration.params.zip arguments))).map fun o =>
          (o.1.map Completion.value, { o.2 with current := m.current }) := by
  rw [Run.call, run_bind, Run.checkArity, if_pos harity]
  show (Run.enterScope closure _ >>= fun scope => Run.within scope _ >>= _).run m = _
  rw [← bind_assoc, run_bind, Run.run_entering]
  rcases (Run.executeAll n declaration.body).run
    (m.entered closure (declaration.params.zip arguments)) with _ | ⟨fault | completion, m₁⟩ <;> rfl

end Up

namespace Job

variable {t : Job} {m m' : Machine} {v : Value}

theorem Returns.raises (h : t.Returns m v m') : t.Raises m v m' := by
  cases t with
  | execute =>
      obtain ⟨n, hn⟩ := h
      exact (Run.raising n).execute hn
  | executeAll =>
      obtain ⟨n, hn⟩ := h
      exact (Run.raising n).executeAll hn
  | loop =>
      obtain ⟨n, hn⟩ := h
      exact (Run.raising n).loop hn
  | _ => exact h.elim

theorem Raises.returns (h : t.Raises m v m') : t.Returns m v m' := by
  obtain ⟨keyword, value, m₁, m₂, hway, hgives, rfl⟩ := h
  have hup : ∀ p : Moment, ReflTransGen Within p ⟨.execute (.ret keyword value), m₁, []⟩ →
      p.job.Returns p.machine v { m₂ with current := p.machine.current } := by
    intro p hp
    -- from the return outwards, each statement around it hands the value on
    induction hp using ReflTransGen.head_induction_on with
    | refl => exact Returns.back (t := .execute (.ret keyword value)) hgives
    | head h _ ih =>
        have hup := h.returns ih
        exact hup
  exact hup _ hway

theorem returns_iff_raises : t.Returns m v m' ↔ t.Raises m v m' :=
  ⟨Returns.raises, Raises.returns⟩

/-- A call asks for as many arguments as there are parameters. Its value is that of the return
that is come to in the body, with nothing done behind it but going back to the scope of the
caller. Without a return the value is nil, and every statement of the body has been executed
to its end. -/
theorem call_gives_iff {serial : Nat} {declaration : Declaration} {closure : ScopeId}
    {paren : Token} {arguments : List Value} :
    (call (.function serial declaration closure) paren arguments).Gives m v m' ↔
      arguments.length = declaration.params.length ∧
      ∃ m₁, m' = { m₁ with current := m.current } ∧
        ((executeAll declaration.body).Raises
            (m.entered closure (declaration.params.zip arguments)) v m₁ ∨
          v = .nil ∧ Through declaration.body
            (m.entered closure (declaration.params.zip arguments)) m₁) := by
  constructor
  · rintro ⟨_ | n, hn⟩
    · cases hn
    · by_cases harity : arguments.length = declaration.params.length
      · obtain ⟨⟨result, m₁⟩, hbody, ho⟩ :=
          Option.map_eq_some_iff.mp ((Run.run_call harity serial n).symm.trans hn)
        rcases result with fault | completion <;> cases ho
        refine ⟨harity, m₁, rfl, ?_⟩
        cases completion with
        | normal => exact .inr ⟨rfl, through_iff.mpr ⟨n, hbody⟩⟩
        | returned value =>
            have hreturns : (executeAll declaration.body).Returns _ value m₁ := ⟨n, hbody⟩
            exact .inl (returns_iff_raises.mp hreturns)
      · rw [run, Run.call, run_bind, Run.checkArity, if_neg harity] at hn
        cases hn
  · rintro ⟨harity, m₁, rfl, hreturn | ⟨rfl, hthrough⟩⟩
    · obtain ⟨n, hn⟩ : (executeAll declaration.body).Returns _ v m₁ :=
        returns_iff_raises.mpr hreturn
      exact ⟨n + 1, (Run.run_call harity serial n).trans (congrArg (Option.map _) hn)⟩
    · obtain ⟨n, hn⟩ := through_iff.mp hthrough
      exact ⟨n + 1, (Run.run_call harity serial n).trans (congrArg (Option.map _) hn)⟩

end Job

end Lox
