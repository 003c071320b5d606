import Lox.Proofs.Machine.Returns

/-!
# A run that is through has executed everything

The resolver lets no program pass in which a return stands outside of all functions. So no
statement at the top level returns, whatever the machine it is executed on has been through
and whatever functions it calls: their returns end with their calls. A run of a session that
goes well has therefore executed all statements, one after the other, each to its end.
-/

namespace Lox

namespace Binding

/-! ## What the resolver lets pass -/

/-- A walk takes no fault back, and if it adds none, something holds. -/
def Passes (s s' : State) (P : Prop) : Prop :=
  s.faults <+: s'.faults ∧ (s'.faults = s.faults → P)

section Rules

variable {s s' s'' : State} {P Q : Prop}

theorem Passes.of_kept (h : s.faults <+: s'.faults) : Passes s s' True := ⟨h, fun _ => trivial⟩

theorem Passes.mono (h : Passes s s' P) (hPQ : P → Q) : Passes s s' Q :=
  ⟨h.1, fun hf => hPQ (h.2 hf)⟩

/-- If two walks together add no fault, neither of them does. -/
theorem Passes.append (h : Passes s s' P) (h' : Passes s' s'' Q) : Passes s s'' (P ∧ Q) := by
  refine ⟨h.1.trans h'.1, fun hf => ?_⟩
  have hback : s''.faults <+: s'.faults := hf ▸ h.1
  have hsame : s''.faults = s'.faults :=
    hback.eq_of_length (Nat.le_antisymm hback.length_le h'.1.length_le)
  exact ⟨h.2 (hsame.symm.trans hf), h'.2 hsame⟩

theorem Passes.behind (h : s.faults <+: s'.faults) (h' : Passes s' s'' P) : Passes s s'' P :=
  ((Passes.of_kept h).append h').mono And.right

theorem Passes.before (h : Passes s s' P) (h' : s'.faults <+: s''.faults) : Passes s s'' P :=
  (h.append (.of_kept h')).mono And.left

theorem Passes.report (cause : Cause) (token : Token) (h : (s.report cause token).faults <+:
    s'.faults) : Passes s s' P := by
  refine ⟨(List.prefix_append _ _).trans h, fun hf => ?_⟩
  have hlength := h.length_le
  rw [hf, State.report, List.length_append] at hlength
  exact absurd hlength (Nat.not_succ_le_self _)

end Rules

theorem faults_expression (e : Expr) (s : State) : s.faults <+: (expression e s).faults :=
  (expression_links e s).1.faults

theorem faults_optionalExpression (o : Option Expr) (s : State) :
    s.faults <+: (optionalExpression o s).faults := (optionalExpression_links o s).1.faults

mutual

/-- A statement outside of functions is let pass only without a return of its own. -/
theorem statement_passes (inFunction : Bool) (stmt : Stmt) (s : State) :
    Passes s (statement inFunction stmt s) (inFunction = false → stmt.Returnless) := by
  match stmt with
  | .expression value | .print value =>
      exact (Passes.of_kept (faults_expression value s)).mono fun _ _ => trivial
  | .var name initializer =>
      have hdefined := (faults_enter (optionalExpression initializer (s.declare name))
        name.lexeme true).symm ▸ faults_optionalExpression initializer (s.declare name)
      exact (Passes.of_kept ((declare_links s name).1.faults.trans hdefined)).mono
        fun _ _ => trivial
  | .block body => exact statements_pass inFunction body s.openScope
  | .ifThen condition thenBranch elseBranch =>
      have hthen := statement_passes inFunction thenBranch (expression condition s)
      have helse := optionalStatement_passes inFunction elseBranch
        (statement inFunction thenBranch (expression condition s))
      exact ((hthen.append helse).behind (faults_expression condition s)).mono
        fun h hf => ⟨h.1 hf, h.2 hf⟩
  | .whileLoop condition body =>
      exact (statement_passes inFunction body (expression condition s)).behind
        (faults_expression condition s)
  | .forLoop initializer condition increment body =>
      have hloop (s : State) : Passes s
          (optionalExpression increment (statement inFunction body
            (optionalExpression condition s))) (inFunction = false → body.Returnless) :=
        ((statement_passes inFunction body (optionalExpression condition s)).behind
          (faults_optionalExpression condition s)).before (faults_optionalExpression increment _)
      match initializer with
      | none => exact (hloop s).mono fun h hf => ⟨trivial, h hf⟩
      | some initializer =>
          have hinitializer := statement_passes inFunction initializer s.openScope
          exact (hinitializer.append (hloop _)).mono fun h hf => ⟨h.1 hf, h.2 hf⟩
  | .function name params body =>
      have hparams := (introduceAll_links params (s.introduce name).openScope).1.faults
      have hbody := (statements_pass true body
        (params.foldl State.introduce (s.introduce name).openScope)).1
      exact (Passes.of_kept ((introduce_links s name).1.faults.trans
        (hparams.trans hbody))).mono fun _ _ => trivial
  | .ret keyword value =>
      match inFunction with
      | true =>
          exact (Passes.of_kept (faults_optionalExpression value s)).mono fun _ h => nomatch h
      | false => exact .report .returnFromTopLevel keyword (faults_optionalExpression value _)

theorem statements_pass (inFunction : Bool) (body : List Stmt) (s : State) :
    Passes s (statements inFunction body s) (inFunction = false → Stmt.ReturnlessAll body) := by
  match body with
  | [] => exact (Passes.of_kept (List.prefix_refl _)).mono fun _ _ => trivial
  | stmt :: rest =>
      have hfirst := statement_passes inFunction stmt s
      have hrest := statements_pass inFunction rest (statement inFunction stmt s)
      exact (hfirst.append hrest).mono fun h hf => ⟨h.1 hf, h.2 hf⟩

theorem optionalStatement_passes (inFunction : Bool) (o : Option Stmt) (s : State) :
    Passes s (optionalStatement inFunction o s)
      (inFunction = false → Stmt.ReturnlessOptional o) := by
  match o with
  | none => exact (Passes.of_kept (List.prefix_refl _)).mono fun _ _ => trivial
  | some stmt => exact statement_passes inFunction stmt s

end

/-- A program that is let pass has no return at the top level. -/
theorem returnlessAll_of_program {body : List Stmt} {distances : Distances}
    (h : (program body distances).faults = []) : Stmt.ReturnlessAll body :=
  (statements_pass false body ⟨[], distances, []⟩).2 h rfl

end Binding

/-! ## What is executed -/

theorem Stmt.ReturnlessAll.of_mem {body : List Stmt} (h : Stmt.ReturnlessAll body) {s : Stmt}
    (hs : s ∈ body) : s.Returnless := by
  induction body with
  | nil => cases hs
  | cons first rest ih =>
      rcases List.mem_cons.mp hs with rfl | hs
      · exact h.1
      · exact ih h.2 hs

theorem Stmt.Returnless.not_returned {s : Stmt} (h : s.Returnless) (m : Machine) (v : Value)
    (m' : Machine) : ¬ (Job.execute s).Gives m (.returned v) m' := by
  rintro ⟨n, hn⟩
  exact nomatch (Run.unreturned n).execute h _ _ _ hn

/-- A program without returns at the top level stops nowhere before its end. -/
theorem Run.through_of_program {n : Nat} {body : List Stmt} (h : Stmt.ReturnlessAll body)
    {m m' : Machine} (hrun : (program n body).run m = some (.ok (), m')) :
    Job.Through body m m' := by
  induction body generalizing m with
  | nil =>
      cases hrun
      exact .nil
  | cons first rest ih =>
      obtain ⟨completion, m₁, hfirst, hrest⟩ := ok_of_bind hrun
      cases (unreturned n).execute h.1 _ _ _ hfirst
      exact .cons ⟨n, hfirst⟩ (ih h.2 hrest)

namespace Session

variable {s t : Session} {source : String}

theorem Accepts.returnlessAll (h : s.Accepts source) : Stmt.ReturnlessAll (s.programOf source) :=
  Binding.returnlessAll_of_program ((s.clean_bound source).mp h).2

theorem through_of_run {fuel : Nat} (h : s.run fuel source = some (.ok, t)) :
    Job.Through (s.programOf source) (s.bound source).machine t.machine := by
  obtain ⟨ha, m, rfl, hm⟩ := ok_of_run h
  exact Run.through_of_program ha.returnlessAll hm

end Session

/-- No statement at the top level of a program that the resolver lets pass returns, on
whatever machine it is executed. A return in the body of a function is the value of the call
that runs the body, as soon as it is come to; without one the body runs to its end. So a run
of a session that goes well has executed all statements to their ends, and among them none
is ever come to that would stop the program. -/
theorem everything_executed :
    (∀ body distances, (Binding.program body distances).faults = [] → ∀ stmt ∈ body, ∀ m v m',
      ¬ (Job.execute stmt).Gives m (.returned v) m') ∧
    (∀ serial (declaration : Declaration) closure paren (arguments : List Value) m v m',
      let inside := m.entered closure (declaration.params.zip arguments)
      ((Job.call (.function serial declaration closure) paren arguments).Gives m v m' ↔
        arguments.length = declaration.params.length ∧
        ∃ m₁, m' = { m₁ with current := m.current } ∧
          ((Job.executeAll declaration.body).Raises inside v m₁ ∨
            v = .nil ∧ Job.Through declaration.body inside m₁))) ∧
    ∀ (s : Session) source,
      (∀ fuel t, s.run fuel source = some (.ok, t) →
        Job.Through (s.programOf source) (s.bound source).machine t.machine) ∧
      (s.Accepts source → ∀ done stmt rest m, s.programOf source = done ++ stmt :: rest →
        Job.Through done (s.bound source).machine m → ∀ v m',
          ¬ (Job.execute stmt).Gives m (.returned v) m') := by
  refine ⟨?_, ?_, fun s source => ⟨fun _ _ => Session.through_of_run, ?_⟩⟩
  · intro body distances h stmt hstmt
    exact ((Binding.returnlessAll_of_program h).of_mem hstmt).not_returned
  · intro serial declaration closure paren arguments m v m'
    exact Job.call_gives_iff
  · intro h done stmt rest m hsplit _
    have hmem : stmt ∈ s.programOf source := by
      rw [hsplit]
      exact List.mem_append_right _ List.mem_cons_self
    exact (h.returnlessAll.of_mem hmem).not_returned m

/-- A return out of two loops ends the call, with the loops and what is behind them left out.
The program around the call is executed to its end. -/
theorem program_executed_past_returns :
    let source := "fun find(x) \x7b while (true) \x7b for (;;) \x7b if (x) \x7b return \"yes\"; \x7d
      return \"no\"; \x7d \x7d print \"late\"; \x7d var a = find(true); print find(false);"
    let s := Session.new (.clock 0)
    ∃ (t : Session) (serial : Nat) (declaration : Declaration) (closure : ScopeId) (v : Value)
      (m m₁ : Machine), s.run 20 source = some (.ok, t) ∧ t.machine.output = "no\n" ∧
      Job.Through (s.programOf source) (s.bound source).machine t.machine ∧
      (∀ stmt ∈ s.programOf source, ∀ m v m', ¬ (Job.execute stmt).Gives m (.returned v) m') ∧
      (Job.call (.function serial declaration closure) ⟨.rightParen, ")", 1⟩ [.bool true]).Gives
        t.machine v m ∧ v.text = "yes" ∧ m.output = t.machine.output ∧
      (Job.executeAll declaration.body).Raises
        (t.machine.entered closure (declaration.params.zip [.bool true])) v m₁ := by
  intro source s
  have hruns : (s.run 20 source).any (fun o => o.1 = .ok && o.2.machine.output = "no\n" &&
      (o.2.machine.store.get? o.2.machine.globals "find").any fun f => f.text = "<fn find>" &&
        ((Run.call 20 f ⟨.rightParen, ")", 1⟩ [.bool true]).run o.2.machine).any fun a =>
          a.1.map Value.text = .ok "yes" && a.2.output = "no\n") = true := by
    decide +kernel
  simp only [Option.any_eq_true, Bool.and_eq_true, decide_eq_true_eq] at hruns
  obtain ⟨⟨_, t⟩, ht, ⟨rfl, hout⟩, f, -, htext, ⟨result, m⟩, hm, hresult, hout'⟩ := hruns
  obtain ⟨v, rfl, hv⟩ : ∃ v, result = .ok v ∧ v.text = "yes" := by
    cases result with
    | error => cases hresult
    | ok v => exact ⟨v, rfl, Except.ok.inj hresult⟩
  have hcall : (Job.call f ⟨.rightParen, ")", 1⟩ [.bool true]).Gives t.machine v m := ⟨20, hm⟩
  obtain ⟨hstatic, hcalls, hsessions⟩ := everything_executed
  cases f with
  | function serial declaration closure =>
      have hwalked := ((s.clean_bound source).mp (Session.ok_of_run ht).1).2
      obtain ⟨-, m₁, -, hraises | ⟨rfl, -⟩⟩ := (hcalls ..).mp hcall
      · exact ⟨t, serial, declaration, closure, v, m, m₁, ht, hout, (hsessions s source).1 20 t ht,
          hstatic _ _ hwalked, hcall, hv, hout'.trans hout.symm, hraises⟩
      · exact absurd hv (by decide)
  | native =>
      have hne : "<native fn>" ≠ "<fn find>" := by decide
      exact absurd htext hne
  | nil | bool | number | string => cases hm

end Lox
