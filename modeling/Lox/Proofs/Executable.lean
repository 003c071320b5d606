import Lox.Proofs.Machine.Performs
import Lox.Proofs.Machine.Returns

/-!
# All that is read can be run

The parser has the last word on the shape of programs. Whatever a session has been through,
the functions in its variables were read by the parser, and so no run comes to an operator
without a rule. A call goes into the body of a function only with one argument for each
parameter, and then pairing them loses none.
-/

namespace Lox

theorem Machine.kept_natives : Kept fun m m' => m'.natives = m.natives where
  refl _ := rfl
  trans h h' := h'.trans h
  print _ _ := rfl
  define _ _ _ := rfl
  write _ _ _ _ _ := rfl
  close _ := rfl
  leave _ _ _ _ h := h

theorem Machine.executable_bare : bare.Executable := executable_iff.mpr stores_bare

theorem Machine.Executable.register {m : Machine} (h : m.Executable) {native : Native}
    (hn : native.Honest) : (m.register native).Executable := by
  refine executable_iff.mpr ((executable_iff.mp h).register hn fun v hv => ?_)
  rw [eq_of_registered hv]
  trivial

namespace Session

theorem executable_programOf (s : Session) (source : String) :
    Stmt.ExecutableAll (s.programOf source) :=
  Parsed.executable_ofTokens (tokensOf source) s.nextId

/-- A program is run with the native functions that are there. -/
theorem natives_of_run {s t : Session} {fuel : Nat} {source : String} {status : Status}
    (h : s.run fuel source = some (status, t)) : t.machine.natives = s.machine.natives := by
  rcases machine_of_run h with ht | ⟨-, ht | ⟨result, hm⟩⟩
  · rw [ht]
  · rw [ht]
    rfl
  · exact (Run.program_keeps Machine.kept_natives _ _ _ _ _ hm).trans rfl

/-- The functions of a session have executable bodies, whatever has been run before. -/
theorem Reached.executable {clock : Native} {s : Session} (hs : Reached clock s)
    (hn : ∀ native ∈ s.machine.natives, native.Honest) : s.machine.Executable := by
  induction hs with
  | new => exact Machine.executable_bare.register (hn clock (Array.mem_push_self ..))
  | @run s t fuel source status _ h ih =>
      have hm := ih (natives_of_run h ▸ hn)
      have hbound : (s.bound source).machine.Executable := hm.congr rfl rfl
      rcases machine_of_run h with ht | ⟨-, ht | ⟨result, hrun⟩⟩
      · exact ht ▸ hm
      · exact ht ▸ hbound
      · exact (Run.program_performs fuel (s.executable_programOf source) _ _ _ hbound hrun).1
  | parse _ _ ih => exact ih hn
  | tokenize _ _ ih => exact ih hn
  | takeDiagnostics _ ih => exact ih hn
  | register _ native ih =>
      have hold := ih fun other ho => hn other (Array.mem_push_of_mem _ ho)
      exact hold.register (hn native (Array.mem_push_self ..))

/-- A source that was stopped is in order, and its program has ended in the fault that is
reported. -/
theorem fault_of_run {s t : Session} {fuel : Nat} {source : String}
    (h : s.run fuel source = some (.runtimeError, t)) :
    ∃ fault m, (Run.program fuel (s.programOf source)).run (s.bound source).machine =
        some (.error fault, m) ∧
      t = { s.bound source with
        machine := m
        log := (s.bound source).log.report fault.diagnostic } := by
  rw [Session.run_eq] at h
  split at h
  · cases h
  · split at h
    · cases h
    · rw [interpret_eq] at h
      obtain ⟨⟨fault | ⟨⟩, m⟩, hm, ho⟩ := Option.map_eq_some_iff.mp h <;> cases ho
      exact ⟨fault, m, hm, rfl⟩

/-- Everything the parser returns is executable, whatever the tokens are. So no source that
is run in a session, whatever has been run there before, stops for want of a rule for an
operator. And the body of a declared function is run only with an argument for each
parameter, each bound to its own: with any other number of arguments the call is a fault,
and nothing has been done. -/
theorem parsed_programs_execute (clock : Native) :
    (∀ tokens i, ∀ part ∈ Stmt.partsAll (Parsed.ofTokens tokens i).desugar.statements,
      part.Executable) ∧
    (∀ s, Reached clock s → (∀ native ∈ s.machine.natives, native.Honest) →
      ∀ fuel source t, s.run fuel source = some (.runtimeError, t) →
        ∃ fault m, (Run.program fuel (s.programOf source)).run (s.bound source).machine =
            some (.error fault, m) ∧
          t.log = (s.bound source).log.report fault.diagnostic ∧
          fault.cause ≠ .unknownUnaryOperator ∧ fault.cause ≠ .unknownBinaryOperator) ∧
    ∀ n serial declaration closure paren arguments m,
      (arguments.length = declaration.params.length →
        (declaration.params.zip arguments).unzip = (declaration.params, arguments)) ∧
      (Run.call (n + 1) (.function serial declaration closure) paren arguments).run m =
        if arguments.length = declaration.params.length then
          ((Run.executeAll n declaration.body).run
            (m.entered closure (declaration.params.zip arguments))).map fun o =>
              (o.1.map Completion.value, { o.2 with current := m.current })
        else
          let cause := Machine.Cause.wrongArity declaration.params.length arguments.length
          some (.error ⟨cause, paren.line⟩, m) := by
  refine ⟨Parsed.executable_ofTokens, fun s hs hn fuel source t h => ?_,
    fun n serial declaration closure paren arguments m => ⟨fun harity => ?_, ?_⟩⟩
  · obtain ⟨fault, m, hrun, rfl⟩ := fault_of_run h
    have hbound : (s.bound source).machine.Executable := (hs.executable hn).congr rfl rfl
    have hfault : fault.cause.Ordinary :=
      (Run.program_performs fuel (s.executable_programOf source) _ _ _ hbound hrun).2.2 fault rfl
    refine ⟨fault, m, hrun, rfl, fun hcause => ?_, fun hcause => ?_⟩ <;> rw [hcause] at hfault <;>
      exact hfault
  · exact List.unzip_zip harity.symm
  · split
    · rename_i harity
      exact Run.run_call harity serial n
    · rename_i harity
      rw [Run.call, run_bind, Run.checkArity, if_neg harity]
      rfl

/-- A function is declared in one source, and the next one calls it, first in order and then
with one argument too many. -/
theorem kept_function_called :
    let tail := "f(true); f(1, 2);"
    ∃ (s t : Session) (fault : Machine.Fault),
      (new (.clock 0)).run 20 "fun f(a) \x7b print !a; \x7d" = some (.ok, s) ∧
      (∀ native ∈ s.machine.natives, native.Honest) ∧
      s.run 20 tail = some (.runtimeError, t) ∧ t.machine.output = "false\n" ∧
      t.log.held = [.runtime 1 "Expected 1 arguments but got 2."] ∧
      t.log = (s.bound tail).log.report fault.diagnostic ∧
      fault.cause ≠ .unknownUnaryOperator ∧ fault.cause ≠ .unknownBinaryOperator := by
  intro tail
  have hruns : ((new (.clock 0)).run 20 "fun f(a) \x7b print !a; \x7d").any (fun o => o.1 = .ok &&
      ((o.2.run 20 tail).any fun o' => o'.1 = .runtimeError && (o'.2.machine.output = "false\n" &&
        o'.2.log.held = [.runtime 1 "Expected 1 arguments but got 2."]))) = true := by
    decide +kernel
  simp only [Option.any_eq_true, Bool.and_eq_true, decide_eq_true_eq] at hruns
  obtain ⟨⟨_, s⟩, hs, rfl, ⟨_, t⟩, ht, rfl, houtput, hheld⟩ := hruns
  have hhonest : ∀ native ∈ s.machine.natives, native.Honest := by
    rw [natives_of_run hs]
    rintro native (hmem : native ∈ #[Native.clock 0])
    rw [List.mem_singleton.mp (Array.mem_toList_iff.mpr hmem)]
    exact fun _ _ _ _ h => nomatch h
  obtain ⟨fault, m, -, hlog, hunary, hbinary⟩ :=
    (parsed_programs_execute (.clock 0)).2.1 s (Reached.new.run hs) hhonest 20 tail t ht
  exact ⟨s, t, fault, hs, hhonest, ht, houtput, hheld, hlog, hunary, hbinary⟩

end Session

end Lox
