import Lox.Proofs.Machine.Found
import Lox.Proofs.Scoping.Renamed
import Lox.Proofs.Unused

/-!
# A local variable may have any name that is new

Renaming a local variable, or a parameter, to a name that the program does not contain
changes nothing: the resolver records the same distances, and the program prints the same
and ends in the same way. Only the message that the variable is undefined, which it can be
while its own initializer is evaluated, shows the name.
-/

namespace Lox

/-- All names in a program: those that are used and those that are declared, at the top level
or further in. -/
def Stmt.names (program : List Stmt) : List String :=
  (usesAll program).map (·.2.lexeme) ++ ((program.flatMap declares).map Prod.fst ++
    (localScopes program).flatMap fun scope => scope.2.map Prod.fst)

/-- The second diagnostic is the first, but that it may say of the new name that it is undefined
where the first says so of the old one. -/
def Diagnostic.Respelled (old new : String) (d d' : Diagnostic) : Prop :=
  d' = d ∨ ∃ line, d = .runtime line (Machine.Cause.undefinedVariable old).message ∧
    d' = .runtime line (Machine.Cause.undefinedVariable new).message

namespace Session

/-- Two runs end in the same way: with the same status, the same output, and the same errors but
for the name. -/
structure Respelled (old new : String) (o o' : Status × Session) : Prop where
  status : o'.1 = o.1
  output : o'.2.machine.output = o.2.machine.output
  errors : List.Forall₂ (Diagnostic.Respelled old new) o.2.log.held o'.2.log.held

variable {clock : Native} {natives : List Native} {tokens : List Token} {firstId : NodeId}

/-- A variable of a program that is no function can be renamed to a name that is not in it. -/
theorem Runs.new (h : Runs clock natives tokens firstId) {place : Place} {names : Declarations}
    (hplace : (place, names) ∈ Stmt.localScopes (Parsed.program tokens firstId)) {x : String}
    {binder : Binder} (hx : (x, binder) ∈ names) (hbinder : binder ≠ .function) {z : String}
    (hz : z ∉ Stmt.names (Parsed.program tokens firstId)) :
    Renaming.New ⟨place, x, z, distancesOf tokens firstId⟩
      (layoutOf clock natives tokens firstId) where
  distances := rfl
  used := by
    rintro u hu rfl
    exact hz (List.mem_append_left _ (List.mem_map_of_mem hu))
  listed := by
    rintro place name binder ⟨names, hscope, hname⟩ rfl
    refine hz (List.mem_append_right _ (List.mem_append_right _ ?_))
    exact List.mem_flatMap.mpr ⟨_, hscope, List.mem_map_of_mem hname⟩
  plain := by
    rintro ⟨names', hscope, hname⟩
    exact hbinder (Stmt.binder_unique h.linked hplace hscope hx hname)

/-- The mirror of a program with a variable renamed. -/
def mirrorOf (clock : Native) (natives : List Native) (tokens : List Token) (firstId : NodeId)
    {ρ : Renaming} (hnew : ρ.New (layoutOf clock natives tokens firstId))
    (hnatives : ∀ native ∈ clock :: natives, native.Discreet ∧ native.Honest) : Mirror where
  layout := layoutOf clock natives tokens firstId
  spelling := ρ
  natives := (fresh clock natives).machine.natives
  declared := hnew.variable
  kept := hnew.function
  honest native hn := (hnatives native ((unused_fresh clock natives).natives native hn)).2
  agree native hn :=
    (hnatives native ((unused_fresh clock natives).natives native hn)).1 _ ρ.lookalikes

/-- An answer of a machine leads to the same end as one that is like it. -/
theorem respelled_of_answers {μ : Mirror} {w : World} {scope : ScopeId} (s : Session)
    {o o' : Option (Except Machine.Fault Unit × Machine)}
    (h : μ.Answers w scope (fun _ => Eq) o o') :
    Option.Rel (Respelled μ.spelling.name μ.spelling.fresh) (o.map s.ending) (o'.map s.ending) := by
  have hheld : List.Forall₂ (Diagnostic.Respelled μ.spelling.name μ.spelling.fresh)
      s.log.held s.log.held := List.forall₂_same.mpr fun d _ => .inl rfl
  cases h with
  | none => exact .none
  | ok _ _ hm _ => exact .some ⟨rfl, hm.output, hheld⟩
  | @fault w' f f' m m' _ hf hm _ =>
      refine .some ⟨rfl, hm.output, List.rel_append hheld (.cons ?_ .nil)⟩
      rcases hf with rfl | ⟨hcause, rfl⟩
      · exact .inl rfl
      · refine .inr ⟨f.line, ?_, rfl⟩
        rw [Machine.Fault.diagnostic, hcause]

/-- Renaming a variable of a block or a function, be it declared there or a parameter, to a name
that is nowhere in the program gives a program that is bound as the first one is, node by node,
and that does the same when it is run. -/
theorem renaming_invisible (h : Runs clock natives tokens firstId)
    (hnatives : ∀ native ∈ clock :: natives, native.Discreet ∧ native.Honest)
    {place : Place} {names : Declarations}
    (hplace : (place, names) ∈ Stmt.localScopes (Parsed.program tokens firstId)) {x : String}
    {binder : Binder} (hx : (x, binder) ∈ names) (hbinder : binder ≠ .function) {z : String}
    (hz : z ∉ Stmt.names (Parsed.program tokens firstId)) :
    let program := Parsed.program tokens firstId
    let s := (fresh clock natives).bind program
    let renamed := Stmt.renamedProgram ⟨place, x, z, s.machine.distances⟩ program
    (fresh clock natives).bind renamed = s ∧
      ∀ fuel, Option.Rel (Respelled x z) (s.interpret fuel program)
        (s.interpret fuel renamed) := by
  intro program s renamed
  have hdistances : s.machine.distances = distancesOf tokens firstId := by
    rw [show s.machine = _ from machine_bound_fresh clock natives tokens firstId]
  have hnew := h.new hplace hx hbinder hz
  rw [← hdistances] at hnew
  constructor
  · rw [bind, Binding.program_renamed hnew h.proper h.linked h.sited]
    rfl
  · intro fuel
    let μ := mirrorOf clock natives tokens firstId hnew hnatives
    have hm : μ.Machines .unused s.machine s.machine := machines_fresh rfl rfl
    have hs : World.unused.sites[s.machine.current]? = some [] := site_fresh ..
    have hanswers := Mirror.program_matches (μ := μ) (Mirror.finds_target hnew) fuel h.sited
      s.machine s.machine hm hs
    rw [Run.programBy_target, Run.programBy_target] at hanswers
    rw [interpret_eq, interpret_eq]
    exact respelled_of_answers s hanswers

/-- A variable declared behind a closure that reads the global one of its name, with another one
of the name further in, and all of it in a function that calls itself. -/
theorem shadowing_variable_renamed :
    let tokens := tokensOf ("var a = \"global\"; fun f(x, again) \x7b fun show() \x7b print a; " ++
      "print x; \x7d var a = x; show(); \x7b var a = \"inner\"; print a; \x7d " ++
      "if (again) f(\"second\", false); print a; \x7d f(\"first\", true);")
    let program := Parsed.program tokens 0
    let s := (fresh (.clock 0) []).bind program
    let renamed := Stmt.renamedProgram ⟨[1], "a", "z", s.machine.distances⟩ program
    (Stmt.usesAll renamed).map (·.2.lexeme) =
        ["a", "x", "x", "show", "a", "again", "f", "z", "f"] ∧
      (s.interpret 60 program).map (fun o => (o.1, o.2.machine.output)) =
        some (.ok, "global\nfirst\ninner\nglobal\nsecond\ninner\nsecond\nfirst\n") ∧
      (fresh (.clock 0) []).bind renamed = s ∧
      ∀ fuel, Option.Rel (Respelled "a" "z") (s.interpret fuel program)
        (s.interpret fuel renamed) := by
  intro tokens program s renamed
  have hnatives : ∀ native ∈ [Native.clock 0], native.Discreet ∧ native.Honest := by
    refine List.forall_mem_singleton.mpr ⟨Native.discreet_clock 0, ?_⟩
    intro _ _ _ _ h
    cases h
  -- one evaluation of the program for all that is asked of it
  have hfacts : (((Parsed.ofTokens tokens 0).faults = [] ∧ s.log.hadError = false) ∧
      ([1], [("x", .parameter), ("again", .parameter), ("show", .function), ("a", .variable)]) ∈
        Stmt.localScopes program ∧ "z" ∉ Stmt.names program) ∧
      (Stmt.usesAll renamed).map (·.2.lexeme) =
        ["a", "x", "x", "show", "a", "again", "f", "z", "f"] ∧
      (s.interpret 60 program).map (fun o => (o.1, o.2.machine.output)) =
        some (.ok, "global\nfirst\ninner\nglobal\nsecond\ninner\nsecond\nfirst\n") := by
    decide +kernel
  obtain ⟨⟨⟨hread, hbound⟩, hplace, hz⟩, huses, hrun⟩ := hfacts
  have hx : ("a", Binder.variable) ∈
      [("x", .parameter), ("again", .parameter), ("show", .function), ("a", .variable)] := by
    decide
  exact ⟨huses, hrun, renaming_invisible ⟨hread, hbound⟩ hnatives hplace hx (by decide) hz⟩

/-- An assignment in the initializer of its own variable misses it, under either name. -/
example :
    let program := Parsed.program (tokensOf "\x7b var a = a = 1; \x7d") 0
    let s := (fresh (.clock 0) []).bind program
    let renamed := Stmt.renamedProgram ⟨[0], "a", "z", s.machine.distances⟩ program
    (s.interpret 9 program).map (·.2.log.held) =
        some [.runtime 1 (Machine.Cause.undefinedVariable "a").message] ∧
      (s.interpret 9 renamed).map (·.2.log.held) =
        some [.runtime 1 (Machine.Cause.undefinedVariable "z").message] := by
  decide +kernel

end Session

end Lox
