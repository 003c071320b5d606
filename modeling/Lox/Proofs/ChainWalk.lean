import Mathlib.Data.List.Pairwise
import Lox.Proofs.Machine.Found
import Lox.Proofs.Unused

/-!
# Distances and the walk by name

The recorded distances are there because names alone do not tell variables apart. Where they
do, the distances change nothing: an evaluator that walks the scopes from the current one
outwards, and takes the first that binds the name, runs a program as the machine does. It
is the mirror of the program in itself, with the walk as the second way to find variables.
-/

namespace Lox

/-- The names declared in the blocks and the functions of a program. -/
def Stmt.localNames (program : List Stmt) : List String :=
  (localScopes program).flatMap fun scope => scope.2.map Prod.fst

/-- What is seen of a run: how it ended, and what it has printed. -/
def Machine.outcome (answer : Except Fault Unit × Machine) : Except Fault Unit × String :=
  (answer.1, answer.2.output)

namespace Run

/-- A read by name reads from the current scope outwards. -/
theorem run_readBy_walk (id : NodeId) (name : Token) (m : Machine) :
    (readBy Machine.walk? id name).run m =
      match m.store.get? m.current name.lexeme with
      | some value => some (.ok value, m)
      | none => some (.error ⟨.undefinedVariable name.lexeme, name.line⟩, m) :=
  run_readBy id name m

/-- A write by name changes the nearest binding. -/
theorem run_writeBy_walk (id : NodeId) (name : Token) (value : Value) (m : Machine) :
    (writeBy Machine.walk? id name value).run m =
      match m.store.assign? m.current name.lexeme value with
      | some store => some (.ok (), { m with store })
      | none => some (.error ⟨.undefinedVariable name.lexeme, name.line⟩, m) := by
  rw [run_writeBy, Machine.walk?, Store.assign?]
  cases m.store.binder? m.current name.lexeme <;> rfl

end Run

/-! ## Names that tell variables apart -/

theorem Layout.mem_localNames {y : Layout} {place : Place} {name : String} {binder : Binder}
    (h : y.ListsAt place name binder) :
    name ∈ y.scopes.flatMap fun scope => scope.2.map Prod.fst := by
  obtain ⟨names, hscope, hname⟩ := h
  exact List.mem_flatMap.mpr ⟨_, hscope, List.mem_map_of_mem hname⟩

/-- A name that is declared once is declared at one place. -/
theorem Layout.place_unique {y : Layout}
    (hnodup : (y.scopes.flatMap fun scope => scope.2.map Prod.fst).Nodup) {place place' : Place}
    {name : String} {binder binder' : Binder} (h : y.ListsAt place name binder)
    (h' : y.ListsAt place' name binder') : place = place' := by
  obtain ⟨names, hscope, hname⟩ := h
  obtain ⟨names', hscope', hname'⟩ := h'
  obtain ⟨-, hapart⟩ := List.nodup_flatMap.mp hnodup
  have hsymm : Std.Symm (Function.onFun List.Disjoint
      fun scope : Place × Declarations => scope.2.map Prod.fst) := ⟨fun _ _ h _ hb ha => h ha hb⟩
  by_contra hne
  have hdisjoint := hapart.forall hscope hscope' fun heq => hne (congrArg Prod.fst heq)
  exact hdisjoint (List.mem_map_of_mem hname) (List.mem_map.mpr ⟨_, hname', rfl⟩)

/-! ## The mirror of a program in itself -/

namespace Mirror

/-- A variable that keeps its name. -/
def nothing (distances : Distances) : Renaming := ⟨[], "", "", distances⟩

theorem declared_same {distances : Distances} {d d' : Declaration}
    (h : (nothing distances).Declared d d') : d' = d := by
  obtain ⟨here, around, rfl⟩ := h
  rw [Declaration.renamed, Stmt.renamedAll_same rfl,
    List.map_congr_left fun t _ => Renaming.declaration_same rfl (here :: around) t, List.map_id']

theorem alike_same {distances : Distances} {v v' : Value}
    (h : v.Alike (nothing distances).Declared v') : v' = v := by
  cases h with
  | function serial closure hd => rw [declared_same hd]
  | _ => rfl

theorem alike_refl (distances : Distances) (v : Value) :
    v.Alike (nothing distances).Declared v := by
  cases v with
  | function serial d closure =>
      have hd : (nothing distances).Declared d (d.renamed (nothing distances) [] []) :=
        ⟨[], [], rfl⟩
      rw [declared_same hd] at hd
      exact .function serial closure hd
  | _ => constructor

/-- A program beside itself. -/
def self (layout : Layout) (natives : Array Native)
    (honest : ∀ native ∈ natives, native.Honest) : Mirror where
  layout := layout
  spelling := nothing layout.distances
  natives := natives
  declared _ := by rw [Renaming.declaration_same rfl, Renaming.called_same rfl]
  kept _ := Renaming.called_same rfl ..
  honest := honest
  agree native _ args args' ha := by
    obtain rfl : args' = args := by
      refine (List.forall₂_eq_eq_eq ▸ ha.imp fun _ _ h => (alike_same h).symm : args = args').symm
    cases native.apply args' with
    | ok v => exact .ok (alike_refl _ v)
    | error message => exact .error message

/-- Where nothing is renamed, answers that are like one another show the same. -/
theorem outcome_of_answers {μ : Mirror} {w : World} {scope : ScopeId}
    (hsame : μ.spelling.fresh = μ.spelling.name)
    {o o' : Option (Except Machine.Fault Unit × Machine)}
    (h : μ.Answers w scope (fun _ => Eq) o o') :
    o'.map Machine.outcome = o.map Machine.outcome := by
  cases h with
  | none => rfl
  | ok _ _ hm _ => exact congrArg (fun output => some (Except.ok (), output)) hm.output
  | @fault w' f f' m m' _ hf hm _ =>
      obtain rfl : f' = f := by
        rcases hf with rfl | ⟨hcause, rfl⟩
        · rfl
        · rw [hsame, ← hcause]
      exact congrArg (fun output => some (Except.error f', output)) hm.output

end Mirror

namespace Session

variable {clock : Native} {natives : List Native} {tokens : List Token} {firstId : NodeId}

/-- Where no two local variables have the same name, none has that of a global one, and none that
of a use for which no distance was recorded, running with the distances and running by the walk
along the scopes print the same and end in the same way. -/
theorem walk_agrees (h : Runs clock natives tokens firstId)
    (hnatives : ∀ native ∈ clock :: natives, native.Honest)
    (hlocal : (Stmt.localNames (Parsed.program tokens firstId)).Nodup)
    (hglobal : ∀ name ∈ Stmt.localNames (Parsed.program tokens firstId),
      name ∉ (clock :: natives).map Native.name ∧
        name ∉ ((Parsed.program tokens firstId).flatMap Stmt.declares).map Prod.fst)
    (hunrecorded : ∀ u ∈ Stmt.usesAll (Parsed.program tokens firstId),
      ((fresh clock natives).bind
        (Parsed.program tokens firstId)).machine.distances.find? u.1 = none →
      u.2.lexeme ∉ Stmt.localNames (Parsed.program tokens firstId)) (fuel : Nat) :
    let program := Parsed.program tokens firstId
    let m := ((fresh clock natives).bind program).machine
    ((Run.programBy Machine.walk? fuel program).run m).map Machine.outcome =
      ((Run.program fuel program).run m).map Machine.outcome := by
  intro program m
  let y := layoutOf clock natives tokens firstId
  have hdistinct : y.Distinct :=
    { places := fun hl hl' => Layout.place_unique (y := y) hlocal hl hl'
      globals := fun hl hmem => by
        obtain ⟨hnative, htop⟩ := hglobal _ (Layout.mem_localNames hl)
        exact (List.mem_append.mp hmem).elim hnative htop
      unrecorded := fun hmem hd place binder hl => by
        refine hunrecorded _ hmem ?_ (Layout.mem_localNames hl)
        rw [machine_bound_fresh]
        exact hd }
  let μ := Mirror.self y (fresh clock natives).machine.natives fun native hn =>
    hnatives native ((unused_fresh clock natives).natives native hn)
  have hm : μ.Machines .unused m m := machines_fresh rfl rfl
  have hanswers := Mirror.program_matches (μ := μ) (Mirror.finds_walk hdistinct rfl) fuel h.sited
    m m hm (site_fresh ..)
  rw [Run.programBy_target, Stmt.renamedAll_same rfl] at hanswers
  exact Mirror.outcome_of_answers rfl hanswers

/-- A closure in a function that calls itself, up to a variable that is not there. -/
theorem closure_walk_agrees :
    let tokens := tokensOf ("var g = \"global\"; fun f(x, again) \x7b fun show() \x7b print g; " ++
      "print x; \x7d var a = x; show(); \x7b var b = a; a = \"changed\"; print b; \x7d " ++
      "if (again) f(\"second\", false); print a; missing; \x7d f(\"first\", true);")
    let program := Parsed.program tokens 0
    let m := ((fresh (.clock 0) []).bind program).machine
    Stmt.localNames program = ["x", "again", "show", "a", "b"] ∧
      ((Run.program 60 program).run m).map Machine.outcome =
        some (.error ⟨.undefinedVariable "missing", 1⟩,
          "global\nfirst\nfirst\nglobal\nsecond\nsecond\nchanged\n") ∧
      ∀ fuel, ((Run.programBy Machine.walk? fuel program).run m).map Machine.outcome =
        ((Run.program fuel program).run m).map Machine.outcome := by
  intro tokens program m
  have hnatives : ∀ native ∈ [Native.clock 0], native.Honest := by
    refine List.forall_mem_singleton.mpr ?_
    intro _ _ _ _ h
    cases h
  -- one evaluation of the program for all that is asked of it
  have hfacts : (((Parsed.ofTokens tokens 0).faults = [] ∧
        ((fresh (.clock 0) []).bind program).log.hadError = false) ∧
      (Stmt.localNames program).Nodup ∧
      (∀ name ∈ Stmt.localNames program, name ∉ ["clock"] ∧
        name ∉ (program.flatMap Stmt.declares).map Prod.fst) ∧
      ∀ u ∈ Stmt.usesAll program, m.distances.find? u.1 = none →
        u.2.lexeme ∉ Stmt.localNames program) ∧
      Stmt.localNames program = ["x", "again", "show", "a", "b"] ∧
      ((Run.program 60 program).run m).map Machine.outcome =
        some (.error ⟨.undefinedVariable "missing", 1⟩,
          "global\nfirst\nfirst\nglobal\nsecond\nsecond\nchanged\n") := by
    decide +kernel
  obtain ⟨⟨⟨hread, hbound⟩, hlocal, hglobal, hunrecorded⟩, hnames, hrun⟩ := hfacts
  exact ⟨hnames, hrun, walk_agrees ⟨hread, hbound⟩ hnatives hlocal hglobal hunrecorded⟩

end Session

end Lox
