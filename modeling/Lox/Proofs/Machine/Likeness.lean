import Lox.Proofs.Discreet
import Lox.Proofs.Machine.Run
import Lox.Proofs.Moved
import Lox.Proofs.Store

/-!
# Runs that are alike

Two programs of which the second stands further down or has its nodes numbered from
further up run alike: they make the same scopes, bind the same names to values that are
alike, print the same and fail for the same reason, at lines that differ by how far down
the token stands. A likeness says which tokens stand how far down and which nodes are
numbered how far up, and what the two machines have recorded and printed before.
-/

namespace Lox

namespace Declaration

/-- The declaration so many lines and numbers on. -/
def moved (k d : Nat) (decl : Declaration) : Declaration :=
  ⟨decl.name.later k, decl.params.map (Token.later k), Stmt.movedAll k d decl.body⟩

/-- Where the nodes and tokens of a declaration are from. -/
def From (nodes : NodeId → Prop) (tokens : Token → Prop) (decl : Declaration) : Prop :=
  tokens decl.name ∧ (∀ t ∈ decl.params, tokens t) ∧ Stmt.FromAll nodes tokens decl.body

theorem From.mono {nodes nodes' : NodeId → Prop} {tokens : Token → Prop}
    (h : ∀ id, nodes id → nodes' id) {decl : Declaration} (hd : decl.From nodes tokens) :
    decl.From nodes' tokens :=
  ⟨hd.1, hd.2.1, Stmt.FromAll.mono h _ hd.2.2⟩

end Declaration

/-! ## Scopes -/

/-- Two stores of the same scopes, with values in them that are alike. -/
structure Store.Alike (R : Declaration → Declaration → Prop) (s s' : Store) : Prop where
  size : s'.size = s.size
  parent? : ∀ scope, s'.parent? scope = s.parent? scope
  lookup? : ∀ scope name,
    Option.Rel (Value.Alike R) (s.lookup? scope name) (s'.lookup? scope name)

namespace Store.Alike

variable {R R' : Declaration → Declaration → Prop} {s s' : Store} (h : s.Alike R s')
include h

theorem mono (hR : ∀ d d', R d d' → R' d d') : s.Alike R' s' where
  size := h.size
  parent? := h.parent?
  lookup? scope name := (h.lookup? scope name).imp fun _ _ hv => hv.mono hR

theorem push (parent : Option ScopeId) : (s.push parent).2.Alike R (s'.push parent).2 where
  size := by rw [size_push, size_push, h.size]
  parent? scope := by rw [parent?_push, parent?_push, h.size, h.parent?]
  lookup? scope name := by
    rw [lookup?_push, lookup?_push]
    exact h.lookup? scope name

theorem define (scope : ScopeId) (name : String) {v v' : Value} (hv : v.Alike R v') :
    (s.define scope name v).Alike R (s'.define scope name v') where
  size := by rw [size_define, size_define, h.size]
  parent? t := by rw [parent?_define, parent?_define, h.parent?]
  lookup? t n := by
    rw [lookup?_define, lookup?_define, h.size]
    split
    · exact .some hv
    · exact h.lookup? t n

theorem isSome_lookup? (scope : ScopeId) (name : String) :
    (s'.lookup? scope name).isSome = (s.lookup? scope name).isSome :=
  (h.lookup? scope name).isSome_eq

theorem ancestor? (scope : ScopeId) (distance : Nat) :
    s'.ancestor? scope distance = s.ancestor? scope distance :=
  Store.ancestor?_congr h.parent? scope distance

theorem nearest? (name : String) (limit : Nat) (scope : ScopeId) :
    s'.nearest? name limit scope = s.nearest? name limit scope :=
  Store.nearest?_congr h.parent? (h.isSome_lookup? · name) limit scope

theorem binder? (scope : ScopeId) (name : String) :
    s'.binder? scope name = s.binder? scope name := by
  rw [Store.binder?, Store.binder?, h.nearest?]
  exact congrArg (s.nearest? name · scope) h.size

theorem binderAt? (scope : ScopeId) (distance : Nat) (name : String) :
    s'.binderAt? scope distance name = s.binderAt? scope distance name := by
  rw [Store.binderAt?, Store.binderAt?, h.ancestor?]
  exact congrArg (Option.filter · _) (funext fun found => h.isSome_lookup? found name)

/-- What is found in the same scope of both, if there is one. -/
theorem bind_lookup? (scope : Option ScopeId) (name : String) :
    Option.Rel (Value.Alike R) (scope.bind (s.lookup? · name))
      (scope.bind (s'.lookup? · name)) := by
  cases scope with
  | none => exact .none
  | some scope => exact h.lookup? scope name

theorem get? (scope : ScopeId) (name : String) :
    Option.Rel (Value.Alike R) (s.get? scope name) (s'.get? scope name) := by
  rw [Store.get?, Store.get?, h.binder?]
  exact h.bind_lookup? _ name

theorem getAt? (scope : ScopeId) (distance : Nat) (name : String) :
    Option.Rel (Value.Alike R) (s.getAt? scope distance name)
      (s'.getAt? scope distance name) := by
  rw [Store.getAt?, Store.getAt?, h.ancestor?]
  exact h.bind_lookup? _ name

omit h in
/-- Parameters further down are bound to arguments that are alike. -/
theorem defineAll (h : s.Alike R s') (scope : ScopeId) (k : Nat) (params : List Token)
    {args args' : List Value} (ha : List.Forall₂ (Value.Alike R) args args') :
    (s.defineAll scope (params.zip args)).Alike R
      (s'.defineAll scope ((params.map (Token.later k)).zip args')) := by
  induction params generalizing s s' args args' with
  | nil => exact h
  | cons name params ih =>
      cases ha with
      | nil => exact h
      | cons hv hrest => exact ih (h.define scope name.lexeme hv) hrest

end Store.Alike

/-! ## Machines -/

/-- How the run of a program is like the run of one that stands further down. -/
structure Likeness where
  /-- The tokens that stand so many lines further down in the second program. -/
  shifted : Nat → Token → Prop
  /-- The nodes that the machines may come upon, and whose numbers are so much further up
  in the second program. -/
  known : Nat → NodeId → Prop
  distances : Distances
  distances' : Distances
  agree : ∀ d id, known d id → distances'.find? (id + d) = distances.find? id
  natives : Array Native
  discreet : ∀ native ∈ natives, native.Discreet
  /-- What the second machine had printed before. -/
  printed : String

namespace Likeness

variable (l : Likeness)

/-- The second declaration is the first, further on. -/
def Declared (decl decl' : Declaration) : Prop :=
  ∃ k d, decl.From (l.known d) (l.shifted k) ∧ decl' = decl.moved k d

theorem lookalikes : Lookalikes l.Declared := by
  intro decl decl' h
  obtain ⟨k, d, -, rfl⟩ := h
  exact congrArg (decl.name.lexeme, ·) (List.length_map _)

abbrev Values : Value → Value → Prop := Value.Alike l.Declared

/-- The second machine is where the first is. -/
structure Machines (m m' : Machine) : Prop where
  store : m.store.Alike l.Declared m'.store
  globals : m'.globals = m.globals
  current : m'.current = m.current
  distances : m.distances = l.distances
  distances' : m'.distances = l.distances'
  natives : m.natives = l.natives
  natives' : m'.natives = l.natives
  functions : m'.functions = m.functions
  output : m'.output = l.printed ++ m.output

/-- Machines stay alike when distances are recorded and nodes get known. -/
theorem Machines.rebind {l l' : Likeness} {m m' : Machine} (h : l.Machines m m')
    (hknown : ∀ d id, l.known d id → l'.known d id) (hshifted : l'.shifted = l.shifted)
    (hnatives : l'.natives = l.natives) (hprinted : l'.printed = l.printed) :
    l'.Machines { m with distances := l'.distances } { m' with distances := l'.distances' } where
  store := h.store.mono fun decl decl' hd => by
    obtain ⟨k, d, hfrom, rfl⟩ := hd
    rw [← hshifted] at hfrom
    exact ⟨k, d, hfrom.mono (hknown d), rfl⟩
  globals := h.globals
  current := h.current
  distances := rfl
  distances' := rfl
  natives := h.natives.trans hnatives.symm
  natives' := h.natives'.trans hnatives.symm
  functions := h.functions
  output := by
    rw [hprinted]
    exact h.output

/-- The second fault is the first, further down by as much as its token. -/
def Faults (f f' : Machine.Fault) : Prop :=
  ∃ k t, l.shifted k t ∧ f.line = t.line ∧ f' = { f with line := t.line + k }

variable {α β : Type}

/-- The second answer is like the first. -/
inductive Answers (R : α → α → Prop) :
    Option (Except Machine.Fault α × Machine) → Option (Except Machine.Fault α × Machine) → Prop
  | none : Answers R none none
  | fault {f f' : Machine.Fault} {m m' : Machine} (hf : l.Faults f f') (hm : l.Machines m m') :
    Answers R (some (.error f, m)) (some (.error f', m'))
  | ok {a a' : α} {m m' : Machine} (ha : R a a') (hm : l.Machines m m') :
    Answers R (some (.ok a, m)) (some (.ok a', m'))

/-- The second run does what the first does. -/
def Matches (R : α → α → Prop) (r r' : Run α) : Prop :=
  ∀ m m', l.Machines m m' → l.Answers R (r.run m) (r'.run m')

variable {l}

/-! ## Rules -/

section Rules

variable {R : α → α → Prop} {S : β → β → Prop}

theorem Matches.pure {a a' : α} (h : R a a') : l.Matches R (pure a) (pure a') :=
  fun _ _ hm => .ok h hm

theorem Matches.exhausted : l.Matches R Run.exhausted Run.exhausted := fun _ _ _ => .none

theorem Matches.fail (cause : Machine.Cause) {k : Nat} {t : Token} (h : l.shifted k t) :
    l.Matches R (Run.fail cause t) (Run.fail cause (t.later k)) :=
  fun _ _ hm => .fault ⟨k, t, h, rfl, rfl⟩ hm

theorem Matches.bind {r r' : Run α} {f f' : α → Run β} (h : l.Matches R r r')
    (hf : ∀ a a', R a a' → l.Matches S (f a) (f' a')) :
    l.Matches S (r >>= f) (r' >>= f') := by
  intro m m' hm
  have hr := h m m' hm
  rw [run_bind, run_bind]
  generalize r.run m = o, r'.run m' = o' at hr
  cases hr with
  | none => exact .none
  | fault hf hm => exact .fault hf hm
  | ok ha hm => exact hf _ _ ha _ _ hm

/-- What is done with machines that are alike. -/
theorem Matches.get {f f' : Machine → Run α}
    (h : ∀ m m', l.Machines m m' → l.Matches R (f m) (f' m')) :
    l.Matches R (MonadState.get >>= f) (MonadState.get >>= f') := by
  intro m m' hm
  rw [run_bind, run_bind]
  exact h m m' hm m m' hm

theorem Matches.within {r r' : Run α} (scope : ScopeId) (h : l.Matches R r r') :
    l.Matches R (Run.within scope r) (Run.within scope r') := by
  intro m m' hm
  have hr := h { m with current := scope } { m' with current := scope } { hm with current := rfl }
  rw [Run.run_within, Run.run_within]
  generalize r.run _ = o, r'.run _ = o' at hr
  cases hr with
  | none => exact .none
  | fault hf h => exact .fault hf { h with current := hm.current }
  | ok ha h => exact .ok ha { h with current := hm.current }

theorem Matches.print {v v' : Value} (h : l.Values v v') :
    l.Matches Eq (Run.print v) (Run.print v') := by
  intro m m' hm
  refine .ok rfl { hm with output := ?_ }
  show m'.output ++ v'.text ++ "\n" = l.printed ++ (m.output ++ v.text ++ "\n")
  rw [h.text l.lookalikes, hm.output, String.append_assoc, String.append_assoc,
    String.append_assoc]

theorem Matches.define {v v' : Value} (h : l.Values v v') (name : Token) (k : Nat) :
    l.Matches Eq (Run.define name v) (Run.define (name.later k) v') := by
  intro m m' hm
  refine .ok rfl { hm with store := ?_ }
  show Store.Alike _ _ (m'.store.define m'.current name.lexeme v')
  rw [hm.current]
  exact hm.store.define _ _ h

theorem Matches.close {d d' : Declaration} (h : l.Declared d d') :
    l.Matches l.Values (Run.close d) (Run.close d') := by
  intro m m' hm
  refine .ok ?_ { hm with functions := congrArg (· + 1) hm.functions }
  rw [hm.functions, hm.current]
  exact .function _ _ h

theorem Matches.enterScope (parent : ScopeId) (k : Nat) (params : List Token)
    {args args' : List Value} (h : List.Forall₂ l.Values args args') :
    l.Matches Eq (Run.enterScope parent (params.zip args))
      (Run.enterScope parent ((params.map (Token.later k)).zip args')) := by
  intro m m' hm
  refine .ok hm.store.size.symm { hm with store := ?_ }
  show Store.Alike _ (Store.defineAll _ m.store.size _) (Store.defineAll _ m'.store.size _)
  rw [hm.store.size]
  exact (hm.store.push (some parent)).defineAll _ k params h

theorem Matches.enterBlock : l.Matches Eq Run.enterBlock Run.enterBlock := by
  refine .get ?_
  intro m m' hm
  rw [hm.current]
  exact .enterScope _ 0 [] .nil

theorem Matches.readVariable {id : NodeId} {name : Token} {k d : Nat} (hid : l.known d id)
    (hname : l.shifted k name) :
    l.Matches l.Values (Run.readVariable id name) (Run.readVariable (id + d) (name.later k)) := by
  intro m m' hm
  have hfound : Option.Rel l.Values (m.read? id name) (m'.read? (id + d) (name.later k)) := by
    rw [Machine.read?, Machine.read?, hm.distances, hm.distances', l.agree d id hid, hm.globals,
      hm.current]
    split
    · exact hm.store.getAt? _ _ _
    · exact hm.store.get? _ _
  rw [Run.run_readVariable, Run.run_readVariable]
  generalize m.read? id name = o, m'.read? (id + d) (name.later k) = o' at hfound
  cases hfound with
  | none => exact .fault ⟨k, name, hname, rfl, rfl⟩ hm
  | some hv => exact .ok hv hm

theorem Matches.writeVariable {id : NodeId} {name : Token} {k d : Nat} {v v' : Value}
    (hid : l.known d id) (hname : l.shifted k name) (hv : l.Values v v') :
    l.Matches Eq (Run.writeVariable id name v) (Run.writeVariable (id + d) (name.later k) v') := by
  intro m m' hm
  have htarget : m'.target? (id + d) (name.later k) = m.target? id name := by
    rw [Machine.target?, Machine.target?, hm.distances, hm.distances', l.agree d id hid, hm.globals,
      hm.current]
    split
    · exact hm.store.binderAt? _ _ _
    · exact hm.store.binder? _ _
  rw [Run.run_writeVariable, Run.run_writeVariable, htarget]
  cases m.target? id name with
  | none => exact .fault ⟨k, name, hname, rfl, rfl⟩ hm
  | some scope => exact .ok rfl { hm with store := hm.store.define _ _ hv }

end Rules

end Likeness

end Lox
