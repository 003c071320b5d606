import Lox.Machine
import Lox.Proofs.Answer

/-!
# Running the small steps of the machine

What reading, writing and changing the scope answer, as equations for `run`. A read and
a write look for their variable in the same way, and do nothing else that can fail.
-/

namespace Lox

theorem Run.run_within {α : Type} (scope : ScopeId) (r : Run α) (m : Machine) :
    (within scope r).run m = (r.run { m with current := scope }).map fun o =>
      (o.1, { o.2 with current := m.current }) := by
  simp only [within, ExceptT.run_mk]
  rcases r.run { m with current := scope } with _ | ⟨result, after⟩ <;> rfl

/-- What a read finds. -/
def Machine.read? (m : Machine) (id : NodeId) (name : Token) : Option Value :=
  match m.distances.find? id with
  | some distance => m.store.getAt? m.current distance name.lexeme
  | none => m.store.get? m.globals name.lexeme

/-- The scope that a write changes. -/
def Machine.target? (m : Machine) (id : NodeId) (name : Token) : Option ScopeId :=
  match m.distances.find? id with
  | some distance => m.store.binderAt? m.current distance name.lexeme
  | none => m.store.binder? m.globals name.lexeme

theorem Run.run_readVariable (id : NodeId) (name : Token) (m : Machine) :
    (readVariable id name).run m = match m.read? id name with
      | some value => some (.ok value, m)
      | none => some (.error ⟨.undefinedVariable name.lexeme, name.line⟩, m) := by
  rw [readVariable, run_bind, run_get]
  show (match m.read? id name with
    | some value => _
    | none => _ : Run Value).run m = _
  cases m.read? id name <;> rfl

theorem Run.run_writeVariable (id : NodeId) (name : Token) (value : Value) (m : Machine) :
    (writeVariable id name value).run m = match m.target? id name with
      | some scope => some (.ok (), { m with store := m.store.define scope name.lexeme value })
      | none => some (.error ⟨.undefinedVariable name.lexeme, name.line⟩, m) := by
  rw [writeVariable, run_bind, run_get]
  show (match m.target? id name with
    | some scope => _
    | none => _ : Run Unit).run m = _
  cases m.target? id name <;> rfl

theorem Store.isSome_of_nearest? {store : Store} {name : String} {limit : Nat}
    {scope s : ScopeId} (h : store.nearest? name limit scope = some s) :
    (store.lookup? s name).isSome := by
  induction limit generalizing scope with
  | zero => cases h
  | succ limit ih =>
      rw [nearest?] at h
      split at h
      · cases h
        assumption
      · obtain ⟨parent, -, hp⟩ := Option.bind_eq_some_iff.mp h
        exact ih hp

/-- What is read is the value of some variable. -/
theorem Machine.lookup?_of_read? {m : Machine} {id : NodeId} {name : Token} {v : Value}
    (h : m.read? id name = some v) : ∃ scope, m.store.lookup? scope name.lexeme = some v := by
  rw [read?] at h
  split at h
  · obtain ⟨scope, -, hv⟩ := Option.bind_eq_some_iff.mp h
    exact ⟨scope, hv⟩
  · obtain ⟨scope, -, hv⟩ := Option.bind_eq_some_iff.mp h
    exact ⟨scope, hv⟩

/-- A write changes a variable that is there. -/
theorem Machine.isSome_of_target? {m : Machine} {id : NodeId} {name : Token} {scope : ScopeId}
    (h : m.target? id name = some scope) : (m.store.lookup? scope name.lexeme).isSome := by
  rw [target?] at h
  split at h
  · exact (Option.filter_eq_some_iff.mp h).2
  · exact Store.isSome_of_nearest? h

end Lox
