import Lox.Value

/-!
# Scopes at run time

Scopes are made while a program runs and never go away; each may have a parent, which was made
before it. A variable is found in two ways: by its name alone, from a scope outwards, or in the
scope a given number of steps outwards and nowhere else.
-/

namespace Lox

/-- The variables of a scope, in the order in which their names first came up. -/
abbrev Bindings := List (String × Value)

namespace Bindings

/-- Binds a name, in place of an earlier binding of it. -/
def insert (name : String) (value : Value) : Bindings → Bindings
  | [] => [(name, value)]
  | (other, old) :: rest =>
    if other = name then (name, value) :: rest else (other, old) :: insert name value rest

/-- Is the name bound? -/
def has (bindings : Bindings) (name : String) : Bool := (bindings.lookup name).isSome

end Bindings

structure Scope where
  bindings : Bindings
  parent : Option ScopeId

/-- The scopes that exist. -/
structure Store where
  scopes : Array Scope

namespace Store

def empty : Store := ⟨#[]⟩

/-- Makes a scope without variables. -/
def push (store : Store) (parent : Option ScopeId) : ScopeId × Store :=
  (store.scopes.size, ⟨store.scopes.push ⟨[], parent⟩⟩)

/-- Binds a name in a scope. -/
def define (store : Store) (scope : ScopeId) (name : String) (value : Value) : Store :=
  ⟨store.scopes.modify scope fun s => { s with bindings := s.bindings.insert name value }⟩

/-- The value of a name in one scope. -/
def lookup? (store : Store) (scope : ScopeId) (name : String) : Option Value :=
  store.scopes[scope]?.bind (·.bindings.lookup name)

/-- The parent of a scope. -/
def parent? (store : Store) (scope : ScopeId) : Option ScopeId :=
  store.scopes[scope]?.bind (·.parent)

/-- The scope a number of steps outwards. -/
def ancestor? (store : Store) (scope : ScopeId) : Nat → Option ScopeId
  | 0 => some scope
  | distance + 1 => (store.parent? scope).bind (store.ancestor? · distance)

/-- The nearest scope outwards that binds a name, looked for through a number of scopes. -/
def nearest? (store : Store) (name : String) : Nat → ScopeId → Option ScopeId
  | 0, _ => none
  | limit + 1, scope =>
    if (store.lookup? scope name).isSome then some scope
    else (store.parent? scope).bind (store.nearest? name limit)

/-- The nearest scope outwards that binds a name. No scope has more scopes around it than there are
scopes. -/
def binder? (store : Store) (scope : ScopeId) (name : String) : Option ScopeId :=
  store.nearest? name store.scopes.size scope

/-- Reads a name from a scope outwards. -/
def get? (store : Store) (scope : ScopeId) (name : String) : Option Value :=
  (store.binder? scope name).bind (store.lookup? · name)

/-- Changes the nearest binding of a name. -/
def assign? (store : Store) (scope : ScopeId) (name : String) (value : Value) : Option Store :=
  (store.binder? scope name).map (store.define · name value)

/-- The scope a number of steps outwards, if it binds the name. -/
def binderAt? (store : Store) (scope : ScopeId) (distance : Nat) (name : String) :
    Option ScopeId :=
  (store.ancestor? scope distance).filter fun found => (store.lookup? found name).isSome

/-- Reads a name in the scope a number of steps outwards. -/
def getAt? (store : Store) (scope : ScopeId) (distance : Nat) (name : String) : Option Value :=
  (store.ancestor? scope distance).bind (store.lookup? · name)

/-- Changes a name in the scope a number of steps outwards. -/
def assignAt? (store : Store) (scope : ScopeId) (distance : Nat) (name : String) (value : Value) :
    Option Store :=
  (store.binderAt? scope distance name).map (store.define · name value)

end Store

end Lox
