import Mathlib.Logic.Equiv.Basic
import Lox.Proofs.Scoping.Sited

/-!
# Giving a local variable another name

A local variable is known by the place of its scope and its name there. To rename it is
to change its declaration, or parameter, and the nodes whose recorded distance leads to
its scope, and nothing else: other variables of the name keep it, and so do functions.

Seen from the scopes, a renaming exchanges two names in the scope at the place and none
in any other. That is also what it does to a scope at run time, whichever instance of
the block or the function the scope was made for.
-/

namespace Lox

open Binding

/-- A local variable, by the place of its scope and its name, and its new name. -/
structure Renaming where
  place : Place
  name : String
  fresh : String
  /-- The distances that say which nodes mean the variable. -/
  distances : Distances

namespace Renaming

variable (ρ : Renaming)

/-- The token with the new name. -/
def respell (t : Token) : Token := { t with lexeme := ρ.fresh }

/-- The name at a node that uses a variable. -/
def use (around : List Place) (id : NodeId) (t : Token) : Token :=
  if t.lexeme = ρ.name ∧ (ρ.distances.find? id).bind (around[·]?) = some ρ.place then ρ.respell t
  else t

/-- The name in a declaration of a variable. -/
def declaration (around : List Place) (t : Token) : Token :=
  if t.lexeme = ρ.name ∧ around.head? = some ρ.place then ρ.respell t else t

end Renaming

section Renamed

variable (ρ : Renaming)

mutual

def Expr.renamed (around : List Place) : Expr → Expr
  | .literal value => .literal value
  | .group inner => .group (inner.renamed around)
  | .unary operator operand => .unary operator (operand.renamed around)
  | .binary left operator right => .binary (left.renamed around) operator (right.renamed around)
  | .logical left operator right => .logical (left.renamed around) operator (right.renamed around)
  | .variable id name => .variable id (ρ.use around id name)
  | .assign id name value => .assign id (ρ.use around id name) (value.renamed around)
  | .call callee paren arguments =>
    .call (callee.renamed around) paren (Expr.renamedAll around arguments)

def Expr.renamedAll (around : List Place) : List Expr → List Expr
  | [] => []
  | e :: rest => e.renamed around :: Expr.renamedAll around rest

end

def Expr.renamedOptional (around : List Place) (o : Option Expr) : Option Expr :=
  o.map (Expr.renamed ρ around)

mutual

/-- The statement, which stands at a place within the scopes at others, with the variable
renamed. -/
def Stmt.renamed (here : Place) (around : List Place) : Stmt → Stmt
  | .expression value => .expression (value.renamed ρ around)
  | .print value => .print (value.renamed ρ around)
  | .var name initializer =>
    .var (ρ.declaration around name) (Expr.renamedOptional ρ around initializer)
  | .block body => .block (Stmt.renamedAll here (here :: around) 0 body)
  | .ifThen condition thenBranch elseBranch =>
    .ifThen (condition.renamed ρ around) (thenBranch.renamed (0 :: here) around)
      (Stmt.renamedOptional (1 :: here) around elseBranch)
  | .whileLoop condition body =>
    .whileLoop (condition.renamed ρ around) (body.renamed (0 :: here) around)
  | .forLoop none condition increment body =>
    .forLoop none (Expr.renamedOptional ρ around condition)
      (Expr.renamedOptional ρ around increment) (body.renamed (0 :: here) around)
  | .forLoop (some initializer) condition increment body =>
    .forLoop (some (initializer.renamed (0 :: here) (here :: around)))
      (Expr.renamedOptional ρ (here :: around) condition)
      (Expr.renamedOptional ρ (here :: around) increment)
      (body.renamed (1 :: here) (here :: around))
  | .function name params body =>
    .function name (params.map (ρ.declaration (here :: around)))
      (Stmt.renamedAll here (here :: around) 0 body)
  | .ret keyword value => .ret keyword (Expr.renamedOptional ρ around value)

def Stmt.renamedAll (here : Place) (around : List Place) (k : Nat) : List Stmt → List Stmt
  | [] => []
  | s :: rest => s.renamed (k :: here) around :: Stmt.renamedAll here around (k + 1) rest

def Stmt.renamedOptional (here : Place) (around : List Place) : Option Stmt → Option Stmt
  | none => none
  | some s => some (s.renamed here around)

end

/-- The program with the variable renamed. -/
def Stmt.renamedProgram (program : List Stmt) : List Stmt := Stmt.renamedAll ρ [] [] 0 program

end Renamed

/-! ## Scopes under a renaming -/

namespace Renaming

variable (ρ : Renaming)

/-- What a name of the innermost scope is called. -/
def called (around : List Place) (name : String) : String :=
  if around.head? = some ρ.place then Equiv.swap ρ.name ρ.fresh name else name

theorem called_nil (name : String) : ρ.called [] name = name := rfl

theorem called_called (around : List Place) (name : String) :
    ρ.called around (ρ.called around name) = name := by
  unfold called
  split
  · exact Equiv.swap_apply_self ..
  · rfl

theorem called_eq_iff {around : List Place} {a b : String} :
    ρ.called around a = b ↔ a = ρ.called around b := by
  constructor
  · rintro rfl
    exact (ρ.called_called around a).symm
  · rintro rfl
    exact ρ.called_called around b

theorem called_of_ne {around : List Place} {name : String} (hn : name ≠ ρ.name)
    (hf : name ≠ ρ.fresh) : ρ.called around name = name := by
  unfold called
  split
  · exact Equiv.swap_apply_of_ne_of_ne hn hf
  · rfl

theorem called_of_place {around : List Place} {name : String}
    (h : around.head? ≠ some ρ.place) : ρ.called around name = name := if_neg h

theorem called_name {around : List Place} (h : around.head? = some ρ.place) :
    ρ.called around ρ.name = ρ.fresh := (if_pos h).trans (Equiv.swap_apply_left ..)

theorem called_fresh {around : List Place} (h : around.head? = some ρ.place) :
    ρ.called around ρ.fresh = ρ.name := (if_pos h).trans (Equiv.swap_apply_right ..)

/-- All but the new name change only in the scope at the place, and only the old one does. -/
theorem called_eq_ite {around : List Place} {name : String} (h : name ≠ ρ.fresh) :
    ρ.called around name =
      if name = ρ.name ∧ around.head? = some ρ.place then ρ.fresh else name := by
  split
  · rename_i hc
    rw [hc.1, ρ.called_name hc.2]
  · rename_i hc
    by_cases hn : name = ρ.name
    · exact ρ.called_of_place fun hp => hc ⟨hn, hp⟩
    · exact ρ.called_of_ne hn h

/-- The declaration says what its name is called. -/
theorem lexeme_declaration {around : List Place} {t : Token} (h : t.lexeme ≠ ρ.fresh) :
    (ρ.declaration around t).lexeme = ρ.called around t.lexeme := by
  rw [ρ.called_eq_ite h]
  exact apply_ite Token.lexeme ..

/-- A use says what its name is called in the scope that it means. -/
theorem lexeme_use {around : List Place} {id : NodeId} {t : Token} {distance : Nat}
    (h : t.lexeme ≠ ρ.fresh) (hd : ρ.distances.find? id = some distance) :
    (ρ.use around id t).lexeme = ρ.called (around.drop distance) t.lexeme := by
  have hhead : (ρ.distances.find? id).bind (around[·]?) = (around.drop distance).head? := by
    rw [hd, List.head?_drop]
    rfl
  unfold use
  rw [hhead]
  show (ρ.declaration (around.drop distance) t).lexeme = _
  exact ρ.lexeme_declaration h

/-- A node without a distance means no local variable. -/
theorem use_unrecorded {around : List Place} {id : NodeId} {t : Token}
    (hd : ρ.distances.find? id = none) : ρ.use around id t = t := by
  refine if_neg fun h => ?_
  rw [hd] at h
  cases h.2

/-- The new name is used and declared nowhere, and the variable is no function. -/
structure New (y : Layout) : Prop where
  distances : ρ.distances = y.distances
  used : ∀ u ∈ y.uses, u.2.lexeme ≠ ρ.fresh
  listed : ∀ place name binder, y.ListsAt place name binder → name ≠ ρ.fresh
  plain : ¬ y.ListsAt ρ.place ρ.name .function

variable {ρ}

/-- Functions keep their names. -/
theorem New.function {y : Layout} (h : ρ.New y) {around : List Place} {name : String}
    (hn : y.Lists around name .function) : ρ.called around name = name := by
  cases around with
  | nil => rfl
  | cons place outer =>
      by_cases hname : name = ρ.name
      · refine ρ.called_of_place fun hp => h.plain ?_
        cases hp
        exact hname ▸ hn
      · exact ρ.called_of_ne hname (h.listed place name .function hn)

theorem New.variable {y : Layout} (h : ρ.New y) {around : List Place} {t : Token}
    {binder : Binder} (ht : y.Lists around t.lexeme binder) :
    (ρ.declaration around t).lexeme = ρ.called around t.lexeme := by
  cases around with
  | nil => exact congrArg Token.lexeme (if_neg fun hc => by cases hc.2)
  | cons place outer => exact ρ.lexeme_declaration (h.listed place t.lexeme binder ht)

end Renaming

/-! ## A name in place of itself -/

section Same

variable {ρ : Renaming}

theorem Renaming.use_same (h : ρ.fresh = ρ.name) (around : List Place) (id : NodeId) (t : Token) :
    ρ.use around id t = t := by
  unfold use
  split
  · rename_i hc
    rw [respell, h, ← hc.1]
  · rfl

theorem Renaming.declaration_same (h : ρ.fresh = ρ.name) (around : List Place) (t : Token) :
    ρ.declaration around t = t := by
  unfold declaration
  split
  · rename_i hc
    rw [respell, h, ← hc.1]
  · rfl

theorem Renaming.called_same (h : ρ.fresh = ρ.name) (around : List Place) (name : String) :
    ρ.called around name = name := by
  unfold called
  rw [h, Equiv.swap_self]
  exact ite_self _

mutual

theorem Expr.renamed_same (h : ρ.fresh = ρ.name) (around : List Place) (e : Expr) :
    e.renamed ρ around = e := by
  match e with
  | .literal _ => rfl
  | .group inner => rw [renamed, renamed_same h around inner]
  | .unary _ operand => rw [renamed, renamed_same h around operand]
  | .binary left _ right | .logical left _ right =>
      rw [renamed, renamed_same h around left, renamed_same h around right]
  | .variable id name => rw [renamed, Renaming.use_same h]
  | .assign id name value => rw [renamed, Renaming.use_same h, renamed_same h around value]
  | .call callee _ arguments =>
      rw [renamed, renamed_same h around callee, renamedAll_same h around arguments]

theorem Expr.renamedAll_same (h : ρ.fresh = ρ.name) (around : List Place) (es : List Expr) :
    renamedAll ρ around es = es := by
  match es with
  | [] => rfl
  | e :: rest => rw [renamedAll, renamed_same h around e, renamedAll_same h around rest]

end

theorem Expr.renamedOptional_same (h : ρ.fresh = ρ.name) (around : List Place) (o : Option Expr) :
    renamedOptional ρ around o = o := by
  cases o with
  | none => rfl
  | some e => exact congrArg some (renamed_same h around e)

mutual

theorem Stmt.renamed_same (h : ρ.fresh = ρ.name) (here : Place) (around : List Place) (s : Stmt) :
    s.renamed ρ here around = s := by
  match s with
  | .expression value | .print value => rw [renamed, Expr.renamed_same h]
  | .var name initializer =>
      rw [renamed, Renaming.declaration_same h, Expr.renamedOptional_same h]
  | .block body => rw [renamed, renamedAll_same h here _ 0 body]
  | .ifThen condition thenBranch elseBranch =>
      rw [renamed, Expr.renamed_same h, renamed_same h _ around thenBranch,
        renamedOptional_same h _ around elseBranch]
  | .whileLoop condition body => rw [renamed, Expr.renamed_same h, renamed_same h _ around body]
  | .forLoop none condition increment body =>
      rw [renamed, Expr.renamedOptional_same h, Expr.renamedOptional_same h,
        renamed_same h _ around body]
  | .forLoop (some initializer) condition increment body =>
      rw [renamed, Expr.renamedOptional_same h, Expr.renamedOptional_same h,
        renamed_same h _ _ initializer, renamed_same h _ _ body]
  | .function name params body =>
      rw [renamed, renamedAll_same h here _ 0 body,
        List.map_congr_left fun t _ => Renaming.declaration_same h (here :: around) t, List.map_id']
  | .ret keyword value => rw [renamed, Expr.renamedOptional_same h]

theorem Stmt.renamedAll_same (h : ρ.fresh = ρ.name) (here : Place) (around : List Place) (k : Nat)
    (body : List Stmt) : renamedAll ρ here around k body = body := by
  match body with
  | [] => rfl
  | s :: rest =>
      rw [renamedAll, renamed_same h (k :: here) around s,
        renamedAll_same h here around (k + 1) rest]

theorem Stmt.renamedOptional_same (h : ρ.fresh = ρ.name) (here : Place) (around : List Place)
    (o : Option Stmt) : renamedOptional ρ here around o = o := by
  match o with
  | none => rfl
  | some s => rw [renamedOptional, renamed_same h here around s]

end

end Same

end Lox
