import Mathlib.Data.List.Nodup
import Lox.Proofs.Scoping.Linked

/-!
# The scopes of a program by their places

Each block and each function of a program is a scope, and the way to it from the top
tells it from all others. Under its place a scope is listed with the names declared in
it and what they are declared as. Where a program is linked no two names of a scope are
equal, so that a place and a name make one declaration.
-/

namespace Lox

/-- The way to a statement: which statement to take at each step, the last step first. -/
abbrev Place := List Nat

/-- What a name is declared as. -/
inductive Binder
  | variable
  | parameter
  | function
deriving DecidableEq, Repr

/-- The names of a scope, with what they are declared as. -/
abbrev Declarations := List (String × Binder)

/-- What a statement declares in the scope in which it stands. -/
def Stmt.declares : Stmt → Declarations
  | .var name _ => [(name.lexeme, .variable)]
  | .function name _ _ => [(name.lexeme, .function)]
  | _ => []

theorem Stmt.declares_of_plain {s : Stmt} (h : s.plain = true) : s.declares = [] := by
  cases s <;> first | rfl | cases h

mutual

/-- The scopes in a statement that stands at a place. -/
def Stmt.scopesAt (here : Place) : Stmt → List (Place × Declarations)
  | .expression _ | .print _ | .var .. | .ret .. => []
  | .block body => (here, body.flatMap declares) :: Stmt.scopesAtAll here 0 body
  | .ifThen _ thenBranch elseBranch =>
    thenBranch.scopesAt (0 :: here) ++ Stmt.scopesAtOptional (1 :: here) elseBranch
  | .whileLoop _ body => body.scopesAt (0 :: here)
  | .forLoop none _ _ body => body.scopesAt (0 :: here)
  | .forLoop (some initializer) _ _ body =>
    (here, initializer.declares) :: (initializer.scopesAt (0 :: here) ++ body.scopesAt (1 :: here))
  | .function _ params body =>
    (here, params.map (·.lexeme, .parameter) ++ body.flatMap declares) ::
      Stmt.scopesAtAll here 0 body

/-- The scopes in statements that stand one behind the other, so many statements before them. -/
def Stmt.scopesAtAll (here : Place) (k : Nat) : List Stmt → List (Place × Declarations)
  | [] => []
  | s :: rest => s.scopesAt (k :: here) ++ Stmt.scopesAtAll here (k + 1) rest

def Stmt.scopesAtOptional (here : Place) : Option Stmt → List (Place × Declarations)
  | none => []
  | some s => s.scopesAt here

end

/-- The scopes of a program. The top level is none. -/
def Stmt.localScopes (program : List Stmt) : List (Place × Declarations) :=
  Stmt.scopesAtAll [] 0 program

/-! ## Each scope has a place of its own -/

theorem Place.step_unique {i j : Nat} {here place : Place} (hi : i :: here <:+ place)
    (hj : j :: here <:+ place) : i = j :=
  (List.cons.inj ((List.suffix_of_suffix_length_le hi hj (Nat.le_refl _)).eq_of_length rfl)).1

theorem Place.ne_of_step {i : Nat} {here place : Place} (h : i :: here <:+ place) :
    place ≠ here := by
  rintro rfl
  exact absurd h.length_le (Nat.not_succ_le_self _)

theorem Place.step_back {i : Nat} {here place : Place} (h : i :: here <:+ place) :
    here <:+ place := (List.suffix_cons i here).trans h

mutual

theorem Stmt.suffix_of_mem_scopesAt (s : Stmt) (here : Place) :
    ∀ scope ∈ s.scopesAt here, here <:+ scope.1 := by
  intro scope h
  match s with
  | .expression _ | .print _ | .var _ _ | .ret _ _ => cases h
  | .block body | .function _ _ body =>
      rcases List.mem_cons.mp h with rfl | h
      · exact List.suffix_refl _
      · obtain ⟨j, -, hj⟩ := suffix_of_mem_scopesAtAll body here 0 scope h
        exact Place.step_back hj
  | .ifThen _ thenBranch elseBranch =>
      rcases List.mem_append.mp h with h | h
      · exact Place.step_back (suffix_of_mem_scopesAt thenBranch _ scope h)
      · exact Place.step_back (suffix_of_mem_scopesAtOptional elseBranch _ scope h)
  | .whileLoop _ body | .forLoop none _ _ body =>
      exact Place.step_back (suffix_of_mem_scopesAt body _ scope h)
  | .forLoop (some initializer) _ _ body =>
      rcases List.mem_cons.mp h with rfl | h
      · exact List.suffix_refl _
      rcases List.mem_append.mp h with h | h
      · exact Place.step_back (suffix_of_mem_scopesAt initializer _ scope h)
      · exact Place.step_back (suffix_of_mem_scopesAt body _ scope h)

theorem Stmt.suffix_of_mem_scopesAtAll (body : List Stmt) (here : Place) (k : Nat) :
    ∀ scope ∈ scopesAtAll here k body, ∃ j, k ≤ j ∧ j :: here <:+ scope.1 := by
  intro scope h
  match body with
  | [] => cases h
  | s :: rest =>
      rcases List.mem_append.mp h with h | h
      · exact ⟨k, Nat.le_refl k, suffix_of_mem_scopesAt s _ scope h⟩
      · obtain ⟨j, hj, hs⟩ := suffix_of_mem_scopesAtAll rest here (k + 1) scope h
        exact ⟨j, Nat.le_of_succ_le hj, hs⟩

theorem Stmt.suffix_of_mem_scopesAtOptional (o : Option Stmt) (here : Place) :
    ∀ scope ∈ scopesAtOptional here o, here <:+ scope.1 := by
  intro scope h
  match o with
  | none => cases h
  | some s => exact suffix_of_mem_scopesAt s here scope h

end

/-- Scopes at places apart. -/
theorem nodup_places_append {l r : List (Place × Declarations)} (hl : (l.map Prod.fst).Nodup)
    (hr : (r.map Prod.fst).Nodup) (hne : ∀ scope ∈ l, ∀ scope' ∈ r, scope.1 ≠ scope'.1) :
    ((l ++ r).map Prod.fst).Nodup := by
  rw [List.map_append, List.nodup_append]
  refine ⟨hl, hr, fun p hp q hq => ?_⟩
  obtain ⟨scope, hs, rfl⟩ := List.mem_map.mp hp
  obtain ⟨scope', hs', rfl⟩ := List.mem_map.mp hq
  exact hne scope hs scope' hs'

/-- Scopes at a place and further in. -/
theorem nodup_places_cons {here : Place} {names : Declarations} {l : List (Place × Declarations)}
    (hl : (l.map Prod.fst).Nodup) (h : ∀ scope ∈ l, ∃ j, j :: here <:+ scope.1) :
    (((here, names) :: l).map Prod.fst).Nodup := by
  rw [List.map_cons, List.nodup_cons]
  refine ⟨fun hmem => ?_, hl⟩
  obtain ⟨scope, hs, heq⟩ := List.mem_map.mp hmem
  obtain ⟨j, hj⟩ := h scope hs
  exact Place.ne_of_step hj heq

mutual

theorem Stmt.nodup_scopesAt (s : Stmt) (here : Place) :
    ((s.scopesAt here).map Prod.fst).Nodup := by
  match s with
  | .expression _ | .print _ | .var _ _ | .ret _ _ => exact List.nodup_nil
  | .block body | .function _ _ body =>
      refine nodup_places_cons (nodup_scopesAtAll body here 0) fun scope hs => ?_
      obtain ⟨j, -, hj⟩ := suffix_of_mem_scopesAtAll body here 0 scope hs
      exact ⟨j, hj⟩
  | .ifThen _ thenBranch elseBranch =>
      refine nodup_places_append (nodup_scopesAt thenBranch _)
        (nodup_scopesAtOptional elseBranch _) fun scope hs scope' hs' heq => ?_
      have hthen := suffix_of_mem_scopesAt thenBranch _ scope hs
      have helse := suffix_of_mem_scopesAtOptional elseBranch _ scope' hs'
      exact absurd (Place.step_unique (heq ▸ hthen) helse) Nat.zero_ne_one
  | .whileLoop _ body | .forLoop none _ _ body => exact nodup_scopesAt body _
  | .forLoop (some initializer) _ _ body =>
      refine nodup_places_cons (nodup_places_append (nodup_scopesAt initializer _)
        (nodup_scopesAt body _) fun scope hs scope' hs' heq => ?_) fun scope hs => ?_
      · have hfirst := suffix_of_mem_scopesAt initializer _ scope hs
        have hbody := suffix_of_mem_scopesAt body _ scope' hs'
        exact absurd (Place.step_unique (heq ▸ hfirst) hbody) Nat.zero_ne_one
      · rcases List.mem_append.mp hs with hs | hs
        · exact ⟨0, suffix_of_mem_scopesAt initializer _ scope hs⟩
        · exact ⟨1, suffix_of_mem_scopesAt body _ scope hs⟩

theorem Stmt.nodup_scopesAtAll (body : List Stmt) (here : Place) (k : Nat) :
    ((scopesAtAll here k body).map Prod.fst).Nodup := by
  match body with
  | [] => exact List.nodup_nil
  | s :: rest =>
      refine nodup_places_append (nodup_scopesAt s _) (nodup_scopesAtAll rest here (k + 1))
        fun scope hs scope' hs' heq => ?_
      have hfirst := suffix_of_mem_scopesAt s _ scope hs
      obtain ⟨j, hj, hrest⟩ := suffix_of_mem_scopesAtAll rest here (k + 1) scope' hs'
      exact absurd (Place.step_unique (heq ▸ hfirst) hrest) (Nat.ne_of_lt hj)

theorem Stmt.nodup_scopesAtOptional (o : Option Stmt) (here : Place) :
    ((scopesAtOptional here o).map Prod.fst).Nodup := by
  match o with
  | none => exact List.nodup_nil
  | some s => exact nodup_scopesAt s here

end

/-- There is one scope at a place. -/
theorem Stmt.localScopes_unique {program : List Stmt} {place : Place} {names names' : Declarations}
    (h : (place, names) ∈ localScopes program) (h' : (place, names') ∈ localScopes program) :
    names = names' :=
  congrArg Prod.snd
    (List.inj_on_of_nodup_map (nodup_scopesAtAll program [] 0) h h' rfl)

/-! ## Each name of a scope is declared once -/

namespace Binding.Scopes

/-- The names can be declared one after the other in the innermost scope. -/
structure Admits (scopes : Scopes) (names : List String) : Prop where
  nodup : names.Nodup
  new : ∀ name ∈ names, scopes.innermost? name = none

theorem innermost?_introduce (names : Names) (outer : Scopes) (t : Token) (name : String) :
    (introduce (names :: outer) t).innermost? name =
      if name = t.lexeme then some true else List.lookup name names := by
  show List.lookup name ((t.lexeme, true) :: (t.lexeme, false) :: names) = _
  rw [lookup_cons_name, lookup_cons_name]
  split <;> rfl

theorem Admits.cons {names : Names} {outer : Scopes} {t : Token} {rest : List String}
    (ht : innermost? (names :: outer) t.lexeme = none)
    (hr : (introduce (names :: outer) t).Admits rest) :
    Admits (names :: outer) (t.lexeme :: rest) := by
  have hrest : ∀ name ∈ rest, name ≠ t.lexeme ∧ List.lookup name names = none := by
    intro name hname
    have hn := hr.new name hname
    rw [innermost?_introduce] at hn
    split at hn
    · cases hn
    · exact ⟨‹_›, hn⟩
  refine ⟨List.nodup_cons.mpr ⟨fun hmem => (hrest _ hmem).1 rfl, hr.nodup⟩, ?_⟩
  exact List.forall_mem_cons.mpr ⟨ht, fun name hname => (hrest name hname).2⟩

/-- Parameters that are new can be declared before whatever is admitted behind them. -/
theorem Admits.params {names : Names} {outer : Scopes} {params : List Token} {rest : List String}
    (hp : Fresh (names :: outer) params)
    (hr : (params.foldl introduce (names :: outer)).Admits rest) :
    Admits (names :: outer) (params.map Token.lexeme ++ rest) := by
  induction params generalizing names with
  | nil => exact hr
  | cons t params ih => exact .cons hp.1 (ih hp.2 hr)

/-- What stands in linked statements can be declared. -/
theorem admits_of_linkedAll {recorded : Recorded} {inFunction : Bool} {names : Names}
    {outer : Scopes} {body : List Stmt}
    (h : Stmt.LinkedAll recorded inFunction (names :: outer) body) :
    Admits (names :: outer) ((body.flatMap Stmt.declares).map Prod.fst) := by
  induction body generalizing names with
  | nil => exact ⟨List.nodup_nil, fun _ hmem => (List.not_mem_nil hmem).elim⟩
  | cons s body ih =>
      cases s with
      | var | function => exact .cons h.1.1 (ih h.2)
      | _ => exact ih h.2

end Binding.Scopes

open Binding

mutual

/-- No two names in a scope of a linked statement are equal. -/
theorem Stmt.Linked.nodup_names {recorded : Recorded} {inFunction : Bool} {scopes : Scopes}
    (s : Stmt) (here : Place) (h : s.Linked recorded inFunction scopes) :
    ∀ scope ∈ s.scopesAt here, (scope.2.map Prod.fst).Nodup := by
  match s with
  | .expression _ | .print _ | .var _ _ | .ret _ _ =>
      exact fun _ hmem => (List.not_mem_nil hmem).elim
  | .block body =>
      exact List.forall_mem_cons.mpr ⟨(Scopes.admits_of_linkedAll h).nodup,
        Stmt.LinkedAll.nodup_names body here 0 h⟩
  | .ifThen _ thenBranch elseBranch =>
      exact List.forall_mem_append.mpr ⟨Stmt.Linked.nodup_names thenBranch _ h.2.1.2,
        Stmt.LinkedBranch.nodup_names elseBranch _ h.2.2⟩
  | .whileLoop _ body => exact Stmt.Linked.nodup_names body _ h.2.2
  | .function name params body =>
      refine List.forall_mem_cons.mpr ⟨?_, Stmt.LinkedAll.nodup_names body here 0 h.2.2⟩
      rw [List.map_append, List.map_map]
      obtain ⟨names, hcall⟩ := Scopes.call_cons (scopes.introduce name) params
      have hbody := h.2.2
      rw [hcall] at hbody
      refine (Scopes.Admits.params h.2.1 ?_).nodup
      show Scopes.Admits (Scopes.call _ params) _
      rw [hcall]
      exact Scopes.admits_of_linkedAll hbody

theorem Stmt.LinkedAll.nodup_names {recorded : Recorded} {inFunction : Bool} {scopes : Scopes}
    (body : List Stmt) (here : Place) (k : Nat)
    (h : Stmt.LinkedAll recorded inFunction scopes body) :
    ∀ scope ∈ Stmt.scopesAtAll here k body, (scope.2.map Prod.fst).Nodup := by
  match body with
  | [] => exact fun _ hmem => (List.not_mem_nil hmem).elim
  | s :: rest =>
      exact List.forall_mem_append.mpr ⟨Stmt.Linked.nodup_names s _ h.1,
        Stmt.LinkedAll.nodup_names rest here (k + 1) h.2⟩

theorem Stmt.LinkedBranch.nodup_names {recorded : Recorded} {inFunction : Bool} {scopes : Scopes}
    (o : Option Stmt) (here : Place) (h : Stmt.LinkedBranch recorded inFunction scopes o) :
    ∀ scope ∈ Stmt.scopesAtOptional here o, (scope.2.map Prod.fst).Nodup := by
  match o with
  | none => exact fun _ hmem => (List.not_mem_nil hmem).elim
  | some s => exact Stmt.Linked.nodup_names s here h.2

end

/-- In a scope of a linked program a name is declared as one thing only. -/
theorem Stmt.binder_unique {recorded : Recorded} {program : List Stmt}
    (h : LinkedAll recorded false [] program) {place : Place} {names names' : Declarations}
    (hs : (place, names) ∈ localScopes program) (hs' : (place, names') ∈ localScopes program)
    {name : String} {b b' : Binder} (hb : (name, b) ∈ names) (hb' : (name, b') ∈ names') :
    b = b' := by
  obtain rfl := localScopes_unique hs hs'
  have hnodup := Stmt.LinkedAll.nodup_names program [] 0 h _ hs
  exact congrArg Prod.snd (List.inj_on_of_nodup_map hnodup hb hb' rfl)

end Lox
