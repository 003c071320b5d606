import Lox.Proofs.Scoping.Places

/-!
# Uses and declarations seen from the scopes around them

A tree is looked at from the places of the scopes around it, the innermost first. It is
sited if each of its uses at a recorded distance names something that is declared in the
scope so far out, and each of its declarations is one of those listed for the innermost
scope. A linked program is sited, whatever its scopes are called.
-/

namespace Lox

open Binding

/-! ## Uses -/

mutual

/-- The nodes that read or write a variable, each with its name. -/
def Expr.uses : Expr → List (NodeId × Token)
  | .literal _ => []
  | .group inner => inner.uses
  | .unary _ operand => operand.uses
  | .binary left _ right | .logical left _ right => left.uses ++ right.uses
  | .variable id name => [(id, name)]
  | .assign id name value => (id, name) :: value.uses
  | .call callee _ arguments => callee.uses ++ Expr.usesAll arguments

def Expr.usesAll : List Expr → List (NodeId × Token)
  | [] => []
  | e :: rest => e.uses ++ Expr.usesAll rest

end

def Expr.usesOptional : Option Expr → List (NodeId × Token)
  | none => []
  | some e => e.uses

mutual

/-- The nodes in a statement that read or write a variable, each with its name. -/
def Stmt.uses : Stmt → List (NodeId × Token)
  | .expression value | .print value => value.uses
  | .var _ initializer => Expr.usesOptional initializer
  | .block body => Stmt.usesAll body
  | .ifThen condition thenBranch elseBranch =>
    condition.uses ++ (thenBranch.uses ++ Stmt.usesOptional elseBranch)
  | .whileLoop condition body => condition.uses ++ body.uses
  | .forLoop initializer condition increment body =>
    Stmt.usesOptional initializer ++ (Expr.usesOptional condition ++
      (Expr.usesOptional increment ++ body.uses))
  | .function _ _ body => Stmt.usesAll body
  | .ret _ value => Expr.usesOptional value

def Stmt.usesAll : List Stmt → List (NodeId × Token)
  | [] => []
  | s :: rest => s.uses ++ Stmt.usesAll rest

def Stmt.usesOptional : Option Stmt → List (NodeId × Token)
  | none => []
  | some s => s.uses

end

/-! ## Sited trees -/

/-- What is known of a program: the uses in it, its scopes, the names that may be global,
and the distances recorded for its nodes. -/
structure Layout where
  uses : List (NodeId × Token)
  scopes : List (Place × Declarations)
  globals : List String
  distances : Distances

namespace Layout

variable (y : Layout)

/-- A scope at the place declares the name. -/
def ListsAt (place : Place) (name : String) (binder : Binder) : Prop :=
  ∃ names, (place, names) ∈ y.scopes ∧ (name, binder) ∈ names

/-- The innermost of the scopes declares the name, or there is none and the name is global. -/
def Lists : List Place → String → Binder → Prop
  | [], name, _ => name ∈ y.globals
  | place :: _, name, binder => y.ListsAt place name binder

/-- The node stands within the scopes and uses the name. At a recorded distance is a scope
that declares it. -/
structure Uses (around : List Place) (id : NodeId) (name : Token) : Prop where
  mem : (id, name) ∈ y.uses
  nodup : around.Nodup
  at? : ∀ distance, y.distances.find? id = some distance →
    ∃ place binder, around[distance]? = some place ∧ y.ListsAt place name.lexeme binder

/-- The distances are those on record. -/
def recorded : Recorded := fun id distance => y.distances.find? id = distance

end Layout

section Sited

variable (y : Layout)

mutual

def Expr.Sited (around : List Place) : Expr → Prop
  | .literal _ => True
  | .group inner => inner.Sited around
  | .unary _ operand => operand.Sited around
  | .binary left _ right | .logical left _ right => left.Sited around ∧ right.Sited around
  | .variable id name => y.Uses around id name
  | .assign id name value => y.Uses around id name ∧ value.Sited around
  | .call callee _ arguments => callee.Sited around ∧ Expr.SitedAll around arguments

def Expr.SitedAll (around : List Place) : List Expr → Prop
  | [] => True
  | e :: rest => e.Sited around ∧ Expr.SitedAll around rest

end

def Expr.SitedOptional (around : List Place) : Option Expr → Prop
  | none => True
  | some e => e.Sited y around

mutual

/-- The statement stands at a place, within the scopes at others. -/
def Stmt.Sited (here : Place) (around : List Place) : Stmt → Prop
  | .expression value | .print value => value.Sited y around
  | .var name initializer =>
    y.Lists around name.lexeme .variable ∧ Expr.SitedOptional y around initializer
  | .block body => Stmt.SitedAll here (here :: around) 0 body
  | .ifThen condition thenBranch elseBranch =>
    condition.Sited y around ∧ thenBranch.Sited (0 :: here) around ∧
      Stmt.SitedOptional (1 :: here) around elseBranch
  | .whileLoop condition body => condition.Sited y around ∧ body.Sited (0 :: here) around
  | .forLoop .. => False
  | .function name params body =>
    y.Lists around name.lexeme .function ∧
      (∀ t ∈ params, y.Lists (here :: around) t.lexeme .parameter) ∧
        Stmt.SitedAll here (here :: around) 0 body
  | .ret _ value => Expr.SitedOptional y around value

/-- Statements that stand one behind the other, so many before them. -/
def Stmt.SitedAll (here : Place) (around : List Place) (k : Nat) : List Stmt → Prop
  | [] => True
  | s :: rest => s.Sited (k :: here) around ∧ Stmt.SitedAll here around (k + 1) rest

def Stmt.SitedOptional (here : Place) (around : List Place) : Option Stmt → Prop
  | none => True
  | some s => s.Sited here around

end

end Sited

theorem Stmt.Sited.lists {y : Layout} {here : Place} {around : List Place} {s : Stmt}
    (h : s.Sited y here around) : ∀ d ∈ s.declares, y.Lists around d.1 d.2 := by
  cases s with
  | var | function => exact List.forall_mem_singleton.mpr h.1
  | _ => exact fun _ hd => (List.not_mem_nil hd).elim

/-! ## Linked trees are sited -/

namespace Layout

variable (y : Layout)

/-- The scopes that the resolver has open are those at the places, each further in than
the ones around it. -/
structure Around (here : Place) (around : List Place) (scopes : Scopes) : Prop where
  nodup : around.Nodup
  shorter : ∀ place ∈ around, place.length < here.length
  listed : List.Forall₂ (fun place names => ∀ name : String,
    (List.lookup name names).isSome → ∃ binder, y.ListsAt place name binder) around scopes

variable {y} {here : Place} {around : List Place} {scopes : Scopes}

theorem Around.top (y : Layout) (here : Place) : y.Around here [] [] :=
  ⟨List.nodup_nil, fun _ h => (List.not_mem_nil h).elim, .nil⟩

theorem Around.step (h : y.Around here around scopes) (k : Nat) :
    y.Around (k :: here) around scopes :=
  { h with shorter := fun place hp => Nat.lt_succ_of_lt (h.shorter place hp) }

theorem Around.sibling {i : Nat} (h : y.Around (i :: here) around scopes) (j : Nat) :
    y.Around (j :: here) around scopes :=
  { h with shorter := h.shorter }

theorem Around.inner (h : y.Around here around scopes) (k : Nat) :
    y.Around (k :: here) (here :: around) ([] :: scopes) where
  nodup := List.nodup_cons.mpr ⟨fun hmem => Nat.lt_irrefl _ (h.shorter here hmem), h.nodup⟩
  shorter := List.forall_mem_cons.mpr ⟨Nat.lt_succ_self _, (h.step k).shorter⟩
  listed := .cons (fun _ hname => by cases hname) h.listed

theorem Around.enter (h : y.Around here around scopes) {name : String} {binder : Binder}
    (hname : y.Lists around name binder) (ready : Bool) :
    y.Around here around (scopes.enter name ready) := by
  obtain ⟨hnodup, hshorter, hlisted⟩ := h
  refine ⟨hnodup, hshorter, ?_⟩
  cases hlisted with
  | nil => exact .nil
  | cons hinner houter =>
      refine .cons (fun n hn => ?_) houter
      rw [lookup_cons_name] at hn
      split at hn
      · rename_i heq
        exact ⟨binder, heq ▸ hname⟩
      · exact hinner n hn

theorem Around.introduce (h : y.Around here around scopes) {name : Token} {binder : Binder}
    (hname : y.Lists around name.lexeme binder) : y.Around here around (scopes.introduce name) :=
  (h.enter hname false).enter hname true

theorem Around.introduceAll (h : y.Around here around scopes) {binder : Binder}
    {params : List Token} (hparams : ∀ t ∈ params, y.Lists around t.lexeme binder) :
    y.Around here around (params.foldl Scopes.introduce scopes) := by
  induction params generalizing scopes with
  | nil => exact h
  | cons t params ih =>
      obtain ⟨ht, hrest⟩ := List.forall_mem_cons.mp hparams
      exact ih (h.introduce ht) hrest

/-- A scope found by its distance is at the place so far out. -/
theorem Around.listed_at (h : y.Around here around scopes) {name : String} {distance : Nat}
    (hd : scopes.distance? name = some distance) :
    ∃ place binder, around[distance]? = some place ∧ y.ListsAt place name binder := by
  obtain ⟨hlt, hsome, -⟩ := List.findIdx?_eq_some_iff_getElem.mp hd
  have hlt' : distance < around.length := h.listed.length_eq ▸ hlt
  obtain ⟨binder, hb⟩ := h.listed.get hlt' hlt name hsome
  exact ⟨_, binder, List.getElem?_eq_getElem hlt', hb⟩

theorem Around.uses (h : y.Around here around scopes) {id : NodeId} {name : Token}
    (hmem : (id, name) ∈ y.uses) (hr : y.recorded id (scopes.distance? name.lexeme)) :
    y.Uses around id name where
  mem := hmem
  nodup := h.nodup
  at? _ hd := h.listed_at (hr.symm.trans hd)

end Layout

section Linked

variable {y : Layout}

mutual

theorem Expr.Linked.sited {here : Place} {around : List Place} {scopes : Scopes} (e : Expr)
    (hl : e.Linked y.recorded scopes) (ha : y.Around here around scopes)
    (hu : e.uses ⊆ y.uses) : e.Sited y around := by
  match e with
  | .literal _ => trivial
  | .group inner => exact Expr.Linked.sited inner hl ha hu
  | .unary _ operand => exact Expr.Linked.sited operand hl ha hu
  | .binary left _ right | .logical left _ right =>
      obtain ⟨huleft, huright⟩ := List.append_subset.mp hu
      exact ⟨Expr.Linked.sited left hl.1 ha huleft, Expr.Linked.sited right hl.2 ha huright⟩
  | .variable id name => exact ha.uses (hu (List.mem_singleton.mpr rfl)) hl.1
  | .assign id name value =>
      obtain ⟨humem, huvalue⟩ := List.cons_subset.mp hu
      exact ⟨ha.uses humem hl.2, Expr.Linked.sited value hl.1 ha huvalue⟩
  | .call callee _ arguments =>
      obtain ⟨hucallee, huarguments⟩ := List.append_subset.mp hu
      exact ⟨Expr.Linked.sited callee hl.1 ha hucallee,
        Expr.LinkedAll.sited arguments hl.2 ha huarguments⟩

theorem Expr.LinkedAll.sited {here : Place} {around : List Place} {scopes : Scopes} (es : List Expr)
    (hl : Expr.LinkedAll y.recorded scopes es)
    (ha : y.Around here around scopes) (hu : Expr.usesAll es ⊆ y.uses) :
    Expr.SitedAll y around es := by
  match es with
  | [] => trivial
  | e :: rest =>
      obtain ⟨hue, hurest⟩ := List.append_subset.mp hu
      exact ⟨Expr.Linked.sited e hl.1 ha hue, Expr.LinkedAll.sited rest hl.2 ha hurest⟩

end

theorem Expr.LinkedOptional.sited {here : Place} {around : List Place} {scopes : Scopes}
    (o : Option Expr) (hl : Expr.LinkedOptional y.recorded scopes o)
    (ha : y.Around here around scopes) (hu : Expr.usesOptional o ⊆ y.uses) :
    Expr.SitedOptional y around o := by
  cases o with
  | none => trivial
  | some e => exact Expr.Linked.sited e hl ha hu

/-- Behind a statement its declaration is listed as well. -/
theorem Layout.Around.behind {here : Place} {around : List Place} {scopes : Scopes} {s : Stmt}
    (ha : y.Around here around scopes)
    (hd : ∀ d ∈ s.declares, y.Lists around d.1 d.2) : y.Around here around (scopes.behind s) := by
  cases s with
  | var | function => exact ha.introduce (hd _ (List.mem_singleton.mpr rfl))
  | _ => exact ha

/-- What a scope declares is listed at its place. -/
theorem Layout.lists_of_mem {here : Place} {around : List Place} {names : Declarations}
    (h : (here, names) ∈ y.scopes) :
    ∀ d ∈ names, y.Lists (here :: around) d.1 d.2 := fun _ hd => ⟨names, h, hd⟩

mutual

theorem Stmt.Linked.sited {here : Place} {around : List Place} {scopes : Scopes} {inFunction : Bool}
    (s : Stmt)
    (hl : s.Linked y.recorded inFunction scopes) (ha : y.Around here around scopes)
    (hu : s.uses ⊆ y.uses) (hs : s.scopesAt here ⊆ y.scopes)
    (hd : ∀ d ∈ s.declares, y.Lists around d.1 d.2) : s.Sited y here around := by
  match s with
  | .expression value | .print value => exact Expr.Linked.sited value hl ha hu
  | .var name initializer =>
      have hname := hd _ (List.mem_singleton.mpr rfl)
      exact ⟨hname, Expr.LinkedOptional.sited initializer hl.2 (ha.enter hname false) hu⟩
  | .block body =>
      obtain ⟨hscope, hinner⟩ := List.cons_subset.mp hs
      exact Stmt.LinkedAll.sited body hl (ha.inner 0) hu hinner (Layout.lists_of_mem hscope)
  | .ifThen condition thenBranch elseBranch =>
      obtain ⟨hcondition, ⟨hp, hthen⟩, helse⟩ := hl
      obtain ⟨hu₁, hu₂⟩ := List.append_subset.mp hu
      obtain ⟨hu₂, hu₃⟩ := List.append_subset.mp hu₂
      obtain ⟨hs₁, hs₂⟩ := List.append_subset.mp hs
      refine ⟨Expr.Linked.sited condition hcondition ha hu₁, ?_,
        Stmt.LinkedBranch.sited elseBranch helse (ha.step 1) hu₃ hs₂⟩
      exact Stmt.Linked.sited thenBranch hthen (ha.step 0) hu₂ hs₁
        (Stmt.declares_of_plain hp ▸ fun _ h => (List.not_mem_nil h).elim)
  | .whileLoop condition body =>
      obtain ⟨hcondition, hp, hbody⟩ := hl
      obtain ⟨hu₁, hu₂⟩ := List.append_subset.mp hu
      exact ⟨Expr.Linked.sited condition hcondition ha hu₁,
        Stmt.Linked.sited body hbody (ha.step 0) hu₂ hs
          (Stmt.declares_of_plain hp ▸ fun _ h => (List.not_mem_nil h).elim)⟩
  | .function name params body =>
      have hname := hd _ (List.mem_singleton.mpr rfl)
      obtain ⟨hscope, hinner⟩ := List.cons_subset.mp hs
      have hlisted (d : String × Binder) (hd) : y.Lists (here :: around) d.1 d.2 :=
        Layout.lists_of_mem hscope d hd
      have hparams : ∀ t ∈ params, y.Lists (here :: around) t.lexeme .parameter := fun t ht =>
        hlisted (t.lexeme, .parameter) (List.mem_append_left _ (List.mem_map_of_mem ht))
      refine ⟨hname, hparams, Stmt.LinkedAll.sited body hl.2.2 ?_ hu hinner
        fun d hd => hlisted d (List.mem_append_right _ hd)⟩
      exact ((ha.introduce hname).inner 0).introduceAll hparams
  | .ret _ value => exact Expr.LinkedOptional.sited value hl.2 ha hu

theorem Stmt.LinkedAll.sited {here : Place} {around : List Place} {scopes : Scopes}
    {inFunction : Bool} {k : Nat} (body : List Stmt)
    (hl : Stmt.LinkedAll y.recorded inFunction scopes body)
    (ha : y.Around (k :: here) around scopes) (hu : Stmt.usesAll body ⊆ y.uses)
    (hs : Stmt.scopesAtAll here k body ⊆ y.scopes)
    (hd : ∀ d ∈ body.flatMap Stmt.declares, y.Lists around d.1 d.2) :
    Stmt.SitedAll y here around k body := by
  match body with
  | [] => trivial
  | s :: rest =>
      obtain ⟨hu₁, hu₂⟩ := List.append_subset.mp hu
      obtain ⟨hs₁, hs₂⟩ := List.append_subset.mp hs
      rw [List.flatMap_cons, List.forall_mem_append] at hd
      exact ⟨Stmt.Linked.sited s hl.1 ha hu₁ hs₁ hd.1,
        Stmt.LinkedAll.sited rest hl.2 ((ha.behind hd.1).sibling (k + 1)) hu₂ hs₂ hd.2⟩

theorem Stmt.LinkedBranch.sited {here : Place} {around : List Place} {scopes : Scopes}
    {inFunction : Bool} (o : Option Stmt)
    (hl : Stmt.LinkedBranch y.recorded inFunction scopes o) (ha : y.Around here around scopes)
    (hu : Stmt.usesOptional o ⊆ y.uses) (hs : Stmt.scopesAtOptional here o ⊆ y.scopes) :
    Stmt.SitedOptional y here around o := by
  match o with
  | none => trivial
  | some s =>
      exact Stmt.Linked.sited s hl.2 ha hu hs
        (Stmt.declares_of_plain hl.1 ▸ fun _ h => (List.not_mem_nil h).elim)

end

end Linked

/-- What is known of a program that has been bound, where some names are global already. -/
def Layout.ofProgram (program : List Stmt) (globals : List String) (distances : Distances) :
    Layout where
  uses := Stmt.usesAll program
  scopes := Stmt.localScopes program
  globals := globals ++ (program.flatMap Stmt.declares).map Prod.fst
  distances := distances

theorem Layout.sited_ofProgram {program : List Stmt} {globals : List String}
    {distances : Distances}
    (hl : Stmt.LinkedAll (ofProgram program globals distances).recorded false [] program) :
    Stmt.SitedAll (ofProgram program globals distances) [] [] 0 program := by
  refine Stmt.LinkedAll.sited program hl (.top _ _) (List.Subset.refl _) (List.Subset.refl _) ?_
  intro d hd
  exact List.mem_append_right _ (List.mem_map_of_mem hd)

end Lox
