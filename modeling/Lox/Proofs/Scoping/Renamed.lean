import Lox.Proofs.Scoping.Renaming
import Lox.Proofs.Scoping.Walk

/-!
# Binding a program with a variable renamed

The resolver walks a linked program and the same program with a local variable renamed
side by side. Its scopes differ by an exchange of two names in the scopes at the place of
the variable; the distances it records and the faults it finds do not differ at all.
-/

namespace Lox

open Binding

namespace Renaming

variable (ρ : Renaming)

/-- The names of a scope with the variable renamed. -/
def names (around : List Place) (names : Names) : Names :=
  names.map fun entry => (ρ.called around entry.1, entry.2)

/-- The open scopes with the variable renamed. -/
def scopes (around : List Place) : Scopes → Scopes
  | [] => []
  | names :: outer => ρ.names around names :: scopes around.tail outer

/-- The state of the walk with the variable renamed. -/
def state (around : List Place) (s : State) : State :=
  { s with scopes := ρ.scopes around s.scopes }

theorem lookup_names (around : List Place) (names : Names) (name : String) :
    List.lookup name (ρ.names around names) = List.lookup (ρ.called around name) names := by
  induction names with
  | nil => rfl
  | cons entry names ih =>
      show List.lookup name ((ρ.called around entry.1, entry.2) :: ρ.names around names) = _
      rw [lookup_cons_name, ih]
      refine Eq.trans ?_ (lookup_cons_name names entry.1 _ entry.2).symm
      exact if_congr ρ.called_eq_iff.symm rfl rfl

theorem innermost?_scopes (around : List Place) (scopes : Scopes) (name : String) :
    (ρ.scopes around scopes).innermost? name = scopes.innermost? (ρ.called around name) := by
  cases scopes with
  | nil => rfl
  | cons names outer => exact ρ.lookup_names around names name

end Renaming

namespace Binding.Scopes

theorem distance?_cons (names : Names) (outer : Scopes) (name : String) :
    distance? (names :: outer) name =
      if (List.lookup name names).isSome then some 0 else (outer.distance? name).map (· + 1) :=
  List.findIdx?_cons

/-- The innermost scope knows a name just if no scope has to be left. -/
theorem isSome_innermost? {scopes : Scopes} {name : String} :
    (scopes.innermost? name).isSome ↔ scopes.distance? name = some 0 := by
  cases scopes with
  | nil => simp [innermost?, distance?]
  | cons names outer =>
      rw [distance?_cons]
      show (List.lookup name names).isSome ↔ _
      split
      · simp [*]
      · cases distance? outer name <;> simp [*]

end Binding.Scopes

namespace Renaming

variable {ρ : Renaming} {y : Layout}

/-- Renamed or not, a name is declared in the same of the scopes: the new one in just the
scope in which the old one was, and the old one, where it still stands, elsewhere. -/
theorem distance?_scopes {around : List Place} {scopes : Scopes} {name name' : String}
    (hfresh : name ≠ ρ.fresh) (hnew : ∀ names ∈ scopes, List.lookup ρ.fresh names = none)
    (hname : name' = if name = ρ.name ∧
      (Scopes.distance? scopes name).bind (around[·]?) = some ρ.place then ρ.fresh else name) :
    Scopes.distance? (ρ.scopes around scopes) name' = Scopes.distance? scopes name := by
  induction scopes generalizing around with
  | nil => rfl
  | cons names outer ih =>
      obtain ⟨hinner, houter⟩ := List.forall_mem_cons.mp hnew
      rw [scopes, Scopes.distance?_cons, Scopes.distance?_cons, lookup_names]
      rw [Scopes.distance?_cons] at hname
      by_cases hsome : (List.lookup name names).isSome = true
      · rw [if_pos hsome, Option.bind_some, ← List.head?_eq_getElem?, ← ρ.called_eq_ite hfresh]
          at hname
        rw [hname, called_called, if_pos hsome, if_pos hsome]
      · rw [if_neg hsome] at hname
        have hnone : List.lookup (ρ.called around name') names = none := by
          have hold := Option.not_isSome_iff_eq_none.mp hsome
          by_cases hp : around.head? = some ρ.place
          · split at hname
            · rename_i hc
              rw [hname, ρ.called_fresh hp, ← hc.1]
              exact hold
            · by_cases hn : name = ρ.name
              · rw [hname, hn, ρ.called_name hp]
                exact hinner
              · rw [hname, ρ.called_of_ne hn hfresh]
                exact hold
          · rw [ρ.called_of_place hp, hname]
            split
            · exact hinner
            · exact hold
        rw [hnone, if_neg hsome, if_neg (by simp)]
        refine congrArg (Option.map _) (ih houter ?_)
        rw [hname, Option.bind_map]
        simp only [List.getElem?_tail, Function.comp_apply]

/-- No open scope knows the new name. -/
theorem New.unknown (hnew : ρ.New y) {here : Place} {around : List Place} {scopes : Scopes}
    (ha : y.Around here around scopes) : ∀ names ∈ scopes, List.lookup ρ.fresh names = none := by
  have key := ha.listed
  clear ha
  induction key with
  | nil => exact fun _ h => (List.not_mem_nil h).elim
  | cons hp _ ih =>
      refine List.forall_mem_cons.mpr ⟨?_, ih⟩
      refine Option.not_isSome_iff_eq_none.mp fun hsome => ?_
      obtain ⟨binder, hb⟩ := hp ρ.fresh hsome
      exact hnew.listed _ _ _ hb rfl

/-- The walk comes upon a variable that is linked. -/
structure Meets (ρ : Renaming) (y : Layout) (around : List Place) (s : State) (id : NodeId)
    (t : Token) : Prop where
  uses : y.Uses around id t
  recorded : y.recorded id (Scopes.distance? s.scopes t.lexeme)
  unknown : ∀ names ∈ s.scopes, List.lookup ρ.fresh names = none

section Steps

theorem closeScope_state (place : Place) (around : List Place) (s : State) :
    (ρ.state (place :: around) s).closeScope = ρ.state around s.closeScope := by
  obtain ⟨scopes, distances, faults⟩ := s
  cases scopes <;> rfl

variable {around : List Place} {s : State} {id : NodeId} {t : Token}

theorem Meets.distance? (hnew : ρ.New y) (h : ρ.Meets y around s id t) :
    Scopes.distance? (ρ.scopes around s.scopes) (ρ.use around id t).lexeme =
      Scopes.distance? s.scopes t.lexeme := by
  refine distance?_scopes (hnew.used _ h.uses.mem) h.unknown ?_
  rw [use, hnew.distances, show y.distances.find? id = _ from h.recorded]
  exact apply_ite Token.lexeme ..

theorem link_state (hnew : ρ.New y) (h : ρ.Meets y around s id t) :
    (ρ.state around s).link id (ρ.use around id t) = ρ.state around (s.link id t) := by
  have hd : (ρ.state around s).distance? (ρ.use around id t).lexeme = s.distance? t.lexeme :=
    h.distance? hnew
  rw [State.link, State.link, hd]
  cases s.distance? t.lexeme <;> rfl

/-- Only the own initializer has a variable that is not ready to be read, and the node in it
stays the only one. -/
theorem read_state (hnew : ρ.New y) (h : ρ.Meets y around s id t)
    (hready : Scopes.innermost? s.scopes t.lexeme ≠ some false) :
    (ρ.state around s).read id (ρ.use around id t) = ρ.state around (s.read id t) := by
  have hready' : Scopes.innermost? (ρ.scopes around s.scopes) (ρ.use around id t).lexeme ≠
      some false := by
    intro hfalse
    have hzero : Scopes.distance? s.scopes t.lexeme = some 0 := by
      rw [← h.distance? hnew, ← Scopes.isSome_innermost?, hfalse]
      rfl
    have hrecorded : ρ.distances.find? id = some 0 := by
      rw [hnew.distances, ← hzero]
      exact h.recorded
    rw [innermost?_scopes, ρ.lexeme_use (hnew.used _ h.uses.mem) hrecorded, List.drop_zero,
      called_called] at hfalse
    exact hready hfalse
  rw [State.read, State.read]
  refine Eq.trans ?_ (link_state hnew h) |>.trans ?_
  · exact congrArg (State.link · id _) (if_neg hready')
  · exact congrArg (fun s => ρ.state around (State.link s id t)) (if_neg hready).symm

variable {t' : Token} (hname : t'.lexeme = ρ.called around t.lexeme)
include hname

theorem enter_state (ready : Bool) :
    (ρ.state around s).enter t'.lexeme ready = ρ.state around (s.enter t.lexeme ready) := by
  rw [hname]
  obtain ⟨scopes, distances, faults⟩ := s
  cases scopes <;> rfl

theorem declare_state (hfree : Scopes.innermost? s.scopes t.lexeme = none) :
    (ρ.state around s).declare t' = ρ.state around (s.declare t) := by
  have hfree' : Scopes.innermost? (ρ.scopes around s.scopes) t'.lexeme = none := by
    rw [innermost?_scopes, hname, called_called]
    exact hfree
  rw [State.declare, State.declare, enter_state hname]
  refine Eq.trans (if_neg ?_) (congrArg (ρ.state around) (if_neg ?_).symm)
  · exact Option.not_isSome_iff_eq_none.mpr hfree'
  · exact Option.not_isSome_iff_eq_none.mpr hfree

theorem introduce_state (hfree : Scopes.innermost? s.scopes t.lexeme = none) :
    (ρ.state around s).introduce t' = ρ.state around (s.introduce t) := by
  rw [State.introduce, declare_state hname hfree]
  exact enter_state hname true

end Steps

end Renaming

namespace Binding

/-! ## The walk -/

variable {ρ : Renaming} {y : Layout}

mutual

theorem expression_renamed (hnew : ρ.New y) {around : List Place} (e : Expr) {s : State}
    (hl : e.Linked y.recorded s.scopes) (hs : e.Sited y around)
    (hu : ∀ names ∈ s.scopes, List.lookup ρ.fresh names = none) :
    expression (e.renamed ρ around) (ρ.state around s) = ρ.state around (expression e s) := by
  match e with
  | .literal _ => rfl
  | .group inner => exact expression_renamed hnew inner hl hs hu
  | .unary _ operand => exact expression_renamed hnew operand hl hs hu
  | .binary left _ right | .logical left _ right =>
      have hscopes := scopes_expression left s
      rw [Expr.renamed, expression, expression_renamed hnew left hl.1 hs.1 hu, expression]
      exact expression_renamed hnew right (hscopes ▸ hl.2) hs.2 (hscopes ▸ hu)
  | .variable id name => exact Renaming.read_state hnew ⟨hs, hl.1, hu⟩ hl.2
  | .assign id name value =>
      have hscopes := scopes_expression value s
      rw [Expr.renamed, expression, expression_renamed hnew value hl.1 hs.2 hu, expression]
      exact Renaming.link_state hnew ⟨hs.1, hscopes ▸ hl.2, hscopes ▸ hu⟩
  | .call callee _ arguments =>
      have hscopes := scopes_expression callee s
      rw [Expr.renamed, expression, expression_renamed hnew callee hl.1 hs.1 hu, expression]
      exact expressions_renamed hnew arguments (hscopes ▸ hl.2) hs.2 (hscopes ▸ hu)

theorem expressions_renamed (hnew : ρ.New y) {around : List Place} (es : List Expr) {s : State}
    (hl : Expr.LinkedAll y.recorded s.scopes es) (hs : Expr.SitedAll y around es)
    (hu : ∀ names ∈ s.scopes, List.lookup ρ.fresh names = none) :
    expressions (Expr.renamedAll ρ around es) (ρ.state around s) =
      ρ.state around (expressions es s) := by
  match es with
  | [] => rfl
  | e :: rest =>
      have hscopes := scopes_expression e s
      rw [Expr.renamedAll, expressions, expression_renamed hnew e hl.1 hs.1 hu, expressions]
      exact expressions_renamed hnew rest (hscopes ▸ hl.2) hs.2 (hscopes ▸ hu)

end

theorem optionalExpression_renamed (hnew : ρ.New y) {around : List Place} (o : Option Expr)
    {s : State} (hl : Expr.LinkedOptional y.recorded s.scopes o)
    (hs : Expr.SitedOptional y around o)
    (hu : ∀ names ∈ s.scopes, List.lookup ρ.fresh names = none) :
    optionalExpression (Expr.renamedOptional ρ around o) (ρ.state around s) =
      ρ.state around (optionalExpression o s) := by
  cases o with
  | none => rfl
  | some e => exact expression_renamed hnew e hl hs hu

theorem introduceAll_renamed (hnew : ρ.New y) {around : List Place} {params : List Token}
    {s : State} (hf : Scopes.Fresh s.scopes params)
    (hs : ∀ t ∈ params, y.Lists around t.lexeme .parameter) :
    (params.map (ρ.declaration around)).foldl State.introduce (ρ.state around s) =
      ρ.state around (params.foldl State.introduce s) := by
  induction params generalizing s with
  | nil => rfl
  | cons t params ih =>
      obtain ⟨ht, hrest⟩ := List.forall_mem_cons.mp hs
      rw [List.map_cons, List.foldl_cons, List.foldl_cons,
        Renaming.introduce_state (hnew.variable ht) hf.1]
      refine ih ?_ hrest
      rw [scopes_introduce]
      exact hf.2

mutual

/-- The walk over a statement with a variable renamed is the walk over the statement, with the
variable renamed. -/
theorem statement_renamed (hnew : ρ.New y) {here : Place} {around : List Place}
    (inFunction : Bool) (stmt : Stmt) (hp : stmt.Proper) {s : State}
    (hl : stmt.Linked y.recorded inFunction s.scopes) (hs : stmt.Sited y here around)
    (ha : y.Around here around s.scopes) :
    statement inFunction (stmt.renamed ρ here around) (ρ.state around s) =
      ρ.state around (statement inFunction stmt s) := by
  have hu := hnew.unknown ha
  match stmt with
  | .expression value | .print value => exact expression_renamed hnew value hl hs hu
  | .var name initializer =>
      have hname := hnew.variable hs.1
      have hdeclared := ha.enter hs.1 false
      rw [← Scopes.declare, ← scopes_declare] at hdeclared
      rw [Stmt.renamed, statement, Renaming.declare_state hname hl.1,
        optionalExpression_renamed hnew initializer (scopes_declare s name ▸ hl.2) hs.2
          (hnew.unknown hdeclared), statement]
      exact Renaming.enter_state hname true
  | .block body =>
      rw [Stmt.renamed, statement, statement]
      show (statements inFunction _ (ρ.state (here :: around) s.openScope)).closeScope = _
      rw [statements_renamed hnew inFunction body hp (s := s.openScope) hl hs (ha.inner 0)]
      exact Renaming.closeScope_state ..
  | .ifThen condition thenBranch elseBranch =>
      obtain ⟨hcondition, ⟨hplain, hthen⟩, helse⟩ := hl
      have h₁ := scopes_expression condition s
      have h₂ := scopes_statement inFunction thenBranch hp.1.2 (expression condition s)
      rw [Scopes.behind_plain hp.1.1, h₁] at h₂
      rw [Stmt.renamed, statement, expression_renamed hnew condition hcondition hs.1 hu,
        statement_renamed hnew inFunction thenBranch hp.1.2 (h₁ ▸ hthen) hs.2.1
          (h₁ ▸ ha.step 0), statement]
      exact optionalStatement_renamed hnew inFunction elseBranch hp.2 (h₂ ▸ helse) hs.2.2
        (h₂ ▸ ha.step 1)
  | .whileLoop condition body =>
      obtain ⟨hcondition, -, hbody⟩ := hl
      have hscopes := scopes_expression condition s
      rw [Stmt.renamed, statement, expression_renamed hnew condition hcondition hs.1 hu, statement]
      exact statement_renamed hnew inFunction body hp.2 (hscopes ▸ hbody) hs.2
        (hscopes ▸ ha.step 0)
  | .function name params body =>
      obtain ⟨hfree, hfresh, hbody⟩ := hl
      obtain ⟨hname, hparams, hsited⟩ := hs
      have hopened : (s.introduce name).openScope.scopes = [] :: Scopes.introduce s.scopes name :=
        congrArg ([] :: ·) (scopes_introduce s name)
      have hscopes := scopes_introduceAll params (s.introduce name).openScope
      rw [hopened] at hscopes
      rw [Stmt.renamed, statement, Renaming.introduce_state (hnew.function hname).symm hfree,
        statement]
      show (statements true _ (List.foldl _
        (ρ.state (here :: around) (s.introduce name).openScope) _)).closeScope = _
      have hparameters := introduceAll_renamed hnew (hopened ▸ hfresh) hparams
      rw [hparameters, statements_renamed hnew true body hp (hscopes ▸ hbody) hsited]
      · exact Renaming.closeScope_state ..
      · rw [hscopes]
        exact ((ha.introduce hname).inner 0).introduceAll hparams
  | .ret keyword value =>
      obtain ⟨rfl, hvalue⟩ := hl
      exact optionalExpression_renamed hnew value hvalue hs hu

theorem statements_renamed (hnew : ρ.New y) {here : Place} {around : List Place} {k : Nat}
    (inFunction : Bool) (body : List Stmt) (hp : Stmt.ProperAll body) {s : State}
    (hl : Stmt.LinkedAll y.recorded inFunction s.scopes body)
    (hs : Stmt.SitedAll y here around k body) (ha : y.Around (k :: here) around s.scopes) :
    statements inFunction (Stmt.renamedAll ρ here around k body) (ρ.state around s) =
      ρ.state around (statements inFunction body s) := by
  match body with
  | [] => rfl
  | stmt :: rest =>
      have hscopes := scopes_statement inFunction stmt hp.1 s
      rw [Stmt.renamedAll, statements, statement_renamed hnew inFunction stmt hp.1 hl.1 hs.1 ha,
        statements]
      have hbehind := (ha.behind hs.1.lists).sibling (k + 1)
      rw [← hscopes] at hbehind
      exact statements_renamed hnew inFunction rest hp.2 (hscopes ▸ hl.2) hs.2 hbehind

theorem optionalStatement_renamed (hnew : ρ.New y) {here : Place} {around : List Place}
    (inFunction : Bool) (o : Option Stmt) (hp : Stmt.ProperBranch o) {s : State}
    (hl : Stmt.LinkedBranch y.recorded inFunction s.scopes o)
    (hs : Stmt.SitedOptional y here around o) (ha : y.Around here around s.scopes) :
    optionalStatement inFunction (Stmt.renamedOptional ρ here around o) (ρ.state around s) =
      ρ.state around (optionalStatement inFunction o s) := by
  match o with
  | none => rfl
  | some stmt => exact statement_renamed hnew inFunction stmt hp.2 hl.2 hs ha

end

/-- A program with a local variable renamed is bound as the program is, to the same distances. -/
theorem program_renamed (hnew : ρ.New y) {body : List Stmt} (hp : Stmt.ProperAll body)
    (hl : Stmt.LinkedAll y.recorded false [] body) (hs : Stmt.SitedAll y [] [] 0 body)
    (distances : Distances) :
    program (Stmt.renamedProgram ρ body) distances = program body distances := by
  have h := statements_renamed hnew false body hp (s := ⟨[], distances, []⟩) hl hs (.top y _)
  refine h.trans ?_
  have hscopes := scopes_program hp distances
  show State.mk (ρ.scopes [] (program body distances).scopes) _ _ = program body distances
  rw [hscopes]
  exact congrArg (State.mk · _ _) hscopes.symm

end Binding

end Lox
