import Lox.Proofs.Parser.Complete

/-!
# Lists that are too long

A call may have `maxArity` arguments and a function as many parameters. The check is made
before each entry of a list, so it is not the list that is reported but each of its entries
behind the first `maxArity`: a list with one entry too many is reported once, and a longer
one as often as it has entries too many. Nothing is left out on that account. The tree has
all the entries in their order, and so it has the statements around the list.

`Extent` is what this takes of a list in a program. The reports of a program are counted
along its reading; as the reports of an argument's own lists stand between those of the
list it belongs to, they come out as a permutation of what the extents tell.
-/

namespace Lox

open Parse

/-- A list in a program: as what an entry of it is reported that is one too many, and how many
entries it has. -/
structure Extent where
  cause : Cause
  length : Nat

namespace Extent

/-- The list has more entries than it may have. -/
def tooLong (x : Extent) : Bool := decide (maxArity < x.length)

/-- A report for each entry that is one too many. -/
def reports (x : Extent) : List Cause := List.replicate (x.length - maxArity) x.cause

/-- What is reported of all of the lists. -/
def reportsAll (xs : List Extent) : List Cause := xs.flatMap reports

theorem reportsAll_append (xs ys : List Extent) :
    reportsAll (xs ++ ys) = reportsAll xs ++ reportsAll ys :=
  List.flatMap_append

theorem reportsAll_cons (x : Extent) (xs : List Extent) :
    reportsAll (x :: xs) = x.reports ++ reportsAll xs :=
  List.flatMap_cons

theorem length_reportsAll_cons (x : Extent) (xs : List Extent) :
    (reportsAll (x :: xs)).length = (x.length - maxArity) + (reportsAll xs).length := by
  rw [reportsAll_cons, List.length_append, reports, List.length_replicate]

theorem countP_tooLong_cons (x : Extent) (xs : List Extent) :
    (x :: xs).countP tooLong = xs.countP tooLong + if maxArity < x.length then 1 else 0 := by
  simp only [List.countP_cons, tooLong, decide_eq_true_eq]

/-- A list that is too long is reported at least once. -/
theorem countP_tooLong_le (xs : List Extent) :
    xs.countP tooLong ≤ (reportsAll xs).length := by
  induction xs with
  | nil => exact Nat.zero_le _
  | cons x xs ih =>
      rw [length_reportsAll_cons, countP_tooLong_cons]
      split <;> omega

/-- The lists that are too long are reported once each just if none of them has two entries too
many. -/
theorem length_reportsAll_eq_iff (xs : List Extent) :
    (reportsAll xs).length = xs.countP tooLong ↔ ∀ x ∈ xs, x.length ≤ maxArity + 1 := by
  induction xs with
  | nil => exact ⟨fun _ => List.forall_mem_nil _, fun _ => rfl⟩
  | cons x xs ih =>
      have hle := countP_tooLong_le xs
      rw [List.forall_mem_cons, ← ih, length_reportsAll_cons, countP_tooLong_cons]
      split <;> omega

end Extent

/-! ## The lists of a tree -/

mutual

/-- The argument lists in an expression. -/
def Expr.extents : Expr → List Extent
  | .literal _ | .variable _ _ => []
  | .group inner => inner.extents
  | .unary _ operand => operand.extents
  | .binary left _ right | .logical left _ right => left.extents ++ right.extents
  | .assign _ _ value => value.extents
  | .call callee _ arguments =>
    callee.extents ++ ⟨.tooManyArguments, arguments.length⟩ :: Expr.extentsAll arguments

def Expr.extentsAll : List Expr → List Extent
  | [] => []
  | e :: rest => e.extents ++ Expr.extentsAll rest

end

def Expr.extentsOptional : Option Expr → List Extent
  | none => []
  | some e => e.extents

mutual

/-- The parameter lists and argument lists in a statement. -/
def Stmt.extents : Stmt → List Extent
  | .expression value | .print value => value.extents
  | .var _ initializer => Expr.extentsOptional initializer
  | .block body => Stmt.extentsAll body
  | .ifThen condition thenBranch elseBranch =>
    condition.extents ++ (thenBranch.extents ++ Stmt.extentsOptional elseBranch)
  | .whileLoop condition body => condition.extents ++ body.extents
  | .forLoop initializer condition increment body =>
    Stmt.extentsOptional initializer ++ (Expr.extentsOptional condition ++
      (Expr.extentsOptional increment ++ body.extents))
  | .function _ params body => ⟨.tooManyParameters, params.length⟩ :: Stmt.extentsAll body
  | .ret _ value => Expr.extentsOptional value

def Stmt.extentsAll : List Stmt → List Extent
  | [] => []
  | s :: rest => s.extents ++ Stmt.extentsAll rest

def Stmt.extentsOptional : Option Stmt → List Extent
  | none => []
  | some s => s.extents

end

namespace Parse

open Extent

theorem Level.extents_build (l : Level) (left : Expr) (rest : List (Token × Expr)) :
    (l.build left rest).extents = left.extents ++ rest.flatMap fun r => r.2.extents := by
  induction rest generalizing left with
  | nil => exact (List.append_nil _).symm
  | cons r rest ih =>
      have hnode : (l.node left r.1 r.2).extents = left.extents ++ r.2.extents := by
        cases l <;> rfl
      show (l.build (l.node left r.1 r.2) rest).extents = _
      rw [ih, hnode, List.append_assoc, List.flatMap_cons]

/-- An argument list and the lists in it. -/
def extentsOfCall (args : List Expr) : List Extent :=
  ⟨.tooManyArguments, args.length⟩ :: Expr.extentsAll args

theorem extents_buildCalls (callee : Expr) (calls : List (List Expr × Token)) :
    (buildCalls callee calls).extents =
      callee.extents ++ calls.flatMap fun c => extentsOfCall c.1 := by
  induction calls generalizing callee with
  | nil => exact (List.append_nil _).symm
  | cons c calls ih =>
      show (buildCalls (.call callee c.2 c.1) calls).extents = _
      rw [ih, Expr.extents, List.append_assoc, List.flatMap_cons]
      rfl

/-! ## Counting the reports -/

/-- How many of the entries behind `count` others are too many. -/
def excess (count length : Nat) : Nat := (count + length - maxArity) - (count - maxArity)

theorem excess_zero (length : Nat) : excess 0 length = length - maxArity := by
  rw [excess, Nat.zero_add, Nat.zero_sub, Nat.sub_zero]

/-- One report more for each entry behind the first `maxArity`. -/
theorem overrun_append_replicate (cause : Cause) (count : Nat) (t : Token) (w : List Token)
    (length : Nat) :
    overrun cause count (t :: w) ++ List.replicate (excess (count + 1) length) ⟨cause, t⟩ =
      List.replicate (excess count (length + 1)) ⟨cause, t⟩ := by
  rcases Nat.lt_or_ge count maxArity with hlt | hge
  · have hsame : excess count (length + 1) = excess (count + 1) length := by
      simp only [excess]
      omega
    rw [overrun_of_lt hlt, hsame, List.nil_append]
  · have hmore : excess count (length + 1) = excess (count + 1) length + 1 := by
      simp only [excess]
      omega
    rw [overrun_cons hge, hmore, List.singleton_append, List.replicate_succ]

theorem map_cause_overrun (cause : Cause) (count : Nat) {w : List Token} (hw : w ≠ [])
    (length : Nat) : (overrun cause count w).map Fault.cause ++
      List.replicate (excess (count + 1) length) cause =
        List.replicate (excess count (length + 1)) cause := by
  obtain ⟨t, w, rfl⟩ := List.exists_cons_of_ne_nil hw
  have h := congrArg (List.map Fault.cause) (overrun_append_replicate cause count t w length)
  rwa [List.map_append, List.map_replicate, List.map_replicate] at h

/-- What is reported of the lists in a tree of a phrase. -/
def Phrase.reports : (p : Phrase) → p.Tree → List Cause
  | .expression, e | .level _, e | .operand _, e | .unary, e | .primary, e =>
    reportsAll (Expr.extents e)
  | .levelRest _, rest => reportsAll (rest.flatMap fun r => r.2.extents)
  | .callRest, calls => reportsAll (calls.flatMap fun c => extentsOfCall c.1)
  | .arguments, es => reportsAll (extentsOfCall es)
  | .argumentsFrom count, es =>
    List.replicate (excess count (List.length es)) .tooManyArguments ++
      reportsAll (Expr.extentsAll es)
  | .paramsFrom count, ts => List.replicate (excess count (List.length ts)) .tooManyParameters
  | .expressionUnless _, o => reportsAll (Expr.extentsOptional o)
  | .forInitializer, o | .declaration, o => reportsAll (Stmt.extentsOptional o)
  | .block, body | .declarations _, body => reportsAll (Stmt.extentsAll body)
  | .varDeclaration, s | .expressionStatement, s | .printStatement, s | .returnStatement _, s
  | .declared, s | .function, s | .statement, s | .forStatement, s | .ifStatement, s
  | .whileStatement, s => reportsAll (Stmt.extents s)

/-- The reports of a reading, whatever their order, are those of the lists in its tree. -/
theorem ReadsLong.reports_perm {p : Phrase} {w : List Token} {i j : Nat} {a : p.Tree}
    {faults : List Fault} (h : ReadsLong p w i a j faults) :
    (faults.map Fault.cause).Perm (p.reports a) := by
  induction h with
  | value _ ih | assign _ _ _ ih | tighter _ _ ih | tightest _ _ ih | operator _ _ ih
  | group _ _ _ ih | someExpression _ ih | varValue _ _ _ _ ih | expressionStatement _ _ ih
  | printStatement _ _ ih | returnStatement _ _ ih | varInitializer _ _ ih | valueInitializer _ ih
  | declaration _ ih | functionDeclared _ _ ih | varDeclared _ _ ih | statementDeclared _ ih
  | statementPlain _ ih | statementFor _ _ ih | statementIf _ _ ih | statementPrint _ _ ih
  | statementReturn _ _ ih | statementWhile _ _ ih | statementBlock _ _ ih | block _ _ ih
  | functionBare _ _ _ _ _ ih => exact ih
  | levelEnd | callEnd | constant | name | noExpression | varBare | noInitializer
  | declarationsEnd | noArguments => exact .refl _
  | level _ _ ih ih' =>
      show List.Perm _ (reportsAll (Level.build _ _ _).extents)
      rw [Level.extents_build, reportsAll_append, List.map_append]
      exact ih.append ih'
  | call _ _ ih ih' =>
      show List.Perm _ (reportsAll (buildCalls _ _).extents)
      rw [extents_buildCalls, reportsAll_append, List.map_append]
      exact ih.append ih'
  | levelMore _ _ _ ih ih' | declarationsMore _ _ ih ih' | whileStatement _ _ _ _ ih ih' =>
      rw [List.map_append]
      refine (ih.append ih').trans (.of_eq ?_)
      exact (reportsAll_append _ _).symm
  | callMore _ _ _ _ ih ih' =>
      rw [List.map_append]
      refine (ih.append ih').trans (.of_eq ?_)
      exact (reportsAll_append (extentsOfCall _) _).symm
  | someArguments _ ih =>
      refine ih.trans (.of_eq ?_)
      rw [Phrase.reports, Phrase.reports, excess_zero, extentsOfCall, reportsAll_cons,
        Extent.reports]
  | @lastArgument count w e _ _ fs he ih =>
      have hcount := map_cause_overrun .tooManyArguments count he.ne_nil 0
      rw [show excess (count + 1) 0 = 0 from Nat.sub_self _, List.replicate_zero,
        List.append_nil] at hcount
      show List.Perm _ (List.replicate (excess count 1) _ ++ reportsAll (e.extents ++ []))
      rw [List.map_append, hcount, List.append_nil]
      exact ih.append_left _
  | @moreArguments count _ u _ e es _ _ _ fs gs he _ _ ih ih' =>
      have hcount := map_cause_overrun .tooManyArguments count he.ne_nil es.length
      show List.Perm _ (List.replicate (excess count (es.length + 1)) _ ++
        reportsAll (e.extents ++ Expr.extentsAll es))
      rw [List.map_append, List.map_append, List.append_assoc, ← hcount, List.append_assoc,
        reportsAll_append]
      refine ((ih.append ih').trans ?_).append_left _
      exact List.perm_append_comm_assoc _ _ _
  | @lastParam count t _ _ =>
      have hcount := map_cause_overrun .tooManyParameters count (List.cons_ne_nil t []) 0
      rw [show excess (count + 1) 0 = 0 from Nat.sub_self _, List.replicate_zero,
        List.append_nil] at hcount
      exact .of_eq hcount
  | @moreParams count t _ _ ts _ _ _ _ _ _ ih =>
      have hcount := map_cause_overrun .tooManyParameters count (List.cons_ne_nil t []) ts.length
      rw [List.map_append, Phrase.reports, List.length_cons, ← hcount]
      exact ih.append_left _
  | @functionParams _ _ _ _ _ _ params body _ _ _ _ _ _ _ _ _ _ _ ih ih' =>
      show List.Perm _ (reportsAll (⟨.tooManyParameters, params.length⟩ :: Stmt.extentsAll body))
      rw [List.map_append, reportsAll_cons, Extent.reports, ← excess_zero]
      exact ih.append ih'
  | @ifBare _ _ _ _ condition thenBranch _ _ _ _ _ _ _ _ _ ih ih' =>
      show List.Perm _ (reportsAll (condition.extents ++ (thenBranch.extents ++ [])))
      rw [List.append_nil, List.map_append, reportsAll_append]
      exact ih.append ih'
  | @ifElse _ _ _ _ _ _ condition thenBranch elseBranch _ _ _ _ _ _ _ _ _ _ _ _ _ _ ih ih' ih'' =>
      show List.Perm _ (reportsAll (condition.extents ++ (thenBranch.extents ++
        elseBranch.extents)))
      rw [List.map_append, List.map_append, reportsAll_append, reportsAll_append]
      exact ih.append (ih'.append ih'')
  | forStatement _ _ _ _ _ _ _ ih₁ ih₂ ih₃ ih₄ =>
      rw [List.map_append, List.map_append, List.map_append]
      refine (ih₁.append (ih₂.append (ih₃.append ih₄))).trans (.of_eq ?_)
      show _ = reportsAll (_ ++ (_ ++ (_ ++ _)))
      rw [reportsAll_append, reportsAll_append, reportsAll_append]
      rfl

/-! ## A call with many arguments -/

/-- `n + 1` arguments. -/
def nils : Nat → List Token
  | 0 => [⟨.kwNil, "nil", 1⟩]
  | n + 1 => ⟨.kwNil, "nil", 1⟩ :: ⟨.comma, ",", 1⟩ :: nils n

/-- A call with `n + 1` arguments, as a statement. -/
def callWithNils (n : Nat) : List Token :=
  ([⟨.identifier, "f", 1⟩] ++ ⟨.leftParen, "(", 1⟩ :: (nils n ++ [⟨.rightParen, ")", 1⟩])) ++
    [⟨.semicolon, ";", 1⟩]

theorem readsLong_nils (count n i : Nat) :
    ReadsLong (.argumentsFrom count) (nils n) i (List.replicate (n + 1) (.literal .nil)) i
      (List.replicate (excess count (n + 1)) ⟨.tooManyArguments, ⟨.kwNil, "nil", 1⟩⟩) := by
  have he : ReadsLong .expression [⟨.kwNil, "nil", 1⟩] i (.literal .nil) i [] :=
    .value (.of_unary (.call (.constant rfl) .callEnd))
  induction n generalizing count with
  | zero =>
      rw [← overrun_append_replicate _ count _ [] 0, show excess (count + 1) 0 = 0 from
        Nat.sub_self _]
      exact .lastArgument he
  | succ n ih =>
      rw [← overrun_append_replicate _ count _ [] (n + 1), List.replicate_succ]
      have h : ReadsLong (.argumentsFrom count) ([⟨.kwNil, "nil", 1⟩] ++ ⟨.comma, ",", 1⟩ :: nils n)
          _ _ _ _ := .moreArguments he rfl (ih (count + 1))
      rwa [List.append_nil] at h

theorem readsLong_callWithNils (n i : Nat) :
    ReadsLong (.declarations false) (callWithNils n) i
      [.expression (.call (.variable i ⟨.identifier, "f", 1⟩) ⟨.rightParen, ")", 1⟩
        (List.replicate (n + 1) (.literal .nil)))] (i + 1)
      (List.replicate (excess 0 (n + 1)) ⟨.tooManyArguments, ⟨.kwNil, "nil", 1⟩⟩) := by
  have hargs : ReadsLong .arguments (nils n) (i + 1) _ (i + 1) _ :=
    .someArguments (readsLong_nils 0 n (i + 1))
  have hcalls : ReadsLong .callRest
      (⟨.leftParen, "(", 1⟩ :: (nils n ++ [⟨.rightParen, ")", 1⟩])) (i + 1) _ (i + 1) _ :=
    .callMore rfl hargs rfl .callEnd
  have hcall : ReadsLong .unary ([⟨.identifier, "f", 1⟩] ++ _) i _ (i + 1) _ :=
    .call (.name rfl) hcalls
  have hstatement : ReadsLong .expressionStatement (callWithNils n) i _ (i + 1) _ :=
    .expressionStatement (.value hcall.of_unary) rfl
  have h : ReadsLong (.declarations false) _ i _ (i + 1) _ :=
    .declarationsMore (.declaration (.statementDeclared (.statementPlain hstatement)))
      .declarationsEnd
  rwa [List.append_nil, List.append_nil, List.nil_append, List.append_nil] at h

end Parse

namespace Parsed

/-- A program that is in order but for the length of its lists is read whole: nothing is missing
in the tree, and what is reported are the entries of each list behind the first `maxArity`. So
there is one report for each list that is too long just if none has two entries too many. -/
theorem ofTokens_overlong (tokens : List Token) (i : NodeId) (body : List Stmt)
    (faults : List Fault) (j : NodeId) :
    (ofTokens tokens i = ⟨body, faults, j⟩ ∧ Overruns faults ↔
      ReadsLong (.declarations false) (readable tokens) i body j faults) ∧
    (ReadsLong (.declarations false) (readable tokens) i body j faults →
      (faults.map Fault.cause).Perm (Extent.reportsAll (Stmt.extentsAll body)) ∧
      (faults.length = (Stmt.extentsAll body).countP Extent.tooLong ↔
        ∀ x ∈ Stmt.extentsAll body, x.length ≤ maxArity + 1)) := by
  refine ⟨ofTokens_iff_readsLong tokens i body faults j, fun h => ?_⟩
  have hperm : (faults.map Fault.cause).Perm (Extent.reportsAll (Stmt.extentsAll body)) :=
    h.reports_perm
  refine ⟨hperm, ?_⟩
  rw [← Extent.length_reportsAll_eq_iff, ← hperm.length_eq, List.length_map]

/-- There is one list that is too long, and it is reported twice, as it has two entries too many;
the tree has all of it. -/
theorem ofTokens_two_too_many :
    ofTokens (callWithNils 256) 0 = ⟨[.expression (.call (.variable 0 ⟨.identifier, "f", 1⟩)
      ⟨.rightParen, ")", 1⟩ (List.replicate 257 (.literal .nil)))],
      List.replicate 2 ⟨.tooManyArguments, ⟨.kwNil, "nil", 1⟩⟩, 1⟩ ∧
    (Stmt.extentsAll (ofTokens (callWithNils 256) 0).statements).countP Extent.tooLong = 1 ∧
    ¬ ∀ x ∈ Stmt.extentsAll (ofTokens (callWithNils 256) 0).statements,
      x.length ≤ maxArity + 1 := by
  have hreadable : readable (callWithNils 256) = callWithNils 256 := by decide +kernel
  have h := readsLong_callWithNils 256 0
  rw [← hreadable] at h
  have hread := ((ofTokens_overlong _ _ _ _ _).1.mpr h).1
  have hcount := ((ofTokens_overlong (callWithNils 256) _ _ _ _).2 h).2
  have hone : (Stmt.extentsAll [.expression (.call (.variable 0 ⟨.identifier, "f", 1⟩)
      ⟨.rightParen, ")", 1⟩ (List.replicate 257 (.literal .nil)))]).countP Extent.tooLong = 1 := by
    decide +kernel
  refine ⟨hread, by rw [hread]; exact hone, fun hshort => ?_⟩
  rw [hread] at hshort
  have htwo : 2 = 1 := (hcount.mpr hshort).trans hone
  exact absurd htwo (by decide)

end Parsed

end Lox
