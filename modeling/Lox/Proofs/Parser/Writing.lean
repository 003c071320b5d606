import Lox.Proofs.Parser.Complete
import Lox.Proofs.Parser.WellFormed
import Lox.Token.Scan

/-!
# Reading undoes writing

A tree that the grammar has can be written out as tokens, and what is read from them is
that tree, but for the numbers of its nodes, which are given out anew.

The tokens that a tree keeps are written as they are, all others as a spelling has them:
of these only the kind matters. Operators and calls are read from left to right while
their trees grow the other way, so the step of the proof is that one more operator, or
one more argument list, can be read behind what can be read already.
-/

namespace Lox

open Parse

/-! ## Writing -/

/-- Tokens for those places where a tree keeps none. -/
structure Spelling where
  token : Token.Kind → Token
  kind_token : ∀ kind, (token kind).kind = kind

/-- The kind of a token that stands for a constant. -/
def Literal.kind : Literal → Token.Kind
  | nil => .kwNil
  | bool true => .kwTrue
  | bool false => .kwFalse
  | number value => .number value
  | string text => .string text

section Write

variable (spell : Spelling)

mutual

def Expr.write : Expr → List Token
  | .literal value => [spell.token value.kind]
  | .group inner => spell.token .leftParen :: (inner.write ++ [spell.token .rightParen])
  | .unary operator operand => operator :: operand.write
  | .binary left operator right | .logical left operator right =>
    left.write ++ operator :: right.write
  | .variable _ name => [name]
  | .assign _ name value => name :: spell.token .equal :: value.write
  | .call callee paren arguments =>
    callee.write ++ spell.token .leftParen :: (Expr.writeAll arguments ++ [paren])

/-- Expressions with commas between them. -/
def Expr.writeAll : List Expr → List Token
  | [] => []
  | e :: rest =>
    e.write ++ if rest.isEmpty then [] else spell.token .comma :: Expr.writeAll rest

end

def Expr.writeOptional : Option Expr → List Token
  | none => []
  | some e => e.write spell

mutual

/-- The tokens of a statement. In a program that is run there are no `for` loops. -/
def Stmt.write : Stmt → List Token
  | .expression value => value.write spell ++ [spell.token .semicolon]
  | .print value => spell.token .kwPrint :: (value.write spell ++ [spell.token .semicolon])
  | .var name none => [spell.token .kwVar, name, spell.token .semicolon]
  | .var name (some value) =>
    spell.token .kwVar :: name :: spell.token .equal ::
      (value.write spell ++ [spell.token .semicolon])
  | .block body => spell.token .leftBrace :: (Stmt.writeAll body ++ [spell.token .rightBrace])
  | .ifThen condition thenBranch elseBranch =>
    spell.token .kwIf :: spell.token .leftParen ::
      (condition.write spell ++ spell.token .rightParen ::
        (thenBranch.write ++ Stmt.writeElse elseBranch))
  | .whileLoop condition body =>
    spell.token .kwWhile :: spell.token .leftParen ::
      (condition.write spell ++ spell.token .rightParen :: body.write)
  | .forLoop .. => []
  | .function name params body =>
    spell.token .kwFun :: name :: spell.token .leftParen ::
      (params.intersperse (spell.token .comma) ++ spell.token .rightParen ::
        spell.token .leftBrace :: (Stmt.writeAll body ++ [spell.token .rightBrace]))
  | .ret keyword value =>
    keyword :: (Expr.writeOptional spell value ++ [spell.token .semicolon])

def Stmt.writeAll : List Stmt → List Token
  | [] => []
  | s :: rest => s.write ++ Stmt.writeAll rest

def Stmt.writeElse : Option Stmt → List Token
  | none => []
  | some s => spell.token .kwElse :: s.write

end

/-- A program with the mark of its end. -/
def Stmt.writeProgram (body : List Stmt) : List Token :=
  Stmt.writeAll spell body ++ [spell.token .eof]

end Write

/-! ## Trees without numbers -/

mutual

def Expr.unnumbered : Expr → Expr
  | .literal value => .literal value
  | .group inner => .group inner.unnumbered
  | .unary operator operand => .unary operator operand.unnumbered
  | .binary left operator right => .binary left.unnumbered operator right.unnumbered
  | .logical left operator right => .logical left.unnumbered operator right.unnumbered
  | .variable _ name => .variable 0 name
  | .assign _ name value => .assign 0 name value.unnumbered
  | .call callee paren arguments =>
    .call callee.unnumbered paren (Expr.unnumberedAll arguments)

def Expr.unnumberedAll : List Expr → List Expr
  | [] => []
  | e :: rest => e.unnumbered :: Expr.unnumberedAll rest

end

mutual

/-- The statement with the number zero at all nodes. -/
def Stmt.unnumbered : Stmt → Stmt
  | .expression value => .expression value.unnumbered
  | .print value => .print value.unnumbered
  | .var name initializer => .var name (initializer.map Expr.unnumbered)
  | .block body => .block (Stmt.unnumberedAll body)
  | .ifThen condition thenBranch elseBranch =>
    .ifThen condition.unnumbered thenBranch.unnumbered (Stmt.unnumberedOptional elseBranch)
  | .whileLoop condition body => .whileLoop condition.unnumbered body.unnumbered
  | .forLoop initializer condition increment body =>
    .forLoop (Stmt.unnumberedOptional initializer) (condition.map Expr.unnumbered)
      (increment.map Expr.unnumbered) body.unnumbered
  | .function name params body => .function name params (Stmt.unnumberedAll body)
  | .ret keyword value => .ret keyword (value.map Expr.unnumbered)

def Stmt.unnumberedAll : List Stmt → List Stmt
  | [] => []
  | s :: rest => s.unnumbered :: Stmt.unnumberedAll rest

def Stmt.unnumberedOptional : Option Stmt → Option Stmt
  | none => none
  | some s => some s.unnumbered

end

namespace Stmt

theorem unnumbered_withIncrement (body : Stmt) (increment : Option Expr) :
    (body.withIncrement increment).unnumbered =
      body.unnumbered.withIncrement (increment.map Expr.unnumbered) := by
  cases increment <;> rfl

theorem unnumbered_withInitializer (loop : Stmt) (initializer : Option Stmt) :
    (loop.withInitializer initializer).unnumbered =
      loop.unnumbered.withInitializer (unnumberedOptional initializer) := by
  cases initializer <;> rfl

theorem unnumbered_loopCondition (condition : Option Expr) :
    (loopCondition condition).unnumbered = loopCondition (condition.map Expr.unnumbered) := by
  cases condition <;> rfl

mutual

theorem unnumbered_desugar (s : Stmt) : s.desugar.unnumbered = s.unnumbered.desugar := by
  match s with
  | .expression _ | .print _ | .var _ _ | .ret _ _ => rfl
  | .block body => exact congrArg block (unnumbered_desugarAll body)
  | .ifThen condition thenBranch elseBranch =>
      rw [desugar, unnumbered, unnumbered_desugar thenBranch,
        unnumbered_desugarOptional elseBranch]
      rfl
  | .whileLoop condition body =>
      exact congrArg (whileLoop condition.unnumbered) (unnumbered_desugar body)
  | .forLoop initializer condition increment body =>
      rw [desugar, unnumbered_withInitializer, unnumbered, unnumbered_loopCondition,
        unnumbered_withIncrement, unnumbered_desugar body, unnumbered_desugarOptional initializer]
      rfl
  | .function name params body =>
      exact congrArg (function name params) (unnumbered_desugarAll body)

theorem unnumbered_desugarAll (body : List Stmt) :
    unnumberedAll (desugarAll body) = desugarAll (unnumberedAll body) := by
  match body with
  | [] => rfl
  | s :: rest =>
      rw [desugarAll, unnumberedAll, unnumbered_desugar s, unnumbered_desugarAll rest]
      rfl

theorem unnumbered_desugarOptional (o : Option Stmt) :
    unnumberedOptional (desugarOptional o) = desugarOptional (unnumberedOptional o) := by
  match o with
  | none => rfl
  | some s => exact congrArg some (unnumbered_desugar s)

end

theorem dangling_unnumbered (s : Stmt) : s.unnumbered.dangling = s.dangling := by
  match s with
  | .expression _ | .print _ | .var _ _ | .ret _ _ | .block _ | .function .. => rfl
  | .ifThen _ _ none => rfl
  | .ifThen _ _ (some elseBranch) => exact dangling_unnumbered elseBranch
  | .whileLoop _ body | .forLoop _ _ _ body => exact dangling_unnumbered body

end Stmt

/-! ## One more operator, one more argument list -/

section Reads

variable {w u v : List Token} {i j k : Nat}

namespace Parse

theorem Reads.levelRest_append {l : Level} {rest rest' : List (Token × Expr)}
    (h : Reads (.levelRest l) u i rest j) (h' : Reads (.levelRest l) v j rest' k) :
    Reads (.levelRest l) (u ++ v) i (rest ++ rest') k := by
  induction rest generalizing u i with
  | nil =>
      cases h with
      | levelEnd => exact h'
  | cons r rest ih =>
      cases h with
      | levelMore ho he hr =>
          rw [List.cons_append, List.append_assoc]
          exact .levelMore ho he (ih hr)

theorem Reads.callRest_append {calls calls' : List (List Expr × Token)}
    (h : Reads .callRest u i calls j) (h' : Reads .callRest v j calls' k) :
    Reads .callRest (u ++ v) i (calls ++ calls') k := by
  induction calls generalizing u i with
  | nil =>
      cases h with
      | callEnd => exact h'
  | cons c calls ih =>
      cases h with
      | callMore ht ha hp hc =>
          rw [List.cons_append, List.append_assoc]
          exact .callMore ht ha hp (ih hc)

/-- One more operator goes on top of what has been read of its level. -/
theorem Reads.operator_append {l : Level} {operator : Token} {left right : Expr}
    (hl : Reads (.level l) u i left j) (ho : l.has operator.kind = true)
    (hr : Reads (.operand l) v j right k) :
    Reads (.level l) (u ++ operator :: v) i (l.node left operator right) k := by
  cases hl with
  | @level _ _ _ e rest _ _ _ he hrest =>
      have hmore : Reads (.levelRest l) (operator :: (v ++ [])) _ [(operator, right)] k :=
        .levelMore ho hr .levelEnd
      have htree : l.node (l.build e rest) operator right =
          l.build e (rest ++ [(operator, right)]) := by
        rw [Level.build, Level.build, List.foldl_append]
        rfl
      rw [htree, List.append_assoc, ← List.append_nil v]
      exact .level he (hrest.levelRest_append hmore)

end Parse

/-- What is read at a rank. A call is what is called with argument lists behind it. -/
def Rank.Reads : Rank → List Token → Nat → Expr → Nat → Prop
  | .primary => Parse.Reads .primary
  | .call => fun w i e j => ∃ u v callee calls k, w = u ++ v ∧ e = buildCalls callee calls ∧
      Parse.Reads .primary u i callee k ∧ Parse.Reads .callRest v k calls j
  | .unary => Parse.Reads .unary
  | .level l => Parse.Reads (.level l)
  | .expression => Parse.Reads .expression

/-- One more argument list goes on top of what has been read of a call. -/
theorem Rank.reads_call_append {callee : Expr} {opening paren : Token} {args : List Expr}
    (hc : Rank.call.Reads u i callee j) (ho : opening.kind = .leftParen)
    (ha : Parse.Reads .arguments v j args k) (hp : paren.kind = .rightParen) :
    Rank.call.Reads (u ++ opening :: (v ++ [paren])) i (.call callee paren args) k := by
  obtain ⟨u, r, e, calls, m, rfl, rfl, hprimary, hcalls⟩ := hc
  have hmore : Parse.Reads .callRest (opening :: (v ++ paren :: [])) j [(args, paren)] k :=
    .callMore ho ha hp .callEnd
  refine ⟨u, _, e, calls ++ [(args, paren)], m, List.append_assoc .., ?_, hprimary,
    hcalls.callRest_append hmore⟩
  rw [buildCalls, buildCalls, List.foldl_append]
  rfl

theorem Parse.Reads.operand {l : Level} {e : Expr} (h : l.operandRank.Reads w i e j) :
    Reads (.operand l) w i e j := by
  cases hl : l.tighter? with
  | none =>
      rw [Level.operandRank, hl] at h
      exact .tightest hl h
  | some m =>
      rw [Level.operandRank, hl] at h
      exact .tighter hl h

/-! ## Tight expressions stand where looser ones may -/

/-- The next tighter rank. -/
def Rank.tighter? : Rank → Option Rank
  | .primary => none
  | .call => some .primary
  | .unary => some .call
  | .level l => some l.operandRank
  | .expression => some (.level .disjunction)

theorem Rank.depth_tighter {r s : Rank} (h : s.tighter? = some r) : r.depth + 1 = s.depth := by
  cases s with
  | level l =>
      cases h
      exact l.depth_operandRank
  | _ => cases h <;> rfl

/-- What is read at a rank is read at the next looser one. -/
theorem Rank.Reads.looser {r s : Rank} (h : s.tighter? = some r) {e : Expr}
    (he : r.Reads w i e j) : s.Reads w i e j := by
  cases s with
  | primary => cases h
  | call =>
      cases h
      exact ⟨w, [], e, [], j, (List.append_nil w).symm, rfl, he, .callEnd⟩
  | unary =>
      cases h
      obtain ⟨u, v, callee, calls, k, rfl, rfl, hprimary, hcalls⟩ := he
      exact .call hprimary hcalls
  | level l =>
      cases h
      have hlevel : Parse.Reads (.level l) (w ++ []) i e j := .level (.operand he) .levelEnd
      rwa [List.append_nil] at hlevel
  | expression =>
      cases h
      exact .value he

theorem Rank.eq_of_depth {r s : Rank} (h : r.depth = s.depth) : r = s := by
  cases r with
  | level l =>
      cases s with
      | level m => cases l <;> cases m <;> first | rfl | cases h
      | _ => cases l <;> cases h
  | _ =>
      cases s with
      | level m => cases m <;> cases h
      | _ => first | rfl | cases h

theorem Rank.Reads.loosen {r s : Rank} (hrs : r ≤ s) {e : Expr} (he : r.Reads w i e j) :
    s.Reads w i e j := by
  obtain heq | hlt := Nat.eq_or_lt_of_le (show r.depth ≤ s.depth from hrs)
  · exact Rank.eq_of_depth heq ▸ he
  · cases ht : s.tighter? with
    | none =>
        cases s with
        | primary => exact absurd hlt (Nat.not_lt_zero _)
        | _ => cases ht
    | some t =>
        have hdepth := Rank.depth_tighter ht
        rw [← hdepth] at hlt
        exact .looser ht (Rank.Reads.loosen (Nat.le_of_lt_succ hlt) he)
termination_by s.depth
decreasing_by exact Nat.lt_of_succ_le (Nat.le_of_eq hdepth)

end Reads

/-! ## Expressions are read again -/

theorem Token.constant?_of_kind {t : Token} {value : Literal} (h : t.kind = value.kind) :
    t.constant? = some value := by
  rw [Token.constant?, h]
  cases value with
  | bool value => cases value <;> rfl
  | _ => rfl

/-- From whatever number on, the tokens are read as the expression. -/
def Expr.Again (r : Rank) (w : List Token) (e : Expr) : Prop :=
  ∀ i, ∃ e' j, e'.unnumbered = e.unnumbered ∧ r.Reads w i e' j

section Again

variable {w u v : List Token} {r : Rank} {e : Expr}

theorem Expr.Again.loosen {s : Rank} (hrs : r ≤ s) (h : e.Again r w) : e.Again s w := by
  intro i
  obtain ⟨e', j, he', hreads⟩ := h i
  exact ⟨e', j, he', hreads.loosen hrs⟩

theorem Expr.Again.node {l : Level} {operator : Token} {left right : Expr}
    (hl : left.Again (.level l) u) (ho : l.has operator.kind = true)
    (hr : right.Again l.operandRank v) :
    (l.node left operator right).Again (.level l) (u ++ operator :: v) := by
  intro i
  obtain ⟨left', j, hleft, hreads⟩ := hl i
  obtain ⟨right', k, hright, hreads'⟩ := hr j
  refine ⟨_, k, ?_, Reads.operator_append hreads ho (.operand hreads')⟩
  cases l with
  | disjunction | conjunction =>
      show Expr.logical left'.unnumbered operator right'.unnumbered = _
      rw [hleft, hright]
      rfl
  | equality | comparison | sum | product =>
      show Expr.binary left'.unnumbered operator right'.unnumbered = _
      rw [hleft, hright]
      rfl

end Again

section Spelled

variable (spell : Spelling)

/-- Arguments are read one after the other, as many as there may be. -/
theorem Expr.again_argumentsFrom {args : List Expr} (hne : args ≠ [])
    (h : ∀ e ∈ args, e.Again .expression (e.write spell)) {count : Nat}
    (hcount : count + args.length ≤ maxArity) (i : NodeId) :
    ∃ args' j, Expr.unnumberedAll args' = Expr.unnumberedAll args ∧
      Reads (.argumentsFrom count) (Expr.writeAll spell args) i args' j := by
  induction args generalizing count i with
  | nil => exact absurd rfl hne
  | cons e rest ih =>
      obtain ⟨he, hrest⟩ := List.forall_mem_cons.mp h
      obtain ⟨e', j, he', hreads⟩ := he i
      rw [List.length_cons, Nat.add_comm rest.length, ← Nat.add_assoc] at hcount
      have hlt : count < maxArity := Nat.le_trans (Nat.le_add_right _ _) hcount
      cases rest with
      | nil =>
          refine ⟨[e'], j, congrArg (· :: []) he', ?_⟩
          show Reads (.argumentsFrom count) (e.write spell ++ []) i [e'] j
          rw [List.append_nil]
          exact .lastArgument hlt hreads
      | cons f rest =>
          obtain ⟨rest', k, hrest', hmore⟩ := ih (List.cons_ne_nil _ _) hrest hcount j
          refine ⟨e' :: rest', k, ?_, .moreArguments hlt hreads (spell.kind_token _) hmore⟩
          rw [Expr.unnumberedAll, he', hrest']
          rfl

theorem Expr.again_arguments {args : List Expr}
    (h : ∀ e ∈ args, e.Again .expression (e.write spell)) (hcount : args.length ≤ maxArity)
    (i : NodeId) : ∃ args' j, Expr.unnumberedAll args' = Expr.unnumberedAll args ∧
      Reads .arguments (Expr.writeAll spell args) i args' j := by
  cases args with
  | nil => exact ⟨[], i, rfl, .noArguments⟩
  | cons e rest =>
      have hzero : 0 + (e :: rest).length ≤ maxArity := (Nat.zero_add _).symm ▸ hcount
      obtain ⟨args', j, hargs', hreads⟩ :=
        Expr.again_argumentsFrom spell (List.cons_ne_nil e rest) h hzero i
      exact ⟨args', j, hargs', .someArguments hreads⟩

mutual

/-- What is written for an expression is read as one of its rank. -/
theorem Expr.Within.again {r : Rank} {e : Expr} (h : e.Within r) :
    e.Again r (e.write spell) := by
  match e with
  | .literal value =>
      intro i
      have hreads : Rank.primary.Reads [spell.token value.kind] i (.literal value) i :=
        .constant (Token.constant?_of_kind (spell.kind_token _))
      exact ⟨_, i, rfl, hreads.loosen (Nat.zero_le _)⟩
  | .group inner =>
      intro i
      obtain ⟨e', j, he', hreads⟩ := Expr.Within.again (e := inner) h i
      have hgroup : Rank.primary.Reads ((Expr.group inner).write spell) i (.group e') j :=
        .group (spell.kind_token _) hreads (spell.kind_token _)
      exact ⟨.group e', j, congrArg Expr.group he', hgroup.loosen (Nat.zero_le _)⟩
  | .unary operator operand =>
      intro i
      obtain ⟨hle, ho, hoperand⟩ := h
      obtain ⟨e', j, he', hreads⟩ := hoperand.again i
      have hunary : Rank.unary.Reads (operator :: operand.write spell) i (.unary operator e') j :=
        .operator ho hreads
      exact ⟨.unary operator e', j, congrArg (Expr.unary operator) he', hunary.loosen hle⟩
  | .binary left operator right =>
      obtain ⟨l, hnode, ho, hle, hleft, hright⟩ := h
      have hagain := hleft.again.node ho hright.again
      rw [hnode] at hagain
      exact hagain.loosen hle
  | .logical left operator right =>
      obtain ⟨l, hnode, ho, hle, hleft, hright⟩ := h
      have hagain := hleft.again.node ho hright.again
      rw [hnode] at hagain
      exact hagain.loosen hle
  | .variable id name =>
      intro i
      have hreads : Rank.primary.Reads [name] i (.variable i name) (i + 1) := .name h
      exact ⟨.variable i name, _, rfl, hreads.loosen (Nat.zero_le _)⟩
  | .assign id name value =>
      intro i
      obtain ⟨hle, hname, hvalue⟩ := h
      obtain ⟨e', j, he', hreads⟩ := hvalue.again (i + 1)
      have hassign : Rank.expression.Reads (name :: spell.token .equal :: value.write spell) i
          (.assign j name e') (j + 1) := .assign hname (spell.kind_token _) hreads
      exact ⟨.assign j name e', _, congrArg (Expr.assign 0 name) he', hassign.loosen hle⟩
  | .call callee paren args =>
      intro i
      obtain ⟨hle, hcallee, hparen, hcount, hargs⟩ := h
      obtain ⟨callee', j, hcallee', hreads⟩ := hcallee.again i
      obtain ⟨args', k, hargs', hreads'⟩ :=
        Expr.again_arguments spell (Expr.WithinAll.again hargs) hcount j
      have hcall := Rank.reads_call_append hreads (spell.kind_token .leftParen) hreads' hparen
      refine ⟨.call callee' paren args', k, ?_, hcall.loosen hle⟩
      rw [Expr.unnumbered, hcallee', hargs']
      rfl

theorem Expr.WithinAll.again {es : List Expr} (h : Expr.WithinAll es) :
    ∀ e ∈ es, e.Again .expression (e.write spell) := by
  match es with
  | [] => exact List.forall_mem_nil _
  | e :: rest => exact List.forall_mem_cons.mpr ⟨h.1.again, Expr.WithinAll.again h.2⟩

end

theorem Expr.again_optional {o : Option Expr} (h : Expr.WellFormedOptional o)
    (kind : Token.Kind) (i : NodeId) :
    ∃ o' j, o'.map Expr.unnumbered = o.map Expr.unnumbered ∧
      Reads (.expressionUnless kind) (Expr.writeOptional spell o) i o' j := by
  cases o with
  | none => exact ⟨none, i, rfl, .noExpression⟩
  | some e =>
      obtain ⟨e', j, he', hreads⟩ := (h e rfl).again spell i
      exact ⟨some e', j, congrArg some he', .someExpression hreads⟩

/-! ## Statements are read again -/

theorem reads_paramsFrom {params : List Token} (hne : params ≠ [])
    (h : ∀ t ∈ params, t.kind = .identifier) {count : Nat}
    (hcount : count + params.length ≤ maxArity) (i : NodeId) :
    Reads (.paramsFrom count) (params.intersperse (spell.token .comma)) i params i := by
  induction params generalizing count with
  | nil => exact absurd rfl hne
  | cons t rest ih =>
      obtain ⟨ht, hrest⟩ := List.forall_mem_cons.mp h
      rw [List.length_cons, Nat.add_comm rest.length, ← Nat.add_assoc] at hcount
      have hlt : count < maxArity := Nat.le_trans (Nat.le_add_right _ _) hcount
      cases rest with
      | nil => exact .lastParam hlt ht
      | cons u rest =>
          exact .moreParams hlt ht (spell.kind_token _) (ih (List.cons_ne_nil _ _) hrest hcount)

/-- Parameters with the parenthesis behind them, and the body. -/
theorem reads_function {name : Token} (hname : name.kind = .identifier) {params : List Token}
    (h : ∀ t ∈ params, t.kind = .identifier) (hcount : params.length ≤ maxArity) {w : List Token}
    {body : List Stmt} {i j : NodeId} (hbody : Reads .block w i body j) :
    Reads .function (name :: spell.token .leftParen ::
      (params.intersperse (spell.token .comma) ++ spell.token .rightParen ::
        spell.token .leftBrace :: w)) i (.function name params body) j := by
  cases params with
  | nil =>
      exact .functionBare hname (spell.kind_token _) (spell.kind_token _) (spell.kind_token _) hbody
  | cons t rest =>
      exact .functionParams hname (spell.kind_token _)
        (reads_paramsFrom spell (List.cons_ne_nil t rest) h ((Nat.zero_add _).symm ▸ hcount) i)
        (spell.kind_token _) (spell.kind_token _) hbody

/-- From whatever number on, the tokens are read as the statement. What is no declaration
is read where there may be none. -/
def Stmt.Again (s : Stmt) (w : List Token) : Prop :=
  ∀ i, ∃ s' j, s'.unnumbered = s.unnumbered ∧ (s.plain = true → Reads .statement w i s' j) ∧
    Reads .declared w i s' j

theorem Stmt.again_of_statement {s : Stmt} (s' : Stmt) {w : List Token} {i j : NodeId}
    (hs : s'.unnumbered = s.unnumbered) (h : Reads .statement w i s' j) :
    ∃ s' j, s'.unnumbered = s.unnumbered ∧ (s.plain = true → Reads .statement w i s' j) ∧
      Reads .declared w i s' j :=
  ⟨s', j, hs, fun _ => h, .statementDeclared h⟩

mutual

/-- What is written for a statement is read as one. -/
theorem Stmt.WellFormed.again {s : Stmt} (h : s.WellFormed) : s.Again (s.write spell) := by
  intro i
  match s with
  | .expression value =>
      obtain ⟨e', j, he', hreads⟩ := Expr.Within.again spell h i
      exact again_of_statement (.expression e') (congrArg Stmt.expression he')
        (.statementPlain (.expressionStatement hreads (spell.kind_token _)))
  | .print value =>
      obtain ⟨e', j, he', hreads⟩ := Expr.Within.again spell h i
      exact again_of_statement (.print e') (congrArg Stmt.print he')
        (.statementPrint (spell.kind_token _) (.printStatement hreads (spell.kind_token _)))
  | .var name none =>
      exact ⟨.var name none, i, rfl, nofun,
        .varDeclared (spell.kind_token _) (.varBare h.1 (spell.kind_token _))⟩
  | .var name (some value) =>
      obtain ⟨e', j, he', hreads⟩ := (h.2 value rfl).again spell i
      exact ⟨.var name (some e'), j, congrArg (fun e => Stmt.var name (some e)) he', nofun,
        .varDeclared (spell.kind_token _)
          (.varValue h.1 (spell.kind_token _) hreads (spell.kind_token _))⟩
  | .block body =>
      have hbody : Stmt.WellFormedAll body := h
      obtain ⟨body', j, hbody', hreads⟩ := Stmt.WellFormedAll.again hbody true i
      exact again_of_statement (.block body') (congrArg Stmt.block hbody')
        (.statementBlock (spell.kind_token _) (.block hreads (spell.kind_token _)))
  | .ifThen condition thenBranch none =>
      obtain ⟨c', j, hc', hreads⟩ := Expr.Within.again spell h.1 i
      obtain ⟨t', k, ht', hthen, -⟩ := h.2.1.2.again j
      refine again_of_statement (.ifThen c' t' none) (j := k) ?_ ?_
      · rw [Stmt.unnumbered, hc', ht']
        rfl
      · rw [Stmt.write, Stmt.writeElse, List.append_nil]
        exact .statementIf (spell.kind_token _) (.ifBare (spell.kind_token _) hreads
          (spell.kind_token _) (hthen h.2.1.1))
  | .ifThen condition thenBranch (some elseBranch) =>
      obtain ⟨hcondition, ⟨hplain, hthen⟩, hdangling, hplain', helse⟩ := h
      obtain ⟨c', j, hc', hreads⟩ := Expr.Within.again spell hcondition i
      obtain ⟨t', k, ht', hreads₁, -⟩ := hthen.again j
      obtain ⟨e', m, he', hreads₂, -⟩ := helse.again k
      refine again_of_statement (.ifThen c' t' (some e')) (j := m) ?_ ?_
      · rw [Stmt.unnumbered, Stmt.unnumberedOptional, hc', ht', he']
        rfl
      · refine .statementIf (spell.kind_token _) (.ifElse (spell.kind_token _) hreads
          (spell.kind_token _) (hreads₁ hplain) ?_ (spell.kind_token _) (hreads₂ hplain'))
        rw [← dangling_unnumbered, ht', dangling_unnumbered]
        exact hdangling rfl
  | .whileLoop condition body =>
      obtain ⟨c', j, hc', hreads⟩ := Expr.Within.again spell h.1 i
      obtain ⟨b', k, hb', hbody, -⟩ := h.2.2.again j
      refine again_of_statement (.whileLoop c' b') (j := k) ?_ ?_
      · rw [Stmt.unnumbered, hc', hb']
        rfl
      · exact .statementWhile (spell.kind_token _) (.whileStatement (spell.kind_token _) hreads
          (spell.kind_token _) (hbody h.2.1))
  | .forLoop .. => exact absurd h id
  | .function name params body =>
      obtain ⟨hname, hparams, hcount, hbody⟩ := h
      obtain ⟨body', j, hbody', hreads⟩ := Stmt.WellFormedAll.again hbody true i
      exact ⟨.function name params body', j, congrArg (Stmt.function name params) hbody', nofun,
        .functionDeclared (spell.kind_token _) (reads_function spell hname hparams hcount
          (.block hreads (spell.kind_token _)))⟩
  | .ret keyword value =>
      obtain ⟨o', j, ho', hreads⟩ := Expr.again_optional spell h.2 .semicolon i
      exact again_of_statement (.ret keyword o') (congrArg (Stmt.ret keyword) ho')
        (.statementReturn h.1 (.returnStatement hreads (spell.kind_token _)))

theorem Stmt.WellFormedAll.again {body : List Stmt} (h : Stmt.WellFormedAll body)
    (inBlock : Bool) (i : NodeId) : ∃ body' j,
      Stmt.unnumberedAll body' = Stmt.unnumberedAll body ∧
        Reads (.declarations inBlock) (Stmt.writeAll spell body) i body' j := by
  match body with
  | [] => exact ⟨[], i, rfl, .declarationsEnd⟩
  | s :: rest =>
      obtain ⟨s', j, hs', -, hreads⟩ := h.1.again i
      obtain ⟨rest', k, hrest', hreads'⟩ := Stmt.WellFormedAll.again h.2 inBlock j
      refine ⟨s' :: rest', k, ?_, .declarationsMore (.declaration hreads) hreads'⟩
      rw [Stmt.unnumberedAll, hs', hrest']
      rfl

end

end Spelled

/-! ## No mark of the end among what is read -/

theorem Parse.Level.not_has_eof (l : Level) : ¬ l.has .eof = true := by
  cases l <;> decide

theorem Parse.Reads.kind_ne_eof {p : Phrase} {w : List Token} {i j : Nat} {a : p.Tree}
    (h : Reads p w i a j) : ∀ t ∈ w, t.kind ≠ .eof := by
  induction h with
  | @levelMore l operator _ _ _ _ _ _ _ ho _ _ ih ih' =>
      have hop : operator.kind ≠ .eof := fun hk => l.not_has_eof (hk ▸ ho)
      exact List.forall_mem_cons.mpr ⟨hop, List.forall_mem_append.mpr ⟨ih, ih'⟩⟩
  | constant ht =>
      refine List.forall_mem_singleton.mpr fun hk => ?_
      rw [Token.constant?, hk] at ht
      cases ht
  | operator ht _ ih =>
      exact List.forall_mem_cons.mpr ⟨fun hk => absurd (hk ▸ ht) (by decide), ih⟩
  | _ => simp_all [or_imp]

theorem Parsed.readable_writeProgram {spell : Spelling} {body : List Stmt}
    (h : ∀ t ∈ Stmt.writeAll spell body, t.kind ≠ .eof) :
    Parsed.readable (Stmt.writeProgram spell body) = Stmt.writeAll spell body := by
  rw [Parsed.readable, Stmt.writeProgram, List.takeWhile_append_of_pos fun t ht =>
    decide_eq_true (h t ht), List.takeWhile_cons_of_neg, List.append_nil]
  simp [spell.kind_token]

/-- Reading undoes writing: a program that the grammar has is read without a fault from
the tokens that it is written as, with nothing changed but the numbers of its nodes; and
whatever is read without a fault is a program that the grammar has. -/
theorem Parsed.ofTokens_write (spell : Spelling) :
    (∀ body, Stmt.WellFormedAll body → ∀ firstId, ∃ body' nextId,
      (ofTokens (Stmt.writeProgram spell body) firstId).desugar = ⟨body', [], nextId⟩ ∧
        Stmt.unnumberedAll body' = Stmt.unnumberedAll body) ∧
    ∀ tokens firstId, (ofTokens tokens firstId).faults = [] →
      Stmt.WellFormedAll (ofTokens tokens firstId).desugar.statements := by
  constructor
  · intro body h firstId
    obtain ⟨body', j, hbody', hreads⟩ := h.again spell false firstId
    rw [← readable_writeProgram hreads.kind_ne_eof, ← ofTokens_iff_reads] at hreads
    refine ⟨Stmt.desugarAll body', j, by rw [hreads]; rfl, ?_⟩
    rw [Stmt.unnumbered_desugarAll, hbody', ← Stmt.unnumbered_desugarAll, h.desugarAll]
  · intro tokens firstId hfaults
    obtain ⟨body, j, hreads⟩ := (faults_eq_nil_iff tokens firstId).mp hfaults
    rw [(ofTokens_iff_reads tokens firstId body j).mpr hreads]
    exact hreads.wellFormed

/-- A loop that was read and written out is read again as it is run. -/
theorem Parsed.loop_read_again :
    let spell : Spelling := ⟨fun kind => ⟨kind, kind.name, 1⟩, fun _ => rfl⟩
    let tokens := Token.tokens (Token.scan
      "for (var a = nil; a or !a(a)(); a = -a) if (a) \x7b\x7d else return \"b\" == a;")
    let program := (ofTokens tokens 0).desugar.statements
    (ofTokens tokens 0).faults = [] ∧ Stmt.WellFormedAll program ∧ ∃ body' nextId,
      (ofTokens (Stmt.writeProgram spell program) 7).desugar = ⟨body', [], nextId⟩ ∧
        Stmt.unnumberedAll body' = Stmt.unnumberedAll program := by
  intro spell tokens program
  have hfaults : (ofTokens tokens 0).faults = [] := by decide +kernel
  have hprogram := (ofTokens_write spell).2 tokens 0 hfaults
  exact ⟨hfaults, hprogram, (ofTokens_write spell).1 program hprogram 7⟩

end Lox
