import Lox.Proofs.Dump.Trees
import Lox.Proofs.Parser.Parts

/-!
# Trees recovered from their dumps

From a tree of words the tree that was dumped can be made again, as far as its words tell: the
first word in parentheses says which construct it is, and where that word is an operator the
number of its operands does. The tree made is the essence of the dumped one, if the tokens that
were dumped are words of their kinds.
-/

namespace Lox

open Parse
open Bracketed (word list Word)

/-! ## What the words tell -/

mutual

/-- The expression without node numbers and lines. -/
def Expr.essence : Expr → Expr
  | .literal value => .literal value
  | .group inner => .group inner.essence
  | .unary operator operand => .unary operator.placeless operand.essence
  | .binary left operator right => .binary left.essence operator.placeless right.essence
  | .logical left operator right => .logical left.essence operator.placeless right.essence
  | .variable _ name => .variable 0 name.placeless
  | .assign _ name value => .assign 0 name.placeless value.essence
  | .call callee paren arguments =>
    .call callee.essence paren.placeless (Expr.essenceAll arguments)

def Expr.essenceAll : List Expr → List Expr
  | [] => []
  | e :: rest => e.essence :: Expr.essenceAll rest

end

/-- A value that was left out is `nil`. -/
def Expr.essenceOptional : Option Expr → Expr
  | none => .literal .nil
  | some e => e.essence

mutual

/-- The statement without node numbers and lines, all its values written. -/
def Stmt.essence : Stmt → Stmt
  | .expression value => .expression value.essence
  | .print value => .print value.essence
  | .var name initializer => .var name.placeless (some (Expr.essenceOptional initializer))
  | .block body => .block (Stmt.essenceAll body)
  | .ifThen condition thenBranch elseBranch =>
    .ifThen condition.essence thenBranch.essence (Stmt.essenceOptional elseBranch)
  | .whileLoop condition body => .whileLoop condition.essence body.essence
  | .forLoop initializer condition increment body =>
    .forLoop (Stmt.essenceOptional initializer) (condition.map Expr.essence)
      (increment.map Expr.essence) body.essence
  | .function name params body =>
    .function name.placeless (params.map Token.placeless) (Stmt.essenceAll body)
  | .ret keyword value => .ret keyword.placeless (some (Expr.essenceOptional value))

def Stmt.essenceAll : List Stmt → List Stmt
  | [] => []
  | s :: rest => s.essence :: Stmt.essenceAll rest

def Stmt.essenceOptional : Option Stmt → Option Stmt
  | none => none
  | some s => some s.essence

end

/-! ## Reading the words -/

/-- The construct that a word names. -/
def Construct.of? (t : Token) : Option Construct :=
  [group, assign, call, expression, print, var, block, ifThen, whileLoop, function, ret].find?
    (·.token = t)

namespace Bracketed

/-- The parenthesis at the end of a call. -/
def closing : Token := ⟨.rightParen, ")", 0⟩

/-- What stands for words that no dump has. -/
def noExpr : Expr := .literal .nil

/-- The expression of a first word and what follows it, whose own expressions are given. -/
def exprOf (head : Token) (parts : List Bracketed) (read : List Expr) : Expr :=
  match Construct.of? head, parts, read with
  | some .group, _, [inner] => .group inner
  | some .assign, [word name, _], [_, value] => .assign 0 name value
  | some .call, _, callee :: arguments => .call callee closing arguments
  | none, _, [operand] => .unary head operand
  | none, _, [left, right] =>
    if head.kind = .kwAnd ∨ head.kind = .kwOr then .logical left head right
    else .binary left head right
  | _, _, _ => noExpr

mutual

/-- The expression that was dumped. -/
def expr : Bracketed → Expr
  | .word t =>
    match t.constant? with
    | some value => .literal value
    | none => .variable 0 t
  | .list (.word head :: parts) => exprOf head parts (exprs parts)
  | .list _ => noExpr

def exprs : List Bracketed → List Expr
  | [] => []
  | x :: rest => x.expr :: exprs rest

end

/-- What stands for words that no dump has. -/
def noStmt : Stmt := .block []

/-- The name in a word. -/
def token : Bracketed → Token
  | .word t => t
  | .list _ => closing

/-- A statement is never a single word. -/
def elseOf : Bracketed → Stmt → Option Stmt
  | .word _, _ => none
  | .list _, s => some s

/-- The statement of a first word and what follows it, whose own statements are given. -/
def stmtOf (head : Token) (parts : List Bracketed) (read : List Stmt) : Stmt :=
  match Construct.of? head, parts, read with
  | some .expression, [value], _ => .expression value.expr
  | some .print, [value], _ => .print value.expr
  | some .var, [name, initializer], _ => .var name.token (some initializer.expr)
  | some .block, _, body => .block body
  | some .ifThen, [condition, _, last], [_, thenBranch, elseBranch] =>
    .ifThen condition.expr thenBranch (elseOf last elseBranch)
  | some .whileLoop, [condition, _], [_, body] => .whileLoop condition.expr body
  | some .function, name :: list params :: _, _ :: _ :: body =>
    .function name.token (params.map token) body
  | some .ret, [value], _ => .ret head (some value.expr)
  | _, _, _ => noStmt

mutual

/-- The statement that was dumped. -/
def stmt : Bracketed → Stmt
  | .list (.word head :: parts) => stmtOf head parts (stmts parts)
  | _ => noStmt

def stmts : List Bracketed → List Stmt
  | [] => []
  | x :: rest => x.stmt :: stmts rest

end

end Bracketed

/-! ## Trees whose tokens are words -/

/-- A token whose text is a word of its kind. -/
def Token.Spelled (t : Token) : Prop := Word t.placeless

mutual

/-- All tokens and constants of the expression are words, and its operators are of their kinds. -/
def Expr.Spelled : Expr → Prop
  | .literal value => Word value.token
  | .group inner => inner.Spelled
  | .unary operator operand =>
    isUnary operator.kind = true ∧ operator.Spelled ∧ operand.Spelled
  | .binary left operator right =>
    operator.kind ∈ Token.Kind.binary ∧ operator.Spelled ∧ left.Spelled ∧ right.Spelled
  | .logical left operator right =>
    (operator.kind = .kwAnd ∨ operator.kind = .kwOr) ∧ operator.Spelled ∧
      left.Spelled ∧ right.Spelled
  | .variable _ name => name.kind = .identifier ∧ name.Spelled
  | .assign _ name value => name.Spelled ∧ value.Spelled
  | .call callee paren arguments =>
    paren.placeless = Bracketed.closing ∧ callee.Spelled ∧ Expr.SpelledAll arguments

def Expr.SpelledAll : List Expr → Prop
  | [] => True
  | e :: rest => e.Spelled ∧ Expr.SpelledAll rest

end

def Expr.SpelledOptional : Option Expr → Prop
  | none => True
  | some e => e.Spelled

mutual

/-- The same of a statement as it is run. -/
def Stmt.Spelled : Stmt → Prop
  | .expression value | .print value => value.Spelled
  | .var name initializer => name.Spelled ∧ Expr.SpelledOptional initializer
  | .block body => Stmt.SpelledAll body
  | .ifThen condition thenBranch elseBranch =>
    condition.Spelled ∧ thenBranch.Spelled ∧ Stmt.SpelledOptional elseBranch
  | .whileLoop condition body => condition.Spelled ∧ body.Spelled
  | .forLoop .. => False
  | .function name params body =>
    name.Spelled ∧ (∀ t ∈ params, t.Spelled) ∧ Stmt.SpelledAll body
  | .ret keyword value =>
    keyword.placeless = Construct.ret.token ∧ Expr.SpelledOptional value

def Stmt.SpelledAll : List Stmt → Prop
  | [] => True
  | s :: rest => s.Spelled ∧ Stmt.SpelledAll rest

def Stmt.SpelledOptional : Option Stmt → Prop
  | none => True
  | some s => s.Spelled

end

/-! ## The words of a construct -/

namespace Construct

@[simp] theorem of?_token (c : Construct) : of? c.token = some c := by
  cases c <;> decide

theorem word_token (c : Construct) : Word c.token where
  lexeme := by
    have hword : Token.IsWord c.name.toList :=
      Token.isWord_of_isAlpha (by cases c <;> decide) (by cases c <;> decide)
    have hlexeme := Token.lexeme_of_isWord hword
    rwa [String.ofList_toList] at hlexeme
  unbroken := Bracketed.unbroken_of_all (by cases c <;> decide)
  line := rfl

theorem of?_eq_none {t : Token} (h : ∀ c : Construct, t.kind ≠ c.token.kind) : of? t = none := by
  refine List.find?_eq_none.mpr fun c _ htoken => h c ?_
  rw [of_decide_eq_true htoken]

/-- The operators name no construct. -/
theorem of?_unary {t : Token} (h : isUnary t.kind = true) : of? t = none := by
  refine of?_eq_none fun c hkind => ?_
  rw [hkind] at h
  cases c <;> exact absurd h (by decide)

theorem of?_binary {t : Token} (h : t.kind ∈ Token.Kind.binary) : of? t = none := by
  refine of?_eq_none fun c hkind => ?_
  rw [hkind] at h
  cases c <;> exact absurd h (by decide)

theorem of?_logical {t : Token} (h : t.kind = .kwAnd ∨ t.kind = .kwOr) : of? t = none := by
  refine of?_eq_none fun c hkind => ?_
  rw [hkind] at h
  cases c <;> exact absurd h (by decide)

end Construct

/-! ## Reading what was written -/

@[simp] theorem Token.kind_placeless (t : Token) : t.placeless.kind = t.kind := rfl

@[simp] theorem Literal.constant?_token (value : Literal) : value.token.constant? = some value :=
  Token.constant?_of_kind rfl

mutual

theorem Expr.expr_bracketed {e : Expr} (h : e.Spelled) : e.bracketed.expr = e.essence := by
  match e with
  | .literal value => simp [bracketed, Bracketed.expr, essence]
  | .group inner =>
      simp [bracketed, Bracketed.expr, Bracketed.exprs, Bracketed.exprOf, essence,
        expr_bracketed (e := inner) h]
  | .unary operator operand =>
      have hof := Construct.of?_unary (t := operator.placeless) h.1
      simp [bracketed, Bracketed.expr, Bracketed.exprs, Bracketed.exprOf, essence, hof,
        expr_bracketed (e := operand) h.2.2]
  | .binary left operator right =>
      have hof := Construct.of?_binary (t := operator.placeless) h.1
      have hnot : ¬ (operator.kind = .kwAnd ∨ operator.kind = .kwOr) := by
        have hkind := h.1
        rintro (heq | heq) <;> rw [heq] at hkind <;> exact absurd hkind (by decide)
      simp [bracketed, Bracketed.expr, Bracketed.exprs, Bracketed.exprOf, essence, hof, hnot,
        expr_bracketed (e := left) h.2.2.1, expr_bracketed (e := right) h.2.2.2]
  | .logical left operator right =>
      have hof := Construct.of?_logical (t := operator.placeless) h.1
      simp [bracketed, Bracketed.expr, Bracketed.exprs, Bracketed.exprOf, essence, hof, h.1,
        expr_bracketed (e := left) h.2.2.1, expr_bracketed (e := right) h.2.2.2]
  | .variable _ name =>
      have hconstant : name.placeless.constant? = none := by
        rw [Token.constant?, Token.kind_placeless, h.1]
      simp [bracketed, Bracketed.expr, essence, hconstant]
  | .assign _ name value =>
      simp [bracketed, Bracketed.expr, Bracketed.exprs, Bracketed.exprOf, essence,
        expr_bracketed (e := value) h.2]
  | .call callee paren arguments =>
      have harguments : SpelledAll arguments := h.2.2
      simp [bracketed, Bracketed.expr, Bracketed.exprs, Bracketed.exprOf, essence, h.1,
        expr_bracketed (e := callee) h.2.1, exprs_bracketedAll harguments]

theorem Expr.exprs_bracketedAll {es : List Expr} (h : SpelledAll es) :
    Bracketed.exprs (bracketedAll es) = essenceAll es := by
  match es with
  | [] => rfl
  | e :: rest =>
      rw [bracketedAll, Bracketed.exprs, expr_bracketed h.1, exprs_bracketedAll h.2, essenceAll]

end

theorem Expr.expr_bracketedOptional {o : Option Expr} (h : SpelledOptional o) :
    (bracketedOptional o).expr = essenceOptional o := by
  cases o with
  | none => rfl
  | some e => exact expr_bracketed h

theorem Bracketed.stmt_function (name : Token) (params : List Token) (body : List Bracketed) :
    (list (word Construct.function.token :: word name.placeless ::
        list (params.map fun t => word t.placeless) :: body)).stmt =
      .function name.placeless (params.map Token.placeless) (stmts body) := by
  simp [stmt, stmts, stmtOf, token, Function.comp_def]

theorem Stmt.bracketed_eq_list {s : Stmt} (h : s.Spelled) :
    ∃ parts, s.bracketed = list parts := by
  cases s with
  | forLoop => exact absurd h id
  | _ => exact ⟨_, by rw [bracketed]⟩

mutual

theorem Stmt.stmt_bracketed {s : Stmt} (h : s.Spelled) : s.bracketed.stmt = s.essence := by
  match s with
  | .expression _ | .print _ =>
      simp [bracketed, Bracketed.stmt, Bracketed.stmtOf, essence, Expr.expr_bracketed h]
  | .var name initializer =>
      simp [bracketed, Bracketed.stmt, Bracketed.stmtOf, Bracketed.token, essence,
        Expr.expr_bracketedOptional h.2]
  | .block body =>
      simp [bracketed, Bracketed.stmt, Bracketed.stmtOf, essence, stmts_bracketedAll h]
  | .ifThen condition thenBranch elseBranch =>
      simp [bracketed, Bracketed.stmt, Bracketed.stmts, Bracketed.stmtOf, essence,
        Expr.expr_bracketed h.1, stmt_bracketed h.2.1, elseOf_bracketedOptional h.2.2]
  | .whileLoop condition body =>
      simp [bracketed, Bracketed.stmt, Bracketed.stmts, Bracketed.stmtOf, essence,
        Expr.expr_bracketed h.1, stmt_bracketed h.2]
  | .forLoop .. => exact absurd h id
  | .function name params body =>
      rw [bracketed, Bracketed.stmt_function, stmts_bracketedAll h.2.2, essence]
  | .ret keyword value =>
      simp [bracketed, Bracketed.stmt, Bracketed.stmtOf, essence, h.1,
        Expr.expr_bracketedOptional h.2]

theorem Stmt.stmts_bracketedAll {body : List Stmt} (h : SpelledAll body) :
    Bracketed.stmts (bracketedAll body) = essenceAll body := by
  match body with
  | [] => rfl
  | s :: rest =>
      rw [bracketedAll, Bracketed.stmts, stmt_bracketed h.1, stmts_bracketedAll h.2, essenceAll]

theorem Stmt.elseOf_bracketedOptional {o : Option Stmt} (h : SpelledOptional o) :
    Bracketed.elseOf (bracketedOptional o) (bracketedOptional o).stmt = essenceOptional o := by
  match o with
  | none => rfl
  | some s =>
      obtain ⟨parts, hparts⟩ := bracketed_eq_list (s := s) h
      have hread := stmt_bracketed (s := s) h
      rw [bracketedOptional, essenceOptional, ← hread, hparts, Bracketed.elseOf]

end

/-! ## One dump, one essence -/

theorem Literal.word_nil : Word Literal.nil.token where
  lexeme := .keyword (by decide)
  unbroken := Bracketed.unbroken_of_all (by decide)
  line := rfl

theorem Literal.word_bool (value : Bool) : Word (Literal.bool value).token where
  lexeme := by cases value <;> exact .keyword (by decide)
  unbroken := Bracketed.unbroken_of_all (by cases value <;> decide)
  line := rfl

mutual

theorem Expr.worded (e : Expr) (h : e.Spelled) : e.bracketed.Worded := by
  match e with
  | .literal _ => exact h
  | .group inner => exact ⟨Construct.word_token _, worded inner h, trivial⟩
  | .unary _ operand => exact ⟨h.2.1, worded operand h.2.2, trivial⟩
  | .binary left _ right | .logical left _ right =>
      exact ⟨h.2.1, worded left h.2.2.1, worded right h.2.2.2, trivial⟩
  | .variable _ _ => exact h.2
  | .assign _ _ value => exact ⟨Construct.word_token _, h.1, worded value h.2, trivial⟩
  | .call callee _ arguments =>
      exact ⟨Construct.word_token _, worded callee h.2.1, wordedAll arguments h.2.2⟩

theorem Expr.wordedAll (es : List Expr) (h : SpelledAll es) :
    Bracketed.WordedAll (bracketedAll es) := by
  match es with
  | [] => trivial
  | e :: rest => exact ⟨worded e h.1, wordedAll rest h.2⟩

end

theorem Expr.wordedOptional {o : Option Expr} (h : SpelledOptional o) :
    (bracketedOptional o).Worded := by
  cases o with
  | none => exact Literal.word_nil
  | some e => exact worded e h

theorem Token.worded_names {ts : List Token} (h : ∀ t ∈ ts, t.Spelled) :
    Bracketed.WordedAll (ts.map fun t => word t.placeless) := by
  induction ts with
  | nil => trivial
  | cons t ts ih =>
      obtain ⟨ht, hts⟩ := List.forall_mem_cons.mp h
      exact ⟨ht, ih hts⟩

mutual

theorem Stmt.worded (s : Stmt) (h : s.Spelled) : s.bracketed.Worded := by
  match s with
  | .expression value | .print value =>
      exact ⟨Construct.word_token _, Expr.worded value h, trivial⟩
  | .var _ _ => exact ⟨Construct.word_token _, h.1, Expr.wordedOptional h.2, trivial⟩
  | .block body => exact ⟨Construct.word_token _, wordedAll body h⟩
  | .ifThen condition thenBranch elseBranch =>
      exact ⟨Construct.word_token _, Expr.worded condition h.1, worded thenBranch h.2.1,
        wordedOptional elseBranch h.2.2, trivial⟩
  | .whileLoop condition body =>
      exact ⟨Construct.word_token _, Expr.worded condition h.1, worded body h.2, trivial⟩
  | .forLoop .. => exact absurd h id
  | .function _ _ body =>
      exact ⟨Construct.word_token _, h.1, Token.worded_names h.2.1, wordedAll body h.2.2⟩
  | .ret _ _ => exact ⟨Construct.word_token _, Expr.wordedOptional h.2, trivial⟩

theorem Stmt.wordedAll (body : List Stmt) (h : SpelledAll body) :
    Bracketed.WordedAll (bracketedAll body) := by
  match body with
  | [] => trivial
  | s :: rest => exact ⟨worded s h.1, wordedAll rest h.2⟩

theorem Stmt.wordedOptional (o : Option Stmt) (h : SpelledOptional o) :
    (bracketedOptional o).Worded := by
  match o with
  | none => exact Literal.word_nil
  | some s => exact worded s h

end

/-! The essence is all that the dump depends on. -/

mutual

theorem Expr.bracketed_essence (e : Expr) : e.essence.bracketed = e.bracketed := by
  match e with
  | .literal _ | .variable _ _ => rfl
  | .group inner => rw [essence, bracketed, bracketed, bracketed_essence inner]
  | .unary _ operand =>
      rw [essence, bracketed, bracketed, bracketed_essence operand]
      rfl
  | .binary left _ right | .logical left _ right =>
      rw [essence, bracketed, bracketed, bracketed_essence left, bracketed_essence right]
      rfl
  | .assign _ _ value =>
      rw [essence, bracketed, bracketed, bracketed_essence value]
      rfl
  | .call callee _ arguments =>
      rw [essence, bracketed, bracketed, bracketed_essence callee,
        bracketedAll_essenceAll arguments]

theorem Expr.bracketedAll_essenceAll (es : List Expr) :
    bracketedAll (essenceAll es) = bracketedAll es := by
  match es with
  | [] => rfl
  | e :: rest =>
      rw [essenceAll, bracketedAll, bracketedAll, bracketed_essence e,
        bracketedAll_essenceAll rest]

end

theorem Expr.bracketed_essenceOptional (o : Option Expr) :
    (essenceOptional o).bracketed = bracketedOptional o := by
  cases o with
  | none => rfl
  | some e => exact e.bracketed_essence

mutual

theorem Stmt.bracketed_essence (s : Stmt) : s.essence.bracketed = s.bracketed := by
  match s with
  | .expression _ | .print _ => rw [essence, bracketed, bracketed, Expr.bracketed_essence]
  | .var _ _ =>
      rw [essence, bracketed, bracketed, Expr.bracketedOptional, Expr.bracketed_essenceOptional]
      rfl
  | .ret _ _ =>
      rw [essence, bracketed, bracketed, Expr.bracketedOptional, Expr.bracketed_essenceOptional]
  | .block body => rw [essence, bracketed, bracketed, bracketedAll_essenceAll body]
  | .ifThen _ thenBranch elseBranch =>
      rw [essence, bracketed, bracketed, Expr.bracketed_essence, bracketed_essence thenBranch,
        bracketedOptional_essenceOptional elseBranch]
  | .whileLoop _ body =>
      rw [essence, bracketed, bracketed, Expr.bracketed_essence, bracketed_essence body]
  | .forLoop initializer condition increment body =>
      match initializer, condition, increment with
      | none, none, none | none, none, some _ | none, some _, none | none, some _, some _ =>
          simp [essence, essenceOptional, bracketed, Expr.bracketed_essence,
            bracketed_essence body]
      | some first, none, none | some first, none, some _ | some first, some _, none
      | some first, some _, some _ =>
          simp [essence, essenceOptional, bracketed, Expr.bracketed_essence,
            bracketed_essence body, bracketed_essence first]
  | .function _ _ body =>
      rw [essence, bracketed, bracketed, bracketedAll_essenceAll body, List.map_map]
      rfl

theorem Stmt.bracketedAll_essenceAll (body : List Stmt) :
    bracketedAll (essenceAll body) = bracketedAll body := by
  match body with
  | [] => rfl
  | s :: rest =>
      rw [essenceAll, bracketedAll, bracketedAll, bracketed_essence s,
        bracketedAll_essenceAll rest]

theorem Stmt.bracketedOptional_essenceOptional (o : Option Stmt) :
    bracketedOptional (essenceOptional o) = bracketedOptional o := by
  match o with
  | none => rfl
  | some s => exact bracketed_essence s

end

/-- Statements have the same dump just if they have the same essence. -/
theorem Stmt.dumpAll_eq_iff {body body' : List Stmt} (h : SpelledAll body)
    (h' : SpelledAll body') :
    dumpAll body = dumpAll body' ↔ essenceAll body = essenceAll body' := by
  constructor
  · intro heq
    have htext : (bracketedAll body).map Bracketed.text =
        (bracketedAll body').map Bracketed.text := by
      rw [← map_toList_dumpAll, heq, map_toList_dumpAll]
    have hbracketed := Bracketed.eq_of_map_text (wordedAll body h) (wordedAll body' h') htext
    rw [← stmts_bracketedAll h, hbracketed, stmts_bracketedAll h']
  · intro heq
    have htext : (dumpAll body).map String.toList = (dumpAll body').map String.toList := by
      rw [map_toList_dumpAll, map_toList_dumpAll, ← bracketedAll_essenceAll, heq,
        bracketedAll_essenceAll]
    exact (List.map_inj_right fun _ _ => String.toList_inj.mp).mp htext

end Lox
