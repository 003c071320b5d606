import Lox.Proofs.Parser.Order
import Lox.Proofs.Parser.Shape

/-!
# The parts of what is read

The parts of a tree are its expressions and statements, the bodies of its functions
included. A part is executable if the evaluator has a rule for it: its operator is one of
those that are known, and no declaration stands alone below a condition, where it would
declare a name or not as the condition turns out.

The grammar has nothing else to offer. What the parser is at when a token is wrong is
thrown away whole, so that this holds of every program that is read, in order or not.
-/

namespace Lox

inductive Part
  | expression (e : Expr)
  | statement (s : Stmt)

mutual

/-- The expressions in an expression, itself the first. -/
def Expr.parts : Expr → List Part
  | .literal value => [.expression (.literal value)]
  | .group inner => .expression (.group inner) :: inner.parts
  | .unary operator operand => .expression (.unary operator operand) :: operand.parts
  | .binary left operator right =>
    .expression (.binary left operator right) :: (left.parts ++ right.parts)
  | .logical left operator right =>
    .expression (.logical left operator right) :: (left.parts ++ right.parts)
  | .variable id name => [.expression (.variable id name)]
  | .assign id name value => .expression (.assign id name value) :: value.parts
  | .call callee paren arguments =>
    .expression (.call callee paren arguments) :: (callee.parts ++ Expr.partsAll arguments)

def Expr.partsAll : List Expr → List Part
  | [] => []
  | e :: rest => e.parts ++ Expr.partsAll rest

end

def Expr.partsOptional : Option Expr → List Part
  | none => []
  | some e => e.parts

mutual

/-- The statements and expressions in a statement, itself the first. -/
def Stmt.parts : Stmt → List Part
  | .expression value => .statement (.expression value) :: value.parts
  | .print value => .statement (.print value) :: value.parts
  | .var name initializer => .statement (.var name initializer) :: Expr.partsOptional initializer
  | .block body => .statement (.block body) :: Stmt.partsAll body
  | .ifThen condition thenBranch elseBranch =>
    .statement (.ifThen condition thenBranch elseBranch) ::
      (condition.parts ++ (thenBranch.parts ++ Stmt.partsOptional elseBranch))
  | .whileLoop condition body =>
    .statement (.whileLoop condition body) :: (condition.parts ++ body.parts)
  | .forLoop initializer condition increment body =>
    .statement (.forLoop initializer condition increment body) ::
      (Stmt.partsOptional initializer ++ (Expr.partsOptional condition ++
        (Expr.partsOptional increment ++ body.parts)))
  | .function name params body => .statement (.function name params body) :: Stmt.partsAll body
  | .ret keyword value => .statement (.ret keyword value) :: Expr.partsOptional value

def Stmt.partsAll : List Stmt → List Part
  | [] => []
  | s :: rest => s.parts ++ Stmt.partsAll rest

def Stmt.partsOptional : Option Stmt → List Part
  | none => []
  | some s => s.parts

end

/-! ## The parts of a part -/

def Part.parts : Part → List Part
  | expression e => e.parts
  | statement s => s.parts

/-- The parts of all of the parts are among them. -/
def Part.Closed (parts : List Part) : Prop := ∀ part ∈ parts, part.parts ⊆ parts

namespace Part.Closed

variable {part : Part} {parts parts' : List Part}

theorem nil : Closed [] := fun _ h => nomatch h

theorem append (h : Closed parts) (h' : Closed parts') : Closed (parts ++ parts') := by
  intro part hmem
  rcases List.mem_append.mp hmem with hmem | hmem
  · exact List.Subset.trans (h part hmem) (List.subset_append_left ..)
  · exact List.Subset.trans (h' part hmem) (List.subset_append_right ..)

/-- A tree has itself and the parts of its subtrees. -/
theorem cons (hself : part.parts = part :: parts) (h : Closed parts) : Closed (part :: parts) := by
  intro part' hmem
  rcases List.mem_cons.mp hmem with rfl | hmem
  · exact hself ▸ List.Subset.refl _
  · exact List.Subset.trans (h part' hmem) (List.subset_cons_self ..)

end Part.Closed

mutual

theorem Expr.closed_parts (e : Expr) : Part.Closed e.parts := by
  match e with
  | .literal _ | .variable _ _ => exact .cons rfl .nil
  | .group inner => exact .cons rfl (closed_parts inner)
  | .unary _ operand => exact .cons rfl (closed_parts operand)
  | .binary left _ right | .logical left _ right =>
      exact .cons rfl (.append (closed_parts left) (closed_parts right))
  | .assign _ _ value => exact .cons rfl (closed_parts value)
  | .call callee _ arguments =>
      exact .cons rfl (.append (closed_parts callee) (closed_partsAll arguments))

theorem Expr.closed_partsAll (es : List Expr) : Part.Closed (partsAll es) := by
  match es with
  | [] => exact .nil
  | e :: rest => exact .append (closed_parts e) (closed_partsAll rest)

end

theorem Expr.closed_partsOptional (o : Option Expr) : Part.Closed (partsOptional o) := by
  cases o with
  | none => exact .nil
  | some e => exact e.closed_parts

mutual

theorem Stmt.closed_parts (s : Stmt) : Part.Closed s.parts := by
  match s with
  | .expression value | .print value => exact .cons rfl value.closed_parts
  | .var _ initializer => exact .cons rfl (Expr.closed_partsOptional initializer)
  | .block body | .function _ _ body => exact .cons rfl (closed_partsAll body)
  | .ifThen condition thenBranch elseBranch =>
      exact .cons rfl (.append condition.closed_parts
        (.append (closed_parts thenBranch) (closed_partsOptional elseBranch)))
  | .whileLoop condition body =>
      exact .cons rfl (.append condition.closed_parts (closed_parts body))
  | .forLoop initializer condition increment body =>
      exact .cons rfl (.append (closed_partsOptional initializer)
        (.append (Expr.closed_partsOptional condition)
          (.append (Expr.closed_partsOptional increment) (closed_parts body))))
  | .ret _ value => exact .cons rfl (Expr.closed_partsOptional value)

theorem Stmt.closed_partsAll (body : List Stmt) : Part.Closed (partsAll body) := by
  match body with
  | [] => exact .nil
  | s :: rest => exact .append (closed_parts s) (closed_partsAll rest)

theorem Stmt.closed_partsOptional (o : Option Stmt) : Part.Closed (partsOptional o) := by
  match o with
  | none => exact .nil
  | some s => exact closed_parts s

end

theorem Stmt.mem_parts (s : Stmt) : .statement s ∈ s.parts := by
  cases s <;> exact List.mem_cons_self

theorem Stmt.mem_partsAll {s : Stmt} {body : List Stmt} (h : s ∈ body) :
    .statement s ∈ partsAll body := by
  induction body with
  | nil => cases h
  | cons first rest ih =>
      rcases List.mem_cons.mp h with rfl | h
      · exact List.mem_append_left _ s.mem_parts
      · exact List.mem_append_right _ (ih h)

/-! ## Executable parts -/

/-- The operators with two operands, other than the logical ones. -/
def Token.Kind.binary : List Token.Kind :=
  [.plus, .minus, .star, .slash, .greater, .greaterEqual, .less, .lessEqual, .equalEqual,
    .bangEqual]

/-- The evaluator knows the operator, and what a condition decides about is no declaration.
Loops are written out. -/
def Part.Executable : Part → Prop
  | .expression (.unary operator _) => operator.kind = .bang ∨ operator.kind = .minus
  | .expression (.binary _ operator _) => operator.kind ∈ Token.Kind.binary
  | .expression (.logical _ operator _) => operator.kind = .kwAnd ∨ operator.kind = .kwOr
  | .statement (.ifThen _ thenBranch elseBranch) =>
    thenBranch.plain = true ∧ ∀ s ∈ elseBranch, s.plain = true
  | .statement (.whileLoop _ body) => body.plain = true
  | .statement (.forLoop ..) => False
  | _ => True

/-! ## Trees all of whose parts are executable -/

/-- All of the parts are executable. -/
def Part.Executables (parts : List Part) : Prop := ∀ part ∈ parts, part.Executable

namespace Part

@[simp] theorem executables_nil : Executables [] := nofun

@[simp] theorem executables_cons {part : Part} {parts : List Part} :
    Executables (part :: parts) ↔ part.Executable ∧ Executables parts :=
  List.forall_mem_cons

@[simp] theorem executables_append {parts parts' : List Part} :
    Executables (parts ++ parts') ↔ Executables parts ∧ Executables parts' :=
  List.forall_mem_append

end Part

abbrev Expr.Executable (e : Expr) : Prop := Part.Executables e.parts

abbrev Expr.ExecutableAll (es : List Expr) : Prop := Part.Executables (partsAll es)

abbrev Expr.ExecutableOptional (o : Option Expr) : Prop := Part.Executables (partsOptional o)

abbrev Stmt.Executable (s : Stmt) : Prop := Part.Executables s.parts

abbrev Stmt.ExecutableAll (body : List Stmt) : Prop := Part.Executables (partsAll body)

abbrev Stmt.ExecutableOptional (o : Option Stmt) : Prop := Part.Executables (partsOptional o)

/-- What may stand below a condition. -/
def Stmt.ExecutableBranch (s : Stmt) : Prop := s.plain = true ∧ s.Executable

namespace Stmt

/-- The parts of a conditional, each of which may stand where it does. -/
theorem Executable.ofIf {condition : Expr} {thenBranch : Stmt} {elseBranch : Option Stmt}
    (h : (ifThen condition thenBranch elseBranch).Executable) :
    condition.Executable ∧ thenBranch.ExecutableBranch ∧
      ∀ s ∈ elseBranch, s.ExecutableBranch := by
  obtain ⟨hplain, hparts⟩ := Part.executables_cons.mp h
  obtain ⟨hc, hparts⟩ := Part.executables_append.mp hparts
  obtain ⟨ht, he⟩ := Part.executables_append.mp hparts
  refine ⟨hc, ⟨hplain.1, ht⟩, fun s hs => ⟨hplain.2 s hs, ?_⟩⟩
  cases hs
  exact he

theorem Executable.ofWhile {condition : Expr} {body : Stmt}
    (h : (whileLoop condition body).Executable) :
    condition.Executable ∧ body.ExecutableBranch := by
  obtain ⟨hplain, hparts⟩ := Part.executables_cons.mp h
  obtain ⟨hc, hb⟩ := Part.executables_append.mp hparts
  exact ⟨hc, hplain, hb⟩

/-- There is no other loop. -/
theorem Executable.not_for {initializer : Option Stmt} {condition increment : Option Expr}
    {body : Stmt} (h : (forLoop initializer condition increment body).Executable) : False :=
  (Part.executables_cons.mp h).1

theorem executable_loopCondition {condition : Option Expr} (h : Expr.ExecutableOptional condition) :
    (loopCondition condition).Executable := by
  cases condition with
  | none => exact Part.executables_cons.mpr ⟨trivial, Part.executables_nil⟩
  | some e => exact h

theorem ExecutableBranch.withIncrement {body : Stmt} (h : body.ExecutableBranch)
    {increment : Option Expr} (hi : Expr.ExecutableOptional increment) :
    (body.withIncrement increment).ExecutableBranch := by
  refine ⟨plain_withIncrement h.1 increment, ?_⟩
  cases increment with
  | none => exact h.2
  | some e =>
      have he : (Stmt.expression e).Executable := Part.executables_cons.mpr ⟨trivial, hi⟩
      have hlast : ExecutableAll [.expression e] :=
        Part.executables_append.mpr ⟨he, Part.executables_nil⟩
      exact Part.executables_cons.mpr ⟨trivial, Part.executables_append.mpr ⟨h.2, hlast⟩⟩

theorem ExecutableBranch.withInitializer {loop : Stmt} (h : loop.ExecutableBranch)
    {initializer : Option Stmt} (hi : ExecutableOptional initializer) :
    (loop.withInitializer initializer).ExecutableBranch := by
  refine ⟨plain_withInitializer h.1 initializer, ?_⟩
  cases initializer with
  | none => exact h.2
  | some s =>
      have hlast : ExecutableAll [loop] := Part.executables_append.mpr ⟨h.2, Part.executables_nil⟩
      exact Part.executables_cons.mpr ⟨trivial, Part.executables_append.mpr ⟨hi, hlast⟩⟩

end Stmt

namespace Parse

variable {α β : Type}

/-- What the parser gives, if it gives something. -/
def Yields (good : α → Prop) (p : Parse α) : Prop :=
  ∀ s a s', p.run s = some (.ok a, s') → good a

section Rules

variable {good : α → Prop} {good' : β → Prop}

theorem Yields.exhausted : Yields good (exhausted : Parse α) := fun _ _ _ h => nomatch h

theorem Yields.fail (cause : Cause) : Yields good (fail cause : Parse α) :=
  fun _ _ _ h => nomatch h

theorem Yields.pure {a : α} (h : good a) : Yields good (pure a : Parse α) := by
  intro s b s' hrun
  cases hrun
  exact h

theorem Yields.bind {p : Parse α} {k : α → Parse β} (hp : Yields good p)
    (hk : ∀ a, good a → Yields good' (k a)) : Yields good' (p >>= k) := by
  intro s b s' h
  obtain ⟨a, s₁, ha, hb⟩ := ok_of_bind h
  exact hk a (hp s a s₁ ha) s₁ b s' hb

/-- Whatever the first parser gives. -/
theorem Yields.whatever {p : Parse α} {k : α → Parse β} (hk : ∀ a, Yields good' (k a)) :
    Yields good' (p >>= k) :=
  have hp : Yields (fun _ => True) p := fun _ _ _ _ => trivial
  hp.bind fun a _ => hk a

theorem Yields.map {p : Parse α} (hp : Yields good p) {f : α → β}
    (hf : ∀ a, good a → good' (f a)) : Yields good' (f <$> p) := by
  rw [← bind_pure_comp]
  exact hp.bind fun a ha => .pure (hf a ha)

theorem Yields.acceptIf (wanted : Token.Kind → Bool) :
    Yields (fun found => ∀ t ∈ found, wanted t.kind = true) (acceptIf wanted) := by
  intro s found s' h t ht
  cases hs : Ahead wanted s.rest with
  | false =>
      rw [run_acceptIf_none hs] at h
      cases h
      cases ht
  | true =>
      obtain ⟨_ | ⟨t', rest⟩, last, i, faults⟩ := s
      · cases hs
      · rw [run_acceptIf_cons rfl hs] at h
        cases h
        cases ht
        exact hs

/-- A fault may be noted on the way. -/
theorem Yields.noting {c : Prop} [Decidable c] {cause : Cause} {p : Parse α} (hp : Yields good p) :
    Yields good (if c then Parse.recordHere cause >>= fun _ => p else p) := by
  split
  · exact .whatever fun _ => hp
  · exact hp

/-- What is given in place of a broken phrase must be good as well. -/
theorem Yields.caught {p : Parse α} (hp : Yields good p) {handler : Fault → Parse α}
    (hh : ∀ fault, Yields good (handler fault)) : Yields good (tryCatch p handler) := by
  intro s a s' h
  rw [run_tryCatch] at h
  rcases hs : p.run s with _ | ⟨fault | b, s₁⟩ <;> rw [hs] at h
  · cases h
  · exact hh fault s₁ a s' h
  · cases h
    exact hp s _ _ hs

end Rules

/-! ## Phrase by phrase -/

/-- The operators of the levels are the ones that are known. -/
theorem Level.executable_node (l : Level) {left right : Expr} {operator : Token}
    (hl : left.Executable) (ho : l.has operator.kind = true) (hr : right.Executable) :
    (l.node left operator right).Executable := by
  have hparts := Part.executables_append.mpr ⟨hl, hr⟩
  cases l with
  | disjunction => exact Part.executables_cons.mpr ⟨.inr (of_decide_eq_true ho), hparts⟩
  | conjunction => exact Part.executables_cons.mpr ⟨.inl (of_decide_eq_true ho), hparts⟩
  | equality | comparison | sum | product =>
      have hknown : operator.kind ∈ Token.Kind.binary := by
        simp only [has, Bool.or_eq_true, decide_eq_true_eq] at ho
        simp only [Token.Kind.binary, List.mem_cons]
        grind
      exact Part.executables_cons.mpr ⟨hknown, hparts⟩

theorem assignTo_yields {target : Expr} (ht : target.Executable) (equals : Token) {value : Expr}
    (hv : value.Executable) : Yields Expr.Executable (assignTo target equals value) := by
  have hstays : Yields Expr.Executable
      (do record ⟨.invalidAssignmentTarget, equals⟩; return target) :=
    .whatever fun _ => .pure ht
  cases target with
  | «variable» id name =>
      exact .whatever fun _ => .pure (Part.executables_cons.mpr ⟨trivial, hv⟩)
  | _ => exact hstays

/-- With so much fuel every phrase gives what is executable. -/
structure Executing (n : Nat) : Prop where
  expression : Yields Expr.Executable (expression n)
  level : ∀ l, Yields Expr.Executable (level n l)
  levelRest : ∀ l left, left.Executable → Yields Expr.Executable (levelRest n l left)
  operand : ∀ l, Yields Expr.Executable (operand n l)
  unary : Yields Expr.Executable (unary n)
  callRest : ∀ callee, callee.Executable → Yields Expr.Executable (callRest n callee)
  arguments : Yields Expr.ExecutableAll (arguments n)
  argumentsFrom : ∀ count, Yields Expr.ExecutableAll (argumentsFrom n count)
  primary : Yields Expr.Executable (primary n)
  declaration : Yields (fun o => Stmt.ExecutableOptional (Stmt.desugarOptional o)) (declaration n)
  declared : Yields (fun s => s.desugar.Executable) (declared n)
  function : Yields (fun s => s.desugar.Executable) (function n)
  statement : Yields (fun s => s.desugar.ExecutableBranch) (statement n)
  forStatement : Yields (fun s => s.desugar.ExecutableBranch) (forStatement n)
  ifStatement : Yields (fun s => s.desugar.ExecutableBranch) (ifStatement n)
  whileStatement : Yields (fun s => s.desugar.ExecutableBranch) (whileStatement n)
  block : Yields (fun body => Stmt.ExecutableAll (Stmt.desugarAll body)) (block n)
  declarations : ∀ inBlock,
    Yields (fun body => Stmt.ExecutableAll (Stmt.desugarAll body)) (declarations n inBlock)

section Steps

variable {n : Nat} (ih : Executing n)
include ih

theorem expression_yields : Yields Expr.Executable (expression (n + 1)) := by
  refine (ih.level _).bind fun target ht => .whatever fun found => ?_
  cases found with
  | none => exact .pure ht
  | some equals => exact ih.expression.bind fun _ hv => assignTo_yields ht equals hv

theorem level_yields (l : Level) : Yields Expr.Executable (level (n + 1) l) :=
  (ih.operand l).bind fun left hl => ih.levelRest l left hl

theorem levelRest_yields (l : Level) {left : Expr} (hl : left.Executable) :
    Yields Expr.Executable (levelRest (n + 1) l left) := by
  refine (Yields.acceptIf _).bind fun found ho => ?_
  cases found with
  | none => exact .pure hl
  | some operator =>
      exact (ih.operand l).bind fun _ hr =>
        ih.levelRest l _ (l.executable_node hl (ho operator rfl) hr)

theorem operand_yields (l : Level) : Yields Expr.Executable (operand (n + 1) l) := by
  rw [operand]
  cases l.tighter? with
  | none => exact ih.unary
  | some l => exact ih.level l

theorem unary_yields : Yields Expr.Executable (unary (n + 1)) := by
  refine (Yields.acceptIf _).bind fun found ho => ?_
  cases found with
  | none => exact ih.primary.bind ih.callRest
  | some operator =>
      have hknown : operator.kind = .bang ∨ operator.kind = .minus := by
        simpa [isUnary] using ho operator rfl
      exact ih.unary.bind fun _ hoperand => .pure (Part.executables_cons.mpr ⟨hknown, hoperand⟩)

theorem callRest_yields {callee : Expr} (hc : callee.Executable) :
    Yields Expr.Executable (callRest (n + 1) callee) := by
  refine .whatever fun found => ?_
  cases found with
  | none => exact .pure hc
  | some _ =>
      refine ih.arguments.bind fun arguments ha => .whatever fun paren => ih.callRest _ ?_
      exact Part.executables_cons.mpr ⟨trivial, Part.executables_append.mpr ⟨hc, ha⟩⟩

theorem arguments_yield : Yields Expr.ExecutableAll (arguments (n + 1)) := by
  refine .whatever fun closed => ?_
  split
  · exact .pure Part.executables_nil
  · exact ih.argumentsFrom 0

theorem argumentsFrom_yields (count : Nat) :
    Yields Expr.ExecutableAll (argumentsFrom (n + 1) count) := by
  rw [argumentsFrom]
  refine .noting <| ih.expression.bind fun first hf => .whatever fun found => ?_
  cases found with
  | none => exact .pure (Part.executables_append.mpr ⟨hf, Part.executables_nil⟩)
  | some _ =>
      exact (ih.argumentsFrom _).bind fun _ hr => .pure (Part.executables_append.mpr ⟨hf, hr⟩)

theorem primary_yields : Yields Expr.Executable (primary (n + 1)) := by
  have hleaf {e : Expr} (h : e.parts = [.expression e]) (ht : Part.Executable (.expression e)) :
      e.Executable := by
    rw [Expr.Executable, h]
    exact Part.executables_cons.mpr ⟨ht, Part.executables_nil⟩
  refine .whatever fun found => ?_
  cases found with
  | none => exact .fail _
  | some t =>
      dsimp only
      split
      · exact .pure (hleaf rfl trivial)
      split
      · exact .whatever fun _ => .pure (hleaf rfl trivial)
      · exact ih.expression.bind fun _ hi => .whatever fun _ =>
          .pure (Part.executables_cons.mpr ⟨trivial, hi⟩)

theorem expressionUnless_yields (kind : Token.Kind) :
    Yields Expr.ExecutableOptional (expressionUnless n kind) := by
  refine .whatever fun found => ?_
  split
  · exact .pure Part.executables_nil
  · exact ih.expression.bind fun _ he => .pure he

theorem varDeclaration_yields : Yields (fun s => s.desugar.Executable) (varDeclaration n) := by
  refine .whatever fun name => .whatever fun found => ?_
  have hrest (initializer : Option Expr) (hi : Expr.ExecutableOptional initializer) :
      Yields (fun s => s.desugar.Executable)
        (expect .semicolon .expectSemicolonAfterDeclaration >>= fun _ =>
          pure (Stmt.var name initializer)) :=
    .whatever fun _ => .pure (Part.executables_cons.mpr ⟨trivial, hi⟩)
  cases found with
  | none => exact hrest none Part.executables_nil
  | some _ =>
      have hvalue : Yields Expr.ExecutableOptional (some <$> expression n) :=
        ih.expression.map fun _ he => he
      exact hvalue.bind hrest

theorem expressionStatement_yields :
    Yields (fun s => s.desugar.ExecutableBranch) (expressionStatement n) :=
  ih.expression.bind fun _ he => .whatever fun _ =>
    .pure ⟨rfl, Part.executables_cons.mpr ⟨trivial, he⟩⟩

theorem printStatement_yields : Yields (fun s => s.desugar.ExecutableBranch) (printStatement n) :=
  ih.expression.bind fun _ he => .whatever fun _ =>
    .pure ⟨rfl, Part.executables_cons.mpr ⟨trivial, he⟩⟩

theorem returnStatement_yields (keyword : Token) :
    Yields (fun s => s.desugar.ExecutableBranch) (returnStatement n keyword) :=
  (expressionUnless_yields ih _).bind fun _ hv => .whatever fun _ =>
    .pure ⟨rfl, Part.executables_cons.mpr ⟨trivial, hv⟩⟩

theorem forInitializer_yields :
    Yields (fun o => Stmt.ExecutableOptional (Stmt.desugarOptional o)) (forInitializer n) := by
  refine .whatever fun found => ?_
  cases found with
  | some _ => exact .pure Part.executables_nil
  | none =>
      refine .whatever fun found => ?_
      cases found with
      | some _ => exact (varDeclaration_yields ih).map fun _ hs => hs
      | none => exact (expressionStatement_yields ih).map fun _ hs => hs.2

/-- A broken declaration is left out. -/
theorem declaration_yields :
    Yields (fun o => Stmt.ExecutableOptional (Stmt.desugarOptional o)) (declaration (n + 1)) := by
  have hdeclared : Yields (fun o => Stmt.ExecutableOptional (Stmt.desugarOptional o))
      (some <$> declared n) :=
    ih.declared.map fun _ hs => hs
  exact hdeclared.caught fun fault => .whatever fun _ => .whatever fun _ =>
    .pure Part.executables_nil

theorem declared_yields : Yields (fun s => s.desugar.Executable) (declared (n + 1)) := by
  refine .whatever fun found => ?_
  cases found with
  | some _ => exact ih.function
  | none =>
      refine .whatever fun found => ?_
      cases found with
      | some _ => exact varDeclaration_yields ih
      | none => exact fun s a s' h => (ih.statement s a s' h).2

theorem function_yields : Yields (fun s => s.desugar.Executable) (function (n + 1)) := by
  have hrest (name : Token) (params : List Token) : Yields (fun s => s.desugar.Executable)
      (expect .rightParen .expectParenAfterParameters >>= fun _ =>
        expect .leftBrace .expectBraceBeforeBody >>= fun _ =>
          block n >>= fun body => pure (Stmt.function name params body)) :=
    .whatever fun _ => .whatever fun _ => ih.block.bind fun _ hb =>
      .pure (Part.executables_cons.mpr ⟨trivial, hb⟩)
  refine .whatever fun name => .whatever fun _ => .whatever fun closed => ?_
  dsimp only
  split
  · exact hrest name []
  · exact .whatever (hrest name)

theorem statement_yields : Yields (fun s => s.desugar.ExecutableBranch) (statement (n + 1)) := by
  refine .whatever fun found => ?_
  cases found with
  | none => exact expressionStatement_yields ih
  | some keyword =>
      dsimp only
      split
      · exact ih.forStatement
      · exact ih.ifStatement
      · exact printStatement_yields ih
      · exact returnStatement_yields ih keyword
      · exact ih.whileStatement
      · exact ih.block.map fun _ hb => ⟨rfl, Part.executables_cons.mpr ⟨trivial, hb⟩⟩

theorem forStatement_yields :
    Yields (fun s => s.desugar.ExecutableBranch) (forStatement (n + 1)) := by
  refine .whatever fun _ => (forInitializer_yields ih).bind fun initializer hi => ?_
  refine (expressionUnless_yields ih _).bind fun condition hc => .whatever fun _ => ?_
  refine (expressionUnless_yields ih _).bind fun increment hr => .whatever fun _ => ?_
  refine ih.statement.bind fun body hb => .pure ?_
  have hround := hb.withIncrement hr
  have hloop : (Stmt.whileLoop (Stmt.loopCondition condition)
      (body.desugar.withIncrement increment)).ExecutableBranch :=
    ⟨rfl, Part.executables_cons.mpr ⟨hround.1,
      Part.executables_append.mpr ⟨Stmt.executable_loopCondition hc, hround.2⟩⟩⟩
  exact hloop.withInitializer hi

theorem ifStatement_yields :
    Yields (fun s => s.desugar.ExecutableBranch) (ifStatement (n + 1)) := by
  refine .whatever fun _ => ih.expression.bind fun condition hc => .whatever fun _ => ?_
  refine ih.statement.bind fun thenBranch ht => .whatever fun found => ?_
  have hif (elseBranch : Option Stmt)
      (he : ∀ s ∈ Stmt.desugarOptional elseBranch, s.ExecutableBranch) :
      (Stmt.ifThen condition thenBranch elseBranch).desugar.ExecutableBranch := by
    refine ⟨rfl, Part.executables_cons.mpr ⟨⟨ht.1, fun s hs => (he s hs).1⟩, ?_⟩⟩
    refine Part.executables_append.mpr ⟨hc, Part.executables_append.mpr ⟨ht.2, ?_⟩⟩
    cases elseBranch with
    | none => exact Part.executables_nil
    | some s => exact (he _ rfl).2
  cases found with
  | none => exact .pure (hif none nofun)
  | some _ =>
      have hbranch : Yields (fun o => ∀ s ∈ Stmt.desugarOptional o, s.ExecutableBranch)
          (some <$> statement n) :=
        ih.statement.map fun s hs s' heq => Option.some.inj heq ▸ hs
      exact hbranch.bind fun elseBranch he => .pure (hif elseBranch he)

theorem whileStatement_yields :
    Yields (fun s => s.desugar.ExecutableBranch) (whileStatement (n + 1)) := by
  refine .whatever fun _ => ih.expression.bind fun condition hc => .whatever fun _ => ?_
  refine ih.statement.bind fun body hb => .pure ⟨rfl, Part.executables_cons.mpr ⟨hb.1, ?_⟩⟩
  exact Part.executables_append.mpr ⟨hc, hb.2⟩

theorem block_yields :
    Yields (fun body => Stmt.ExecutableAll (Stmt.desugarAll body)) (block (n + 1)) :=
  (ih.declarations true).bind fun _ hb => .whatever fun _ => .pure hb

theorem declarations_yield (inBlock : Bool) :
    Yields (fun body => Stmt.ExecutableAll (Stmt.desugarAll body))
      (declarations (n + 1) inBlock) := by
  have hmore : Yields (fun body => Stmt.ExecutableAll (Stmt.desugarAll body)) (do
      let first ← declaration n
      let rest ← declarations n inBlock
      return first.toList ++ rest) := by
    refine ih.declaration.bind fun first hf => (ih.declarations inBlock).bind fun rest hr => ?_
    refine .pure ?_
    cases first with
    | none => exact hr
    | some s => exact Part.executables_append.mpr ⟨hf, hr⟩
  intro s body s' h
  rw [run_declarations] at h
  split at h
  · cases h
    exact Part.executables_nil
  · exact hmore s body s' h

end Steps

theorem executing (n : Nat) : Executing n := by
  induction n with
  | zero =>
      exact ⟨.exhausted, fun _ => .exhausted, fun _ _ _ => .exhausted, fun _ => .exhausted,
        .exhausted, fun _ _ => .exhausted, .exhausted, fun _ => .exhausted, .exhausted, .exhausted,
        .exhausted, .exhausted, .exhausted, .exhausted, .exhausted, .exhausted, .exhausted,
        fun _ => .exhausted⟩
  | succ n ih =>
      exact ⟨expression_yields ih, level_yields ih, fun l _ => levelRest_yields ih l,
        operand_yields ih, unary_yields ih, fun _ => callRest_yields ih, arguments_yield ih,
        argumentsFrom_yields ih, primary_yields ih, declaration_yields ih, declared_yields ih,
        function_yields ih, statement_yields ih, forStatement_yields ih, ifStatement_yields ih,
        whileStatement_yields ih, block_yields ih, declarations_yield ih⟩

end Parse

/-- Whatever the tokens are, all parts of what is read are executable. -/
theorem Parsed.executable_ofTokens (tokens : List Token) (i : NodeId) :
    Stmt.ExecutableAll (ofTokens tokens i).desugar.statements := by
  obtain ⟨n, s, hrun, -⟩ := ofTokens_answers tokens i
  exact (Parse.executing n).declarations false _ _ _ hrun

end Lox
