import Lox.Proofs.Parser.Complete
import Lox.Proofs.Parser.Derivation

/-!
# The parser accepts the sentences of the grammar

What can be derived in the grammar stands for a tree. A derivation is turned into a
reading rule by rule: `Pieces` takes a right-hand side apart into the tokens of its
parts, and for each name of the grammar a reading is put together from readings of
the parts.

The grammar does not say to which conditional an `else` belongs. A conditional whose
first branch could take the `else` is therefore read differently from how it was
derived: `Reads.attach` hands the `else` on to the last conditional of the branch.
-/

namespace Lox.Parse

open Grammar Pattern Token.Kind

/-- Can the tokens be read, whatever the number of the first node? -/
def Found (p : Phrase) (w : List Token) : Prop := ∀ i, ∃ a j, Reads p w i a j

/-- A word of the given kind, and a phrase behind it. -/
def FoundBehind (kind : Token.Kind) (p : Token → Phrase) (w : List Token) : Prop :=
  ∃ t v, w = t :: v ∧ t.kind = kind ∧ Found (p t) v

/-- What can be read in place of a name of the grammar. -/
def NameFound : Grammar.Name → List Token → Prop
  | .program => fun w => ∃ u last, w = u ++ [last] ∧ Found (.declarations false) u
  | .declaration => Found .declared
  | .funDecl => FoundBehind kwFun fun _ => .function
  | .varDecl => FoundBehind kwVar fun _ => .varDeclaration
  | .statement => Found .statement
  | .exprStmt => Found .expressionStatement
  | .forStmt => FoundBehind kwFor fun _ => .forStatement
  | .ifStmt => FoundBehind kwIf fun _ => .ifStatement
  | .printStmt => FoundBehind kwPrint fun _ => .printStatement
  | .returnStmt => FoundBehind kwReturn .returnStatement
  | .whileStmt => FoundBehind kwWhile fun _ => .whileStatement
  | .block => FoundBehind leftBrace fun _ => .block
  | .parameters => Found (.paramsFrom 0)
  | .expression | .assignment => Found .expression
  | .logicOr => Found (.level .disjunction)
  | .logicAnd => Found (.level .conjunction)
  | .equality => Found (.level .equality)
  | .comparison => Found (.level .comparison)
  | .term => Found (.level .sum)
  | .factor => Found (.level .product)
  | .unary | .call => Found .unary
  | .arguments => Found (.argumentsFrom 0)
  | .primary => Found .primary

/-- The tokens of a right-hand side, taken apart, with what can be read in place of
each name. -/
def Pieces : Pattern → List Token → Prop
  | .token wanted, w => ∃ t : Token, w = [t] ∧ wanted t.kind = true
  | .name n, w => NameFound n w
  | .seq p q, w => ∃ u v, w = u ++ v ∧ Pieces p u ∧ Pieces q v
  | .alt p q, w => Pieces p w ∨ Pieces q w
  | .optional p, w => w = [] ∨ Pieces p w
  | .many p, w => ∃ ws : List (List Token), w = ws.flatten ∧ ∀ u ∈ ws, Pieces p u
  | .upTo limit p, w =>
    ∃ ws : List (List Token), w = ws.flatten ∧ ws.length ≤ limit ∧ ∀ u ∈ ws, Pieces p u

theorem pieces_one {kind : Token.Kind} {w : List Token} :
    Pieces (one kind) w ↔ ∃ t : Token, w = [t] ∧ t.kind = kind := by
  simp only [one, Pieces, decide_eq_true_eq]

/-! ## Lists -/

theorem found_levelRest {l : Level} {ws : List (List Token)}
    (h : ∀ u ∈ ws, ∃ t v, u = t :: v ∧ l.has t.kind = true ∧ Found (.operand l) v) :
    Found (.levelRest l) ws.flatten := by
  induction ws with
  | nil => exact fun i => ⟨[], i, .levelEnd⟩
  | cons u ws ih =>
      intro i
      obtain ⟨t, v, rfl, ht, hv⟩ := h _ (List.mem_cons_self ..)
      obtain ⟨e, j, he⟩ := hv i
      obtain ⟨rest, k, hr⟩ := ih (fun u hu => h u (List.mem_cons_of_mem _ hu)) j
      exact ⟨_, k, .levelMore ht he hr⟩

theorem found_level {l : Level} {u : List Token} {ws : List (List Token)}
    (hu : Found (.operand l) u)
    (h : ∀ u ∈ ws, ∃ t v, u = t :: v ∧ l.has t.kind = true ∧ Found (.operand l) v) :
    Found (.level l) (u ++ ws.flatten) := by
  intro i
  obtain ⟨e, j, he⟩ := hu i
  obtain ⟨rest, k, hr⟩ := found_levelRest h j
  exact ⟨_, k, .level he hr⟩

theorem found_callRest {ws : List (List Token)}
    (h : ∀ u ∈ ws, ∃ t v paren, u = t :: (v ++ [paren]) ∧ t.kind = .leftParen ∧
      paren.kind = .rightParen ∧ Found .arguments v) : Found .callRest ws.flatten := by
  induction ws with
  | nil => exact fun i => ⟨[], i, .callEnd⟩
  | cons u ws ih =>
      intro i
      obtain ⟨t, v, paren, rfl, ht, hp, hv⟩ := h _ (List.mem_cons_self ..)
      obtain ⟨args, j, ha⟩ := hv i
      obtain ⟨calls, k, hc⟩ := ih (fun u hu => h u (List.mem_cons_of_mem _ hu)) j
      refine ⟨(args, paren) :: calls, k, ?_⟩
      rw [List.flatten_cons, List.cons_append, List.append_assoc]
      exact .callMore ht ha hp hc

theorem found_argumentsFrom {count : Nat} {u : List Token} {ws : List (List Token)}
    (hu : Found .expression u) (hn : count + ws.length < maxArity)
    (h : ∀ u ∈ ws, ∃ comma v, u = comma :: v ∧ comma.kind = Token.Kind.comma ∧
      Found .expression v) :
    Found (.argumentsFrom count) (u ++ ws.flatten) := by
  induction ws generalizing count u with
  | nil =>
      intro i
      obtain ⟨e, j, he⟩ := hu i
      rw [List.flatten_nil, List.append_nil]
      exact ⟨[e], j, .lastArgument hn he⟩
  | cons x ws ih =>
      intro i
      rw [List.length_cons] at hn
      obtain ⟨comma, v, rfl, hc, hv⟩ := h _ (List.mem_cons_self ..)
      obtain ⟨e, j, he⟩ := hu i
      obtain ⟨es, k, hes⟩ := ih hv (show count + 1 + ws.length < maxArity by omega)
        (fun u hu => h u (List.mem_cons_of_mem _ hu)) j
      exact ⟨e :: es, k, .moreArguments (by omega) he hc hes⟩

theorem found_paramsFrom {count : Nat} {t : Token} {ws : List (List Token)}
    (ht : t.kind = .identifier) (hn : count + ws.length < maxArity)
    (h : ∀ u ∈ ws, ∃ comma t, u = [comma, t] ∧ comma.kind = Token.Kind.comma ∧
      t.kind = Token.Kind.identifier) :
    Found (.paramsFrom count) (t :: ws.flatten) := by
  induction ws generalizing count t with
  | nil => exact fun i => ⟨[t], i, .lastParam hn ht⟩
  | cons x ws ih =>
      intro i
      rw [List.length_cons] at hn
      obtain ⟨comma, t', rfl, hc, ht'⟩ := h _ (List.mem_cons_self ..)
      obtain ⟨ts, k, hts⟩ := ih ht' (show count + 1 + ws.length < maxArity by omega)
        (fun u hu => h u (List.mem_cons_of_mem _ hu)) i
      exact ⟨t :: ts, k, .moreParams (by omega) ht hc hts⟩

theorem found_declarations {inBlock : Bool} {ws : List (List Token)}
    (h : ∀ u ∈ ws, Found .declared u) : Found (.declarations inBlock) ws.flatten := by
  induction ws with
  | nil => exact fun i => ⟨[], i, .declarationsEnd⟩
  | cons u ws ih =>
      intro i
      obtain ⟨s, j, hs⟩ := h u (List.mem_cons_self ..) i
      obtain ⟨rest, k, hr⟩ := ih (fun u hu => h u (List.mem_cons_of_mem _ hu)) j
      exact ⟨s :: rest, k, .declarationsMore (.declaration hs) hr⟩

/-! ## The dangling `else` -/

theorem Reads.of_eq {p : Phrase} {w w' : List Token} {i j : Nat} {a : p.Tree}
    (h : Reads p w i a j) (hw : w = w') : Reads p w' i a j := hw ▸ h

/-- A statement at whose end an `else` could be taken can be read with the `else`. -/
theorem Reads.attach {p : Phrase} {w : List Token} {i j : Nat} {a : p.Tree} (h : Reads p w i a j)
    (hd : p.dangling a = true) {keyword : Token} {v : List Token} (hk : keyword.kind = .kwElse)
    (hv : Found .statement v) : ∃ b k, Reads p (w ++ keyword :: v) i b k := by
  induction h with
  | declaration _ ih =>
      obtain ⟨s, k, h⟩ := ih hd
      exact ⟨some s, k, .declaration h⟩
  | functionDeclared ht _ ih =>
      obtain ⟨s, k, h⟩ := ih hd
      exact ⟨s, k, .functionDeclared ht h⟩
  | varDeclared ht _ ih =>
      obtain ⟨s, k, h⟩ := ih hd
      exact ⟨s, k, .varDeclared ht h⟩
  | statementDeclared _ ih =>
      obtain ⟨s, k, h⟩ := ih hd
      exact ⟨s, k, .statementDeclared h⟩
  | statementPlain _ ih =>
      obtain ⟨s, k, h⟩ := ih hd
      exact ⟨s, k, .statementPlain h⟩
  | statementFor ht _ ih =>
      obtain ⟨s, k, h⟩ := ih hd
      exact ⟨s, k, .statementFor ht h⟩
  | statementIf ht _ ih =>
      obtain ⟨s, k, h⟩ := ih hd
      exact ⟨s, k, .statementIf ht h⟩
  | statementPrint ht _ ih =>
      obtain ⟨s, k, h⟩ := ih hd
      exact ⟨s, k, .statementPrint ht h⟩
  | statementReturn ht _ ih =>
      obtain ⟨s, k, h⟩ := ih hd
      exact ⟨s, k, .statementReturn ht h⟩
  | statementWhile ht _ ih =>
      obtain ⟨s, k, h⟩ := ih hd
      exact ⟨s, k, .statementWhile ht h⟩
  | forStatement ho hi hc hs hn hp _ _ _ _ ih =>
      obtain ⟨s, k, h⟩ := ih hd
      exact ⟨_, k, (Reads.forStatement ho hi hc hs hn hp h).of_eq (by simp)⟩
  | whileStatement ho hc hp _ _ ih =>
      obtain ⟨s, k, h⟩ := ih hd
      exact ⟨_, k, (Reads.whileStatement ho hc hp h).of_eq (by simp)⟩
  | ifElse ho hc hp ht hn hk' _ _ _ ih =>
      obtain ⟨s, k, h⟩ := ih hd
      exact ⟨_, k, (Reads.ifElse ho hc hp ht hn hk' h).of_eq (by simp)⟩
  | @ifBare opening closing u x condition thenBranch _ _ k ho hc hp ht _ ih =>
      -- the first branch takes the `else` if it can
      cases hd : thenBranch.dangling with
      | true =>
          obtain ⟨s, k, h⟩ := ih hd
          exact ⟨_, k, (Reads.ifBare ho hc hp h).of_eq (by simp)⟩
      | false =>
          obtain ⟨s, l, h⟩ := hv k
          exact ⟨_, l, (Reads.ifElse ho hc hp ht hd hk h).of_eq (by simp)⟩
  | _ => exact absurd hd Bool.false_ne_true

/-- A conditional with an `else` can be read, to whichever conditional it belongs. -/
theorem found_ifElse {opening closing keyword : Token} {u v w : List Token}
    (ho : opening.kind = .leftParen) (hu : Found .expression u)
    (hc : closing.kind = .rightParen) (hv : Found .statement v) (hk : keyword.kind = .kwElse)
    (hw : Found .statement w) :
    Found .ifStatement (opening :: (u ++ closing :: (v ++ keyword :: w))) := by
  intro i
  obtain ⟨condition, j, hd⟩ := hu i
  obtain ⟨thenBranch, k, ht⟩ := hv j
  cases hn : thenBranch.dangling with
  | true =>
      obtain ⟨s, l, h⟩ := ht.attach hn hk hw
      exact ⟨_, l, .ifBare ho hd hc h⟩
  | false =>
      obtain ⟨elseBranch, l, he⟩ := hw k
      exact ⟨_, l, .ifElse ho hd hc ht hn hk he⟩

/-! ## Rules -/

theorem has_of_operators {l : Level} {w : List Token} (h : Pieces l.operators w) :
    ∃ t, w = [t] ∧ l.has t.kind = true := by
  cases l <;> simp only [Level.operators, or_eq, Pieces, pieces_one] at h <;>
    simp only [Level.has, Bool.or_eq_true, decide_eq_true_eq] <;> grind

theorem found_operand {l : Level} {w : List Token} (h : NameFound l.operandName w) :
    Found (.operand l) w := by
  intro i
  cases l with
  | product =>
      obtain ⟨e, j, he⟩ := h i
      exact ⟨e, j, .tightest rfl he⟩
  | _ =>
      obtain ⟨e, j, he⟩ := h i
      exact ⟨e, j, .tighter rfl he⟩

theorem found_of_level {l : Level} {w : List Token} (h : Pieces (rule l.ruleName) w) :
    Found (.level l) w := by
  rw [l.rule_ruleName] at h
  obtain ⟨u, _, rfl, hu, ws, rfl, hws⟩ := h
  refine found_level (found_operand hu) ?_
  intro u hu
  obtain ⟨_, v, rfl, hop, hv⟩ := hws u hu
  obtain ⟨t, rfl, ht⟩ := has_of_operators hop
  exact ⟨t, v, rfl, ht, found_operand hv⟩

theorem found_expressionUnless (kind : Token.Kind) {w : List Token}
    (h : w = [] ∨ Found .expression w) : Found (.expressionUnless kind) w := by
  intro i
  rcases h with rfl | h
  · exact ⟨none, i, .noExpression⟩
  · obtain ⟨e, j, he⟩ := h i
    exact ⟨some e, j, .someExpression he⟩

theorem found_forInitializer {w : List Token}
    (h : (NameFound .varDecl w ∨ NameFound .exprStmt w) ∨
      ∃ t : Token, w = [t] ∧ t.kind = semicolon) : Found .forInitializer w := by
  intro i
  obtain ((⟨t, v, rfl, ht, hv⟩ | h) | ⟨t, rfl, ht⟩) := h
  · obtain ⟨s, j, hs⟩ := hv i
    exact ⟨some s, j, .varInitializer ht hs⟩
  · obtain ⟨s, j, hs⟩ := h i
    exact ⟨some s, j, .valueInitializer hs⟩
  · exact ⟨none, i, .noInitializer ht⟩

theorem found_program {w : List Token} (h : Pieces (rule .program) w) :
    NameFound .program w := by
  obtain ⟨_, _, rfl, ⟨ws, rfl, hws⟩, last, rfl, hl⟩ := h
  exact ⟨_, last, rfl, found_declarations hws⟩

theorem found_declaration {w : List Token} (h : Pieces (rule .declaration) w) :
    NameFound .declaration w := by
  obtain ((⟨t, v, rfl, ht, hv⟩ | ⟨t, v, rfl, ht, hv⟩) | hw) := h
  · intro i
    obtain ⟨s, j, hs⟩ := hv i
    exact ⟨s, j, .functionDeclared ht hs⟩
  · intro i
    obtain ⟨s, j, hs⟩ := hv i
    exact ⟨s, j, .varDeclared ht hs⟩
  · intro i
    obtain ⟨s, j, hs⟩ := hw i
    exact ⟨s, j, .statementDeclared hs⟩

theorem found_funDecl {w : List Token} (h : Pieces (rule .funDecl) w) :
    NameFound .funDecl w := by
  simp only [rule, append_eq, Pieces, pieces_one] at h
  obtain ⟨_, _, rfl, ⟨_, _, rfl, ⟨_, _, rfl, ⟨_, _, rfl, ⟨_, _, rfl, ⟨f, rfl, hf⟩, name, rfl, hn⟩,
    opening, rfl, ho⟩, hp⟩, closing, rfl, hc⟩, brace, v, rfl, hb, hv⟩ := h
  refine ⟨f, _, by simp only [List.append_assoc, List.cons_append]; rfl, hf, fun i => ?_⟩
  rcases hp with rfl | hp
  · obtain ⟨body, j, h⟩ := hv i
    exact ⟨_, j, .functionBare hn ho hc hb h⟩
  · obtain ⟨params, j, hps⟩ := hp i
    obtain ⟨body, k, h⟩ := hv j
    exact ⟨_, k, .functionParams hn ho hps hc hb h⟩

theorem found_varDecl {w : List Token} (h : Pieces (rule .varDecl) w) :
    NameFound .varDecl w := by
  simp only [rule, append_eq, Pieces, pieces_one] at h
  obtain ⟨_, _, rfl, ⟨_, _, rfl, ⟨_, _, rfl, ⟨t, rfl, ht⟩, name, rfl, hn⟩, hv⟩, semicolon, rfl,
    hs⟩ := h
  refine ⟨t, _, rfl, ht, fun i => ?_⟩
  rcases hv with rfl | ⟨_, w, rfl, ⟨equals, rfl, heq⟩, hw⟩
  · exact ⟨_, i, .varBare hn hs⟩
  · obtain ⟨e, j, he⟩ := hw i
    exact ⟨_, j, .varValue hn heq he hs⟩

theorem found_statement {w : List Token} (h : Pieces (rule .statement) w) :
    NameFound .statement w := by
  rcases h with ((((((h | h) | h) | h) | h) | h) | h)
  · intro i
    obtain ⟨s, j, hs⟩ := h i
    exact ⟨s, j, .statementPlain hs⟩
  all_goals obtain ⟨t, v, rfl, ht, hv⟩ := h
  all_goals intro i; obtain ⟨s, j, hs⟩ := hv i
  · exact ⟨s, j, .statementFor ht hs⟩
  · exact ⟨s, j, .statementIf ht hs⟩
  · exact ⟨s, j, .statementPrint ht hs⟩
  · exact ⟨s, j, .statementReturn ht hs⟩
  · exact ⟨s, j, .statementWhile ht hs⟩
  · exact ⟨.block s, j, .statementBlock ht hs⟩

theorem found_exprStmt {w : List Token} (h : Pieces (rule .exprStmt) w) :
    NameFound .exprStmt w := by
  simp only [rule, append_eq, Pieces, pieces_one] at h
  obtain ⟨u, _, rfl, hu, semicolon, rfl, hs⟩ := h
  intro i
  obtain ⟨e, j, he⟩ := hu i
  exact ⟨_, j, .expressionStatement he hs⟩

theorem found_forStmt {w : List Token} (h : Pieces (rule .forStmt) w) :
    NameFound .forStmt w := by
  simp only [rule, append_eq, or_eq, Pieces, pieces_one] at h
  obtain ⟨_, x, rfl, ⟨_, _, rfl, ⟨_, w, rfl, ⟨_, _, rfl, ⟨_, v, rfl, ⟨_, u, rfl,
    ⟨_, _, rfl, ⟨f, rfl, hf⟩, opening, rfl, ho⟩, hu⟩, hv⟩, semicolon, rfl, hs⟩, hw⟩, closing, rfl,
    hc⟩, hx⟩ := h
  refine ⟨f, opening :: (u ++ (v ++ semicolon :: (w ++ closing :: x))), by simp, hf,
    fun i => ?_⟩
  obtain ⟨initializer, j, hi⟩ := found_forInitializer hu i
  obtain ⟨condition, k, hd⟩ := found_expressionUnless .semicolon hv j
  obtain ⟨increment, l, hm⟩ := found_expressionUnless .rightParen hw k
  obtain ⟨body, m, hb⟩ := hx l
  exact ⟨_, m, .forStatement ho hi hd hs hm hc hb⟩

theorem found_ifStmt {w : List Token} (h : Pieces (rule .ifStmt) w) :
    NameFound .ifStmt w := by
  simp only [rule, append_eq, Pieces, pieces_one] at h
  obtain ⟨_, _, rfl, ⟨_, v, rfl, ⟨_, _, rfl, ⟨_, u, rfl, ⟨_, _, rfl, ⟨t, rfl, hi⟩, opening, rfl,
    ho⟩, hu⟩, closing, rfl, hc⟩, hv⟩, hw⟩ := h
  rcases hw with rfl | ⟨_, w, rfl, ⟨keyword, rfl, hk⟩, hw⟩
  · refine ⟨t, opening :: (u ++ closing :: v), by simp, hi, fun i => ?_⟩
    obtain ⟨condition, j, hd⟩ := hu i
    obtain ⟨thenBranch, k, ht⟩ := hv j
    exact ⟨_, k, .ifBare ho hd hc ht⟩
  · exact ⟨t, opening :: (u ++ closing :: (v ++ keyword :: w)), by simp, hi,
      found_ifElse ho hu hc hv hk hw⟩

theorem found_printStmt {w : List Token} (h : Pieces (rule .printStmt) w) :
    NameFound .printStmt w := by
  simp only [rule, append_eq, Pieces, pieces_one] at h
  obtain ⟨_, _, rfl, ⟨_, v, rfl, ⟨t, rfl, ht⟩, hv⟩, semicolon, rfl, hs⟩ := h
  refine ⟨t, _, rfl, ht, fun i => ?_⟩
  obtain ⟨e, j, he⟩ := hv i
  exact ⟨_, j, .printStatement he hs⟩

theorem found_returnStmt {w : List Token} (h : Pieces (rule .returnStmt) w) :
    NameFound .returnStmt w := by
  simp only [rule, append_eq, Pieces, pieces_one] at h
  obtain ⟨_, _, rfl, ⟨_, v, rfl, ⟨t, rfl, ht⟩, hv⟩, semicolon, rfl, hs⟩ := h
  refine ⟨t, _, rfl, ht, fun i => ?_⟩
  obtain ⟨o, j, ho⟩ := found_expressionUnless .semicolon hv i
  exact ⟨_, j, .returnStatement ho hs⟩

theorem found_whileStmt {w : List Token} (h : Pieces (rule .whileStmt) w) :
    NameFound .whileStmt w := by
  simp only [rule, append_eq, Pieces, pieces_one] at h
  obtain ⟨_, v, rfl, ⟨_, _, rfl, ⟨_, u, rfl, ⟨_, _, rfl, ⟨t, rfl, hw⟩, opening, rfl, ho⟩, hu⟩,
    closing, rfl, hc⟩, hv⟩ := h
  refine ⟨t, opening :: (u ++ closing :: v), by simp, hw, fun i => ?_⟩
  obtain ⟨condition, j, hd⟩ := hu i
  obtain ⟨body, k, hb⟩ := hv j
  exact ⟨_, k, .whileStatement ho hd hc hb⟩

theorem found_block {w : List Token} (h : Pieces (rule .block) w) :
    NameFound .block w := by
  simp only [rule, append_eq, Pieces, pieces_one] at h
  obtain ⟨_, _, rfl, ⟨_, _, rfl, ⟨t, rfl, ht⟩, ws, rfl, hws⟩, brace, rfl, hb⟩ := h
  refine ⟨t, _, rfl, ht, fun i => ?_⟩
  obtain ⟨body, j, h⟩ := found_declarations hws i
  exact ⟨body, j, .block h hb⟩

theorem found_parameters {w : List Token} (h : Pieces (rule .parameters) w) :
    NameFound .parameters w := by
  simp only [rule, append_eq, Pieces, pieces_one] at h
  obtain ⟨_, _, rfl, ⟨t, rfl, ht⟩, ws, rfl, hlen, hws⟩ := h
  refine found_paramsFrom ht (show 0 + ws.length < 255 by rw [maxEntries] at hlen; omega)
    fun u hu => ?_
  obtain ⟨_, _, rfl, ⟨comma, rfl, hc⟩, t, rfl, ht⟩ := hws u hu
  exact ⟨comma, t, rfl, hc, ht⟩

theorem found_assignment {w : List Token} (h : Pieces (rule .assignment) w) :
    NameFound .assignment w := by
  simp only [rule, append_eq, or_eq, Pieces, pieces_one] at h
  intro i
  rcases h with ⟨_, w, rfl, ⟨_, _, rfl, ⟨t, rfl, ht⟩, ⟨equals, rfl, heq⟩⟩, hw⟩ | h
  · obtain ⟨e, j, he⟩ := hw (i + 1)
    exact ⟨_, _, .assign ht heq he⟩
  · obtain ⟨e, j, he⟩ := h i
    exact ⟨e, j, .value he⟩

theorem found_unary {w : List Token} (h : Pieces (rule .unary) w) :
    NameFound .unary w := by
  simp only [rule, append_eq, or_eq, Pieces, pieces_one] at h
  intro i
  rcases h with ⟨_, w, rfl, ⟨t, rfl, ht⟩ | ⟨t, rfl, ht⟩, hw⟩ | h
  · obtain ⟨e, j, he⟩ := hw i
    exact ⟨_, j, .operator (by rw [ht]; rfl) he⟩
  · obtain ⟨e, j, he⟩ := hw i
    exact ⟨_, j, .operator (by rw [ht]; rfl) he⟩
  · exact h i

theorem found_call {w : List Token} (h : Pieces (rule .call) w) :
    NameFound .call w := by
  simp only [rule, append_eq, Pieces, pieces_one] at h
  obtain ⟨u, _, rfl, hu, ws, rfl, hws⟩ := h
  have hcalls : Found .callRest ws.flatten := by
    refine found_callRest ?_
    intro u hu
    obtain ⟨_, _, rfl, ⟨_, v, rfl, ⟨t, rfl, ht⟩, hv⟩, paren, rfl, hp⟩ := hws u hu
    refine ⟨t, v, paren, rfl, ht, hp, fun i => ?_⟩
    rcases hv with rfl | hv
    · exact ⟨[], i, .noArguments⟩
    · obtain ⟨args, j, ha⟩ := hv i
      exact ⟨args, j, .someArguments ha⟩
  intro i
  obtain ⟨e, j, he⟩ := hu i
  obtain ⟨calls, k, hc⟩ := hcalls j
  exact ⟨_, k, .call he hc⟩

theorem found_arguments {w : List Token} (h : Pieces (rule .arguments) w) :
    NameFound .arguments w := by
  simp only [rule, append_eq, Pieces, pieces_one] at h
  obtain ⟨u, _, rfl, hu, ws, rfl, hlen, hws⟩ := h
  refine found_argumentsFrom hu (show 0 + ws.length < 255 by rw [maxEntries] at hlen; omega)
    fun u hu => ?_
  obtain ⟨_, v, rfl, ⟨comma, rfl, hc⟩, hv⟩ := hws u hu
  exact ⟨comma, v, rfl, hc, hv⟩

theorem found_primary {w : List Token} (h : Pieces (rule .primary) w) :
    NameFound .primary w := by
  simp only [rule, append_eq, or_eq, Pieces, pieces_one] at h
  obtain ((((((⟨t, rfl, ht⟩ | ⟨t, rfl, ht⟩) | ⟨t, rfl, ht⟩) | ⟨t, rfl, ht⟩) | ⟨t, rfl, ht⟩) |
    ⟨t, rfl, ht⟩) | ⟨_, _, rfl, ⟨_, w, rfl, ⟨t, rfl, ht⟩, hw⟩, paren, rfl, hp⟩) := h
  · cases hk : t.kind with
    | number value => exact fun i => ⟨_, i, .constant (by rw [Token.constant?, hk])⟩
    | _ => rw [hk] at ht; exact absurd ht Bool.false_ne_true
  · cases hk : t.kind with
    | string text => exact fun i => ⟨_, i, .constant (by rw [Token.constant?, hk])⟩
    | _ => rw [hk] at ht; exact absurd ht Bool.false_ne_true
  · exact fun i => ⟨_, i, .constant (by rw [Token.constant?, ht])⟩
  · exact fun i => ⟨_, i, .constant (by rw [Token.constant?, ht])⟩
  · exact fun i => ⟨_, i, .constant (by rw [Token.constant?, ht])⟩
  · exact fun i => ⟨_, _, .name ht⟩
  · intro i
    obtain ⟨e, j, he⟩ := hw i
    exact ⟨_, j, .group ht he hp⟩

/-- Each name of the grammar is read, if the parts of its rule are. -/
theorem nameFound {n : Grammar.Name} {w : List Token} (h : Pieces (rule n) w) :
    NameFound n w := by
  cases n with
  | program => exact found_program h
  | declaration => exact found_declaration h
  | funDecl => exact found_funDecl h
  | varDecl => exact found_varDecl h
  | statement => exact found_statement h
  | exprStmt => exact found_exprStmt h
  | forStmt => exact found_forStmt h
  | ifStmt => exact found_ifStmt h
  | printStmt => exact found_printStmt h
  | returnStmt => exact found_returnStmt h
  | whileStmt => exact found_whileStmt h
  | block => exact found_block h
  | parameters => exact found_parameters h
  | expression => exact h
  | assignment => exact found_assignment h
  | logicOr => exact found_of_level (l := .disjunction) h
  | logicAnd => exact found_of_level (l := .conjunction) h
  | equality => exact found_of_level (l := .equality) h
  | comparison => exact found_of_level (l := .comparison) h
  | term => exact found_of_level (l := .sum) h
  | factor => exact found_of_level (l := .product) h
  | unary => exact found_unary h
  | call => exact found_call h
  | arguments => exact found_arguments h
  | primary => exact found_primary h

/-- Taken apart by its last step, a derivation leaves names that can be read. -/
theorem pieces_of_derives {p : Pattern} {w : List Token} (h : Derives p w) : Pieces p w := by
  induction h with
  | token h => exact ⟨_, rfl, h⟩
  | name _ ih => exact nameFound ih
  | seq _ _ ihp ihq => exact ⟨_, _, rfl, ihp, ihq⟩
  | left _ ih => exact .inl ih
  | right _ ih => exact .inr ih
  | absent => exact .inl rfl
  | present _ ih => exact .inr ih
  | manyNil => exact ⟨[], rfl, fun _ h => absurd h List.not_mem_nil⟩
  | manyCons _ _ ihp ihq =>
      obtain ⟨ws, rfl, hws⟩ := ihq
      exact ⟨_ :: ws, rfl, List.forall_mem_cons.2 ⟨ihp, hws⟩⟩
  | upToNil => exact ⟨[], rfl, Nat.zero_le _, fun _ h => absurd h List.not_mem_nil⟩
  | upToCons _ _ ihp ihq =>
      obtain ⟨ws, rfl, hlen, hws⟩ := ihq
      exact ⟨_ :: ws, rfl, Nat.succ_le_succ hlen, List.forall_mem_cons.2 ⟨ihp, hws⟩⟩

theorem sentence_iff_reads {w : List Token} (i : NodeId) :
    Sentence w ↔ ∃ body j, Reads (.declarations false) w i body j := by
  constructor
  · intro h
    obtain ⟨last, -, h⟩ := h
    obtain ⟨u, last', hw, hu⟩ : NameFound .program _ := pieces_of_derives h
    rw [(List.append_inj' hw rfl).1]
    exact hu i
  · intro h
    obtain ⟨body, j, h⟩ := h
    exact ⟨⟨.eof, "", 0⟩, rfl, .name (.seq h.derived (derives_one rfl))⟩

end Lox.Parse

namespace Lox.Parsed

/-- The parser finds no fault just in the sentences of the grammar. -/
theorem faults_eq_nil_iff_sentence (tokens : List Token) (firstId : NodeId) :
    (ofTokens tokens firstId).faults = [] ↔
      Grammar.Sentence (tokens.takeWhile (·.kind ≠ .eof)) :=
  (faults_eq_nil_iff tokens firstId).trans (Parse.sentence_iff_reads firstId).symm

end Lox.Parsed
