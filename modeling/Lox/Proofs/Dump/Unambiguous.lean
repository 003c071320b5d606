import Lox.Proofs.Dump.Recovered
import Lox.Proofs.Listing
import Lox.Proofs.ReadBack
import Lox.Proofs.Sequel

/-!
# No two programs share a dump

Of a source without strings every token is a word, parentheses apart, and a number is dumped as
digits with a point and digits behind it, which is again a numeral with its value. So the tokens
and constants of what is read without a fault are words, and its dump gives back all that the
words tell.
-/

namespace Lox

open Parse
open Bracketed (word list Word)

/-! ## What is read is spelled -/

/-- A token that a tree without strings can be read from. -/
structure Token.Fit (t : Token) : Prop where
  spelled : t.kind ≠ .leftParen → t.kind ≠ .rightParen → t.Spelled
  closing : t.kind = .rightParen → t.placeless = Bracketed.closing
  returns : t.kind = .kwReturn → t.placeless = Construct.ret.token
  constant : ∀ value, t.constant? = some value → Word value.token

namespace Token.Fit

variable {t : Token} (ht : t.Fit)
include ht

theorem identifier (h : t.kind = .identifier) : t.Spelled :=
  ht.spelled (by simp [h]) (by simp [h])

theorem unary (h : isUnary t.kind = true) : t.Spelled := by
  refine ht.spelled ?_ ?_ <;> intro hkind <;> rw [hkind] at h <;> exact absurd h (by decide)

theorem operator {l : Level} (h : l.has t.kind = true) : t.Spelled := by
  refine ht.spelled ?_ ?_ <;> intro hkind <;> rw [hkind] at h <;>
    cases l <;> exact absurd h (by decide)

end Token.Fit

namespace Parse

/-- What is said of the trees of a phrase once their loops are written out. -/
def Phrase.Spelled : (p : Phrase) → p.Tree → Prop
  | .expression, e | .level _, e | .operand _, e | .unary, e | .primary, e => e.Spelled
  | .levelRest l, rest =>
    ∀ r ∈ rest, l.has r.1.kind = true ∧ r.1.Spelled ∧ r.2.Spelled
  | .callRest, calls =>
    ∀ c ∈ calls, c.2.placeless = Bracketed.closing ∧ Expr.SpelledAll c.1
  | .arguments, es | .argumentsFrom _, es => Expr.SpelledAll es
  | .paramsFrom _, ts => ∀ t ∈ ts, t.Spelled
  | .expressionUnless _, o => Expr.SpelledOptional o
  | .returnStatement keyword, s =>
    keyword.placeless = Construct.ret.token → s.desugar.Spelled
  | .varDeclaration, s | .expressionStatement, s | .printStatement, s | .declared, s
  | .function, s | .statement, s | .forStatement, s | .ifStatement, s | .whileStatement, s =>
    s.desugar.Spelled
  | .forInitializer, o | .declaration, o => Stmt.SpelledOptional (Stmt.desugarOptional o)
  | .block, body | .declarations _, body => Stmt.SpelledAll (Stmt.desugarAll body)

theorem Level.spelled_node {l : Level} {left right : Expr} {operator : Token}
    (hkind : l.has operator.kind = true) (ho : operator.Spelled) (hl : left.Spelled)
    (hr : right.Spelled) : (l.node left operator right).Spelled := by
  cases l <;> simp only [Level.has, Bool.or_eq_true, decide_eq_true_eq] at hkind
  case disjunction => exact ⟨.inr hkind, ho, hl, hr⟩
  case conjunction => exact ⟨.inl hkind, ho, hl, hr⟩
  all_goals
    refine ⟨?_, ho, hl, hr⟩
    simp only [Token.Kind.binary, List.mem_cons]
    tauto

theorem Level.spelled_build {l : Level} {left : Expr} (hl : left.Spelled)
    {rest : List (Token × Expr)}
    (hr : ∀ r ∈ rest, l.has r.1.kind = true ∧ r.1.Spelled ∧ r.2.Spelled) :
    (l.build left rest).Spelled := by
  induction rest generalizing left with
  | nil => exact hl
  | cons r rest ih =>
      obtain ⟨⟨hkind, ho, hright⟩, hrest⟩ := List.forall_mem_cons.mp hr
      exact ih (spelled_node hkind ho hl hright) hrest

theorem spelled_buildCalls {callee : Expr} (hc : callee.Spelled)
    {calls : List (List Expr × Token)}
    (h : ∀ c ∈ calls, c.2.placeless = Bracketed.closing ∧ Expr.SpelledAll c.1) :
    (buildCalls callee calls).Spelled := by
  induction calls generalizing callee with
  | nil => exact hc
  | cons c calls ih =>
      obtain ⟨hfirst, hcalls⟩ := List.forall_mem_cons.mp h
      have hcall : (Expr.call callee c.2 c.1).Spelled := ⟨hfirst.1, hc, hfirst.2⟩
      exact ih hcall hcalls

theorem spelled_withIncrement {body : Stmt} (h : body.Spelled) {increment : Option Expr}
    (hi : Expr.SpelledOptional increment) : (body.withIncrement increment).Spelled := by
  cases increment with
  | none => exact h
  | some _ => exact ⟨h, hi, trivial⟩

theorem spelled_withInitializer {loop : Stmt} (h : loop.Spelled) {initializer : Option Stmt}
    (hi : Stmt.SpelledOptional initializer) : (loop.withInitializer initializer).Spelled := by
  cases initializer with
  | none => exact h
  | some _ => exact ⟨hi, h, trivial⟩

theorem spelled_loopCondition {condition : Option Expr} (h : Expr.SpelledOptional condition) :
    (Stmt.loopCondition condition).Spelled := by
  cases condition with
  | none => exact Literal.word_bool true
  | some _ => exact h

/-- What is read from such tokens is spelled once its loops are written out. -/
theorem Reads.spelled {p : Phrase} {w : List Token} {i j : Nat} {a : p.Tree}
    (h : Reads p w i a j) (hw : ∀ t ∈ w, t.Fit) : p.Spelled a := by
  induction h with
  | value _ ih | tighter _ _ ih | tightest _ _ ih | someArguments _ ih | someExpression _ ih
  | valueInitializer _ ih | declaration _ ih | statementDeclared _ ih | statementPlain _ ih =>
      exact ih hw
  | levelEnd | callEnd => exact List.forall_mem_nil _
  | noArguments | noExpression | noInitializer | declarationsEnd => trivial
  | assign ht _ _ ih =>
      simp only [List.forall_mem_cons] at hw
      exact ⟨hw.1.identifier ht, ih hw.2.2⟩
  | level _ _ ih ih' =>
      obtain ⟨hu, hv⟩ := List.forall_mem_append.mp hw
      exact Level.spelled_build (ih hu) (ih' hv)
  | levelMore ho _ _ ih ih' =>
      simp only [List.forall_mem_cons, List.forall_mem_append] at hw
      exact List.forall_mem_cons.mpr ⟨⟨ho, hw.1.operator ho, ih hw.2.1⟩, ih' hw.2.2⟩
  | operator ht _ ih =>
      simp only [List.forall_mem_cons] at hw
      exact ⟨ht, hw.1.unary ht, ih hw.2⟩
  | call _ _ ih ih' =>
      obtain ⟨hu, hv⟩ := List.forall_mem_append.mp hw
      exact spelled_buildCalls (ih hu) (ih' hv)
  | callMore _ _ hp _ ih ih' =>
      simp only [List.forall_mem_cons, List.forall_mem_append] at hw
      obtain ⟨-, hu, hparen, hv⟩ := hw
      exact List.forall_mem_cons.mpr ⟨⟨hparen.closing hp, ih hu⟩, ih' hv⟩
  | lastArgument _ _ ih => exact ⟨ih hw, trivial⟩
  | moreArguments _ _ _ _ ih ih' =>
      simp only [List.forall_mem_cons, List.forall_mem_append] at hw
      exact ⟨ih hw.1, ih' hw.2.2⟩
  | constant ht => exact (List.forall_mem_singleton.mp hw).constant _ ht
  | name ht => exact ⟨ht, (List.forall_mem_singleton.mp hw).identifier ht⟩
  | group _ _ _ ih =>
      simp only [List.forall_mem_cons, List.forall_mem_append] at hw
      exact ih hw.2.1
  | lastParam _ ht => exact fun t hmem => (hw t hmem).identifier (List.mem_singleton.mp hmem ▸ ht)
  | moreParams _ ht _ _ ih =>
      simp only [List.forall_mem_cons] at hw
      exact List.forall_mem_cons.mpr ⟨hw.1.identifier ht, ih hw.2.2⟩
  | varBare ht _ =>
      simp only [List.forall_mem_cons] at hw
      exact ⟨hw.1.identifier ht, trivial⟩
  | varValue ht _ _ _ ih =>
      simp only [List.forall_mem_cons, List.forall_mem_append] at hw
      exact ⟨hw.1.identifier ht, ih hw.2.2.1⟩
  | expressionStatement _ _ ih | printStatement _ _ ih | block _ _ ih =>
      exact ih (List.forall_mem_append.mp hw).1
  | returnStatement _ _ ih => exact fun hk => ⟨hk, ih (List.forall_mem_append.mp hw).1⟩
  | varInitializer _ _ ih | functionDeclared _ _ ih | varDeclared _ _ ih | statementFor _ _ ih
  | statementIf _ _ ih | statementPrint _ _ ih | statementWhile _ _ ih | statementBlock _ _ ih =>
      exact ih (List.forall_mem_cons.mp hw).2
  | statementReturn ht _ ih =>
      obtain ⟨hkeyword, hw⟩ := List.forall_mem_cons.mp hw
      exact ih hw (hkeyword.returns ht)
  | functionBare hn _ _ _ _ ih =>
      simp only [List.forall_mem_cons] at hw
      exact ⟨hw.1.identifier hn, List.forall_mem_nil _, ih hw.2.2.2.2⟩
  | functionParams hn _ _ _ _ _ ih ih' =>
      simp only [List.forall_mem_cons, List.forall_mem_append] at hw
      exact ⟨hw.1.identifier hn, ih hw.2.2.1, ih' hw.2.2.2.2.2⟩
  | forStatement _ _ _ _ _ _ _ ih₁ ih₂ ih₃ ih₄ =>
      simp only [List.forall_mem_cons, List.forall_mem_append] at hw
      obtain ⟨-, h₁, h₂, -, h₃, -, h₄⟩ := hw
      have hround := spelled_withIncrement (ih₄ h₄) (ih₃ h₃)
      have hloop : (Stmt.whileLoop _ _).Spelled := ⟨spelled_loopCondition (ih₂ h₂), hround⟩
      exact spelled_withInitializer hloop (ih₁ h₁)
  | ifBare _ _ _ _ ih ih' =>
      simp only [List.forall_mem_cons, List.forall_mem_append] at hw
      exact ⟨ih hw.2.1, ih' hw.2.2.2, trivial⟩
  | ifElse _ _ _ _ _ _ _ ih₁ ih₂ ih₃ =>
      simp only [List.forall_mem_cons, List.forall_mem_append] at hw
      obtain ⟨-, h₁, -, h₂, -, h₃⟩ := hw
      exact ⟨ih₁ h₁, ih₂ h₂, ih₃ h₃⟩
  | whileStatement _ _ _ _ ih ih' =>
      simp only [List.forall_mem_cons, List.forall_mem_append] at hw
      exact ⟨ih hw.2.1, ih' hw.2.2.2⟩
  | declarationsMore _ _ ih ih' =>
      obtain ⟨hu, hv⟩ := List.forall_mem_append.mp hw
      exact ⟨ih hu, ih' hv⟩

end Parse

/-! ## Numbers in the dump -/

section Numbers

open Number

/-- A whole number is not changed by a point and a zero behind it. -/
theorem Number.writes_pointed (n : Nat) : Writes (numeral n ++ ['.', '0']) (n * 10) 10 := by
  have hsome : ['0'] ≠ [] := List.cons_ne_nil _ _
  refine ⟨numeral n, ['0'], (if_neg hsome).symm, Nat.toDigits_ne_nil, ?_, ?_⟩
  · exact List.forall_mem_append.mpr ⟨isDigit_numeral, List.forall_mem_singleton.mpr rfl⟩
  · have hvalue : Nat.ofDigitChars 10 (numeral n ++ ['0']) 0 = n * 10 := by
      rw [Nat.ofDigitChars_append, numeral, Nat.ofDigitChars_ten_toDigits, Nat.mul_comm]
      rfl
    rw [ofNumeral, hvalue]
    rfl

theorem Number.Magnitude.nearest_pointed {x : Magnitude} (hx : x.Canonical)
    (h : x.isWhole = true) : nearest (x.wholePart * 10) 10 = x := by
  have hmod : x.units % unitsPerOne = 0 := of_decide_eq_true h
  refine hx.nearest_eq (Nat.succ_pos 9) ?_
  rw [wholePart, Nat.mul_right_comm, Nat.div_mul_cancel (Nat.dvd_of_mod_eq_zero hmod)]

/-- A finite number without a sign is dumped as a numeral that stands for it. -/
theorem Number.lexeme_dumpText {v : Float} (h : v.isFinite = true)
    (hv : isNegative v = false) : Token.Lexeme (dumpText v).toList (.number v) := by
  have hcanonical := Magnitude.canonical_ofBits (lowBits v)
  have hbits := Magnitude.toBits_ofBits (lowBits_lt h)
  have hvalue := eq_ofBits_lowBits h
  rw [hv, if_neg Bool.false_ne_true] at hvalue
  have htext : ∃ num den, (nearest num den).toBits = lowBits v ∧
      Writes (dumpText v).toList num den := by
    rw [dumpText, shape_of_isFinite h, hv]
    dsimp only
    rw [String.toList_ofList, show sign false = [] from rfl, List.nil_append]
    split
    · rename_i hwhole
      refine ⟨_, _, ?_, writes_pointed _⟩
      rw [Magnitude.nearest_pointed hcanonical hwhole, hbits]
    · refine ⟨_, _, ?_, writes_positional _⟩
      exact (of_decide_eq_true (hcanonical.readsBack_shortest .up)).trans hbits
  obtain ⟨num, den, hlow, whole, fraction, htext, hne, hdigits, hread⟩ := htext
  have hlexeme := Token.lexeme_written hne hdigits
  rw [hread, ofFraction_eq_ofBits hlow, ← hvalue] at hlexeme
  rwa [htext]

end Numbers

/-! ## Sources without strings -/

namespace Token

/-- All kinds but strings and numbers that are not finite. -/
def Kind.dumps : Kind → Bool
  | .string _ => false
  | .number value => value.isFinite
  | _ => true

/-- What is neither a string nor a parenthesis is a word. -/
theorem Lexeme.word {t : Token} (h : Lexeme t.lexeme.toList t.kind)
    (hquote : ∀ text, t.kind ≠ .string text) (ho : t.kind ≠ .leftParen)
    (hc : t.kind ≠ .rightParen) (hline : t.line = 0) : Word t := by
  refine ⟨h, fun c hmem => ?_, hline⟩
  rcases h.chars hmem with hfirst | hoperator | hdigit | rfl | hword
  · obtain ⟨rest, htext⟩ := List.head?_eq_some_iff.mp hfirst
    rw [htext] at h
    obtain ⟨body, -, -, hstring⟩ := h.of_quote rfl
    exact absurd hstring (hquote _)
  · have hnone : ∀ o ∈ operators, o.2 = .leftParen ∨ o.2 = .rightParen ∨
        o.1.all (fun c => c != ' ' && c != '(' && c != ')') = true := by decide
    rcases hnone _ hoperator with hkind | hkind | hall
    · exact absurd hkind ho
    · exact absurd hkind hc
    · exact Bracketed.unbroken_of_all hall c hmem
  · refine ⟨?_, ?_, ?_⟩ <;> rintro rfl <;> exact absurd hdigit (by decide)
  · decide
  · refine ⟨?_, ?_, ?_⟩ <;> rintro rfl <;> exact absurd hword (by decide)

theorem Lexeme.closing {text : List Char} (h : Lexeme text .rightParen) :
    text = [')'] := by
  cases h with
  | operator h =>
      have hone : ∀ o ∈ operators, o.2 = .rightParen → o.1 = [')'] := by decide
      exact hone _ h rfl
  | keyword h => exact absurd h (by simp [Kind.keywords])

theorem Lexeme.returns {text : List Char} (h : Lexeme text .kwReturn) :
    text = "return".toList := by
  cases h with
  | operator h => exact absurd h (by simp [operators])
  | keyword h =>
      have hone : ∀ w ∈ Kind.keywords, w.2 = .kwReturn → w.1 = "return" := by decide
      rw [← hone _ h rfl, String.toList_ofList]

theorem placeless_eq {t : Token} {kind : Kind} {text : String} (hkind : t.kind = kind)
    (htext : t.lexeme.toList = text.toList) : t.placeless = ⟨kind, text, 0⟩ := by
  rw [placeless, hkind, String.toList_inj.mp htext]

theorem Lexeme.fit {t : Token} (h : Lexeme t.lexeme.toList t.kind) (ht : t.kind.dumps = true) :
    t.Fit where
  spelled ho hc := by
    refine Lexeme.word (t := t.placeless) h (fun text hkind => ?_) ho hc rfl
    rw [show t.kind = .string text from hkind] at ht
    cases ht
  closing hkind := by
    rw [hkind] at h
    exact placeless_eq hkind h.closing
  returns hkind := by
    rw [hkind] at h
    exact placeless_eq hkind h.returns
  constant value hvalue := by
    rw [constant?] at hvalue
    split at hvalue <;> cases hvalue
    · rename_i text hkind
      rw [hkind] at ht
      cases ht
    · rename_i v hkind
      rw [hkind] at h ht
      exact Lexeme.word (Number.lexeme_dumpText ht h.isNegative) nofun nofun nofun rfl
    · exact Literal.word_bool true
    · exact Literal.word_bool false
    · exact Literal.word_nil

end Token

/-! ## Programs with the same dump -/

namespace Parsed

open Session (tokensOf readable_tokensOf)

variable {source source' : String} {i i' : NodeId}

/-- What is read from a source without strings and without infinite numbers is spelled. -/
theorem spelled (hclean : (ofTokens (tokensOf source) i).faults = [])
    (hdumps : ∀ t ∈ tokensOf source, t.kind.dumps = true) :
    Stmt.SpelledAll (ofTokens (tokensOf source) i).desugar.statements := by
  have hread := (ofTokens_iff_reads _ _ (ofTokens (tokensOf source) i).statements
    (ofTokens (tokensOf source) i).nextId).mp (by rw [← hclean])
  rw [readable_tokensOf] at hread
  refine hread.spelled fun t ht => (Token.lexeme_of_mem_words ht).fit (hdumps t ?_)
  rw [tokensOf, Token.tokens_scan]
  exact List.mem_append_left _ ht

/-- Two programs that are in order, written without strings and without infinite numbers, have
the same dump just if they are the same but for the lines of their tokens, the numbers of their
nodes and values that are left out where the other has `nil`. -/
theorem dump_eq_iff (hclean : (ofTokens (tokensOf source) i).faults = [])
    (hclean' : (ofTokens (tokensOf source') i').faults = [])
    (hdumps : ∀ t ∈ tokensOf source, t.kind.dumps = true)
    (hdumps' : ∀ t ∈ tokensOf source', t.kind.dumps = true) :
    Stmt.dumpAll (ofTokens (tokensOf source) i).desugar.statements =
        Stmt.dumpAll (ofTokens (tokensOf source') i').desugar.statements ↔
      Stmt.essenceAll (ofTokens (tokensOf source) i).desugar.statements =
        Stmt.essenceAll (ofTokens (tokensOf source') i').desugar.statements :=
  Stmt.dumpAll_eq_iff (spelled hclean hdumps) (spelled hclean' hdumps')

/-- A variable with the name of a construct, a value left out, a number written in two ways. -/
theorem dump_eq_group :
    Stmt.essenceAll (ofTokens (tokensOf "var group; group(-(1));") 0).desugar.statements =
      Stmt.essenceAll
        (ofTokens (tokensOf "var group = nil;\ngroup(-(1.0));") 7).desugar.statements :=
  (dump_eq_iff (by decide +kernel) (by decide +kernel) (by decide +kernel)
    (by decide +kernel)).mp (by decide +kernel)

end Parsed

end Lox
