import Lox.Proofs.Moved

/-!
# Reading further down in a source

What tokens stand for depends on their lines and on the first number only in that these
show up in the tree. Besides, a tree has no tokens but those it was read from, and two
lists of declarations can be read as one.
-/

namespace Lox.Parse

section Moved

variable (k d : Nat)

/-- A phrase that carries a token carries it along. -/
def Phrase.moved : Phrase → Phrase
  | .returnStatement keyword => .returnStatement (keyword.later k)
  | p => p

/-- The tree of a phrase, moved. -/
def Phrase.movedTree : (p : Phrase) → p.Tree → (p.moved k).Tree
  | .expression, e | .level _, e | .operand _, e | .unary, e | .primary, e => Expr.moved k d e
  | .levelRest _, rest => rest.map fun r => (r.1.later k, r.2.moved k d)
  | .callRest, calls => calls.map fun c => (Expr.movedAll k d c.1, c.2.later k)
  | .arguments, es | .argumentsFrom _, es => Expr.movedAll k d es
  | .paramsFrom _, ts => ts.map (Token.later k)
  | .expressionUnless _, o => Expr.movedOptional k d o
  | .forInitializer, o | .declaration, o => Stmt.movedOptional k d o
  | .block, body | .declarations _, body => Stmt.movedAll k d body
  | .varDeclaration, s | .expressionStatement, s | .printStatement, s | .returnStatement _, s
  | .declared, s | .function, s | .statement, s | .forStatement, s | .ifStatement, s
  | .whileStatement, s => Stmt.moved k d s

theorem Level.moved_build (l : Level) (left : Expr) (rest : List (Token × Expr)) :
    (l.build left rest).moved k d =
      l.build (left.moved k d) (rest.map fun r => (r.1.later k, r.2.moved k d)) := by
  induction rest generalizing left with
  | nil => rfl
  | cons r rest ih =>
      have hnode : (l.node left r.1 r.2).moved k d =
          l.node (left.moved k d) (r.1.later k) (r.2.moved k d) := by
        cases l <;> rfl
      show (l.build (l.node left r.1 r.2) rest).moved k d = _
      rw [ih, hnode]
      rfl

theorem moved_buildCalls (callee : Expr) (calls : List (List Expr × Token)) :
    (buildCalls callee calls).moved k d =
      buildCalls (callee.moved k d)
        (calls.map fun c => (Expr.movedAll k d c.1, c.2.later k)) := by
  induction calls generalizing callee with
  | nil => rfl
  | cons c calls ih => exact ih _

theorem dangling_moved (s : Stmt) : (s.moved k d).dangling = s.dangling := by
  match s with
  | .ifThen _ _ none => rfl
  | .ifThen _ _ (some elseBranch) => exact dangling_moved elseBranch
  | .whileLoop _ body | .forLoop _ _ _ body => exact dangling_moved body
  | .expression _ | .print _ | .var _ _ | .block _ | .function _ _ _ | .ret _ _ => rfl

variable {k d}

/-- The same tokens further down stand for the same tree further down. -/
theorem Reads.moved {p : Phrase} {w : List Token} {i j : Nat} {a : p.Tree}
    (h : Reads p w i a j) :
    Reads (p.moved k) (w.map (Token.later k)) (i + d) (p.movedTree k d a) (j + d) := by
  induction h with
  | value _ ih => exact .value ih
  | @assign t equals w e i j ht heq _ ih =>
      rw [Nat.add_right_comm] at ih ⊢
      exact .assign ht heq ih
  | level _ _ ih ih' =>
      show Reads (.level _) _ _ (Expr.moved k d (Level.build _ _ _)) _
      rw [Level.moved_build, List.map_append]
      exact .level ih ih'
  | levelEnd => exact .levelEnd
  | levelMore ho _ _ ih ih' =>
      simp only [List.map_cons, List.map_append]
      exact .levelMore ho ih ih'
  | tighter hl _ ih => exact .tighter hl ih
  | tightest hl _ ih => exact .tightest hl ih
  | operator ht _ ih => exact .operator ht ih
  | call _ _ ih ih' =>
      show Reads .unary _ _ (Expr.moved k d (buildCalls _ _)) _
      rw [moved_buildCalls, List.map_append]
      exact .call ih ih'
  | callEnd => exact .callEnd
  | callMore ht _ hp _ ih ih' =>
      simp only [List.map_cons, List.map_append]
      exact .callMore ht ih hp ih'
  | noArguments => exact .noArguments
  | someArguments _ ih => exact .someArguments ih
  | lastArgument hn _ ih => exact .lastArgument hn ih
  | moreArguments hn _ hc _ ih ih' =>
      simp only [List.map_cons, List.map_append]
      exact .moreArguments hn ih hc ih'
  | constant ht => exact .constant ht
  | name ht =>
      rw [Nat.add_right_comm]
      exact .name ht
  | group ht _ hp ih =>
      simp only [List.map_cons, List.map_append]
      exact .group ht ih hp
  | lastParam hn ht => exact .lastParam hn ht
  | moreParams hn ht hc _ ih => exact .moreParams hn ht hc ih
  | noExpression => exact .noExpression
  | someExpression _ ih => exact .someExpression ih
  | varBare ht hs => exact .varBare ht hs
  | varValue ht heq _ hs ih =>
      simp only [List.map_cons, List.map_append]
      exact .varValue ht heq ih hs
  | expressionStatement _ hs ih =>
      simp only [List.map_cons, List.map_append]
      exact .expressionStatement ih hs
  | printStatement _ hs ih =>
      simp only [List.map_cons, List.map_append]
      exact .printStatement ih hs
  | returnStatement _ hs ih =>
      simp only [List.map_cons, List.map_append]
      exact .returnStatement ih hs
  | noInitializer hs => exact .noInitializer hs
  | varInitializer ht _ ih => exact .varInitializer ht ih
  | valueInitializer _ ih => exact .valueInitializer ih
  | declaration _ ih => exact .declaration ih
  | functionDeclared ht _ ih => exact .functionDeclared ht ih
  | varDeclared ht _ ih => exact .varDeclared ht ih
  | statementDeclared _ ih => exact .statementDeclared ih
  | functionBare hn ho hc hb _ ih => exact .functionBare hn ho hc hb ih
  | functionParams hn ho _ hc hb _ ih ih' =>
      simp only [List.map_cons, List.map_append]
      exact .functionParams hn ho ih hc hb ih'
  | statementPlain _ ih => exact .statementPlain ih
  | statementFor ht _ ih => exact .statementFor ht ih
  | statementIf ht _ ih => exact .statementIf ht ih
  | statementPrint ht _ ih => exact .statementPrint ht ih
  | statementReturn ht _ ih => exact .statementReturn ht ih
  | statementWhile ht _ ih => exact .statementWhile ht ih
  | statementBlock ht _ ih => exact .statementBlock ht ih
  | forStatement ho _ _ hs _ hc _ ih₁ ih₂ ih₃ ih₄ =>
      simp only [List.map_cons, List.map_append]
      exact .forStatement ho ih₁ ih₂ hs ih₃ hc ih₄
  | ifBare ho _ hc _ ih ih' =>
      simp only [List.map_cons, List.map_append]
      exact .ifBare ho ih hc ih'
  | ifElse ho _ hc _ hd hk _ ih₁ ih₂ ih₃ =>
      simp only [List.map_cons, List.map_append]
      exact .ifElse ho ih₁ hc ih₂ ((dangling_moved k d _).trans hd) hk ih₃
  | whileStatement ho _ hc _ ih ih' =>
      simp only [List.map_cons, List.map_append]
      exact .whileStatement ho ih hc ih'
  | block _ hb ih =>
      simp only [List.map_cons, List.map_append]
      exact .block ih hb
  | declarationsEnd => exact .declarationsEnd
  | declarationsMore _ _ ih ih' =>
      rw [List.map_append]
      exact .declarationsMore ih ih'

end Moved

section From

variable {nodes : NodeId → Prop} {tokens : Token → Prop}

/-- Where the nodes and tokens of a tree of a phrase are from. -/
def Phrase.From (nodes : NodeId → Prop) (tokens : Token → Prop) : (p : Phrase) → p.Tree → Prop
  | .expression, e | .level _, e | .operand _, e | .unary, e | .primary, e =>
    Expr.From nodes tokens e
  | .levelRest _, rest => ∀ r ∈ rest, tokens r.1 ∧ r.2.From nodes tokens
  | .callRest, calls => ∀ c ∈ calls, Expr.FromAll nodes tokens c.1 ∧ tokens c.2
  | .arguments, es | .argumentsFrom _, es => Expr.FromAll nodes tokens es
  | .paramsFrom _, ts => ∀ t ∈ ts, tokens t
  | .expressionUnless _, o => Expr.FromOptional nodes tokens o
  | .forInitializer, o | .declaration, o => Stmt.FromOptional nodes tokens o
  | .block, body | .declarations _, body => Stmt.FromAll nodes tokens body
  | .returnStatement keyword, s => tokens keyword → Stmt.From nodes tokens s
  | .varDeclaration, s | .expressionStatement, s | .printStatement, s | .declared, s
  | .function, s | .statement, s | .forStatement, s | .ifStatement, s | .whileStatement, s =>
    Stmt.From nodes tokens s

theorem Level.from_build (l : Level) {left : Expr} {rest : List (Token × Expr)}
    (hl : left.From nodes tokens) (hr : ∀ r ∈ rest, tokens r.1 ∧ r.2.From nodes tokens) :
    (l.build left rest).From nodes tokens := by
  induction rest generalizing left with
  | nil => exact hl
  | cons r rest ih =>
      obtain ⟨⟨ho, he⟩, hrest⟩ := List.forall_mem_cons.mp hr
      refine ih ?_ hrest
      cases l <;> exact ⟨hl, ho, he⟩

theorem from_buildCalls {callee : Expr} {calls : List (List Expr × Token)}
    (hc : callee.From nodes tokens)
    (ha : ∀ c ∈ calls, Expr.FromAll nodes tokens c.1 ∧ tokens c.2) :
    (buildCalls callee calls).From nodes tokens := by
  induction calls generalizing callee with
  | nil => exact hc
  | cons c calls ih =>
      obtain ⟨⟨he, hp⟩, hcalls⟩ := List.forall_mem_cons.mp ha
      exact ih ⟨hc, hp, he⟩ hcalls

/-- All numbers from one up to another are of a sort. -/
def Covers (nodes : NodeId → Prop) (i j : Nat) : Prop := ∀ id, i ≤ id → id < j → nodes id

theorem Covers.split {i j k : Nat} (h : Covers nodes i k) (hij : i ≤ j) (hjk : j ≤ k) :
    Covers nodes i j ∧ Covers nodes j k :=
  ⟨fun id hi hj => h id hi (Nat.lt_of_lt_of_le hj hjk),
    fun id hj hk => h id (Nat.le_trans hij hj) hk⟩

/-- The nodes of a tree have the numbers given out for it, and its tokens are among those
that it was read from. -/
theorem Reads.from {p : Phrase} {w : List Token} {i j : Nat} {a : p.Tree} (h : Reads p w i a j)
    (hn : Covers nodes i j) (ht : ∀ t ∈ w, tokens t) : p.From nodes tokens a := by
  induction h with
  | value _ ih | tighter _ _ ih | tightest _ _ ih | someArguments _ ih | someExpression _ ih
  | valueInitializer _ ih | declaration _ ih | statementDeclared _ ih | statementPlain _ ih =>
      exact ih hn ht
  | levelEnd | callEnd => exact fun _ h => by cases h
  | noArguments | constant | noExpression | noInitializer | declarationsEnd => trivial
  | lastParam => exact ht
  | level he hr ih ih' =>
      obtain ⟨hn, hn'⟩ := hn.split he.spans.le hr.spans.le
      obtain ⟨ht, ht'⟩ := List.forall_mem_append.mp ht
      exact Level.from_build _ (ih hn ht) (ih' hn' ht')
  | call he hr ih ih' =>
      obtain ⟨hn, hn'⟩ := hn.split he.spans.le hr.spans.le
      obtain ⟨ht, ht'⟩ := List.forall_mem_append.mp ht
      exact from_buildCalls (ih hn ht) (ih' hn' ht')
  | declarationsMore he hr ih ih' =>
      obtain ⟨hn, hn'⟩ := hn.split he.spans.le hr.spans.le
      obtain ⟨ht, ht'⟩ := List.forall_mem_append.mp ht
      exact ⟨ih hn ht, ih' hn' ht'⟩
  | assign _ _ h ih =>
      have hle := h.spans.le
      simp only [List.forall_mem_cons] at ht
      refine ⟨hn _ (by omega) (Nat.lt_succ_self _), ht.1, ih ?_ ht.2.2⟩
      exact fun id hi hj => hn id (by omega) (by omega)
  | name =>
      exact ⟨hn _ (Nat.le_refl _) (Nat.lt_succ_self _), ht _ (List.mem_cons_self ..)⟩
  | levelMore _ he hr ih ih' =>
      obtain ⟨hn, hn'⟩ := hn.split he.spans.le hr.spans.le
      simp only [List.forall_mem_cons, List.forall_mem_append] at ht
      exact List.forall_mem_cons.mpr ⟨⟨ht.1, ih hn ht.2.1⟩, ih' hn' ht.2.2⟩
  | callMore _ ha _ hc ih ih' =>
      obtain ⟨hn, hn'⟩ := hn.split ha.spans.le hc.spans.le
      simp only [List.forall_mem_cons, List.forall_mem_append] at ht
      exact List.forall_mem_cons.mpr ⟨⟨ih hn ht.2.1, ht.2.2.1⟩, ih' hn' ht.2.2.2⟩
  | lastArgument _ _ ih => exact ⟨ih hn ht, trivial⟩
  | moreArguments _ he _ hes ih ih' =>
      obtain ⟨hn, hn'⟩ := hn.split he.spans.le hes.spans.le
      simp only [List.forall_mem_cons, List.forall_mem_append] at ht
      exact ⟨ih hn ht.1, ih' hn' ht.2.2⟩
  | moreParams _ _ _ _ ih =>
      simp only [List.forall_mem_cons] at ht
      exact List.forall_mem_cons.mpr ⟨ht.1, ih hn ht.2.2⟩
  | varBare => exact ⟨ht _ (List.mem_cons_self ..), trivial⟩
  | operator _ _ ih | varInitializer _ _ ih | functionDeclared _ _ ih | varDeclared _ _ ih
  | statementFor _ _ ih | statementIf _ _ ih | statementPrint _ _ ih | statementWhile _ _ ih
  | statementBlock _ _ ih =>
      simp only [List.forall_mem_cons] at ht
      first | exact ih hn ht.2 | exact ⟨ht.1, ih hn ht.2⟩
  | statementReturn _ _ ih =>
      simp only [List.forall_mem_cons] at ht
      exact ih hn ht.2 ht.1
  | group _ _ _ ih =>
      simp only [List.forall_mem_cons, List.forall_mem_append] at ht
      exact ih hn ht.2.1
  | varValue _ _ _ _ ih =>
      simp only [List.forall_mem_cons, List.forall_mem_append] at ht
      exact ⟨ht.1, ih hn ht.2.2.1⟩
  | expressionStatement _ _ ih | printStatement _ _ ih | block _ _ ih =>
      exact ih hn (List.forall_mem_append.mp ht).1
  | returnStatement _ _ ih => exact fun hk => ⟨hk, ih hn (List.forall_mem_append.mp ht).1⟩
  | functionBare _ _ _ _ _ ih =>
      simp only [List.forall_mem_cons] at ht
      exact ⟨ht.1, (fun _ h => by cases h), ih hn ht.2.2.2.2⟩
  | functionParams _ _ hp _ _ hb ih ih' =>
      obtain ⟨hn, hn'⟩ := hn.split hp.spans.le hb.spans.le
      simp only [List.forall_mem_cons, List.forall_mem_append] at ht
      exact ⟨ht.1, ih hn ht.2.2.1, ih' hn' ht.2.2.2.2.2⟩
  | forStatement _ hi hd _ hm _ hb ih₁ ih₂ ih₃ ih₄ =>
      have hle := hd.spans.le
      have hle' := hm.spans.le
      have hle'' := hb.spans.le
      obtain ⟨hn₁, hn⟩ := hn.split hi.spans.le (by omega)
      obtain ⟨hn₂, hn⟩ := hn.split hle (by omega)
      obtain ⟨hn₃, hn₄⟩ := hn.split hle' hle''
      simp only [List.forall_mem_cons, List.forall_mem_append] at ht
      obtain ⟨-, ht₁, ht₂, -, ht₃, -, ht₄⟩ := ht
      exact ⟨ih₁ hn₁ ht₁, ih₂ hn₂ ht₂, ih₃ hn₃ ht₃, ih₄ hn₄ ht₄⟩
  | ifBare _ hd _ hs ih ih' =>
      obtain ⟨hn, hn'⟩ := hn.split hd.spans.le hs.spans.le
      simp only [List.forall_mem_cons, List.forall_mem_append] at ht
      exact ⟨ih hn ht.2.1, ih' hn' ht.2.2.2, trivial⟩
  | ifElse _ hd _ hs _ _ he ih₁ ih₂ ih₃ =>
      have hle := he.spans.le
      obtain ⟨hn₁, hn⟩ := hn.split hd.spans.le (Nat.le_trans hs.spans.le hle)
      obtain ⟨hn₂, hn₃⟩ := hn.split hs.spans.le hle
      simp only [List.forall_mem_cons, List.forall_mem_append] at ht
      obtain ⟨-, ht₁, -, ht₂, -, ht₃⟩ := ht
      exact ⟨ih₁ hn₁ ht₁, ih₂ hn₂ ht₂, ih₃ hn₃ ht₃⟩
  | whileStatement _ hd _ hb ih ih' =>
      obtain ⟨hn, hn'⟩ := hn.split hd.spans.le hb.spans.le
      simp only [List.forall_mem_cons, List.forall_mem_append] at ht
      exact ⟨ih hn ht.2.1, ih' hn' ht.2.2.2⟩

/-- Two lists of declarations, one behind the other, are one. -/
theorem Reads.declarations_append {inBlock : Bool} {u v : List Token} {body rest : List Stmt}
    {i j k : Nat} (h : Reads (.declarations inBlock) u i body j)
    (h' : Reads (.declarations inBlock) v j rest k) :
    Reads (.declarations inBlock) (u ++ v) i (body ++ rest) k := by
  induction body generalizing u i with
  | nil =>
      cases h
      exact h'
  | cons s body ih =>
      cases h with
      | declarationsMore hs hr =>
          rw [List.append_assoc]
          exact .declarationsMore hs (ih hr)

end From

end Lox.Parse
