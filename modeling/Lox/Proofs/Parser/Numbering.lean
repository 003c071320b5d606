import Lox.Proofs.Parser.Reading
import Lox.Tree.Nodes

/-!
# The numbers of nodes

No two nodes of a tree that was read have the same number, and all the numbers lie
between the first number before the reading and the first number behind it. Writing
the loops out puts the nodes into another order and leaves their numbers alone.
-/

namespace Lox

/-- Numbers given out between two counts, none of them twice. -/
structure Spans (ids : List Nat) (i j : Nat) : Prop where
  le : i ≤ j
  nodup : ids.Nodup
  bounds : ∀ id ∈ ids, i ≤ id ∧ id < j

namespace Spans

variable {ids ids' : List Nat} {i j k : Nat}

theorem nil (i : Nat) : Spans [] i i :=
  ⟨Nat.le_refl i, List.nodup_nil, fun _ h => absurd h List.not_mem_nil⟩

theorem append (h : Spans ids i j) (h' : Spans ids' j k) : Spans (ids ++ ids') i k := by
  refine ⟨Nat.le_trans h.le h'.le, ?_, fun id hid => ?_⟩
  · refine List.nodup_append.2 ⟨h.nodup, h'.nodup, fun id hid id' hid' heq => ?_⟩
    have := (h.bounds id hid).2
    have := (h'.bounds id' hid').1
    omega
  · have := h.le
    have := h'.le
    rcases List.mem_append.1 hid with hid | hid
    · have := h.bounds id hid
      omega
    · have := h'.bounds id hid
      omega

/-- The number of an assignment is given out behind its value but stands before it. -/
theorem cons_last (h : Spans ids (i + 1) j) : Spans (j :: ids) i (j + 1) := by
  refine ⟨by have := h.le; omega, List.nodup_cons.2 ⟨fun hid => ?_, h.nodup⟩, fun id hid => ?_⟩
  · have := (h.bounds j hid).2
    omega
  · have := h.le
    rcases List.mem_cons.1 hid with rfl | hid
    · omega
    · have := h.bounds id hid
      omega

theorem one (i : Nat) : Spans [i] i (i + 1) := by
  refine ⟨Nat.le_succ i, List.nodup_cons.2 ⟨List.not_mem_nil, List.nodup_nil⟩, fun id hid => ?_⟩
  rw [List.mem_singleton.1 hid]
  exact ⟨Nat.le_refl i, Nat.lt_succ_self i⟩

theorem perm (h : Spans ids i j) (hp : ids'.Perm ids) : Spans ids' i j :=
  ⟨h.le, hp.nodup_iff.2 h.nodup, fun id hid => h.bounds id (hp.mem_iff.1 hid)⟩

end Spans

namespace Parse

theorem Level.nodeIds_build (l : Level) (left : Expr) (rest : List (Token × Expr)) :
    (l.build left rest).nodeIds = left.nodeIds ++ rest.flatMap fun r => r.2.nodeIds := by
  induction rest generalizing left with
  | nil => exact (List.append_nil _).symm
  | cons r rest ih =>
      have hnode : (l.node left r.1 r.2).nodeIds = left.nodeIds ++ r.2.nodeIds := by
        cases l <;> rfl
      show (l.build (l.node left r.1 r.2) rest).nodeIds = _
      rw [ih, hnode, List.append_assoc, List.flatMap_cons]

theorem nodeIds_buildCalls (callee : Expr) (calls : List (List Expr × Token)) :
    (buildCalls callee calls).nodeIds =
      callee.nodeIds ++ calls.flatMap fun c => Expr.nodeIdsAll c.1 := by
  induction calls generalizing callee with
  | nil => exact (List.append_nil _).symm
  | cons c calls ih =>
      show (buildCalls (.call callee c.2 c.1) calls).nodeIds = _
      rw [ih, Expr.nodeIds, List.append_assoc, List.flatMap_cons]

/-- The numbers of the nodes in a tree of a phrase. -/
def Phrase.nodeIds : (p : Phrase) → p.Tree → List NodeId
  | .expression, e | .level _, e | .operand _, e | .unary, e | .primary, e => Expr.nodeIds e
  | .levelRest _, rest => rest.flatMap fun r => r.2.nodeIds
  | .callRest, calls => calls.flatMap fun c => Expr.nodeIdsAll c.1
  | .arguments, es | .argumentsFrom _, es => Expr.nodeIdsAll es
  | .paramsFrom _, _ => []
  | .expressionUnless _, o => Expr.nodeIdsOptional o
  | .forInitializer, o | .declaration, o => Stmt.nodeIdsOptional o
  | .block, body | .declarations _, body => Stmt.nodeIdsAll body
  | .varDeclaration, s | .expressionStatement, s | .printStatement, s | .returnStatement _, s
  | .declared, s | .function, s | .statement, s | .forStatement, s | .ifStatement, s
  | .whileStatement, s => Stmt.nodeIds s

theorem Reads.spans {p : Phrase} {w : List Token} {i j : Nat} {a : p.Tree}
    (h : Reads p w i a j) : Spans (p.nodeIds a) i j := by
  induction h with
  | moreParams _ _ _ _ ih | value _ ih | tighter _ _ ih | tightest _ _ ih | operator _ _ ih
  | group _ _ _ ih | someArguments _ ih | someExpression _ ih => exact ih
  | assign _ _ _ ih => exact ih.cons_last
  | level _ _ ih ih' =>
      show Spans (Level.build _ _ _).nodeIds _ _
      rw [Level.nodeIds_build]
      exact ih.append ih'
  | levelMore _ _ _ ih ih' => exact ih.append ih'
  | call _ _ ih ih' =>
      show Spans (buildCalls _ _).nodeIds _ _
      rw [nodeIds_buildCalls]
      exact ih.append ih'
  | callMore _ _ _ _ ih ih' => exact ih.append ih'
  | lastArgument _ _ ih =>
      show Spans (_ ++ []) _ _
      rw [List.append_nil]
      exact ih
  | moreArguments _ _ _ _ ih ih' => exact ih.append ih'
  | name _ => exact .one _
  | varValue _ _ _ _ ih | expressionStatement _ _ ih | printStatement _ _ ih
  | returnStatement _ _ ih | varInitializer _ _ ih | valueInitializer _ ih | declaration _ ih
  | functionDeclared _ _ ih | varDeclared _ _ ih | statementDeclared _ ih
  | functionBare _ _ _ _ _ ih | statementPlain _ ih | statementFor _ _ ih | statementIf _ _ ih
  | statementPrint _ _ ih | statementReturn _ _ ih | statementWhile _ _ ih
  | statementBlock _ _ ih | block _ _ ih => exact ih
  | functionParams _ _ _ _ _ _ ih ih' => exact ih.append ih'
  | forStatement _ _ _ _ _ _ _ ih₁ ih₂ ih₃ ih₄ =>
      exact ((ih₁.append ih₂).append ih₃).append ih₄
  | ifBare _ _ _ _ ih ih' =>
      show Spans (_ ++ _ ++ []) _ _
      rw [List.append_nil]
      exact ih.append ih'
  | ifElse _ _ _ _ _ _ _ ih₁ ih₂ ih₃ => exact (ih₁.append ih₂).append ih₃
  | whileStatement _ _ _ _ ih ih' => exact ih.append ih'
  | declarationsMore _ _ ih ih' => exact ih.append ih'
  | _ => exact .nil _

end Parse

end Lox
