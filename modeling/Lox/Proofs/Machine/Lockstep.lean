import Lox.Machine.Exec
import Lox.Proofs.Machine.Likeness

/-!
# Programs further on run alike

A program and the same program further down in a source, or with numbers further up,
match, rule by rule: from machines that are alike they come to answers that are alike,
with the same fuel.
-/

namespace Lox.Likeness

variable {l : Likeness}

/-! ## Operators and native functions -/

section Operators

variable {v v' w w' : Value} {k : Nat} {operator : Token}

theorem decidedBy_eq (hv : l.Values v v') :
    Run.decidedBy (operator.later k) v' = Run.decidedBy operator v := hv.decidedBy operator

variable (ho : l.shifted k operator)
include ho

theorem Matches.applyUnary (hv : l.Values v v') :
    l.Matches l.Values (Run.applyUnary operator v) (Run.applyUnary (operator.later k) v') := by
  have hkind : (operator.later k).kind = operator.kind := rfl
  rw [hv.applyUnary (operator.later k)]
  unfold Run.applyUnary
  rw [hkind]
  split
  · exact .pure (.number _)
  · exact .fail _ ho
  · exact .pure (.bool _)
  · exact .fail _ ho

theorem Matches.applyNumeric (a b : Float) :
    l.Matches l.Values (Run.applyNumeric operator a b)
      (Run.applyNumeric (operator.later k) a b) := by
  have hkind : (operator.later k).kind = operator.kind := rfl
  unfold Run.applyNumeric
  rw [hkind]
  split
  · exact .pure (.number _)
  · exact .pure (.number _)
  · exact .pure (.number _)
  · exact .pure (.bool _)
  · exact .pure (.bool _)
  · exact .pure (.bool _)
  · exact .pure (.bool _)
  · exact .fail _ ho

theorem Matches.applyBinary (hv : l.Values v v') (hw : l.Values w w') :
    l.Matches l.Values (Run.applyBinary operator v w)
      (Run.applyBinary (operator.later k) v' w') := by
  have hkind : (operator.later k).kind = operator.kind := rfl
  rw [hv.applyBinary (operator.later k) hw]
  unfold Run.applyBinary
  rw [hkind]
  split
  · exact .pure (.number _)
  · exact .pure (.string _)
  · exact .fail _ ho
  · exact .pure (.bool _)
  · exact .pure (.bool _)
  · exact .applyNumeric ho _ _
  · exact .fail _ ho

end Operators

section Calls

variable {k : Nat} {paren : Token} (hp : l.shifted k paren)
include hp

theorem Matches.checkArity (expected given : Nat) :
    l.Matches Eq (Run.checkArity expected given paren)
      (Run.checkArity expected given (paren.later k)) := by
  unfold Run.checkArity
  split
  · exact .pure rfl
  · exact .fail _ hp

theorem Matches.applyNative (serial : Nat) {args args' : List Value}
    (ha : List.Forall₂ l.Values args args') :
    l.Matches l.Values (Run.applyNative serial args paren)
      (Run.applyNative serial args' (paren.later k)) := by
  refine .get ?_
  intro m m' hm
  rw [hm.natives, hm.natives']
  cases hn : l.natives[serial]? with
  | none => exact .fail _ hp
  | some native =>
      have hagree := l.discreet native (Array.mem_of_getElem? hn) _ l.lookalikes _ _ ha
      dsimp only
      generalize native.apply args = answer, native.apply args' = answer' at hagree
      cases hagree with
      | ok hv => exact .pure hv
      | error message => exact .fail _ hp

end Calls

/-! ## Rule by rule -/

/-- The second statement ends as the first does. -/
inductive Completions (l : Likeness) : Completion → Completion → Prop
  | normal : Completions l .normal .normal
  | returned {v v' : Value} (h : l.Values v v') : Completions l (.returned v) (.returned v')

theorem Completions.value {c c' : Completion} (h : l.Completions c c') :
    l.Values c.value c'.value := by
  cases h with
  | normal => exact .nil
  | returned hv => exact hv

/-- With so much fuel each rule does the same further on. -/
structure Lockstep (l : Likeness) (n : Nat) : Prop where
  evaluate : ∀ {k d e}, Expr.From (l.known d) (l.shifted k) e →
    l.Matches l.Values (Run.evaluate n e) (Run.evaluate n (e.moved k d))
  evaluateAll : ∀ {k d es}, Expr.FromAll (l.known d) (l.shifted k) es →
    l.Matches (List.Forall₂ l.Values) (Run.evaluateAll n es)
      (Run.evaluateAll n (Expr.movedAll k d es))
  call : ∀ {k paren callee callee' args args'}, l.Values callee callee' → l.shifted k paren →
    List.Forall₂ l.Values args args' →
    l.Matches l.Values (Run.call n callee paren args) (Run.call n callee' (paren.later k) args')
  execute : ∀ {k d s}, Stmt.From (l.known d) (l.shifted k) s →
    l.Matches l.Completions (Run.execute n s) (Run.execute n (s.moved k d))
  executeAll : ∀ {k d body}, Stmt.FromAll (l.known d) (l.shifted k) body →
    l.Matches l.Completions (Run.executeAll n body) (Run.executeAll n (Stmt.movedAll k d body))
  loop : ∀ {k d condition body increment}, Expr.From (l.known d) (l.shifted k) condition →
    Stmt.From (l.known d) (l.shifted k) body →
    Expr.FromOptional (l.known d) (l.shifted k) increment →
    l.Matches l.Completions (Run.loop n condition body increment)
      (Run.loop n (condition.moved k d) (body.moved k d) (Expr.movedOptional k d increment))

section Steps

variable {n : Nat} (ih : l.Lockstep n) {k d : Nat}
include ih

theorem evaluate_matches {e : Expr} (h : e.From (l.known d) (l.shifted k)) :
    l.Matches l.Values (Run.evaluate (n + 1) e) (Run.evaluate (n + 1) (e.moved k d)) := by
  cases e with
  | literal value => exact .pure (.literal value)
  | group inner => exact ih.evaluate h
  | unary operator operand => exact (ih.evaluate h.2).bind fun _ _ hv => .applyUnary h.1 hv
  | binary left operator right =>
      refine (ih.evaluate h.1).bind ?_
      intro a a' ha
      exact (ih.evaluate h.2.2).bind fun b b' hb => .applyBinary h.2.1 ha hb
  | logical left operator right =>
      refine (ih.evaluate h.1).bind ?_
      intro a a' ha
      rw [decidedBy_eq ha]
      split
      · exact .pure ha
      · exact ih.evaluate h.2.2
  | «variable» id name => exact .readVariable h.1 h.2
  | assign id name value =>
      refine (ih.evaluate h.2.2).bind ?_
      intro v v' hv
      exact (Matches.writeVariable h.1 h.2.1 hv).bind fun _ _ _ => .pure hv
  | call callee paren arguments =>
      refine (ih.evaluate h.1).bind ?_
      intro v v' hv
      exact (ih.evaluateAll h.2.2).bind fun args args' ha => ih.call hv h.2.1 ha

theorem evaluateAll_matches {es : List Expr} (h : Expr.FromAll (l.known d) (l.shifted k) es) :
    l.Matches (List.Forall₂ l.Values) (Run.evaluateAll (n + 1) es)
      (Run.evaluateAll (n + 1) (Expr.movedAll k d es)) := by
  cases es with
  | nil => exact .pure .nil
  | cons e es =>
      refine (ih.evaluate h.1).bind ?_
      intro v v' hv
      exact (ih.evaluateAll h.2).bind fun vs vs' hvs => .pure (.cons hv hvs)

theorem call_matches {callee callee' : Value} {paren : Token} {args args' : List Value}
    (hc : l.Values callee callee') (hp : l.shifted k paren)
    (ha : List.Forall₂ l.Values args args') :
    l.Matches l.Values (Run.call (n + 1) callee paren args)
      (Run.call (n + 1) callee' (paren.later k) args') := by
  cases hc with
  | @function decl _ serial closure hd =>
      -- the body stands as far down as the declaration, not as the call
      obtain ⟨j, i, ⟨-, -, hbody⟩, rfl⟩ := hd
      have hlen : (decl.moved j i).params.length = decl.params.length := List.length_map _
      rw [Run.call, Run.call, hlen, ← ha.length_eq]
      refine (Matches.checkArity hp _ _).bind ?_
      intro _ _ _
      refine (Matches.enterScope closure j decl.params ha).bind ?_
      intro scope _ hs
      subst hs
      exact (Matches.within scope (ih.executeAll hbody)).bind fun _ _ hk => .pure hk.value
  | native serial name arity =>
      rw [Run.call, Run.call, ← ha.length_eq]
      exact (Matches.checkArity hp _ _).bind fun _ _ _ => .applyNative hp serial ha
  | _ => exact .fail .notCallable hp

theorem execute_matches {s : Stmt} (h : s.From (l.known d) (l.shifted k)) :
    l.Matches l.Completions (Run.execute (n + 1) s) (Run.execute (n + 1) (s.moved k d)) := by
  cases s with
  | expression value => exact (ih.evaluate h).bind fun _ _ _ => .pure .normal
  | print value =>
      exact (ih.evaluate h).bind fun _ _ hv => (Matches.print hv).bind fun _ _ _ => .pure .normal
  | var name initializer =>
      cases initializer with
      | none => exact (Matches.define .nil name k).bind fun _ _ _ => .pure .normal
      | some initializer =>
          refine (ih.evaluate h.2).bind ?_
          intro v v' hv
          exact (Matches.define hv name k).bind fun _ _ _ => .pure .normal
  | block body =>
      refine Matches.enterBlock.bind ?_
      intro scope _ hs
      subst hs
      exact .within scope (ih.executeAll h)
  | ifThen condition thenBranch elseBranch =>
      refine (ih.evaluate h.1).bind ?_
      intro v v' hv
      rw [hv.truthy]
      split
      · exact ih.execute h.2.1
      · cases elseBranch with
        | none => exact .pure .normal
        | some elseBranch => exact ih.execute h.2.2
  | whileLoop condition body => exact ih.loop h.1 h.2 trivial
  | forLoop initializer condition increment body =>
      have hcondition := Stmt.from_loopCondition h.2.1
      have hloop := ih.loop hcondition h.2.2.2 h.2.2.1
      rw [Stmt.moved_loopCondition] at hloop
      cases initializer with
      | none => exact hloop
      | some initializer =>
          refine Matches.enterBlock.bind ?_
          intro scope _ hs
          subst hs
          refine .within scope ((ih.execute h.1).bind fun c c' hc => ?_)
          cases hc with
          | normal => exact hloop
          | returned hv => exact .pure (.returned hv)
  | function name params body =>
      have hd : l.Declared ⟨name, params, body⟩ (Declaration.moved k d ⟨name, params, body⟩) :=
        ⟨k, d, h, rfl⟩
      refine (Matches.close hd).bind ?_
      intro v v' hv
      exact (Matches.define hv name k).bind fun _ _ _ => .pure .normal
  | ret keyword value =>
      cases value with
      | none => exact .pure (.returned .nil)
      | some value => exact (ih.evaluate h.2).bind fun _ _ hv => .pure (.returned hv)

theorem executeAll_matches {body : List Stmt} (h : Stmt.FromAll (l.known d) (l.shifted k) body) :
    l.Matches l.Completions (Run.executeAll (n + 1) body)
      (Run.executeAll (n + 1) (Stmt.movedAll k d body)) := by
  cases body with
  | nil => exact .pure .normal
  | cons s body =>
      refine (ih.execute h.1).bind ?_
      intro c c' hc
      cases hc with
      | normal => exact ih.executeAll h.2
      | returned hv => exact .pure (.returned hv)

theorem loop_matches {condition : Expr} {body : Stmt} {increment : Option Expr}
    (hc : condition.From (l.known d) (l.shifted k)) (hb : body.From (l.known d) (l.shifted k))
    (hi : Expr.FromOptional (l.known d) (l.shifted k) increment) :
    l.Matches l.Completions (Run.loop (n + 1) condition body increment)
      (Run.loop (n + 1) (condition.moved k d) (body.moved k d)
        (Expr.movedOptional k d increment)) := by
  refine (ih.evaluate hc).bind ?_
  intro v v' hv
  rw [hv.truthy]
  split
  · refine (ih.execute hb).bind ?_
    intro c c' hc'
    cases hc' with
    | returned hv => exact .pure (.returned hv)
    | normal =>
        cases increment with
        | none => exact ih.loop hc hb trivial
        | some step => exact (ih.evaluate hi).bind fun _ _ _ => ih.loop hc hb hi
  · exact .pure .normal

end Steps

theorem lockstep (l : Likeness) (n : Nat) : l.Lockstep n := by
  induction n with
  | zero =>
      exact ⟨fun _ => .exhausted, fun _ => .exhausted, fun _ _ _ => .exhausted,
        fun _ => .exhausted, fun _ => .exhausted, fun _ _ _ => .exhausted⟩
  | succ n ih =>
      exact ⟨evaluate_matches ih, evaluateAll_matches ih, call_matches ih, execute_matches ih,
        executeAll_matches ih, loop_matches ih⟩

/-- A program does the same further on. -/
theorem program_matches (l : Likeness) (n : Nat) {k d : Nat} {body : List Stmt}
    (h : Stmt.FromAll (l.known d) (l.shifted k) body) :
    l.Matches Eq (Run.program n body) (Run.program n (Stmt.movedAll k d body)) := by
  induction body with
  | nil => exact .pure rfl
  | cons s body ih =>
      refine ((lockstep l n).execute h.1).bind ?_
      intro c c' hc
      cases hc with
      | normal => exact ih h.2
      | returned hv => exact .pure rfl

end Lox.Likeness
