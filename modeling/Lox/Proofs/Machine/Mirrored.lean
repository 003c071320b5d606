import Lox.Proofs.Machine.Mirror

/-!
# A renamed program runs as the program does

A sited program and the program with a local variable renamed match, rule by rule. A call
leaves the places of its caller for those at which the function was declared: these the
world has kept, so that the body is known to be renamed for the right scopes.
-/

namespace Lox.Mirror

variable {μ : Mirror} {w : World} {around : List Place}

/-! ## Operators and native functions -/

section Operators

variable {a a' b b' : Value} {operator : Token}

theorem Matches.applyUnary (ha : μ.Values w a a') :
    μ.Matches w around μ.Values (Run.applyUnary operator a) (Run.applyUnary operator a') := by
  rw [ha.alike.applyUnary operator]
  unfold Run.applyUnary
  split
  · exact .pure (.simple trivial)
  · exact .fail _ _
  · exact .pure (.simple trivial)
  · exact .fail _ _

theorem Matches.applyNumeric (x y : Float) :
    μ.Matches w around μ.Values (Run.applyNumeric operator x y)
      (Run.applyNumeric operator x y) := by
  unfold Run.applyNumeric
  split <;> first | exact .pure (.simple trivial) | exact .fail _ _

theorem Matches.applyBinary (ha : μ.Values w a a') (hb : μ.Values w b b') :
    μ.Matches w around μ.Values (Run.applyBinary operator a b)
      (Run.applyBinary operator a' b') := by
  rw [ha.alike.applyBinary operator hb.alike]
  unfold Run.applyBinary
  split
  · exact .pure (.simple trivial)
  · exact .pure (.simple trivial)
  · exact .fail _ _
  · exact .pure (.simple trivial)
  · exact .pure (.simple trivial)
  · exact .applyNumeric _ _
  · exact .fail _ _

end Operators

theorem Matches.checkArity (expected given : Nat) (paren : Token) :
    μ.Matches w around (fun _ => Eq) (Run.checkArity expected given paren)
      (Run.checkArity expected given paren) := by
  unfold Run.checkArity
  split
  · exact .pure rfl
  · exact .fail _ _

/-- What a native function gives back it was given, or is no function of the program. -/
theorem Values.of_native {native : Native} (hn : native ∈ μ.natives) {args args' : List Value}
    (ha : List.Forall₂ (μ.Values w) args args') {v v' : Value} (hv : native.apply args = .ok v)
    (hv' : native.apply args' = .ok v') (halike : v.Alike μ.spelling.Declared v') :
    μ.Values w v v' := by
  cases halike with
  | @function d d' serial closure _ =>
      obtain ⟨u', hu⟩ := ha.exists_right (μ.honest native hn args serial d closure hv)
      obtain ⟨u, hu'⟩ := ha.exists_left (μ.honest native hn args' serial d' closure hv')
      obtain ⟨d₁, rfl⟩ : ∃ d₁, u = .function serial d₁ closure := by
        cases hu' with
        | simple h => exact h.elim
        | function => exact ⟨_, rfl⟩
      exact hu.function_unique hu'
  | _ => exact .simple trivial

theorem Matches.applyNative (serial : Nat) (paren : Token) {args args' : List Value}
    (ha : List.Forall₂ (μ.Values w) args args') :
    μ.Matches w around μ.Values (Run.applyNative serial args paren)
      (Run.applyNative serial args' paren) := by
  intro m m' hm hs
  rw [Run.applyNative, Run.applyNative, run_bind, run_bind, run_get, run_get]
  simp only [hm.natives, hm.natives']
  cases hn : μ.natives[serial]? with
  | none => exact Matches.fail .notCallable paren m m' hm hs
  | some native =>
      have hmem := Array.mem_of_getElem? hn
      have hagree := μ.agree native hmem args args' (ha.imp fun _ _ h => h.alike)
      have hvalues := @Values.of_native μ w native hmem args args' ha
      dsimp only
      generalize native.apply args = answer, native.apply args' = answer' at hagree hvalues
      cases hagree with
      | ok hv => exact Matches.pure (hvalues rfl rfl hv) m m' hm hs
      | error message => exact Matches.fail _ paren m m' hm hs

/-! ## Rule by rule -/

/-- The second statement ends as the first does. -/
inductive Completions (μ : Mirror) (w : World) : Completion → Completion → Prop
  | normal : Completions μ w .normal .normal
  | returned {v v' : Value} (h : μ.Values w v v') : Completions μ w (.returned v) (.returned v')

theorem Completions.value {c c' : Completion} (h : μ.Completions w c c') :
    μ.Values w c.value c'.value := by
  cases h with
  | normal => exact .simple trivial
  | returned hv => exact hv

/-- With so much fuel each rule does the same in the renamed program. -/
structure Mirrored (μ : Mirror) (find find' : Finder) (n : Nat) : Prop where
  evaluate : ∀ {w around e}, Expr.Sited μ.layout around e →
    μ.Matches w around μ.Values (Run.evaluateBy find n e)
      (Run.evaluateBy find' n (e.renamed μ.spelling around))
  evaluateAll : ∀ {w around es}, Expr.SitedAll μ.layout around es →
    μ.Matches w around (fun w' => List.Forall₂ (μ.Values w')) (Run.evaluateAllBy find n es)
      (Run.evaluateAllBy find' n (Expr.renamedAll μ.spelling around es))
  call : ∀ {w around callee callee' args args'} (paren), μ.Values w callee callee' →
    List.Forall₂ (μ.Values w) args args' →
    μ.Matches w around μ.Values (Run.callBy find n callee paren args)
      (Run.callBy find' n callee' paren args')
  execute : ∀ {w here around s}, Stmt.Sited μ.layout here around s →
    μ.Matches w around μ.Completions (Run.executeBy find n s)
      (Run.executeBy find' n (s.renamed μ.spelling here around))
  executeAll : ∀ {w here around k body}, Stmt.SitedAll μ.layout here around k body →
    μ.Matches w around μ.Completions (Run.executeAllBy find n body)
      (Run.executeAllBy find' n (Stmt.renamedAll μ.spelling here around k body))
  loop : ∀ {w here around condition body}, Expr.Sited μ.layout around condition →
    Stmt.Sited μ.layout here around body →
    μ.Matches w around μ.Completions (Run.loopBy find n condition body none)
      (Run.loopBy find' n (condition.renamed μ.spelling around)
        (body.renamed μ.spelling here around) none)

section Steps

variable {find find' : Finder} (hfinds : μ.Finds find find') {n : Nat}
  (ih : μ.Mirrored find find' n)
include ih

include hfinds in
theorem evaluate_mirrored {e : Expr} (h : e.Sited μ.layout around) :
    μ.Matches w around μ.Values (Run.evaluateBy find (n + 1) e)
      (Run.evaluateBy find' (n + 1) (e.renamed μ.spelling around)) := by
  cases e with
  | literal value => exact .pure (.literal value)
  | group inner => exact ih.evaluate h
  | unary operator operand =>
      exact (ih.evaluate (e := operand) h).bind fun _ _ _ _ hv => .applyUnary hv
  | binary left operator right =>
      refine (ih.evaluate h.1).bind fun w₁ a a' _ ha => ?_
      exact (ih.evaluate h.2).bind fun w₂ b b' hw hb => .applyBinary (ha.mono hw) hb
  | logical left operator right =>
      refine (ih.evaluate h.1).bind fun w₁ a a' _ ha => ?_
      rw [ha.alike.decidedBy]
      split
      · exact .pure ha
      · exact ih.evaluate h.2
  | «variable» id name => exact .readBy hfinds h
  | assign id name value =>
      refine (ih.evaluate h.2).bind fun w₁ v v' _ hv => ?_
      exact (Matches.writeBy hfinds h.1 hv).bind fun w₂ _ _ hw _ => .pure (hv.mono hw)
  | call callee paren arguments =>
      refine (ih.evaluate h.1).bind fun w₁ v v' _ hv => ?_
      exact (ih.evaluateAll h.2).bind fun w₂ args args' hw ha => ih.call paren (hv.mono hw) ha

theorem evaluateAll_mirrored {es : List Expr} (h : Expr.SitedAll μ.layout around es) :
    μ.Matches w around (fun w' => List.Forall₂ (μ.Values w')) (Run.evaluateAllBy find (n + 1) es)
      (Run.evaluateAllBy find' (n + 1) (Expr.renamedAll μ.spelling around es)) := by
  cases es with
  | nil => exact .pure .nil
  | cons e es =>
      refine (ih.evaluate h.1).bind fun w₁ v v' _ hv => ?_
      exact (ih.evaluateAll h.2).bind fun w₂ vs vs' hw hvs => .pure (.cons (hv.mono hw) hvs)

theorem call_mirrored {callee callee' : Value} (paren : Token) {args args' : List Value}
    (hc : μ.Values w callee callee') (ha : List.Forall₂ (μ.Values w) args args') :
    μ.Matches w around μ.Values (Run.callBy find (n + 1) callee paren args)
      (Run.callBy find' (n + 1) callee' paren args') := by
  cases hc with
  | @function serial d closure here outer hb hs hd =>
      have hlen : (d.renamed μ.spelling here outer).params.length = d.params.length :=
        List.length_map _
      rw [Run.callBy, Run.callBy, hlen, ← ha.length_eq]
      refine (Matches.checkArity _ _ paren).bind fun w₁ _ _ hw₁ _ => ?_
      refine (Matches.enterScope (hw₁.site hs) here hd.1
        (ha.imp fun _ _ hv => hv.mono hw₁)).bind fun w₂ scope scope' _ hscope => ?_
      obtain ⟨rfl, hsite⟩ := hscope
      exact (Matches.within hsite (ih.executeAll hd.2)).bind fun w₃ _ _ _ hk => .pure hk.value
  | simple h =>
      cases callee with
      | function => exact h.elim
      | native serial name arity =>
          rw [Run.callBy, Run.callBy, ← ha.length_eq]
          exact (Matches.checkArity _ _ paren).bind fun w₁ _ _ hw _ =>
            .applyNative serial paren (ha.imp fun _ _ hv => hv.mono hw)
      | _ => exact .fail .notCallable paren

theorem execute_mirrored {here : Place} {s : Stmt} (h : s.Sited μ.layout here around) :
    μ.Matches w around μ.Completions (Run.executeBy find (n + 1) s)
      (Run.executeBy find' (n + 1) (s.renamed μ.spelling here around)) := by
  cases s with
  | expression value => exact (ih.evaluate h).bind fun _ _ _ _ _ => .pure .normal
  | print value =>
      refine (ih.evaluate h).bind fun w₁ v v' _ hv => ?_
      exact (Matches.print hv).bind fun _ _ _ _ _ => .pure .normal
  | var name initializer =>
      have hname := μ.declared h.1
      cases initializer with
      | none =>
          have hnil : μ.Values w .nil .nil := .simple trivial
          exact (Matches.define hnil h.1 hname).bind fun _ _ _ _ _ => .pure .normal
      | some initializer =>
          refine (ih.evaluate h.2).bind fun w₁ v v' _ hv => ?_
          exact (Matches.define hv h.1 hname).bind fun _ _ _ _ _ => .pure .normal
  | block body =>
      refine (Matches.enterBlock here).bind fun w₁ scope scope' _ hscope => ?_
      obtain ⟨rfl, hsite⟩ := hscope
      exact .within hsite (ih.executeAll h)
  | ifThen condition thenBranch elseBranch =>
      refine (ih.evaluate h.1).bind fun w₁ v v' _ hv => ?_
      rw [hv.alike.truthy]
      split
      · exact ih.execute h.2.1
      · cases elseBranch with
        | none => exact .pure .normal
        | some elseBranch => exact ih.execute h.2.2
  | whileLoop condition body => exact ih.loop h.1 h.2
  | forLoop => exact h.elim
  | function name params body =>
      have hd : Declaration.Sited μ.layout here around ⟨name, params, body⟩ := h.2
      refine (Matches.close hd).bind fun w₁ v v' _ hv => ?_
      exact (Matches.define hv h.1 (μ.kept h.1).symm).bind fun _ _ _ _ _ => .pure .normal
  | ret keyword value =>
      cases value with
      | none => exact .pure (.returned (.simple trivial))
      | some value => exact (ih.evaluate h).bind fun _ _ _ _ hv => .pure (.returned hv)

theorem executeAll_mirrored {here : Place} {k : Nat} {body : List Stmt}
    (h : Stmt.SitedAll μ.layout here around k body) :
    μ.Matches w around μ.Completions (Run.executeAllBy find (n + 1) body)
      (Run.executeAllBy find' (n + 1) (Stmt.renamedAll μ.spelling here around k body)) := by
  cases body with
  | nil => exact .pure .normal
  | cons s body =>
      refine (ih.execute h.1).bind fun w₁ c c' _ hc => ?_
      cases hc with
      | normal => exact ih.executeAll h.2
      | returned hv => exact .pure (.returned hv)

theorem loop_mirrored {here : Place} {condition : Expr} {body : Stmt}
    (hc : condition.Sited μ.layout around) (hb : body.Sited μ.layout here around) :
    μ.Matches w around μ.Completions (Run.loopBy find (n + 1) condition body none)
      (Run.loopBy find' (n + 1) (condition.renamed μ.spelling around)
        (body.renamed μ.spelling here around) none) := by
  refine (ih.evaluate hc).bind fun w₁ v v' _ hv => ?_
  rw [hv.alike.truthy]
  split
  · refine (ih.execute hb).bind fun w₂ c c' _ hc' => ?_
    cases hc' with
    | normal => exact ih.loop hc hb
    | returned hv => exact .pure (.returned hv)
  · exact .pure .normal

end Steps

variable {find find' : Finder} (hfinds : μ.Finds find find')
include hfinds

theorem mirrored (n : Nat) : μ.Mirrored find find' n := by
  induction n with
  | zero =>
      exact ⟨fun _ => .exhausted, fun _ => .exhausted, fun _ _ _ => .exhausted,
        fun _ => .exhausted, fun _ => .exhausted, fun _ _ => .exhausted⟩
  | succ n ih =>
      exact ⟨evaluate_mirrored hfinds ih, evaluateAll_mirrored ih,
        fun paren => call_mirrored ih paren, execute_mirrored ih, executeAll_mirrored ih,
        loop_mirrored ih⟩

/-- Statements at the top level do the same with the variable renamed. -/
theorem program_matches (n : Nat) {k : Nat} {body : List Stmt}
    (h : Stmt.SitedAll μ.layout [] [] k body) :
    μ.Matches w [] (fun _ => Eq) (Run.programBy find n body)
      (Run.programBy find' n (Stmt.renamedAll μ.spelling [] [] k body)) := by
  induction body generalizing k w with
  | nil => exact .pure rfl
  | cons s body ih =>
      refine ((mirrored hfinds n).execute h.1).bind fun w₁ c c' _ hc => ?_
      cases hc with
      | normal => exact ih h.2
      | returned hv => exact .pure rfl

end Lox.Mirror
