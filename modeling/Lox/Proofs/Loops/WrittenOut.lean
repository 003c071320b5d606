import Lox.Proofs.Loops.Matching

/-!
# Loops written out do what loops do

Whatever the machine does with a tied program, it does with its loops written out, rule by
rule. All rules but two go along with the tree. The rounds of a loop with an increment are
blocks on the one side only, and a loop with an initializer is a block of two statements
on the other: there a list of two statements stands for one after the other, and what is
left of the fuel differs by more than one.

So the induction is on the fuel of the second run, and gives each rule for all the fuel of
the first that goes with it.
-/

namespace Lox.Loops

open Run (Side)

/-- The second statement ends as the first does. -/
inductive Completions (x : Setting) (w : World) : Completion → Completion → Prop
  | normal : Completions x w .normal .normal
  | returned {v v' : Value} (h : Values x w v v') : Completions x w (.returned v) (.returned v')

theorem Completions.value {x : Setting} {w : World} {c c' : Completion}
    (h : Completions x w c c') : Values x w c.value c'.value := by
  cases h with
  | normal => exact .simple trivial
  | returned hv => exact hv

theorem Matches.andThen {side : Side} {x : Setting} {w : World} {layers : List Layer}
    {r₁ r₂ r₁' r₂' : Run Completion} (h₁ : Matches side x w layers (Completions x) r₁ r₁')
    (h₂ : ∀ w', w.Grows w' → Matches side x w' layers (Completions x) r₂ r₂') :
    Matches side x w layers (Completions x) (Run.andThen r₁ r₂) (Run.andThen r₁' r₂') := by
  refine h₁.bind fun w' c c' hw hc => ?_
  cases hc with
  | normal => exact h₂ w' hw
  | returned hv => exact .pure (.returned hv)

/-- With so much fuel on each side all rules match. -/
structure Simulated (side : Side) (x : Setting) (n n' : Nat) : Prop where
  evaluate : ∀ {w layers e}, x.Always (Expr.Tied · layers e) →
    Matches side x w layers (Values x) (Run.evaluate n e) (Run.evaluate n' e)
  evaluateAll : ∀ {w layers es}, x.Always (Expr.TiedAll · layers es) →
    Matches side x w layers (fun w' => List.Forall₂ (Values x w')) (Run.evaluateAll n es)
      (Run.evaluateAll n' es)
  call : ∀ {w layers callee callee' args args'} (paren), Values x w callee callee' →
    List.Forall₂ (Values x w) args args' →
    Matches side x w layers (Values x) (Run.call n callee paren args)
      (Run.call n' callee' paren args')
  execute : ∀ {w layers s}, x.Always (Stmt.Tied · layers s) →
    Matches side x w layers (Completions x) (Run.execute n s) (Run.execute n' s.desugar)
  executeAll : ∀ {w layers body}, x.Always (Stmt.TiedAll · layers body) →
    Matches side x w layers (Completions x) (Run.executeAll n body)
      (Run.executeAll n' (Stmt.desugarAll body))
  loop : ∀ {w layers condition body increment}, x.Always (Expr.Tied · layers condition) →
    x.Always (Expr.TiedOptional · (Layer.round increment layers) increment) →
    x.Always (Stmt.Tied · (Layer.round increment layers) body) →
    Matches side x w layers (Completions x) (Run.loop n condition body increment)
      (Run.loop n' condition (body.desugar.withIncrement increment) none)

section Steps

variable {side : Side} {x : Setting} {n n' : Nat} {w : World} {layers : List Layer}

section Along

variable (ih : Simulated side x n n')
include ih

theorem evaluate_simulated {e : Expr} (h : x.Always (Expr.Tied · layers e)) :
    Matches side x w layers (Values x) (Run.evaluate (n + 1) e) (Run.evaluate (n' + 1) e) := by
  cases e with
  | literal value => exact .pure (.literal value)
  | group inner => exact ih.evaluate (e := inner) h
  | unary operator operand =>
      exact (ih.evaluate (e := operand) h).bind fun _ _ _ _ hv => .applyUnary hv
  | binary left operator right =>
      refine (ih.evaluate h.left).bind fun w₁ a a' _ ha => ?_
      exact (ih.evaluate h.right).bind fun w₂ b b' hw hb => .applyBinary (ha.mono hw) hb
  | logical left operator right =>
      refine (ih.evaluate h.left).bind fun w₁ a a' _ ha => ?_
      rw [ha.decidedBy]
      split
      · exact .pure ha
      · exact ih.evaluate h.right
  | «variable» id name => exact .readVariable h.now name
  | assign id name value =>
      refine (ih.evaluate h.left).bind fun w₁ v v' _ hv => ?_
      exact (Matches.writeVariable h.right.now name hv).bind fun w₂ _ _ hw _ => .pure (hv.mono hw)
  | call callee paren arguments =>
      refine (ih.evaluate h.left).bind fun w₁ v v' _ hv => ?_
      exact (ih.evaluateAll h.right).bind fun w₂ args args' hw ha => ih.call paren (hv.mono hw) ha

theorem evaluateAll_simulated {es : List Expr} (h : x.Always (Expr.TiedAll · layers es)) :
    Matches side x w layers (fun w' => List.Forall₂ (Values x w')) (Run.evaluateAll (n + 1) es)
      (Run.evaluateAll (n' + 1) es) := by
  cases es with
  | nil => exact .pure .nil
  | cons e es =>
      refine (ih.evaluate h.left).bind fun w₁ v v' _ hv => ?_
      exact (ih.evaluateAll h.right).bind fun w₂ vs vs' hw hvs => .pure (.cons (hv.mono hw) hvs)

theorem call_simulated {callee callee' : Value} (paren : Token) {args args' : List Value}
    (hc : Values x w callee callee') (ha : List.Forall₂ (Values x w) args args') :
    Matches side x w layers (Values x) (Run.call (n + 1) callee paren args)
      (Run.call (n' + 1) callee' paren args') := by
  cases hc with
  | @function serial d closure closure' outer hb hs hd =>
      rw [Run.call, Run.call, ← ha.length_eq]
      refine (Matches.checkArity _ _ paren).bind fun w₁ _ _ hw₁ _ => ?_
      refine (Matches.enterScope (hw₁.site hs) d.params
        (ha.imp fun _ _ hv => hv.mono hw₁)).bind fun w₂ scope scope' _ hsite => ?_
      exact (Matches.within hsite (ih.executeAll hd)).bind fun w₃ _ _ _ hk => .pure hk.value
  | simple h =>
      cases callee with
      | function => exact h.elim
      | native serial name arity =>
          rw [Run.call, Run.call, ← ha.length_eq]
          exact (Matches.checkArity _ _ paren).bind fun w₁ _ _ hw _ =>
            .applyNative serial paren (ha.imp fun _ _ hv => hv.mono hw)
      | _ => exact .fail .notCallable paren

theorem executeAll_simulated {body : List Stmt} (h : x.Always (Stmt.TiedAll · layers body)) :
    Matches side x w layers (Completions x) (Run.executeAll (n + 1) body)
      (Run.executeAll (n' + 1) (Stmt.desugarAll body)) := by
  cases body with
  | nil => exact .pure .normal
  | cons s body => exact (ih.execute h.left).andThen fun w₁ _ => ih.executeAll h.right

end Along

section Fuel

variable (henough : side.Enough (n + 1) (n' + 1))
  (ih : ∀ {k k' : Nat}, k' ≤ n' → side.Enough k k' → Simulated side x k k')
include henough ih

/-- A round of a loop and what is left of it when it is written out. -/
theorem round_simulated {body : Stmt} {increment : Option Expr}
    (hi : x.Always (Expr.TiedOptional · (Layer.round increment layers) increment))
    (hb : x.Always (Stmt.Tied · (Layer.round increment layers) body)) :
    Matches side x w layers (Completions x) (Run.round n body increment)
      (Run.execute n' (body.desugar.withIncrement increment)) := by
  cases increment with
  | none => exact (ih (Nat.le_refl n') henough.pred).execute hb
  | some step =>
      have hstep : ∀ k, Run.execute (k + 1) (.expression step) =
          (do let _ ← Run.evaluate k step; return .normal) := fun _ => rfl
      obtain ⟨k, hk, hn, hfollows⟩ := Side.follows_block henough body.desugar _ hstep
      refine .follows hfollows (.inHollow fun w₁ _ => ?_)
      refine ((ih hk hn).execute hb).andThen fun w₂ _ => ?_
      exact ((ih hk hn).evaluate hi).bind fun _ _ _ _ _ => .pure .normal

theorem loop_simulated {condition : Expr} {body : Stmt} {increment : Option Expr}
    (hc : x.Always (Expr.Tied · layers condition))
    (hi : x.Always (Expr.TiedOptional · (Layer.round increment layers) increment))
    (hb : x.Always (Stmt.Tied · (Layer.round increment layers) body)) :
    Matches side x w layers (Completions x) (Run.loop (n + 1) condition body increment)
      (Run.loop (n' + 1) condition (body.desugar.withIncrement increment) none) := by
  have sim := ih (Nat.le_refl n') henough.pred
  rw [Run.loop_eq, Run.loop_eq]
  refine (sim.evaluate hc).bind fun w₁ v v' _ hv => ?_
  rw [hv.truthy]
  split
  · exact (round_simulated henough ih hi hb).andThen fun w₂ _ => sim.loop hc hi hb
  · exact .pure .normal

theorem execute_simulated {s : Stmt} (h : x.Always (Stmt.Tied · layers s)) :
    Matches side x w layers (Completions x) (Run.execute (n + 1) s)
      (Run.execute (n' + 1) s.desugar) := by
  have sim := ih (Nat.le_refl n') henough.pred
  cases s with
  | expression value => exact (sim.evaluate (e := value) h).bind fun _ _ _ _ _ => .pure .normal
  | print value =>
      refine (sim.evaluate (e := value) h).bind fun w₁ v v' _ hv => ?_
      exact (Matches.print hv).bind fun _ _ _ _ _ => .pure .normal
  | var name initializer =>
      cases initializer with
      | none =>
          have hnil : Values x w .nil .nil := .simple trivial
          exact (Matches.define h.left.now name hnil).bind fun _ _ _ _ _ => .pure .normal
      | some initializer =>
          refine (sim.evaluate (e := initializer) h.right).bind fun w₁ v v' _ hv => ?_
          exact (Matches.define h.left.now name hv).bind fun _ _ _ _ _ => .pure .normal
  | block body => exact .inBlock fun w₁ _ => sim.executeAll h
  | ifThen condition thenBranch elseBranch =>
      refine (sim.evaluate h.left).bind fun w₁ v v' _ hv => ?_
      rw [hv.truthy]
      split
      · exact sim.execute h.right.left
      · cases elseBranch with
        | none => exact .pure .normal
        | some elseBranch => exact sim.execute (s := elseBranch) h.right.right
  | whileLoop condition body => exact sim.loop h.left (fun _ _ => trivial) h.right
  | forLoop initializer condition increment body =>
      have hcondition : x.Always (Expr.Tied · (Layer.clauses initializer layers)
          (Stmt.loopCondition condition)) := fun r hr => Expr.tied_loopCondition (h.right.left r hr)
      have hi := h.right.right.left
      have hb := h.right.right.right
      cases initializer with
      | none => exact sim.loop hcondition hi hb
      | some initializer =>
          have hloop : ∀ k, Run.execute (k + 1) (.whileLoop (Stmt.loopCondition condition)
              (body.desugar.withIncrement increment)) = Run.loop k (Stmt.loopCondition condition)
                (body.desugar.withIncrement increment) none := fun _ => rfl
          obtain ⟨k, hk, hn, hfollows⟩ :=
            Side.follows_pair henough.room initializer.desugar _ hloop
          refine .follows hfollows.inBlock (.inBlock fun w₁ _ => ?_)
          exact ((ih hk hn).execute (s := initializer) h.left).andThen fun w₂ _ =>
            (ih hk hn).loop hcondition hi hb
  | function name params body =>
      refine (Matches.close (d := ⟨name, params, body⟩) h.right).bind fun w₁ v v' _ hv => ?_
      exact (Matches.define h.left.now name hv).bind fun _ _ _ _ _ => .pure .normal
  | ret keyword value =>
      cases value with
      | none => exact .pure (.returned (.simple trivial))
      | some value =>
          exact (sim.evaluate (e := value) h).bind fun _ _ _ _ hv => .pure (.returned hv)

end Fuel

end Steps

variable {side : Side} {x : Setting}

theorem simulated {n n' : Nat} (h : side.Enough n n') : Simulated side x n n' := by
  induction n' using Nat.strongRecOn generalizing n with
  | ind n' ih =>
      rcases h.cases with ⟨rfl, rfl⟩ | ⟨rfl, rfl⟩ | ⟨n, n', rfl, rfl⟩
      · exact ⟨fun _ => .written _, fun _ => .written _, fun _ _ _ => .written _,
          fun _ => .written _, fun _ => .written _, fun _ _ _ => .written _⟩
      · exact ⟨fun _ => .writtenOut _, fun _ => .writtenOut _, fun _ _ _ => .writtenOut _,
          fun _ => .writtenOut _, fun _ => .writtenOut _, fun _ _ _ => .writtenOut _⟩
      · have before : ∀ {k k' : Nat}, k' ≤ n' → side.Enough k k' → Simulated side x k k' :=
          fun hk hn => ih _ (Nat.lt_succ_of_le hk) hn
        have sim := before (Nat.le_refl n') h.pred
        exact ⟨evaluate_simulated sim, evaluateAll_simulated sim,
          fun paren => call_simulated sim paren, execute_simulated h before,
          executeAll_simulated sim, loop_simulated h before⟩

/-- A tied program does the same with its loops written out. -/
theorem program_simulated {n n' : Nat} (h : side.Enough n n') {w : World} {body : List Stmt}
    (hb : x.Always (Stmt.TiedAll · [] body)) :
    Matches side x w [] (fun _ => Eq) (Run.program n body)
      (Run.program n' (Stmt.desugarAll body)) := by
  induction body generalizing w with
  | nil => exact .pure rfl
  | cons s body ih =>
      refine ((simulated h).execute hb.left).bind fun w₁ c c' _ hc => ?_
      cases hc with
      | normal => exact ih hb.right
      | returned hv => exact .pure rfl

end Lox.Loops
