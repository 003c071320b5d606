import Lox.Proofs.Machine.Fuel

/-!
# The rounds of a loop

A round of a loop is its body and then the increment, unless the body returns. Written
out it is a block of two statements, and the loop with its initializer is another one.
Running through such a block takes some more fuel than running the two one after the
other, but for the fuel it is the same: with less of it the block has no answer that the
two do not have, and with more of it each answer of the two.

So fuel for the one side tells how much is enough for the other. Which way this is asked
is a parameter, because all else that there is to say of the two sides is the same for
both ways.
-/

namespace Lox.Run

variable {α β : Type}

/-! ## One after the other -/

/-- Goes on to the second unless the first returns. -/
def andThen (first second : Run Completion) : Run Completion := do
  match ← first with
  | .returned value => return .returned value
  | .normal => second

/-- Runs in a new scope within the current one. -/
def inBlock (r : Run α) : Run α := do
  let scope ← enterBlock
  within scope r

/-- What is done in each round of a loop as it is written. -/
def round (n : Nat) (body : Stmt) : Option Expr → Run Completion
  | none => execute n body
  | some step => andThen (execute n body) (evaluate n step >>= fun _ => return .normal)

theorem andThen_normal (r : Run Completion) : andThen r (return .normal) = r := by
  refine Eq.trans (bind_congr fun completion => ?_) (bind_pure r)
  cases completion <;> rfl

theorem andThen_assoc (r₁ r₂ r₃ : Run Completion) :
    andThen (andThen r₁ r₂) r₃ = andThen r₁ (andThen r₂ r₃) := by
  refine (bind_assoc ..).trans (bind_congr fun completion => ?_)
  cases completion with
  | returned value => exact pure_bind ..
  | normal => rfl

theorem andThen_bind (r : Run α) (r' : Run Completion) :
    andThen (r >>= fun _ => return .normal) r' = r >>= fun _ => r' :=
  (bind_assoc ..).trans (bind_congr fun _ => pure_bind ..)

/-- A loop tests its condition, and then comes a round and the rest of the loop. -/
theorem loop_eq (n : Nat) (condition : Expr) (body : Stmt) (increment : Option Expr) :
    loop (n + 1) condition body increment = (do
      let value ← evaluate n condition
      if value.truthy then andThen (round n body increment) (loop n condition body increment)
      else return .normal) := by
  refine bind_congr fun value => ?_
  congr 1
  cases increment with
  | none => rfl
  | some step =>
      rw [round, andThen_assoc, andThen_bind]
      rfl

/-! ## Blocks of two statements -/

theorem Extends.andThen {r₁ r₂ r₁' r₂' : Run Completion} (h₁ : Extends r₁ r₁')
    (h₂ : Extends r₂ r₂') : Extends (andThen r₁ r₂) (andThen r₁' r₂') := by
  refine h₁.bind fun completion => ?_
  cases completion with
  | returned value => exact .refl _
  | normal => exact h₂

theorem Extends.inBlock {r r' : Run α} (h : Extends r r') : Extends (inBlock r) (inBlock r') :=
  (Extends.refl enterBlock).bind fun scope => .within scope h

/-- What is the same with one unit of fuel more is the same with any number of them. -/
theorem extends_of_le {f : Nat → Run α} (h : ∀ n, Extends (f n) (f (n + 1))) {n n' : Nat}
    (hle : n ≤ n') : Extends (f n) (f n') := by
  induction hle with
  | refl => exact .refl _
  | step _ ih => exact ih.trans (h _)

theorem execute_extends_of_le (s : Stmt) {n n' : Nat} (h : n ≤ n') :
    Extends (execute n s) (execute n' s) :=
  extends_of_le (fun n => (extended n).execute s) h

section Pair

variable (n : Nat) (first second : Stmt)

theorem executeAll_singleton (s : Stmt) : executeAll (n + 2) [s] = execute (n + 1) s :=
  andThen_normal (execute (n + 1) s)

/-- A list of one statement has no other answers than the statement. -/
theorem singleton_extends (s : Stmt) : Extends (executeAll n [s]) (execute n s) := by
  match n with
  | 0 => exact .exhausted _
  | 1 =>
      intro m o ho
      cases ho
  | n + 2 =>
      rw [executeAll_singleton]
      exact execute_extends_of_le s (Nat.le_succ _)

/-- Two statements have no other answers than one after the other. -/
theorem pair_extends :
    Extends (executeAll n [first, second]) (andThen (execute n first) (execute n second)) := by
  cases n with
  | zero => exact .exhausted _
  | succ n =>
      exact .andThen (execute_extends_of_le first (Nat.le_succ n))
        ((singleton_extends n second).trans (execute_extends_of_le second (Nat.le_succ n)))

/-- One after the other, two statements have the answers of a list, with more fuel. -/
theorem extends_pair :
    Extends (andThen (execute n first) (execute (n + 1) second))
      (executeAll (n + 3) [first, second]) := by
  refine .andThen (execute_extends_of_le first (Nat.le_add_right _ 2)) ?_
  rw [executeAll_singleton]
  exact .refl _

end Pair

/-! ## Two sides -/

/-- The side whose answer is given, while that of the other side is asked for. -/
inductive Side
  /-- The program as it is written. -/
  | written
  /-- The program with its loops written out. -/
  | writtenOut

namespace Side

/-- Given the fuel of the one side, the other has enough. -/
def Enough : Side → Nat → Nat → Prop
  | written, n, n' => 5 * n ≤ n'
  | writtenOut, n, n' => n' ≤ n

/-- The run that is given has no answer. -/
def Silent : Side → Option α → Option β → Prop
  | written, o, _ => o = none
  | writtenOut, _, o' => o' = none

/-- What there is to say of the first run, as the one that is written out, there is to say
of the second one. -/
def Follows : Side → Run α → Run α → Prop
  | written, r, c => Extends c r
  | writtenOut, r, c => Extends r c

variable {side : Side} {n n' : Nat}

theorem Enough.pred (h : side.Enough (n + 1) (n' + 1)) : side.Enough n n' := by
  cases side with
  | written => exact show 5 * n ≤ n' from by change 5 * (n + 1) ≤ n' + 1 at h; omega
  | writtenOut => exact Nat.le_of_succ_le_succ h

/-- Both have fuel to go on, or the side that is given has not. -/
theorem Enough.cases (h : side.Enough n n') :
    (side = .written ∧ n = 0) ∨ (side = .writtenOut ∧ n' = 0) ∨
      ∃ k k', n = k + 1 ∧ n' = k' + 1 := by
  cases side with
  | written =>
      change 5 * n ≤ n' at h
      cases n with
      | zero => exact .inl ⟨rfl, rfl⟩
      | succ k => exact .inr (.inr ⟨k, n' - 1, rfl, by omega⟩)
  | writtenOut =>
      change n' ≤ n at h
      cases n' with
      | zero => exact .inr (.inl ⟨rfl, rfl⟩)
      | succ k' => exact .inr (.inr ⟨n - 1, k', by omega, rfl⟩)

/-- Given the fuel of the one side, the other has enough for a list of two statements. -/
def Room : Side → Nat → Nat → Prop
  | written, n, n' => 5 * n + 3 ≤ n'
  | writtenOut, n, n' => n' ≤ n

theorem Enough.room (h : side.Enough (n + 1) (n' + 1)) : side.Room n n' := by
  cases side with
  | written => exact show 5 * n + 3 ≤ n' from by change 5 * (n + 1) ≤ n' + 1 at h; omega
  | writtenOut => exact Nat.le_of_succ_le_succ h

/-- A list of two statements is one after the other, and the second takes one unit of fuel
for itself. -/
theorem follows_pair (h : side.Room n n') (first second : Stmt) {rest : Nat → Run Completion}
    (hrest : ∀ k, execute (k + 1) second = rest k) :
    ∃ k ≤ n', side.Enough n k ∧ side.Follows (executeAll n' [first, second])
      (andThen (execute k first) (rest k)) := by
  cases side with
  | written =>
      change 5 * n + 3 ≤ n' at h
      obtain ⟨k, rfl⟩ : ∃ k, n' = k + 3 := ⟨n' - 3, by omega⟩
      refine ⟨k, Nat.le_add_right _ _, show 5 * n ≤ k by omega, ?_⟩
      rw [← hrest]
      exact extends_pair k first second
  | writtenOut =>
      refine ⟨n', Nat.le_refl _, h, ?_⟩
      rw [← hrest]
      refine (pair_extends n' first second).trans (.andThen (.refl _) ?_)
      exact execute_extends_of_le second (Nat.le_succ _)

theorem Follows.inBlock {r c : Run α} (h : side.Follows r c) :
    side.Follows (inBlock r) (inBlock c) := by
  cases side <;> exact Extends.inBlock h

/-- A block of two statements is one after the other in a new scope. -/
theorem follows_block (h : side.Enough (n + 1) (n' + 1)) (first second : Stmt)
    {rest : Nat → Run Completion} (hrest : ∀ k, execute (k + 1) second = rest k) :
    ∃ k ≤ n', side.Enough n k ∧ side.Follows (execute n' (.block [first, second]))
      (Run.inBlock (andThen (execute k first) (rest k))) := by
  cases n' with
  | zero =>
      cases side with
      | written =>
          change 5 * (n + 1) ≤ 0 + 1 at h
          omega
      | writtenOut => exact ⟨0, Nat.le_refl _, Nat.zero_le _, .exhausted _⟩
  | succ n' =>
      have hroom : side.Room n n' := by
        cases side with
        | written => exact show 5 * n + 3 ≤ n' from by change 5 * (n + 1) ≤ n' + 2 at h; omega
        | writtenOut => exact Nat.le_of_succ_le (Nat.le_of_succ_le_succ h)
      obtain ⟨k, hk, henough, hfollows⟩ := follows_pair hroom first second hrest
      exact ⟨k, Nat.le_succ_of_le hk, henough, hfollows.inBlock⟩

end Side

end Lox.Run
