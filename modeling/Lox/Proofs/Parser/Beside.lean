import Lox.Proofs.Parser.InTurn

/-!
# Two runs side by side

One run has found a fault that the other has not, and from there on both read the same tokens.
Then they find the same faults from there on, and stop or throw at the same tokens: nothing that
the parser does depends on the faults found so far, and nothing that it does with statements depends
on the statements themselves.

Parsers are given with all amounts of fuel at once here, and only what they answer with enough of it
is looked at.
-/

namespace Lox.Parse

variable {α β γ δ : Type}

/-! ## With enough fuel -/

/-- The answer with enough fuel. -/
def Gives (p : Nat → Parse α) (s : State) (result : Except Fault α) (s' : State) : Prop :=
  ∃ N, ∀ n, N ≤ n → (p n).run s = some (result, s')

section Gives

variable {p : Nat → Parse α} {k : Nat → α → Parse β} {s s' s'' : State} {fault : Fault} {a : α}

theorem Gives.of_run {answer : Except Fault α × State} (h : ∀ n, (p n).run s = some answer) :
    Gives p s answer.1 answer.2 := ⟨0, fun n _ => h n⟩

theorem Gives.bind {result : Except Fault β} (h : Gives p s (.ok a) s')
    (hk : Gives (k · a) s' result s'') : Gives (fun n => p n >>= k n) s result s'' := by
  obtain ⟨N, hN⟩ := h
  obtain ⟨M, hM⟩ := hk
  refine ⟨max N M, fun n hn => ?_⟩
  rw [run_bind, hN n (by omega)]
  exact hM n (by omega)

theorem Gives.bind_error (h : Gives p s (.error fault) s') :
    Gives (fun n => p n >>= k n) s (.error fault) s' := by
  obtain ⟨N, hN⟩ := h
  refine ⟨N, fun n hn => ?_⟩
  rw [run_bind, hN n hn]

theorem Gives.tryCatch_ok {handler : Nat → Fault → Parse α} (h : Gives p s (.ok a) s') :
    Gives (fun n => tryCatch (p n) (handler n)) s (.ok a) s' := by
  obtain ⟨N, hN⟩ := h
  refine ⟨N, fun n hn => ?_⟩
  rw [run_tryCatch, hN n hn]

theorem Gives.tryCatch_error {handler : Nat → Fault → Parse α} {result : Except Fault α}
    (h : Gives p s (.error fault) s') (hh : Gives (handler · fault) s' result s'') :
    Gives (fun n => tryCatch (p n) (handler n)) s result s'' := by
  obtain ⟨N, hN⟩ := h
  obtain ⟨M, hM⟩ := hh
  refine ⟨max N M, fun n hn => ?_⟩
  rw [run_tryCatch, hN n (by omega)]
  exact hM n (by omega)

/-- A parser is given later with more fuel. -/
theorem Gives.later {result : Except Fault α} (h : Gives p s result s') (d : Nat) :
    Gives (fun n => p (n + d)) s result s' := by
  obtain ⟨N, hN⟩ := h
  exact ⟨N, fun n hn => hN _ (by omega)⟩

/-- From some amount of fuel on the parser does what the other one does with less of it. -/
theorem Gives.of_agree {p' : Nat → Parse α} {t t' : State} {result : Except Fault α} {d N : Nat}
    (hp : ∀ n, N ≤ n → (p (n + d)).run s = (p' n).run t) (h : Gives p' t result t') :
    Gives p s result t' := by
  obtain ⟨M, hM⟩ := h
  refine ⟨max N M + d, fun n hn => ?_⟩
  obtain ⟨n, rfl⟩ : ∃ m, n = m + d := ⟨n - d, by omega⟩
  rw [hp n (by omega), hM n (by omega)]

end Gives

/-! ## Side by side -/

/-- The first run has found one fault more, and before all others. -/
inductive Beside (fault : Fault) : State → State → Prop
  | intro (rest : List Token) (last : Token) (i i' : NodeId) (faults : List Fault) :
      Beside fault ⟨rest, last, i, fault :: faults⟩ ⟨rest, last, i', faults⟩

/-- The parser looks at tokens only, and does nothing but take some of them. -/
def Looks (p : Parse α) : Prop :=
  ∀ rest last, ∃ result left, ∀ i faults,
    p.run ⟨rest, last, i, faults⟩ = some (result, ⟨left, last, i, faults⟩)

theorem Looks.acceptIf (wanted : Token.Kind → Bool) : Looks (acceptIf wanted) := by
  intro rest last
  cases ha : Ahead wanted rest with
  | false => exact ⟨.ok none, rest, fun _ _ => run_acceptIf_none ha⟩
  | true =>
      cases rest with
      | nil => cases ha
      | cons t rest => exact ⟨.ok (some t), rest, fun _ _ => run_acceptIf_cons rfl ha⟩

theorem Looks.expect (kind : Token.Kind) (cause : Cause) : Looks (expect kind cause) := by
  intro rest last
  obtain ⟨result, left, hrun⟩ := Looks.acceptIf (· = kind) rest last
  refine ⟨match result with
    | .ok (some t) => .ok t
    | .ok none => .error ⟨cause, left.headD last⟩
    | .error fault => .error fault, left, fun i faults => ?_⟩
  rw [Parse.expect, run_bind, Parse.accept, hrun]
  rcases result with e | _ | t <;> rfl

/-- Both have a result, or both have thrown the same fault. -/
inductive EndsAlike : Except Fault α → Except Fault β → Prop
  | ok (a : α) (b : β) : EndsAlike (.ok a) (.ok b)
  | error (fault : Fault) : EndsAlike (.error fault) (.error fault)

/-- From these states the two parsers come to stand side by side. -/
def Meet (fault : Fault) (p : Nat → Parse α) (q : Nat → Parse β) (s t : State) : Prop :=
  ∃ x s' y t', Gives p s x s' ∧ Gives q t y t' ∧ Beside fault s' t' ∧ EndsAlike x y

/-- Side by side, the two parsers stay side by side. -/
def InStep (fault : Fault) (p : Nat → Parse α) (q : Nat → Parse β) : Prop :=
  ∀ s t, Beside fault s t → Meet fault p q s t

section Rules

variable {fault : Fault} {p : Nat → Parse α} {q : Nat → Parse β} {k : Nat → α → Parse γ}
  {l : Nat → β → Parse δ} {s t : State}

theorem Meet.bind (h : Meet fault p q s t) (hk : ∀ a b, InStep fault (k · a) (l · b)) :
    Meet fault (fun n => p n >>= k n) (fun n => q n >>= l n) s t := by
  obtain ⟨_, s', _, t', hp, hq, hbeside, hends⟩ := h
  cases hends with
  | error fault => exact ⟨_, s', _, t', hp.bind_error, hq.bind_error, hbeside, .error fault⟩
  | ok a b =>
      obtain ⟨x, s'', y, t'', hp', hq', hbeside', hends'⟩ := hk a b s' t' hbeside
      exact ⟨x, s'', y, t'', hp.bind hp', hq.bind hq', hbeside', hends'⟩

theorem Meet.tryCatch {q : Nat → Parse α} {handler : Nat → Fault → Parse α}
    (h : Meet fault p q s t) (hh : ∀ e, InStep fault (handler · e) (handler · e)) :
    Meet fault (fun n => tryCatch (p n) (handler n)) (fun n => tryCatch (q n) (handler n)) s t := by
  obtain ⟨_, s', _, t', hp, hq, hbeside, hends⟩ := h
  cases hends with
  | ok a b => exact ⟨_, s', _, t', hp.tryCatch_ok, hq.tryCatch_ok, hbeside, .ok a b⟩
  | error e =>
      obtain ⟨x, s'', y, t'', hp', hq', hbeside', hends'⟩ := hh e s' t' hbeside
      exact ⟨x, s'', y, t'', hp.tryCatch_error hp', hq.tryCatch_error hq', hbeside', hends'⟩

theorem Meet.later (h : Meet fault p q s t) (d : Nat) :
    Meet fault (fun n => p (n + d)) (fun n => q (n + d)) s t := by
  obtain ⟨x, s', y, t', hp, hq, hbeside, hends⟩ := h
  exact ⟨x, s', y, t', hp.later d, hq.later d, hbeside, hends⟩

theorem Meet.of_agree {p' : Nat → Parse α} {q' : Nat → Parse β} {s' t' : State} {d N : Nat}
    (hp : ∀ n, N ≤ n → (p (n + d)).run s = (p' n).run s')
    (hq : ∀ n, N ≤ n → (q (n + d)).run t = (q' n).run t') (h : Meet fault p' q' s' t') :
    Meet fault p q s t := by
  obtain ⟨x, s'', y, t'', hp', hq', hbeside, hends⟩ := h
  exact ⟨x, s'', y, t'', hp'.of_agree hp, hq'.of_agree hq, hbeside, hends⟩

theorem InStep.later (h : InStep fault p q) (d : Nat) :
    InStep fault (fun n => p (n + d)) (fun n => q (n + d)) := fun s t hst => (h s t hst).later d

theorem InStep.bind (h : InStep fault p q) (hk : ∀ a b, InStep fault (k · a) (l · b)) :
    InStep fault (fun n => p n >>= k n) (fun n => q n >>= l n) :=
  fun s t hst => (h s t hst).bind hk

theorem InStep.pure (a : α) (b : β) :
    InStep fault (fun _ => Pure.pure a) (fun _ => Pure.pure b) := fun s t hst =>
  ⟨_, s, _, t, .of_run fun _ => run_pure a s, .of_run fun _ => run_pure b t, hst, .ok a b⟩

theorem InStep.map (h : InStep fault p q) (f : α → γ) (g : β → δ) :
    InStep fault (fun n => f <$> p n) (fun n => g <$> q n) := by
  have hmap := h.bind (k := fun _ a => Pure.pure (f a)) (l := fun _ b => Pure.pure (g b))
    fun a b => .pure (f a) (g b)
  simpa only [bind_pure_comp] using hmap

/-- Both see the same tokens. -/
theorem InStep.looks {look : Parse α} (hlook : Looks look) {l : Nat → α → Parse δ}
    (h : ∀ a, InStep fault (k · a) (l · a)) :
    InStep fault (fun n => look >>= k n) (fun n => look >>= l n) := by
  intro s t hst
  cases hst with
  | intro rest last i i' faults =>
      obtain ⟨result, left, hrun⟩ := hlook rest last
      cases result with
      | error e =>
          exact ⟨_, _, _, _, .bind_error (.of_run fun _ => hrun _ _),
            .bind_error (.of_run fun _ => hrun _ _), .intro left last i i' faults, .error e⟩
      | ok a =>
          obtain ⟨x, s', y, t', hp, hq, hbeside, hends⟩ :=
            h a _ _ (.intro left last i i' faults)
          exact ⟨x, s', y, t', .bind (.of_run fun _ => hrun _ _) hp,
            .bind (.of_run fun _ => hrun _ _) hq, hbeside, hends⟩

/-- A caught fault is recorded by both, and both recover in the same way. -/
theorem InStep.caught (e : Fault) :
    InStep fault (fun _ => (record e >>= fun _ => skipBroken >>= fun _ => Pure.pure none :
        Parse (Option Stmt)))
      fun _ => (record e >>= fun _ => skipBroken >>= fun _ => Pure.pure none :
        Parse (Option Stmt)) := by
  intro s t hst
  cases hst with
  | intro rest last i i' faults =>
      exact ⟨_, _, _, _, .of_run fun _ => rfl, .of_run fun _ => rfl,
        .intro (recover rest) last i i' (faults ++ [e]), .ok none none⟩

/-- Phrases are read alike whatever the faults and numbers are. -/
theorem InStep.of_uniform {f : Nat → α → α} {p : Nat → Parse α}
    (hp : ∀ {n m}, n ≤ m → ∀ before d, Uniform before d (f d) (p n) (p m))
    (hanswers : ∀ s, ∃ n result s', (p n).run s = some (result, s')) : InStep fault p p := by
  intro s t hst
  cases hst with
  | intro rest last i i' faults =>
      -- both runs are shifts of the one without faults
      obtain ⟨N, result, s', hrun⟩ := hanswers ⟨rest, last, 0, []⟩
      have hgives (before : List Fault) (d : Nat) :
          Gives p ⟨rest, last, d, before⟩ (result.map (f d)) (s'.shifted before d) := by
        refine ⟨N, fun n hn => ?_⟩
        have hshift := hp hn before d _ _ _ hrun
        rwa [State.shifted, List.append_nil, Nat.zero_add] at hshift
      refine ⟨_, _, _, _, hgives _ i, hgives _ i', .intro s'.rest s'.last _ _ _, ?_⟩
      cases result with
      | error e => exact .error e
      | ok a => exact .ok _ _

theorem InStep.declarations (inBlock : Bool) :
    InStep fault (Parse.declarations · inBlock) (Parse.declarations · inBlock) := by
  refine .of_uniform (fun hnm before d => (indifferent before d hnm).declarations inBlock)
    fun s => ?_
  obtain ⟨result, s', hrun, -⟩ := sound _ (.declarations inBlock) s (Nat.le_refl _)
  exact ⟨_, result, s', hrun⟩

theorem InStep.statement : InStep fault Parse.statement Parse.statement := by
  refine .of_uniform (fun hnm before d => (indifferent before d hnm).statement) fun s => ?_
  obtain ⟨result, s', hrun, -⟩ := sound _ .statement s (Nat.le_refl _)
  exact ⟨_, result, s', hrun⟩

end Rules

/-! ## Around the difference -/

/-- Around parsers that come to stand side by side the whole comes to stand side by side. -/
def Carries (C : Nat → Parse α → Parse β) : Prop :=
  ∀ fault (p q : Nat → Parse α) s t, Meet fault p q s t →
    Meet fault (fun n => C n (p n)) (fun n => C n (q n)) s t

section Carries

variable {C : Nat → Parse α → Parse β}

theorem Carries.here : Carries fun _ (p : Parse α) => p := fun _ _ _ _ _ h => h

theorem Carries.comp {D : Nat → Parse β → Parse γ} (hD : Carries D) (h : Carries C) :
    Carries fun n p => D n (C n p) :=
  fun fault p q s t hst => hD fault _ _ s t (h fault p q s t hst)

theorem Carries.bind (h : Carries C) {k : Nat → β → Parse γ}
    (hk : ∀ fault a b, InStep fault (k · a) (k · b)) : Carries fun n p => C n p >>= k n :=
  fun fault p q s t hst => (h fault p q s t hst).bind (hk fault)

theorem Carries.map (h : Carries C) (f : β → γ) : Carries fun n p => f <$> C n p := by
  have hmap := h.bind (k := fun _ a => pure (f a)) fun _ a b => .pure (f a) (f b)
  simpa only [bind_pure_comp] using hmap

theorem Carries.tryCatch (h : Carries C) {handler : Nat → Fault → Parse β}
    (hh : ∀ fault e, InStep fault (handler · e) (handler · e)) :
    Carries fun n p => tryCatch (C n p) (handler n) :=
  fun fault p q s t hst => (h fault p q s t hst).tryCatch (hh fault)

/-- The fuel around may be counted from elsewhere. -/
theorem Carries.later (h : Carries C) (d : Nat) : Carries fun n p => C (n + d) p := by
  intro fault p q s t hst
  have hearlier {r : Nat → Parse α} {s s' : State} {result : Except Fault α}
      (hr : Gives r s result s') : Gives (fun n => r (n - d)) s result s' := by
    obtain ⟨N, hN⟩ := hr
    exact ⟨N + d, fun n hn => hN _ (by omega)⟩
  obtain ⟨x, s', y, t', hp, hq, hbeside, hends⟩ := hst
  have hmeet := (h fault (fun n => p (n - d)) (fun n => q (n - d)) s t
    ⟨x, s', y, t', hearlier hp, hearlier hq, hbeside, hends⟩).later d
  simpa only [Nat.add_sub_cancel] using hmeet

end Carries

end Lox.Parse
