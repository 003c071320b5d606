import Lox.Proofs.Parser.Long
import Lox.Proofs.Parser.Run

/-!
# Contracts of parsers

`Obeys p s taken R` is the contract of a parser in a state. It has an answer, it
gives no token back and drops no fault, it takes at least `taken a` tokens for a
result `a`, and if it has added nothing but reports of entries that are too many, the
tokens it took stand in the relation `R` to the result, to the numbers given out, to
the tokens behind and to these reports. What it throws is no such report.

Contracts compose along `>>=`, so each function of the parser is a chain of the
contracts of its parts. `Sound` is the table of these contracts, one for each
phrase.
-/

namespace Lox.Parse

variable {α β : Type}

/-- Tokens only go, faults only come, and numbers are given out once. -/
structure State.Leads (s s' : State) : Prop where
  length : s'.rest.length ≤ s.rest.length
  faults : s.faults <+: s'.faults
  nextId : s.nextId ≤ s'.nextId

theorem State.Leads.refl (s : State) : s.Leads s :=
  ⟨Nat.le_refl _, List.prefix_refl _, Nat.le_refl _⟩

theorem State.Leads.trans {s₁ s₂ s₃ : State} (h : s₁.Leads s₂) (h' : s₂.Leads s₃) :
    s₁.Leads s₃ :=
  ⟨Nat.le_trans h'.length h.length, h.faults.trans h'.faults, Nat.le_trans h.nextId h'.nextId⟩

/-- What was added on the whole way was added on its parts. -/
theorem State.Leads.added {s₁ s₂ s₃ : State} (h : s₁.Leads s₂) (h' : s₂.Leads s₃)
    {new : List Fault} (hnew : s₃.faults = s₁.faults ++ new) :
    ∃ fs gs, new = fs ++ gs ∧ s₂.faults = s₁.faults ++ fs ∧ s₃.faults = s₂.faults ++ gs := by
  obtain ⟨fs, hfs⟩ := h.faults
  obtain ⟨gs, hgs⟩ := h'.faults
  refine ⟨fs, gs, ?_, hfs.symm, hgs.symm⟩
  rw [← hgs, ← hfs, List.append_assoc] at hnew
  exact (List.append_cancel_left hnew).symm

/-- What a result says about the tokens taken, those left, the numbers and the reports. -/
abbrev Relation (α : Type) := List Token → List Token → Nat → α → Nat → List Fault → Prop

def Obeys (p : Parse α) (s : State) (taken : α → Nat) (R : Relation α) : Prop :=
  ∃ result s', p.run s = some (result, s') ∧ s.Leads s' ∧
    (∀ a, result = .ok a → s'.rest.length + taken a ≤ s.rest.length ∧
      ∀ new, s'.faults = s.faults ++ new → Overruns new →
        ∃ w, s.rest = w ++ s'.rest ∧ R w s'.rest s.nextId a s'.nextId new) ∧
    ∀ fault, result = .error fault → fault.cause.isOverrun = false

section Rules

variable {p : Parse α} {s : State}

theorem Obeys.mono {taken taken' : α → Nat} {R R' : Relation α} (h : Obeys p s taken R)
    (ht : ∀ a, taken' a ≤ taken a) (hR : ∀ w r i a j fs, R w r i a j fs → R' w r i a j fs) :
    Obeys p s taken' R' := by
  obtain ⟨result, s', hrun, hlead, hok, hthrown⟩ := h
  refine ⟨result, s', hrun, hlead, fun a ha => ?_, hthrown⟩
  obtain ⟨hlen, hread⟩ := hok a ha
  refine ⟨Nat.le_trans (Nat.add_le_add_left (ht a) _) hlen, fun new hnew hover => ?_⟩
  obtain ⟨w, hw, hr⟩ := hread new hnew hover
  exact ⟨w, hw, hR _ _ _ _ _ _ hr⟩

theorem Obeys.of_run {q : Parse α} {taken : α → Nat} {R : Relation α} (hpq : p.run s = q.run s)
    (h : Obeys q s taken R) : Obeys p s taken R := by
  obtain ⟨result, s', hrun, hlead, hok⟩ := h
  exact ⟨result, s', hpq.trans hrun, hlead, hok⟩

/-- The second parser is given what the first has left. -/
theorem Obeys.bind {f : α → Parse β} {taken : α → Nat} {taken' : α → β → Nat}
    {m : β → Nat} {R : Relation α} {S : α → Relation β} (hp : Obeys p s taken R)
    (hf : ∀ a s₁, s₁.rest.length + taken a ≤ s.rest.length → Obeys (f a) s₁ (taken' a) (S a))
    (ht : ∀ a b, m b ≤ taken a + taken' a b) :
    Obeys (p >>= f) s m fun w r i b k new =>
      ∃ u v a j fs gs, w = u ++ v ∧ new = fs ++ gs ∧ R u (v ++ r) i a j fs ∧ S a v r j b k gs := by
  obtain ⟨result, s₁, hrun, hlead, hok, hthrown⟩ := hp
  cases result with
  | error fault =>
      refine ⟨.error fault, s₁, by rw [run_bind, hrun], hlead, (fun _ h => nomatch h), ?_⟩
      exact fun _ h => hthrown _ (congrArg Except.error (Except.error.inj h))
  | ok a =>
      obtain ⟨hlen, hread⟩ := hok a rfl
      obtain ⟨result₂, s₂, hrun₂, hlead₂, hok₂, hthrown₂⟩ := hf a s₁ hlen
      refine ⟨result₂, s₂, by rw [run_bind, hrun]; exact hrun₂, hlead.trans hlead₂,
        fun b hb => ?_, hthrown₂⟩
      obtain ⟨hlen₂, hread₂⟩ := hok₂ b hb
      refine ⟨?_, fun new hnew hover => ?_⟩
      · have := ht a b
        omega
      · obtain ⟨fs, gs, rfl, hfs, hgs⟩ := hlead.added hlead₂ hnew
        have hover := List.forall_mem_append.1 hover
        obtain ⟨u, hu, hR⟩ := hread fs hfs hover.1
        obtain ⟨v, hv, hS⟩ := hread₂ gs hgs hover.2
        refine ⟨u ++ v, by rw [hu, hv, List.append_assoc], u, v, a, _, fs, gs, rfl, rfl, ?_, hS⟩
        rwa [hv] at hR

theorem Obeys.pure (a : α) :
    Obeys (pure a : Parse α) s (fun _ => 0) fun w _ i b j new =>
      w = [] ∧ b = a ∧ j = i ∧ new = [] := by
  refine ⟨_, s, rfl, .refl s, fun b hb => ?_, fun _ h => nomatch h⟩
  cases hb
  exact ⟨Nat.le_refl _, fun new hnew _ =>
    ⟨[], rfl, rfl, rfl, rfl, List.self_eq_append_right.1 hnew⟩⟩

theorem Obeys.map {taken : α → Nat} {m : β → Nat} {R : Relation α} (h : Obeys p s taken R)
    (f : α → β) (ht : ∀ a, m (f a) ≤ taken a) :
    Obeys (f <$> p) s m fun w r i b j new => ∃ a, b = f a ∧ R w r i a j new := by
  obtain ⟨result, s', hrun, hlead, hok, hthrown⟩ := h
  cases result with
  | error fault =>
      refine ⟨.error fault, s', by rw [← bind_pure_comp, run_bind, hrun], hlead,
        (fun _ h => nomatch h), ?_⟩
      exact fun _ h => hthrown _ (congrArg Except.error (Except.error.inj h))
  | ok a =>
      refine ⟨.ok (f a), s', by rw [← bind_pure_comp, run_bind, hrun]; exact run_pure _ _, hlead,
        fun b hb => ?_, fun _ h => nomatch h⟩
      cases hb
      obtain ⟨hlen, hread⟩ := hok a rfl
      refine ⟨Nat.le_trans (Nat.add_le_add_left (ht a) _) hlen, fun new hnew hover => ?_⟩
      obtain ⟨w, hw, hr⟩ := hread new hnew hover
      exact ⟨w, hw, a, rfl, hr⟩

theorem Obeys.bind_pure {taken : α → Nat} {m : β → Nat} {R : Relation α} (h : Obeys p s taken R)
    (f : α → β) (ht : ∀ a, m (f a) ≤ taken a) :
    Obeys (p >>= fun a => Pure.pure (f a)) s m fun w r i b j new =>
      ∃ a, b = f a ∧ R w r i a j new := by
  rw [bind_pure_comp]
  exact h.map f ht

theorem Obeys.fail {cause : Cause} (hcause : cause.isOverrun = false) (taken : α → Nat)
    (R : Relation α) : Obeys (fail cause) s taken R := by
  refine ⟨_, s, run_fail cause s, .refl s, (fun _ h => nomatch h), fun fault h => ?_⟩
  rw [← Except.error.inj h]
  exact hcause

/-- After a fault of another sort nothing need be known of what is read. -/
theorem Obeys.record_bind {fault : Fault} {f : Unit → Parse β} {taken : β → Nat}
    {R S : Relation β} (hfault : fault.cause.isOverrun = false)
    (hf : ∀ s₁ : State, s₁.rest = s.rest → Obeys (f ()) s₁ taken S) :
    Obeys (record fault >>= f) s taken R := by
  obtain ⟨result, s', hrun, hlead, hok, hthrown⟩ :=
    hf { s with faults := s.faults ++ [fault] } rfl
  have hmore : s.faults ++ [fault] <+: s'.faults := hlead.faults
  refine ⟨result, s', by rw [run_bind, run_record]; exact hrun,
    ⟨hlead.length, (List.prefix_append _ _).trans hmore, hlead.nextId⟩, fun b hb => ?_,
    hthrown⟩
  refine ⟨(hok b hb).1, fun new hnew hover => ?_⟩
  rw [hnew] at hmore
  have hmem : fault ∈ new := (List.prefix_append_right_inj _).1 hmore |>.subset (.head _)
  exact absurd (hover fault hmem) (by rw [hfault]; exact Bool.false_ne_true)

/-- The check before an entry of a list shows as the report of the entry. -/
theorem Obeys.check {cause : Cause} {count : Nat} {R : Relation α}
    (hp : ∀ s₁ : State, s₁.rest = s.rest → Obeys p s₁ (fun _ => 1) R) :
    Obeys (if maxArity ≤ count then recordHere cause >>= fun _ => p else p) s (fun _ => 1)
      fun w r i a j new => ∃ fs, new = overrun cause count w ++ fs ∧ R w r i a j fs := by
  split
  next hn =>
    obtain ⟨result, s', hrun, hlead, hok, hthrown⟩ :=
      hp { s with faults := s.faults ++ [⟨cause, s.peek⟩] } rfl
    have hmore : s.faults ++ [⟨cause, s.peek⟩] <+: s'.faults := hlead.faults
    refine ⟨result, s', by rw [run_bind, run_recordHere]; exact hrun,
      ⟨hlead.length, (List.prefix_append _ _).trans hmore, hlead.nextId⟩, fun a ha => ?_,
      hthrown⟩
    obtain ⟨hlen, hread⟩ := hok a ha
    refine ⟨hlen, fun new hnew hover => ?_⟩
    obtain ⟨fs, rfl⟩ := (List.prefix_append_right_inj _).1 (hnew ▸ hmore)
    obtain ⟨w, hw, hr⟩ := hread fs (by rw [hnew, List.append_assoc])
      (List.forall_mem_append.1 hover).2
    refine ⟨w, hw, fs, ?_, hr⟩
    cases w with
    | nil =>
        have hlen : s'.rest.length + 1 ≤ s.rest.length := hlen
        have hw : s.rest = s'.rest := hw
        rw [hw] at hlen
        exact absurd hlen (Nat.not_succ_le_self _)
    | cons t w =>
        have hw : s.rest = t :: (w ++ s'.rest) := hw
        rw [overrun_cons hn, State.peek, hw]
        rfl
  next hn =>
    refine (hp s rfl).mono (fun _ => Nat.le_refl _) fun w r i a j new h => ⟨new, ?_, h⟩
    rw [overrun_of_lt (Nat.lt_of_not_le hn), List.nil_append]

theorem Obeys.freshId :
    Obeys freshId s (fun _ => 0) fun w _ i id j new =>
      w = [] ∧ id = i ∧ j = i + 1 ∧ new = [] := by
  refine ⟨_, _, run_freshId s, ⟨Nat.le_refl _, List.prefix_refl _, Nat.le_succ _⟩,
    fun id hid => ?_, fun _ h => nomatch h⟩
  cases hid
  exact ⟨Nat.le_refl _, fun new hnew _ =>
    ⟨[], rfl, rfl, rfl, rfl, List.self_eq_append_right.1 hnew⟩⟩

/-- A choice by the next token, which stays where it is. -/
theorem Obeys.test {kind : Token.Kind} {f : Bool → Parse β} {m : β → Nat}
    {S S' : Relation β} (hyes : Obeys (f true) s m S) (hno : Obeys (f false) s m S') :
    Obeys (nextIs kind >>= f) s m fun w r i b j new =>
      S w r i b j new ∨ (Ahead (· = kind) (w ++ r) = false ∧ S' w r i b j new) := by
  cases ha : Ahead (· = kind) s.rest with
  | true =>
      obtain ⟨result, s', hrun, hlead, hok, hthrown⟩ := hyes
      refine ⟨result, s', by rw [run_bind, run_nextIs, ha]; exact hrun, hlead, fun b hb => ?_,
        hthrown⟩
      obtain ⟨hlen, hread⟩ := hok b hb
      refine ⟨hlen, fun new hnew hover => ?_⟩
      obtain ⟨w, hw, hS⟩ := hread new hnew hover
      exact ⟨w, hw, .inl hS⟩
  | false =>
      obtain ⟨result, s', hrun, hlead, hok, hthrown⟩ := hno
      refine ⟨result, s', by rw [run_bind, run_nextIs, ha]; exact hrun, hlead, fun b hb => ?_,
        hthrown⟩
      obtain ⟨hlen, hread⟩ := hok b hb
      refine ⟨hlen, fun new hnew hover => ?_⟩
      obtain ⟨w, hw, hS⟩ := hread new hnew hover
      exact ⟨w, hw, .inr ⟨by rw [← hw, ha], hS⟩⟩

/-- A choice by the next token: what follows if it is wanted has one token less. -/
theorem Obeys.choose {wanted : Token.Kind → Bool} {f : Option Token → Parse β}
    {k : Token → β → Nat} {k' m : β → Nat} {S : Token → Relation β} {S' : Relation β}
    (hsome : ∀ t s₁, s₁.rest.length + 1 ≤ s.rest.length → wanted t.kind = true →
      Obeys (f (some t)) s₁ (k t) (S t))
    (hnone : Ahead wanted s.rest = false → Obeys (f none) s k' S')
    (ht : ∀ t b, m b ≤ 1 + k t b) (ht' : ∀ b, m b ≤ k' b) :
    Obeys (Parse.acceptIf wanted >>= f) s m fun w r i b j new =>
      (∃ t v, w = t :: v ∧ wanted t.kind = true ∧ S t v r i b j new) ∨
        (Ahead wanted (w ++ r) = false ∧ S' w r i b j new) := by
  cases ha : Ahead wanted s.rest with
  | false =>
      obtain ⟨result, s', hrun, hlead, hok, hthrown⟩ := hnone ha
      refine ⟨result, s', by rw [run_bind, run_acceptIf_none ha]; exact hrun, hlead,
        fun b hb => ?_, hthrown⟩
      obtain ⟨hlen, hread⟩ := hok b hb
      refine ⟨Nat.le_trans (Nat.add_le_add_left (ht' b) _) hlen, fun new hnew hover => ?_⟩
      obtain ⟨w, hw, hS⟩ := hread new hnew hover
      exact ⟨w, hw, .inr ⟨by rw [← hw, ha], hS⟩⟩
  | true =>
      cases hr : s.rest with
      | nil => rw [hr] at ha; exact absurd ha Bool.false_ne_true
      | cons t rest =>
          rw [hr, ahead_cons] at ha
          obtain ⟨result, s', hrun, hlead, hok, hthrown⟩ :=
            hsome t { s with rest } (by rw [hr]; exact Nat.le_refl _) ha
          refine ⟨result, s', by rw [run_bind, run_acceptIf_cons hr ha]; exact hrun,
            ⟨?_, hlead.faults, hlead.nextId⟩, fun b hb => ?_, hthrown⟩
          · rw [hr]
            exact Nat.le_succ_of_le hlead.length
          · obtain ⟨hlen, hread⟩ := hok b hb
            rw [hr, List.length_cons]
            refine ⟨?_, fun new hnew hover => ?_⟩
            · have := ht t b
              have hlen : s'.rest.length + k t b ≤ rest.length := hlen
              omega
            · obtain ⟨v, hv, hS⟩ := hread new hnew hover
              have hv : rest = v ++ s'.rest := hv
              exact ⟨t :: v, by rw [hv]; rfl, .inl ⟨t, v, rfl, ha, hS⟩⟩

theorem Obeys.expect (kind : Token.Kind) (cause : Cause)
    (hcause : cause.isOverrun = false) :
    Obeys (expect kind cause) s (fun _ => 1) fun w _ i t j new =>
      w = [t] ∧ t.kind = kind ∧ j = i ∧ new = [] := by
  refine Obeys.mono (Obeys.choose (m := fun _ => 1) (fun t _ _ _ => .pure t)
    (fun _ => .fail hcause (fun _ => 1) fun _ _ _ _ _ _ => False)
    (fun _ _ => Nat.le_refl _) fun _ => Nat.le_refl _) (fun _ => Nat.le_refl _) ?_
  intro w r i t j new found
  rcases found with ⟨t', v, rfl, ht, rfl, rfl, rfl, rfl⟩ | ⟨-, h⟩
  · exact ⟨rfl, of_decide_eq_true ht, rfl, rfl⟩
  · exact h.elim

/-- A token that must be there, and what is read behind it. -/
theorem Obeys.expect_bind {kind : Token.Kind} {cause : Cause} {f : Token → Parse β} {k m : β → Nat}
    {S : Token → Relation β} (hcause : cause.isOverrun = false)
    (hf : ∀ t s₁, s₁.rest.length + 1 ≤ s.rest.length → Obeys (f t) s₁ k (S t))
    (ht : ∀ b, m b ≤ 1 + k b) :
    Obeys (Parse.expect kind cause >>= f) s m fun w r i b j new =>
      ∃ t v, w = t :: v ∧ t.kind = kind ∧ S t v r i b j new := by
  refine ((Obeys.expect kind cause hcause).bind hf fun _ => ht).mono (fun _ => Nat.le_refl _) ?_
  intro w r i b k new found
  obtain ⟨u, v, t, j, fs, gs, rfl, rfl, ⟨rfl, hk, rfl, rfl⟩, h⟩ := found
  exact ⟨t, v, rfl, hk, h⟩

/-- A list whose entries are separated by commas: its first entry, and the rest if a comma
follows. -/
theorem Obeys.separated {q : Parse (List α)} {f : α → Option Token → Parse (List α)}
    {P : Relation α} {Q : Relation (List α)} (hlast : ∀ a, f a none = Pure.pure [a])
    (hmore : ∀ a t, f a (some t) = q >>= fun rest => Pure.pure (a :: rest))
    (hp : Obeys p s (fun _ => 1) P)
    (hq : ∀ s₁, s₁.rest.length + 1 ≤ s.rest.length → Obeys q s₁ (fun _ => 1) Q) :
    Obeys (p >>= fun a => accept .comma >>= f a) s (fun _ => 1) fun w r i as j new =>
      (∃ a, as = [a] ∧ P w r i a j new) ∨ ∃ u comma v a rest k fs gs, w = u ++ comma :: v ∧
        comma.kind = .comma ∧ P u (comma :: v ++ r) i a k fs ∧ Q v r k rest j gs ∧
          as = a :: rest ∧ new = fs ++ gs := by
  refine (hp.bind (fun a s₁ h₁ => Obeys.choose
      (fun t s₂ h₂ _ => (hmore a t).symm ▸ (hq s₂ (by omega)).bind_pure (m := fun _ => 0) (a :: ·)
        fun _ => Nat.zero_le _)
      (fun _ => (hlast a).symm ▸ Obeys.pure [a])
      (fun _ _ => Nat.zero_le _) fun _ => Nat.le_refl 0)
    fun _ _ => Nat.le_refl 1).mono (fun _ => Nat.le_refl _) ?_
  intro w r i as k new found
  obtain ⟨u, v, a, j, fs, gs, rfl, rfl, h, ⟨comma, v, rfl, hc, rest, rfl, hr⟩ | ⟨-, rfl, rfl, rfl,
    rfl⟩⟩ := found
  · exact .inr ⟨u, comma, v, a, rest, j, fs, gs, rfl, of_decide_eq_true hc, h, hr, rfl, rfl⟩
  · rw [List.append_nil, List.append_nil]
    exact .inl ⟨a, rfl, h⟩

end Rules

/-! ## What a phrase costs -/

/-- The number of levels below. -/
def Level.depth : Level → Nat
  | .product => 0
  | .sum => 1
  | .comparison => 2
  | .equality => 3
  | .conjunction => 4
  | .disjunction => 5

theorem Level.depth_of_tighter {l m : Level} (h : l.tighter? = some m) :
    l.depth = m.depth + 1 := by
  cases l <;> cases h <;> rfl

/-- The fuel that is used up before the first token is taken. -/
def Phrase.cost : Phrase → Nat
  | .levelRest _ | .callRest | .primary | .paramsFrom _ | .function | .forStatement | .ifStatement
  | .whileStatement => 1
  | .unary => 2
  | .operand l => 3 + 2 * l.depth
  | .level l => 4 + 2 * l.depth
  | .expression | .expressionUnless _ | .varDeclaration | .expressionStatement | .printStatement
  | .returnStatement _ | .forInitializer => 15
  | .argumentsFrom _ | .statement => 16
  | .arguments | .declared => 17
  | .declaration => 18
  | .declarations _ => 19
  | .block => 20

theorem Phrase.cost_pos (p : Phrase) : 0 < p.cost := by
  cases p <;> simp only [cost] <;> omega

/-- The number of tokens that a phrase takes at least. -/
def Phrase.taken : Phrase → Nat
  | .levelRest _ | .callRest | .arguments | .expressionUnless _ | .declarations _ => 0
  | _ => 1

/-- What a phrase says about its tree: the tokens stand for it, and no `else`
follows that it could have taken. -/
def Means (p : Phrase) : Relation p.Tree := fun w r i a j new =>
  ReadsLong p w i a j new ∧ (p.dangling a = true → Ahead (· = .kwElse) r = false)

theorem Means.of_reads {p : Phrase} {w r : List Token} {i j : Nat} {a : p.Tree}
    {new : List Fault} (h : ReadsLong p w i a j new) (hd : p.dangling a = false) :
    Means p w r i a j new :=
  ⟨h, fun hd' => absurd (hd.symm.trans hd') Bool.false_ne_true⟩

/-- What is said about a list of declarations: outside of blocks nothing is left behind it. -/
def MeansAll (inBlock : Bool) : Relation (List Stmt) := fun w r i body j new =>
  Means (.declarations inBlock) w r i body j new ∧ (inBlock = false → r = [])

/-- The contract of the function that reads a phrase. The two loops are given what
stands to the left of them. A declaration is read only where there is a token, and
then takes one even if it is broken. -/
def Sound (p : Phrase) (n : Nat) (s : State) : Prop :=
  let taken {α : Type} (_ : α) := p.taken
  match p with
  | .expression => (expression n).Obeys s taken (Means .expression)
  | .level l => (level n l).Obeys s taken (Means (.level l))
  | .levelRest l => ∀ left, (levelRest n l left).Obeys s taken fun w r i e j new =>
      ∃ rest, e = l.build left rest ∧ Means (.levelRest l) w r i rest j new
  | .operand l => (operand n l).Obeys s taken (Means (.operand l))
  | .unary => (unary n).Obeys s taken (Means .unary)
  | .callRest => ∀ callee, (callRest n callee).Obeys s taken fun w r i e j new =>
      ∃ calls, e = buildCalls callee calls ∧ Means .callRest w r i calls j new
  | .arguments => (arguments n).Obeys s taken (Means .arguments)
  | .argumentsFrom count => (argumentsFrom n count).Obeys s taken (Means (.argumentsFrom count))
  | .primary => (primary n).Obeys s taken (Means .primary)
  | .paramsFrom count => (paramsFrom n count).Obeys s taken (Means (.paramsFrom count))
  | .expressionUnless kind =>
    (expressionUnless n kind).Obeys s taken (Means (.expressionUnless kind))
  | .varDeclaration => (varDeclaration n).Obeys s taken (Means .varDeclaration)
  | .expressionStatement => (expressionStatement n).Obeys s taken (Means .expressionStatement)
  | .printStatement => (printStatement n).Obeys s taken (Means .printStatement)
  | .returnStatement keyword =>
    (returnStatement n keyword).Obeys s taken (Means (.returnStatement keyword))
  | .forInitializer => (forInitializer n).Obeys s taken (Means .forInitializer)
  | .declaration => s.rest ≠ [] → (declaration n).Obeys s taken fun w r i o j new =>
      o.isSome = true ∧ Means .declaration w r i o j new
  | .declared => (declared n).Obeys s taken (Means .declared)
  | .function => (function n).Obeys s taken (Means .function)
  | .statement => (statement n).Obeys s taken (Means .statement)
  | .forStatement => (forStatement n).Obeys s taken (Means .forStatement)
  | .ifStatement => (ifStatement n).Obeys s taken (Means .ifStatement)
  | .whileStatement => (whileStatement n).Obeys s taken (Means .whileStatement)
  | .block => (block n).Obeys s taken (Means .block)
  | .declarations inBlock => (declarations n inBlock).Obeys s taken (MeansAll inBlock)

end Lox.Parse
