import Lox.Proofs.Parser.Contract

/-!
# The parser answers, and reads what it answers

Every function of the parser keeps its contract. The induction is on the fuel and
carries all phrases at once: a phrase is entered with less fuel but with fewer
tokens or a smaller cost, and `32` units for a token cover the longest chain of
phrases that take none.
-/

namespace Lox.Parse

/-- A node of a level is no name. -/
theorem Level.build_cons_ne_variable (l : Level) (left : Expr) (r : Token × Expr)
    (rest : List (Token × Expr)) (id : NodeId) (t : Token) :
    l.build left (r :: rest) ≠ .variable id t := by
  induction rest generalizing left r with
  | nil => cases l <;> (intro h; cases h)
  | cons r' rest ih => exact ih (l.node left r.1 r.2) r'

theorem buildCalls_cons_ne_variable (callee : Expr) (c : List Expr × Token)
    (calls : List (List Expr × Token)) (id : NodeId) (t : Token) :
    buildCalls callee (c :: calls) ≠ .variable id t := by
  induction calls generalizing callee c with
  | nil => intro h; cases h
  | cons c' calls ih => exact ih (.call callee c.2 c.1) c'

/-- The operators of a level stand for a name only if there are none, and so do the
argument lists of a call. What reads a name below `=` has read its one token. -/
theorem ReadsLong.of_variable {p : Phrase} {w : List Token} {i j : Nat} {a : p.Tree}
    {new : List Fault} (h : ReadsLong p w i a j new) {id : NodeId} {t : Token} :
    match p, a with
    | .level _, e | .operand _, e | .unary, e | .primary, e =>
      e = Expr.variable id t →
        w = [t] ∧ t.kind = .identifier ∧ id = i ∧ j = i + 1 ∧ new = []
    | .levelRest _, rest => rest = [] → w = [] ∧ j = i ∧ new = []
    | .callRest, calls => calls = [] → w = [] ∧ j = i ∧ new = []
    | _, _ => True := by
  induction h with
  | @level l u v e rest i j k fs gs he hr ihe ihr =>
      intro heq
      cases rest with
      | nil =>
          obtain ⟨rfl, rfl, rfl⟩ := ihr rfl
          rw [List.append_nil, List.append_nil]
          exact ihe heq
      | cons r rest => exact absurd heq (l.build_cons_ne_variable e r rest id t)
  | levelEnd | callEnd => exact fun _ => ⟨rfl, rfl, rfl⟩
  | levelMore | callMore => intro h; cases h
  | tighter _ _ ih | tightest _ _ ih => exact ih
  | @call u v e calls i j k fs gs he hc ihe ihc =>
      intro heq
      cases calls with
      | nil =>
          obtain ⟨rfl, rfl, rfl⟩ := ihc rfl
          rw [List.append_nil, List.append_nil]
          exact ihe heq
      | cons c calls => exact absurd heq (buildCalls_cons_ne_variable e c calls id t)
  | operator | constant | group => intro h; cases h
  | name ht =>
      intro heq
      cases heq
      exact ⟨rfl, ht, rfl, rfl, rfl⟩
  | _ => trivial

theorem Obeys.assignTo (target : Expr) (equals : Token) (value : Expr) {s : State} :
    Obeys (assignTo target equals value) s (fun _ => 0) fun w _ i e j new =>
      w = [] ∧ ∃ id t, target = .variable id t ∧ e = .assign i t value ∧ j = i + 1 ∧ new = [] := by
  have hr : Obeys (do record ⟨.invalidAssignmentTarget, equals⟩; return target) s (fun _ => 0)
      fun w _ i e j new => w = [] ∧ ∃ id t, target = .variable id t ∧ e = .assign i t value ∧
        j = i + 1 ∧ new = [] :=
    .record_bind rfl fun _ _ => .pure target
  cases target with
  | «variable» id t =>
      refine (Obeys.freshId.bind_pure (fun id => Expr.assign id t value)
        fun _ => Nat.le_refl 0).mono (fun _ => Nat.le_refl _) ?_
      intro w r i e j new found
      obtain ⟨id', rfl, rfl, rfl, rfl, rfl⟩ := found
      exact ⟨rfl, id, t, rfl, rfl, rfl, rfl⟩
  | _ => exact hr

/-- What begins a primary and is neither a constant nor a name is a parenthesis. -/
theorem leftParen_of_beginsPrimary {t : Token} (ht : beginsPrimary t.kind = true)
    (hv : t.constant? = none) (hi : t.kind ≠ .identifier) : t.kind = .leftParen := by
  cases hk : t.kind <;> simp_all [beginsPrimary, Token.constant?]

theorem beginsKeyed_cases {kind : Token.Kind} (h : beginsKeyed kind = true) :
    kind = .kwFor ∨ kind = .kwIf ∨ kind = .kwPrint ∨ kind = .kwReturn ∨ kind = .kwWhile ∨
      kind = .leftBrace := by
  cases kind <;> simp_all [beginsKeyed]

/-- The check before an entry of a list belongs to the entry. -/
theorem bind_checked {α β : Type} {p : Parse α} {k : α → Parse β} {cause : Cause} {count : Nat} :
    ((if maxArity ≤ count then recordHere cause >>= fun _ => p else p) >>= k) =
      if maxArity ≤ count then recordHere cause >>= fun _ => p >>= k else p >>= k := by
  split
  · rw [bind_assoc]
  · rfl

section Phrases

variable {n : Nat} {s : State}
  (ih : ∀ (p : Phrase) (s : State), p.cost + 32 * s.rest.length ≤ n → Sound p n s)
include ih

theorem sound_expression (hn : 15 + 32 * s.rest.length ≤ n + 1) :
    Sound .expression (n + 1) s := by
  show Obeys (expression (n + 1)) s (fun _ => 1) (Means .expression)
  rw [expression]
  refine ((ih (.level .disjunction) s (show 14 + 32 * s.rest.length ≤ n by omega)).bind
    (fun target s₁ (h₁ : s₁.rest.length + 1 ≤ s.rest.length) => Obeys.choose
      (fun equals s₂ h₂ _ =>
        (ih .expression s₂ (show 15 + 32 * s₂.rest.length ≤ n by omega)).bind
          (fun value _ _ => .assignTo target equals value) fun _ _ => Nat.le_refl 1)
      (fun _ => .pure target) (fun _ _ => Nat.zero_le _) fun _ => Nat.le_refl 0)
    fun _ _ => Nat.le_refl 1).mono (fun _ => Nat.le_refl _) ?_
  intro w r i e k new found
  obtain ⟨u, v, target, j, fs, gs, rfl, rfl, hl, ⟨equals, v, rfl, heq, h⟩ | ⟨-, rfl, rfl, rfl,
    rfl⟩⟩ := found
  · obtain ⟨x, y, value, l, gs, hs, rfl, rfl, hv, rfl, id, t, rfl, rfl, rfl, rfl⟩ := h
    obtain ⟨rfl, ht, -, rfl, rfl⟩ := hl.1.of_variable rfl
    rw [List.append_nil, List.append_nil]
    exact .of_reads (.assign ht (of_decide_eq_true heq) hv.1) rfl
  · rw [List.append_nil, List.append_nil]
    exact .of_reads (.value hl.1) rfl

theorem sound_level {l : Level} (hn : 4 + 2 * l.depth + 32 * s.rest.length ≤ n + 1) :
    Sound (.level l) (n + 1) s := by
  show Obeys (level (n + 1) l) s (fun _ => 1) (Means (.level l))
  rw [level]
  refine ((ih (.operand l) s (show 3 + 2 * l.depth + 32 * s.rest.length ≤ n by omega)).bind
    (fun left s₁ (h₁ : s₁.rest.length + 1 ≤ s.rest.length) =>
      ih (.levelRest l) s₁ (show 1 + 32 * s₁.rest.length ≤ n by omega) left)
    fun _ _ => Nat.le_refl _).mono (fun _ => Nat.le_refl _) ?_
  intro w r i e k new found
  obtain ⟨u, v, left, j, fs, gs, rfl, rfl, hl, rest, rfl, hr⟩ := found
  exact .of_reads (.level hl.1 hr.1) rfl

theorem sound_levelRest {l : Level} (hn : 1 + 32 * s.rest.length ≤ n + 1) :
    Sound (.levelRest l) (n + 1) s := by
  intro left
  rw [levelRest]
  have hd : l.depth ≤ 5 := by cases l <;> decide
  refine (Obeys.choose (fun operator s₁ h₁ _ =>
      (ih (.operand l) s₁ (show 3 + 2 * l.depth + 32 * s₁.rest.length ≤ n by omega)).bind
        (fun right s₂ (h₂ : s₂.rest.length + 1 ≤ s₁.rest.length) =>
          ih (.levelRest l) s₂ (show 1 + 32 * s₂.rest.length ≤ n by omega)
            (l.node left operator right))
        fun _ _ => Nat.zero_le _)
    (fun _ => .pure left) (fun _ _ => Nat.zero_le _) fun _ => Nat.le_refl 0).mono
    (fun _ => Nat.le_refl _) ?_
  intro w r i e k new found
  rcases found with ⟨operator, v, rfl, ho, u, v, right, j, fs, gs, rfl, rfl, hl, rest, rfl, hr⟩ |
    ⟨-, rfl, rfl, rfl, rfl⟩
  · exact ⟨(operator, right) :: rest, rfl, .of_reads (.levelMore ho hl.1 hr.1) rfl⟩
  · exact ⟨[], rfl, .of_reads .levelEnd rfl⟩

theorem sound_operand {l : Level} (hn : 3 + 2 * l.depth + 32 * s.rest.length ≤ n + 1) :
    Sound (.operand l) (n + 1) s := by
  show Obeys (operand (n + 1) l) s (fun _ => 1) (Means (.operand l))
  rw [operand]
  cases hl : l.tighter? with
  | some m =>
      have hd := Level.depth_of_tighter hl
      refine (ih (.level m) s (show 4 + 2 * m.depth + 32 * s.rest.length ≤ n by omega)).mono
        (fun _ => Nat.le_refl _) ?_
      intro w r i e j new found
      obtain ⟨h, -⟩ := found
      exact .of_reads (.tighter hl h) rfl
  | none =>
      refine (ih .unary s (show 2 + 32 * s.rest.length ≤ n by omega)).mono
        (fun _ => Nat.le_refl _) ?_
      intro w r i e j new found
      obtain ⟨h, -⟩ := found
      exact .of_reads (.tightest hl h) rfl

theorem sound_unary (hn : 2 + 32 * s.rest.length ≤ n + 1) : Sound .unary (n + 1) s := by
  show Obeys (unary (n + 1)) s (fun _ => 1) (Means .unary)
  rw [unary]
  refine (Obeys.choose (fun operator s₁ h₁ _ =>
      Obeys.bind_pure (m := fun _ => 0)
        (ih .unary s₁ (show 2 + 32 * s₁.rest.length ≤ n by omega)) (Expr.unary operator)
        fun _ => Nat.zero_le _)
    (fun _ => (ih .primary s (show 1 + 32 * s.rest.length ≤ n by omega)).bind
        (fun callee s₁ (h₁ : s₁.rest.length + 1 ≤ s.rest.length) =>
          ih .callRest s₁ (show 1 + 32 * s₁.rest.length ≤ n by omega) callee)
        fun _ _ => Nat.le_add_right 1 0)
    (fun _ _ => Nat.le_refl 1) fun _ => Nat.le_refl 1).mono (fun _ => Nat.le_refl _) ?_
  intro w r i e k new found
  rcases found with ⟨operator, v, rfl, ho, operand, rfl, h⟩ | ⟨-, u, v, callee, j, fs, gs, rfl, rfl,
    h, calls, rfl, hc⟩
  · exact .of_reads (.operator ho h.1) rfl
  · exact .of_reads (.call h.1 hc.1) rfl

theorem sound_callRest (hn : 1 + 32 * s.rest.length ≤ n + 1) : Sound .callRest (n + 1) s := by
  intro callee
  rw [callRest]
  refine (Obeys.choose (fun opening s₁ h₁ _ =>
      (ih .arguments s₁ (show 17 + 32 * s₁.rest.length ≤ n by omega)).bind
        (fun args s₂ (h₂ : s₂.rest.length + 0 ≤ s₁.rest.length) => .expect_bind rfl
          (fun paren s₃ h₃ => ih .callRest s₃ (show 1 + 32 * s₃.rest.length ≤ n by omega)
            (.call callee paren args))
          fun _ => Nat.zero_le _)
        fun _ _ => Nat.zero_le _)
    (fun _ => .pure callee) (fun _ _ => Nat.zero_le _) fun _ => Nat.le_refl 0).mono
    (fun _ => Nat.le_refl _) ?_
  intro w r i e k new found
  rcases found with ⟨opening, v, rfl, ho, u, v, args, j, fs, gs, rfl, rfl, ha, paren, v, rfl, hp,
    calls, rfl, hc⟩ | ⟨-, rfl, rfl, rfl, rfl⟩
  · exact ⟨(args, paren) :: calls, rfl,
      .of_reads (.callMore (of_decide_eq_true ho) ha.1 hp hc.1) rfl⟩
  · exact ⟨[], rfl, .of_reads .callEnd rfl⟩

theorem sound_arguments (hn : 17 + 32 * s.rest.length ≤ n + 1) : Sound .arguments (n + 1) s := by
  show Obeys (arguments (n + 1)) s (fun _ => 0) (Means .arguments)
  rw [arguments]
  refine (Obeys.test (.pure []) ((ih (.argumentsFrom 0) s
    (show 16 + 32 * s.rest.length ≤ n by omega)).mono (fun _ => Nat.zero_le _)
    fun _ _ _ _ _ _ => id)).mono (fun _ => Nat.le_refl _) ?_
  intro w r i e j new found
  rcases found with ⟨rfl, rfl, rfl, rfl⟩ | ⟨-, h⟩
  · exact .of_reads .noArguments rfl
  · exact .of_reads (.someArguments h.1) rfl

theorem sound_argumentsFrom {count : Nat} (hn : 16 + 32 * s.rest.length ≤ n + 1) :
    Sound (.argumentsFrom count) (n + 1) s := by
  show Obeys (argumentsFrom (n + 1) count) s (fun _ => 1) (Means (.argumentsFrom count))
  have he : ∀ s₁ : State, s₁.rest.length ≤ s.rest.length →
      Obeys (expression n) s₁ (fun _ => 1) (Means .expression) :=
    fun s₁ h₁ => ih .expression s₁ (show 15 + 32 * s₁.rest.length ≤ n by omega)
  have hr : ∀ s₁ : State, s₁.rest.length + 1 ≤ s.rest.length →
      Obeys (argumentsFrom n (count + 1)) s₁ (fun _ => 1) (Means (.argumentsFrom (count + 1))) :=
    fun s₁ h₁ => ih (.argumentsFrom (count + 1)) s₁ (show 16 + 32 * s₁.rest.length ≤ n by omega)
  rw [argumentsFrom, ← bind_checked]
  refine (Obeys.separated (fun _ => rfl) (fun _ _ => rfl)
    (Obeys.check fun s₁ h₁ => he s₁ (Nat.le_of_eq (congrArg _ h₁))) hr).mono
    (fun _ => Nat.le_refl _) ?_
  intro w r i es j new found
  rcases found with ⟨e, rfl, fs, rfl, h⟩ | ⟨u, comma, v, e, rest, k, _, gs, rfl, hcomma,
    ⟨fs, rfl, h⟩, hr, rfl, rfl⟩
  · exact .of_reads (.lastArgument h.1) rfl
  · exact .of_reads (.moreArguments h.1 hcomma hr.1) rfl

theorem sound_primary (hn : 1 + 32 * s.rest.length ≤ n + 1) : Sound .primary (n + 1) s := by
  show Obeys (primary (n + 1)) s (fun _ => 1) (Means .primary)
  have hg : ∀ s₁ : State, s₁.rest.length + 1 ≤ s.rest.length → Obeys (do
      let inner ← expression n
      let _ ← expect .rightParen .expectParenAfterExpression
      return Expr.group inner) s₁ (fun _ => 0) fun w r i e j new => ∀ t : Token,
        t.kind = .leftParen → ReadsLong .primary (t :: w) i e j new := by
    intro s₁ h₁
    refine ((ih .expression s₁ (show 15 + 32 * s₁.rest.length ≤ n by omega)).bind
      (fun inner _ _ => .expect_bind rfl (fun _ _ _ => .pure (Expr.group inner))
        fun _ => Nat.zero_le _) fun _ _ => Nat.zero_le _).mono (fun _ => Nat.le_refl 0) ?_
    intro w r i e k new found t ht
    obtain ⟨u, v, inner, j, fs, gs, rfl, rfl, hi, paren, v, rfl, hp, rfl, rfl, rfl, rfl⟩ := found
    rw [List.append_nil]
    exact .group ht hi.1 hp
  rw [primary]
  refine (Obeys.choose (m := fun _ => 1) (k := fun _ _ => 0)
    (S := fun t w _ i e j new => ReadsLong .primary (t :: w) i e j new) (fun t s₁ h₁ ht => ?_)
    (fun _ => .fail rfl (fun _ => 1) fun _ _ _ _ _ _ => False)
    (fun _ _ => Nat.le_refl 1) fun _ => Nat.le_refl 1).mono (fun _ => Nat.le_refl _) ?_
  · dsimp only
    cases hv : t.constant? with
    | some value =>
        refine (Obeys.pure (Expr.literal value)).mono (fun _ => Nat.le_refl _) ?_
        intro w r i e j new found
        obtain ⟨rfl, rfl, rfl, rfl⟩ := found
        exact .constant hv
    | none =>
        dsimp only
        split
        · rename_i hi
          refine (Obeys.freshId.bind_pure (fun id => Expr.variable id t)
            fun _ => Nat.le_refl 0).mono (fun _ => Nat.le_refl _) ?_
          intro w r i e j new found
          obtain ⟨id, rfl, rfl, rfl, rfl, rfl⟩ := found
          exact .name hi
        · rename_i hi
          exact (hg s₁ h₁).mono (fun _ => Nat.le_refl _)
            fun w r i e j new h => h t (leftParen_of_beginsPrimary ht hv hi)
  · intro w r i e j new found
    rcases found with ⟨t, v, rfl, -, h⟩ | ⟨-, h⟩
    · exact .of_reads h rfl
    · exact h.elim

theorem sound_paramsFrom {count : Nat} (hn : 1 + 32 * s.rest.length ≤ n + 1) :
    Sound (.paramsFrom count) (n + 1) s := by
  show Obeys (paramsFrom (n + 1) count) s (fun _ => 1) (Means (.paramsFrom count))
  have hr : ∀ s₁ : State, s₁.rest.length + 1 ≤ s.rest.length →
      Obeys (paramsFrom n (count + 1)) s₁ (fun _ => 1) (Means (.paramsFrom (count + 1))) :=
    fun s₁ h₁ => ih (.paramsFrom (count + 1)) s₁ (show 1 + 32 * s₁.rest.length ≤ n by omega)
  rw [paramsFrom, ← bind_checked]
  refine (Obeys.separated (fun _ => rfl) (fun _ _ => rfl)
    (Obeys.check fun _ _ => .expect _ _ rfl) hr).mono (fun _ => Nat.le_refl _) ?_
  intro w r i ts j new found
  rcases found with ⟨t, rfl, _, rfl, rfl, ht, rfl, rfl⟩ | ⟨u, comma, v, t, rest, k, _, gs, rfl,
    hcomma, ⟨_, rfl, rfl, ht, rfl, rfl⟩, hr, rfl, rfl⟩
  · rw [List.append_nil]
    exact .of_reads (.lastParam ht) rfl
  · rw [List.append_nil]
    exact .of_reads (.moreParams ht hcomma hr.1) rfl

end Phrases

section Plain

variable {n : Nat} {s : State}
  (hx : ∀ s : State, 15 + 32 * s.rest.length ≤ n → Sound .expression n s)
include hx

theorem sound_expressionUnless {kind : Token.Kind} (hn : 15 + 32 * s.rest.length ≤ n) :
    Sound (.expressionUnless kind) n s := by
  show Obeys (expressionUnless n kind) s (fun _ => 0) (Means (.expressionUnless kind))
  refine (Obeys.test (.pure none) ((hx s hn).bind_pure some
    fun _ => Nat.zero_le _)).mono (fun _ => Nat.le_refl _) ?_
  intro w r i o k new found
  rcases found with ⟨rfl, rfl, rfl, rfl⟩ | ⟨-, e, rfl, h⟩
  · exact .of_reads .noExpression rfl
  · exact .of_reads (.someExpression h.1) rfl

theorem sound_varDeclaration (hn : 15 + 32 * s.rest.length ≤ n) :
    Sound .varDeclaration n s := by
  show Obeys (varDeclaration n) s (fun _ => 1) (Means .varDeclaration)
  have hv : ∀ (t : Token) (o : Option Expr) (s₁ : State), Obeys (do
      let _ ← expect .semicolon .expectSemicolonAfterDeclaration
      return Stmt.var t o) s₁ (fun _ => 0) fun w _ i stmt j new =>
        ∃ semicolon : Token, semicolon.kind = .semicolon ∧ w = [semicolon] ∧ stmt = .var t o ∧
          j = i ∧ new = [] := by
    intro t o s₁
    refine (Obeys.expect_bind rfl (fun _ _ _ => .pure (Stmt.var t o))
      fun _ => Nat.zero_le _).mono (fun _ => Nat.le_refl 0) ?_
    intro w r i e k new found
    obtain ⟨semicolon, v, rfl, hs, rfl, rfl, rfl, rfl⟩ := found
    exact ⟨semicolon, hs, rfl, rfl, rfl, rfl⟩
  unfold varDeclaration
  refine (Obeys.expect_bind rfl (fun t s₁ h₁ =>
    Obeys.choose (fun equals s₂ h₂ _ => (Obeys.map (m := fun _ => 0) (hx s₂
        (show 15 + 32 * s₂.rest.length ≤ n by omega)) some (fun _ => Nat.zero_le _)).bind
          (fun o s₃ _ => hv t o s₃) fun _ _ => Nat.zero_le _)
      (fun _ => (Obeys.pure none).bind (fun o s₃ _ => hv t o s₃) fun _ _ => Nat.zero_le _)
      (fun _ _ => Nat.zero_le _) fun _ => Nat.le_refl 0)
    fun _ => Nat.le_refl 1).mono (fun _ => Nat.le_refl _) ?_
  intro w r i stmt k new found
  obtain ⟨t, v, rfl, ht, ⟨equals, v, rfl, heq, x, y, o, m, fs, _, rfl, rfl, ⟨e, rfl, he⟩, semicolon,
    hs, rfl, rfl, rfl, rfl⟩ | ⟨-, x, y, o, m, _, _, rfl, rfl, ⟨rfl, rfl, rfl, rfl⟩, semicolon, hs,
    rfl, rfl, rfl, rfl⟩⟩ := found
  · rw [List.append_nil]
    exact .of_reads (.varValue ht (of_decide_eq_true heq) he.1 hs) rfl
  · exact .of_reads (.varBare ht hs) rfl

theorem sound_expressionStatement (hn : 15 + 32 * s.rest.length ≤ n) :
    Sound .expressionStatement n s := by
  show Obeys (expressionStatement n) s (fun _ => 1) (Means .expressionStatement)
  refine ((hx s hn).bind (fun e _ _ => .expect_bind rfl
    (fun _ _ _ => .pure (Stmt.expression e)) fun _ => Nat.zero_le _)
    fun _ _ => Nat.le_add_right 1 0).mono (fun _ => Nat.le_refl _) ?_
  intro w r i stmt k new found
  obtain ⟨u, v, e, j, fs, _, rfl, rfl, h, semicolon, v, rfl, hs, rfl, rfl, rfl, rfl⟩ := found
  rw [List.append_nil]
  exact .of_reads (.expressionStatement h.1 hs) rfl

theorem sound_printStatement (hn : 15 + 32 * s.rest.length ≤ n) :
    Sound .printStatement n s := by
  show Obeys (printStatement n) s (fun _ => 1) (Means .printStatement)
  refine ((hx s hn).bind (fun e _ _ => .expect_bind rfl
    (fun _ _ _ => .pure (Stmt.print e)) fun _ => Nat.zero_le _)
    fun _ _ => Nat.le_add_right 1 0).mono (fun _ => Nat.le_refl _) ?_
  intro w r i stmt k new found
  obtain ⟨u, v, e, j, fs, _, rfl, rfl, h, semicolon, v, rfl, hs, rfl, rfl, rfl, rfl⟩ := found
  rw [List.append_nil]
  exact .of_reads (.printStatement h.1 hs) rfl

theorem sound_returnStatement {keyword : Token} (hn : 15 + 32 * s.rest.length ≤ n) :
    Sound (.returnStatement keyword) n s := by
  show Obeys (returnStatement n keyword) s (fun _ => 1) (Means (.returnStatement keyword))
  refine (Obeys.bind (sound_expressionUnless hx hn) (fun e _ _ => .expect_bind rfl
    (fun _ _ _ => .pure (Stmt.ret keyword e)) fun _ => Nat.le_refl 1)
    fun _ _ => Nat.le_add_left 1 0).mono (fun _ => Nat.le_refl _) ?_
  intro w r i stmt k new found
  obtain ⟨u, v, e, j, fs, _, rfl, rfl, h, semicolon, v, rfl, hs, rfl, rfl, rfl, rfl⟩ := found
  rw [List.append_nil]
  exact .of_reads (.returnStatement h.1 hs) rfl

theorem sound_forInitializer (hn : 15 + 32 * s.rest.length ≤ n) : Sound .forInitializer n s := by
  show Obeys (forInitializer n) s (fun _ => 1) (Means .forInitializer)
  unfold forInitializer
  refine (Obeys.choose (fun _ _ _ _ => .pure none) (fun _ => Obeys.choose
      (fun _ s₁ h₁ _ => Obeys.map (m := fun _ => 0)
        (sound_varDeclaration hx (s := s₁) (by omega)) some fun _ => Nat.zero_le _)
      (fun _ => Obeys.map (m := fun _ => 1) (sound_expressionStatement hx hn) some
        fun _ => Nat.le_refl 1)
      (fun _ _ => Nat.le_refl 1) fun _ => Nat.le_refl 1)
    (fun _ _ => Nat.le_refl 1) fun _ => Nat.le_refl 1).mono (fun _ => Nat.le_refl _) ?_
  intro w r i o j new found
  rcases found with ⟨t, v, rfl, ht, rfl, rfl, rfl, rfl⟩ | ⟨-, ⟨t, v, rfl, ht, stmt, rfl, h⟩ | ⟨-,
    stmt, rfl, h⟩⟩
  · exact .of_reads (.noInitializer (of_decide_eq_true ht)) rfl
  · exact .of_reads (.varInitializer (of_decide_eq_true ht) h.1) rfl
  · exact .of_reads (.valueInitializer h.1) rfl

end Plain

section Statements

variable {n : Nat} {s : State}
  (ih : ∀ (p : Phrase) (s : State), p.cost + 32 * s.rest.length ≤ n → Sound p n s)
include ih

/-- What is thrown in a declaration is caught, and then at least a token is passed over. -/
theorem sound_declaration (hn : 18 + 32 * s.rest.length ≤ n + 1) :
    Sound .declaration (n + 1) s := by
  intro hne
  obtain ⟨result, s', hrun, hlead, hok, hthrown⟩ := Obeys.map (m := fun _ => 1)
    (ih .declared s (show 17 + 32 * s.rest.length ≤ n by omega)) some fun _ => Nat.le_refl 1
  rw [declaration]
  cases result with
  | ok o =>
      refine ⟨.ok o, s', by rw [run_tryCatch, hrun], hlead, fun a ha => ?_, fun _ h => nomatch h⟩
      cases ha
      obtain ⟨hlen, hread⟩ := hok o rfl
      refine ⟨hlen, fun new hnew hover => ?_⟩
      obtain ⟨w, hw, stmt, rfl, hr⟩ := hread new hnew hover
      exact ⟨w, hw, rfl, .declaration hr.1, hr.2⟩
  | error fault =>
      have hpos := List.length_pos_iff.2 hne
      have hrest := hlead.length
      have hskip := length_recover_le s'.rest
      refine ⟨.ok none, { s' with rest := recover s'.rest, faults := s'.faults ++ [fault] },
        by rw [run_tryCatch, hrun]; rfl,
        ⟨Nat.le_trans hskip (Nat.le_trans (Nat.sub_le _ _) hrest),
          hlead.faults.trans (List.prefix_append _ _), hlead.nextId⟩,
        fun a _ => ⟨?_, fun new hnew hover => ?_⟩, fun _ h => nomatch h⟩
      · show (recover s'.rest).length + 1 ≤ s.rest.length
        omega
      · obtain ⟨old, hold⟩ := hlead.faults
        have hnew : s'.faults ++ [fault] = s.faults ++ new := hnew
        rw [← hold, List.append_assoc] at hnew
        have hmem : fault ∈ new :=
          List.append_cancel_left hnew ▸ List.mem_append_right old (.head _)
        exact absurd (hover fault hmem) (by rw [hthrown fault rfl]; exact Bool.false_ne_true)

theorem sound_declared (hn : 17 + 32 * s.rest.length ≤ n + 1) : Sound .declared (n + 1) s := by
  show Obeys (declared (n + 1)) s (fun _ => 1) (Means .declared)
  have hf : ∀ s₁ : State, s₁.rest.length + 1 ≤ s.rest.length →
      Obeys (function n) s₁ (fun _ => 1) (Means .function) :=
    fun s₁ h₁ => ih .function s₁ (show 1 + 32 * s₁.rest.length ≤ n by omega)
  have hv : ∀ s₁ : State, s₁.rest.length + 1 ≤ s.rest.length →
      Obeys (varDeclaration n) s₁ (fun _ => 1) (Means .varDeclaration) :=
    fun s₁ h₁ => ih .varDeclaration s₁ (show 15 + 32 * s₁.rest.length ≤ n by omega)
  have hs : Obeys (statement n) s (fun _ => 1) (Means .statement) :=
    ih .statement s (show 16 + 32 * s.rest.length ≤ n by omega)
  rw [declared]
  refine (Obeys.choose (fun _ s₁ h₁ _ => hf s₁ h₁) (fun _ => Obeys.choose
      (fun _ s₁ h₁ _ => hv s₁ h₁) (fun _ => hs)
      (fun _ _ => Nat.le_add_left 1 _) fun _ => Nat.le_refl 1)
    (fun _ _ => Nat.le_add_left 1 _) fun _ => Nat.le_refl 1).mono (fun _ => Nat.le_refl _) ?_
  intro w r i stmt j new found
  rcases found with ⟨t, v, rfl, ht, h⟩ | ⟨-, ⟨t, v, rfl, ht, h⟩ | ⟨-, h⟩⟩
  · exact ⟨.functionDeclared (of_decide_eq_true ht) h.1, h.2⟩
  · exact ⟨.varDeclared (of_decide_eq_true ht) h.1, h.2⟩
  · exact ⟨.statementDeclared h.1, h.2⟩

theorem sound_function (hn : 1 + 32 * s.rest.length ≤ n + 1) : Sound .function (n + 1) s := by
  show Obeys (function (n + 1)) s (fun _ => 1) (Means .function)
  have hp : ∀ s₁ : State, s₁.rest.length + 1 ≤ s.rest.length →
      Obeys (paramsFrom n 0) s₁ (fun _ => 0) (Means (.paramsFrom 0)) := fun s₁ h₁ =>
    Obeys.mono (ih (.paramsFrom 0) s₁ (show 1 + 32 * s₁.rest.length ≤ n by omega))
      (fun _ => Nat.zero_le _) fun _ _ _ _ _ _ => id
  have hb : ∀ s₁ : State, s₁.rest.length + 1 ≤ s.rest.length →
      Obeys (block n) s₁ (fun _ => 1) (Means .block) :=
    fun s₁ h₁ => ih .block s₁ (show 20 + 32 * s₁.rest.length ≤ n by omega)
  have hbody : ∀ (name : Token) (params : List Token) (s₁ : State),
      s₁.rest.length + 1 ≤ s.rest.length → Obeys (do
        let _ ← expect .rightParen .expectParenAfterParameters
        let _ ← expect .leftBrace .expectBraceBeforeBody
        let body ← block n
        return Stmt.function name params body) s₁ (fun _ => 0) fun w _ i stmt j new =>
          ∃ closing brace v body, w = closing :: brace :: v ∧ closing.kind = .rightParen ∧
            brace.kind = .leftBrace ∧ ReadsLong .block v i body j new ∧
            stmt = .function name params body := by
    intro name params s₁ h₁
    refine (Obeys.expect_bind rfl (fun _ s₂ h₂ => .expect_bind rfl (fun _ s₃ h₃ =>
      (hb s₃ (by omega)).bind_pure (m := fun _ => 0) (Stmt.function name params ·)
        fun _ => Nat.zero_le _)
        fun _ => Nat.zero_le _) fun _ => Nat.zero_le _).mono (fun _ => Nat.le_refl 0) ?_
    intro w r i stmt j new found
    obtain ⟨closing, v, rfl, hc, brace, v, rfl, hb, body, rfl, h⟩ := found
    exact ⟨closing, brace, v, body, rfl, hc, hb, h.1, rfl⟩
  rw [function]
  refine (Obeys.expect_bind rfl (fun name s₁ h₁ => .expect_bind rfl (fun _ s₂ h₂ =>
      Obeys.test (hbody name [] s₂ (by omega)) ((hp s₂ (by omega)).bind
        (fun params s₃ h₃ => hbody name params s₃ (by omega)) fun _ _ => Nat.zero_le _))
      fun _ => Nat.zero_le _) fun _ => Nat.le_refl 1).mono (fun _ => Nat.le_refl _) ?_
  intro w r i stmt j new found
  obtain ⟨name, _, rfl, ht, opening, _, rfl, ho, ⟨closing, brace, v, body, rfl, hc, hb, h, rfl⟩ | ⟨-,
    u, _, params, k, fs, gs, rfl, rfl, hps, closing, brace, v, body, rfl, hc, hb, h, rfl⟩⟩ := found
  · exact .of_reads (.functionBare ht ho hc hb h) rfl
  · exact .of_reads (.functionParams ht ho hps.1 hc hb h) rfl

theorem sound_statement (hn : 16 + 32 * s.rest.length ≤ n + 1) : Sound .statement (n + 1) s := by
  show Obeys (statement (n + 1)) s (fun _ => 1) (Means .statement)
  have hx : Obeys (expressionStatement n) s (fun _ => 1) (Means .expressionStatement) :=
    ih .expressionStatement s (show 15 + 32 * s.rest.length ≤ n by omega)
  rw [statement]
  refine (Obeys.choose (m := fun _ => 1) (k := fun _ _ => 0)
    (S := fun t w r i stmt j new => Means .statement (t :: w) r i stmt j new) (fun t s₁ h₁ ht => ?_)
    (fun _ => hx) (fun _ _ => Nat.le_refl 1) fun _ => Nat.le_refl 1).mono
    (fun _ => Nat.le_refl _) ?_
  · have hb : Obeys (block n) s₁ (fun _ => 1) (Means .block) :=
      ih .block s₁ (show 20 + 32 * s₁.rest.length ≤ n by omega)
    dsimp only
    rcases beginsKeyed_cases ht with hk | hk | hk | hk | hk | hk <;> rw [hk]
    · exact Obeys.mono (ih .forStatement s₁ (show 1 + 32 * s₁.rest.length ≤ n by omega))
        (fun _ => Nat.zero_le _) fun w r i stmt j new h => ⟨.statementFor hk h.1, h.2⟩
    · exact Obeys.mono (ih .ifStatement s₁ (show 1 + 32 * s₁.rest.length ≤ n by omega))
        (fun _ => Nat.zero_le _) fun w r i stmt j new h => ⟨.statementIf hk h.1, h.2⟩
    · exact Obeys.mono (ih .printStatement s₁ (show 15 + 32 * s₁.rest.length ≤ n by omega))
        (fun _ => Nat.zero_le _) fun w r i stmt j new h => ⟨.statementPrint hk h.1, h.2⟩
    · exact Obeys.mono (ih (.returnStatement t) s₁ (show 15 + 32 * s₁.rest.length ≤ n by omega))
        (fun _ => Nat.zero_le _) fun w r i stmt j new h => ⟨.statementReturn hk h.1, h.2⟩
    · exact Obeys.mono (ih .whileStatement s₁ (show 1 + 32 * s₁.rest.length ≤ n by omega))
        (fun _ => Nat.zero_le _) fun w r i stmt j new h => ⟨.statementWhile hk h.1, h.2⟩
    · refine (Obeys.map (m := fun _ => 0) hb Stmt.block fun _ => Nat.zero_le _).mono
        (fun _ => Nat.le_refl 0) ?_
      intro w r i stmt j new found
      obtain ⟨body, rfl, h⟩ := found
      exact .of_reads (.statementBlock hk h.1) rfl
  · intro w r i stmt j new found
    rcases found with ⟨t, v, rfl, -, h⟩ | ⟨-, h⟩
    · exact h
    · exact ⟨.statementPlain h.1, h.2⟩

theorem sound_forStatement (hn : 1 + 32 * s.rest.length ≤ n + 1) :
    Sound .forStatement (n + 1) s := by
  show Obeys (forStatement (n + 1)) s (fun _ => 1) (Means .forStatement)
  rw [forStatement]
  refine (Obeys.expect_bind rfl (fun _ s₁ h₁ => Obeys.bind
    (ih .forInitializer s₁ (show 15 + 32 * s₁.rest.length ≤ n by omega))
      (fun initializer s₂ (h₂ : s₂.rest.length + 1 ≤ s₁.rest.length) => Obeys.bind
        (ih (.expressionUnless .semicolon) s₂ (show 15 + 32 * s₂.rest.length ≤ n by omega))
          (fun condition s₃ (h₃ : s₃.rest.length + 0 ≤ s₂.rest.length) =>
            .expect_bind rfl (fun _ s₄ h₄ => Obeys.bind
              (ih (.expressionUnless .rightParen) s₄ (show 15 + 32 * s₄.rest.length ≤ n by omega))
                (fun increment s₅ (h₅ : s₅.rest.length + 0 ≤ s₄.rest.length) =>
                  .expect_bind rfl (fun _ s₆ h₆ => Obeys.bind_pure (m := fun _ => 0)
                    (ih .statement s₆ (show 16 + 32 * s₆.rest.length ≤ n by omega))
                      (Stmt.forLoop initializer condition increment) fun _ => Nat.zero_le _)
                    fun _ => Nat.zero_le _)
                fun _ _ => Nat.zero_le _)
              fun _ => Nat.zero_le _)
          fun _ _ => Nat.zero_le _)
      fun _ _ => Nat.zero_le _)
    fun _ => Nat.le_refl 1).mono (fun _ => Nat.le_refl _) ?_
  intro w r i stmt j new found
  obtain ⟨opening, _, rfl, ho, u, _, initializer, _, _, _, rfl, rfl, hi, v, _, condition, _, _, _,
    rfl, rfl, hd, semicolon, _, rfl, hs, w, _, increment, _, _, _, rfl, rfl, hm, closing, x, rfl,
    hc, body, rfl, hb⟩ := found
  exact ⟨.forStatement ho hi.1 hd.1 hs hm.1 hc hb.1, hb.2⟩

theorem sound_whileStatement (hn : 1 + 32 * s.rest.length ≤ n + 1) :
    Sound .whileStatement (n + 1) s := by
  show Obeys (whileStatement (n + 1)) s (fun _ => 1) (Means .whileStatement)
  rw [whileStatement]
  refine (Obeys.expect_bind rfl (fun _ s₁ h₁ => Obeys.bind
    (ih .expression s₁ (show 15 + 32 * s₁.rest.length ≤ n by omega))
      (fun condition s₂ (h₂ : s₂.rest.length + 1 ≤ s₁.rest.length) =>
        .expect_bind rfl (fun _ s₃ h₃ => Obeys.bind_pure (m := fun _ => 0)
          (ih .statement s₃ (show 16 + 32 * s₃.rest.length ≤ n by omega))
            (Stmt.whileLoop condition) fun _ => Nat.zero_le _)
          fun _ => Nat.zero_le _)
      fun _ _ => Nat.zero_le _)
    fun _ => Nat.le_refl 1).mono (fun _ => Nat.le_refl _) ?_
  intro w r i stmt j new found
  obtain ⟨opening, _, rfl, ho, u, _, condition, _, _, _, rfl, rfl, hd, closing, v, rfl, hc, body, rfl,
    hb⟩ := found
  exact ⟨.whileStatement ho hd.1 hc hb.1, hb.2⟩

/-- If an `else` follows, the first branch has left it, so it could not have taken it. -/
theorem sound_ifStatement (hn : 1 + 32 * s.rest.length ≤ n + 1) :
    Sound .ifStatement (n + 1) s := by
  show Obeys (ifStatement (n + 1)) s (fun _ => 1) (Means .ifStatement)
  have hs : ∀ s₁ : State, s₁.rest.length + 1 ≤ s.rest.length →
      Obeys (statement n) s₁ (fun _ => 0) (Means .statement) := fun s₁ h₁ =>
    Obeys.mono (ih .statement s₁ (show 16 + 32 * s₁.rest.length ≤ n by omega))
      (fun _ => Nat.zero_le _) fun _ _ _ _ _ _ => id
  rw [ifStatement]
  refine (Obeys.expect_bind rfl (fun _ s₁ h₁ => Obeys.bind
    (ih .expression s₁ (show 15 + 32 * s₁.rest.length ≤ n by omega))
      (fun condition s₂ (h₂ : s₂.rest.length + 1 ≤ s₁.rest.length) =>
        .expect_bind rfl (fun _ s₃ h₃ => (hs s₃ (by omega)).bind
          (fun thenBranch s₄ h₄ => Obeys.choose
            (fun _ s₅ h₅ _ => (Obeys.map (m := fun _ => 0) (hs s₅ (by omega)) some
                fun _ => Nat.zero_le _).bind_pure (m := fun _ => 0)
              (Stmt.ifThen condition thenBranch) fun _ => Nat.zero_le _)
            (fun _ => (Obeys.pure none).bind_pure (m := fun _ => 0)
              (Stmt.ifThen condition thenBranch) fun _ => Nat.zero_le _)
            (fun _ _ => Nat.zero_le _) fun _ => Nat.le_refl 0)
          fun _ _ => Nat.zero_le _)
          fun _ => Nat.zero_le _)
      fun _ _ => Nat.zero_le _)
    fun _ => Nat.le_refl 1).mono (fun _ => Nat.le_refl _) ?_
  intro w r i stmt j new found
  obtain ⟨opening, _, rfl, ho, u, _, condition, _, _, _, rfl, rfl, hd, closing, _, rfl, hc, v, _,
    thenBranch, _, gs, _, rfl, rfl, ht, ⟨keyword, w, rfl, hk, o, rfl, elseBranch, rfl, he⟩ | ⟨ha, o,
    rfl, rfl, rfl, rfl, rfl⟩⟩ := found
  · have hn : thenBranch.dangling = false := by
      cases hd : thenBranch.dangling with
      | false => rfl
      | true => exact absurd (ht.2 hd) (by simp [of_decide_eq_true hk])
    exact ⟨.ifElse ho hd.1 hc ht.1 hn (of_decide_eq_true hk) he.1, he.2⟩
  · rw [List.append_nil, List.append_nil]
    exact ⟨.ifBare ho hd.1 hc ht.1, fun _ => ha⟩

theorem sound_block (hn : 20 + 32 * s.rest.length ≤ n + 1) : Sound .block (n + 1) s := by
  show Obeys (block (n + 1)) s (fun _ => 1) (Means .block)
  have hd : Obeys (declarations n true) s (fun _ => 0) (MeansAll true) :=
    ih (.declarations true) s (show 19 + 32 * s.rest.length ≤ n by omega)
  rw [block]
  refine (hd.bind (fun body _ _ => .expect_bind rfl (fun _ _ _ => .pure body)
      fun _ => Nat.le_refl 1)
    fun _ _ => Nat.le_add_left 1 _).mono (fun _ => Nat.le_refl _) ?_
  intro w r i body j new found
  obtain ⟨w, _, body, _, fs, _, rfl, rfl, h, brace, _, rfl, hb, rfl, rfl, rfl, rfl⟩ := found
  rw [List.append_nil]
  exact .of_reads (.block h.1.1 hb) rfl

theorem sound_declarations {inBlock : Bool} (hn : 19 + 32 * s.rest.length ≤ n + 1) :
    Sound (.declarations inBlock) (n + 1) s := by
  show Obeys (declarations (n + 1) inBlock) s (fun _ => 0) (MeansAll inBlock)
  have hrun := run_declarations n inBlock s
  split at hrun
  · rename_i hstop
    refine ⟨.ok [], s, hrun, .refl s, fun body hbody => ?_, fun _ h => nomatch h⟩
    cases hbody
    refine ⟨Nat.le_refl _, fun new hnew _ => ?_⟩
    rw [List.self_eq_append_right.1 hnew]
    refine ⟨[], rfl, .of_reads .declarationsEnd rfl, fun found => ?_⟩
    subst found
    exact hstop.resolve_right fun h => absurd h.1 Bool.false_ne_true
  · rename_i hstop
    have hd : Obeys (declaration n) s (fun _ => 1) fun w r i o j new =>
        o.isSome = true ∧ Means .declaration w r i o j new :=
      ih .declaration s (show 18 + 32 * s.rest.length ≤ n by omega) fun h => hstop (.inl h)
    have hr : ∀ s₁ : State, s₁.rest.length + 1 ≤ s.rest.length →
        Obeys (declarations n inBlock) s₁ (fun _ => 0) (MeansAll inBlock) := fun s₁ h₁ =>
      ih (.declarations inBlock) s₁ (show 19 + 32 * s₁.rest.length ≤ n by omega)
    refine Obeys.of_run hrun ((hd.bind (fun first s₁ h₁ => (hr s₁ h₁).bind_pure
        (m := fun _ => 0) (first.toList ++ ·) fun _ => Nat.zero_le _)
      fun _ _ => Nat.zero_le _).mono (fun _ => Nat.le_refl 0) ?_)
    intro w r i body j new found
    obtain ⟨u, v, first, _, fs, gs, rfl, rfl, ⟨hf, h⟩, rest, rfl, hr, hend⟩ := found
    obtain ⟨first, rfl⟩ := Option.isSome_iff_exists.1 hf
    exact ⟨.of_reads (.declarationsMore h.1 hr.1) rfl, hend⟩

end Statements

/-- The contracts of all phrases, where the fuel is enough for the tokens. -/
theorem sound (n : Nat) :
    ∀ (p : Phrase) (s : State), p.cost + 32 * s.rest.length ≤ n → Sound p n s := by
  induction n with
  | zero =>
      intro p s hn
      have := p.cost_pos
      omega
  | succ n ih =>
      have hx : ∀ s : State, 15 + 32 * s.rest.length ≤ n + 1 → Sound .expression (n + 1) s :=
        fun s => sound_expression ih
      intro p s hn
      cases p with
      | expression => exact sound_expression ih hn
      | level l => exact sound_level ih hn
      | levelRest l => exact sound_levelRest ih hn
      | operand l => exact sound_operand ih hn
      | unary => exact sound_unary ih hn
      | callRest => exact sound_callRest ih hn
      | arguments => exact sound_arguments ih hn
      | argumentsFrom count => exact sound_argumentsFrom ih hn
      | primary => exact sound_primary ih hn
      | paramsFrom count => exact sound_paramsFrom ih hn
      | expressionUnless kind => exact sound_expressionUnless hx hn
      | varDeclaration => exact sound_varDeclaration hx hn
      | expressionStatement => exact sound_expressionStatement hx hn
      | printStatement => exact sound_printStatement hx hn
      | returnStatement keyword => exact sound_returnStatement hx hn
      | forInitializer => exact sound_forInitializer hx hn
      | declaration => exact sound_declaration ih hn
      | declared => exact sound_declared ih hn
      | function => exact sound_function ih hn
      | statement => exact sound_statement ih hn
      | forStatement => exact sound_forStatement ih hn
      | ifStatement => exact sound_ifStatement ih hn
      | whileStatement => exact sound_whileStatement ih hn
      | block => exact sound_block ih hn
      | declarations inBlock => exact sound_declarations ih hn

/-- The parser answers, and what it has read without a fault are all the tokens. -/
theorem obeys_declarations (tokens : List Token) (s : State) (hs : s.rest.length ≤ tokens.length) :
    Obeys (declarations (Parsed.fuel tokens) false) s (fun _ => 0) (MeansAll false) :=
  sound _ (.declarations false) s (show 19 + 32 * s.rest.length ≤ 32 * (tokens.length + 1) by omega)

end Lox.Parse
