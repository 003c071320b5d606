import Lox.Proofs.Parser.Follow

/-!
# The parser reads on when a list is too long

If tokens stand for a tree, lists of any length allowed, and what follows them could
not be read as a continuation, the parser takes these tokens, gives this tree and
records the reports that belong to it. The induction is on the fuel and carries all
phrases at once, as the one that shows the contracts of the parser does. Where no list
is too long, this says that the parser finds every reading.
-/

namespace Lox.Parse

variable {α β : Type}

/-- The parser takes `w` off the tokens `w ++ r`, with the result `a`, and records
the faults `new`. -/
def Reports (p : Parse α) (w r : List Token) (i : Nat) (a : α) (j : Nat) (new : List Fault) :
    Prop :=
  ∀ last faults, p.run ⟨w ++ r, last, i, faults⟩ = some (.ok a, ⟨r, last, j, faults ++ new⟩)

section Rules

variable {p : Parse α} {u v w r : List Token} {i j k : Nat} {a : α} {b : β} {fs gs : List Fault}

theorem Reports.pure (a : α) : Reports (pure a) [] r i a i [] := by
  intro last faults
  rw [List.append_nil]
  rfl

theorem Reports.bind {f : α → Parse β} (hp : Reports p u (v ++ r) i a j fs)
    (hf : Reports (f a) v r j b k gs) : Reports (p >>= f) (u ++ v) r i b k (fs ++ gs) := by
  intro last faults
  rw [run_bind, List.append_assoc, hp last faults, ← List.append_assoc]
  exact hf last (faults ++ fs)

/-- The second parser reports nothing. -/
theorem Reports.bind_clean {f : α → Parse β} (hp : Reports p u (v ++ r) i a j fs)
    (hf : Reports (f a) v r j b k []) : Reports (p >>= f) (u ++ v) r i b k fs := by
  have h : Reports (p >>= f) (u ++ v) r i b k (fs ++ []) := Reports.bind hp hf
  rwa [List.append_nil] at h

/-- The second parser takes nothing and reports nothing. -/
theorem Reports.bind_last {f : α → Parse β} (hp : Reports p w r i a j fs)
    (hf : Reports (f a) [] r j b k []) : Reports (p >>= f) w r i b k fs := by
  have h : Reports (p >>= f) (w ++ []) r i b k fs := Reports.bind_clean hp hf
  rwa [List.append_nil] at h

theorem Reports.map (hp : Reports p w r i a j fs) (f : α → β) :
    Reports (f <$> p) w r i (f a) j fs := by
  rw [← bind_pure_comp]
  exact hp.bind_last (.pure (f a))

theorem Reports.tryCatch (hp : Reports p w r i a j fs) (handler : Fault → Parse α) :
    Reports (tryCatch p handler) w r i a j fs := by
  intro last faults
  rw [run_tryCatch, hp last faults]

theorem Reports.acceptIf {wanted : Token.Kind → Bool} {f : Option Token → Parse β} {t : Token}
    (ht : wanted t.kind = true) (hf : Reports (f (some t)) w r i b j fs) :
    Reports (Parse.acceptIf wanted >>= f) (t :: w) r i b j fs := by
  intro last faults
  rw [run_bind, run_acceptIf_cons rfl ht]
  exact hf last faults

theorem Reports.acceptIf_none {wanted : Token.Kind → Bool} {f : Option Token → Parse β}
    (hw : Ahead wanted (w ++ r) = false) (hf : Reports (f none) w r i b j fs) :
    Reports (Parse.acceptIf wanted >>= f) w r i b j fs := by
  intro last faults
  rw [run_bind, run_acceptIf_none hw]
  exact hf last faults

theorem Reports.accept {kind : Token.Kind} {f : Option Token → Parse β} {t : Token}
    (ht : t.kind = kind) (hf : Reports (f (some t)) w r i b j fs) :
    Reports (Parse.accept kind >>= f) (t :: w) r i b j fs :=
  .acceptIf (decide_eq_true ht) hf

theorem Reports.accept_none {kind : Token.Kind} {f : Option Token → Parse β}
    (hw : Ahead (· = kind) (w ++ r) = false) (hf : Reports (f none) w r i b j fs) :
    Reports (Parse.accept kind >>= f) w r i b j fs :=
  .acceptIf_none hw hf

theorem Reports.expect {kind : Token.Kind} {cause : Cause} {f : Token → Parse β} {t : Token}
    (ht : t.kind = kind) (hf : Reports (f t) w r i b j fs) :
    Reports (Parse.expect kind cause >>= f) (t :: w) r i b j fs := by
  have htoken : Reports (Parse.expect kind cause) [t] (w ++ r) i t i [] := .accept ht (.pure t)
  exact htoken.bind hf

theorem Reports.test {kind : Token.Kind} {f : Bool → Parse β} {c : Bool}
    (hw : Ahead (· = kind) (w ++ r) = c) (hf : Reports (f c) w r i b j fs) :
    Reports (nextIs kind >>= f) w r i b j fs := by
  intro last faults
  rw [run_bind, run_nextIs, hw]
  exact hf last faults

theorem Reports.freshId {f : NodeId → Parse β} (hf : Reports (f i) w r (i + 1) b j fs) :
    Reports (Parse.freshId >>= f) w r i b j fs := by
  intro last faults
  rw [run_bind, run_freshId]
  exact hf last faults

/-- The check before an entry of a list reports the entry if it is one too many. -/
theorem Reports.check {cause : Cause} {count : Nat} {q : Parse β} {t : Token}
    (hq : Reports q (t :: w) r i b j fs) (u : List Token) :
    Reports (if maxArity ≤ count then recordHere cause >>= fun _ => q else q) (t :: w) r i b j
      (overrun cause count (t :: u) ++ fs) := by
  split
  next hn =>
    intro last faults
    rw [run_bind, run_recordHere, overrun_cons hn, ← List.append_assoc]
    exact hq last (faults ++ [⟨cause, t⟩])
  next hn =>
    rw [overrun_of_lt (Nat.lt_of_not_le hn)]
    exact hq

end Rules

/-! ## Phrases -/

/-- What the parser does with a reading of a phrase. -/
def FindsLong (n : Nat) :
    (p : Phrase) → (w r : List Token) → Nat → p.Tree → Nat → List Fault → Prop
  | .expression => Reports (expression n)
  | .level l => Reports (level n l)
  | .levelRest l => fun w r i rest j fs =>
    ∀ left, Reports (levelRest n l left) w r i (l.build left rest) j fs
  | .operand l => Reports (operand n l)
  | .unary => Reports (unary n)
  | .callRest => fun w r i calls j fs =>
    ∀ callee, Reports (callRest n callee) w r i (buildCalls callee calls) j fs
  | .arguments => Reports (arguments n)
  | .argumentsFrom count => Reports (argumentsFrom n count)
  | .primary => Reports (primary n)
  | .paramsFrom count => Reports (paramsFrom n count)
  | .expressionUnless kind => Reports (expressionUnless n kind)
  | .varDeclaration => Reports (varDeclaration n)
  | .expressionStatement => Reports (expressionStatement n)
  | .printStatement => Reports (printStatement n)
  | .returnStatement keyword => Reports (returnStatement n keyword)
  | .forInitializer => Reports (forInitializer n)
  | .declaration => Reports (declaration n)
  | .declared => Reports (declared n)
  | .function => Reports (function n)
  | .statement => Reports (statement n)
  | .forStatement => Reports (forStatement n)
  | .ifStatement => Reports (ifStatement n)
  | .whileStatement => Reports (whileStatement n)
  | .block => Reports (block n)
  | .declarations inBlock => Reports (declarations n inBlock)

section Phrases

variable {n : Nat} {w r : List Token} {i j : Nat} {new : List Fault}
  (ih : ∀ (p : Phrase) (w r : List Token) (i : Nat) (a : p.Tree) (j : Nat) (new : List Fault),
    ReadsLong p w i a j new → Follow p a r → p.cost + 32 * w.length ≤ n →
      FindsLong n p w r i a j new)
include ih

theorem finds_expression {e : Expr} (h : ReadsLong .expression w i e j new)
    (hf : Ahead endsExpression r = true) (hn : 15 + 32 * w.length ≤ n + 1) :
    Reports (expression (n + 1)) w r i e j new := by
  rw [expression]
  cases h with
  | value h =>
      have hl : Reports (level n .disjunction) w r i e j new :=
        ih (.level .disjunction) w r i e j new h (tight_of_ends hf _)
          (show 14 + 32 * w.length ≤ n by omega)
      refine hl.bind_last (.accept_none ?_ (.pure e))
      exact ahead_ne (fun kind hk => by cases kind <;> first | rfl | cases hk) (w := r) hf
  | @assign t equals w e i j _ ht heq h =>
      rw [List.length_cons, List.length_cons] at hn
      have hl : Reports (level n .disjunction) [t] (equals :: w ++ r) i (.variable i t) (i + 1)
          [] := by
        refine ih (.level .disjunction) [t] _ i _ _ [] (Reads.of_name ht i).long ?_
          (show 14 + 32 * 1 ≤ n by omega)
        refine tight_of_ahead (p := (· = .equal)) (ahead_kind heq rfl) ?_ rfl _
        intro l kind hk
        rw [of_decide_eq_true hk]
        cases l <;> rfl
      have he : Reports (expression n) w r (i + 1) e j new :=
        ih .expression w r (i + 1) e j new h hf (show 15 + 32 * w.length ≤ n by omega)
      exact hl.bind (v := equals :: w) (.accept heq (he.bind_last (.freshId (.pure _))))

theorem finds_level {l : Level} {e : Expr} (h : ReadsLong (.level l) w i e j new)
    (hf : Tight (l.depth + 1) r) (hn : 4 + 2 * l.depth + 32 * w.length ≤ n + 1) :
    Reports (level (n + 1) l) w r i e j new := by
  rw [level]
  cases h with
  | @level _ u v e rest _ k _ fs gs he hr =>
      rw [List.length_append] at hn
      have hu : Reports (operand n l) u (v ++ r) i e k fs := by
        refine ih (.operand l) u _ i e k fs he ?_
          (show 3 + 2 * l.depth + 32 * u.length ≤ n by omega)
        rcases hr.begins with rfl | hv
        · exact hf.mono (Nat.le_succ _)
        · exact tight_of_operator (ahead_append hv r)
      have hv : Reports (levelRest n l e) v r k (l.build e rest) j gs :=
        ih (.levelRest l) v r k rest j gs hr hf (show 1 + 32 * v.length ≤ n by omega) e
      exact hu.bind hv

theorem finds_levelRest {l : Level} {rest : List (Token × Expr)}
    (h : ReadsLong (.levelRest l) w i rest j new) (hf : Tight (l.depth + 1) r)
    (hn : 1 + 32 * w.length ≤ n + 1) (left : Expr) :
    Reports (levelRest (n + 1) l left) w r i (l.build left rest) j new := by
  rw [levelRest]
  cases h with
  | levelEnd => exact .acceptIf_none (hf.1 l (Nat.lt_succ_self _)) (.pure left)
  | @levelMore _ operator u v e rest _ k _ fs gs ho he hr =>
      rw [List.length_cons, List.length_append] at hn
      have hd : l.depth ≤ 5 := by cases l <;> decide
      have hu : Reports (operand n l) u (v ++ r) i e k fs := by
        refine ih (.operand l) u _ i e k fs he ?_
          (show 3 + 2 * l.depth + 32 * u.length ≤ n by omega)
        rcases hr.begins with rfl | hv
        · exact hf.mono (Nat.le_succ _)
        · exact tight_of_operator (ahead_append hv r)
      have hv : Reports (levelRest n l (l.node left operator e)) v r k
          (l.build (l.node left operator e) rest) j gs :=
        ih (.levelRest l) v r k rest j gs hr hf (show 1 + 32 * v.length ≤ n by omega) _
      exact .acceptIf ho (hu.bind hv)

theorem finds_operand {l : Level} {e : Expr} (h : ReadsLong (.operand l) w i e j new)
    (hf : Tight l.depth r) (hn : 3 + 2 * l.depth + 32 * w.length ≤ n + 1) :
    Reports (operand (n + 1) l) w r i e j new := by
  rw [operand]
  cases h with
  | @tighter _ m _ _ _ _ _ hl h =>
      have hd := Level.depth_of_tighter hl
      rw [hl]
      exact ih (.level m) w r i e j new h (hf.mono (by omega))
        (show 4 + 2 * m.depth + 32 * w.length ≤ n by omega)
  | tightest hl h =>
      rw [hl]
      exact ih .unary w r i e j new h hf.2 (show 2 + 32 * w.length ≤ n by omega)

theorem finds_unary {e : Expr} (h : ReadsLong .unary w i e j new)
    (hf : Ahead (· = .leftParen) r = false) (hn : 2 + 32 * w.length ≤ n + 1) :
    Reports (unary (n + 1)) w r i e j new := by
  rw [unary]
  cases h with
  | @operator t w e _ _ _ ht h =>
      rw [List.length_cons] at hn
      have he : Reports (unary n) w r i e j new :=
        ih .unary w r i e j new h hf (show 2 + 32 * w.length ≤ n by omega)
      exact .acceptIf ht (he.bind_last (.pure _))
  | @call u v e calls _ k _ fs gs he hc =>
      rw [List.length_append] at hn
      have hu : Reports (primary n) u (v ++ r) i e k fs :=
        ih .primary u _ i e k fs he (no_else_of_not_dangling rfl)
          (show 1 + 32 * u.length ≤ n by omega)
      have hv : Reports (callRest n e) v r k (buildCalls e calls) j gs :=
        ih .callRest v r k calls j gs hc hf (show 1 + 32 * v.length ≤ n by omega) e
      refine .acceptIf_none ?_ (hu.bind hv)
      refine ahead_ne (p := beginsPrimary) (fun kind hk => ?_) ?_
      · cases kind <;> first | rfl | cases hk
      · rw [List.append_assoc]
        exact ahead_append he.begins _

theorem finds_callRest {calls : List (List Expr × Token)}
    (h : ReadsLong .callRest w i calls j new) (hf : Ahead (· = .leftParen) r = false)
    (hn : 1 + 32 * w.length ≤ n + 1) (callee : Expr) :
    Reports (callRest (n + 1) callee) w r i (buildCalls callee calls) j new := by
  rw [callRest]
  cases h with
  | callEnd => exact .accept_none hf (.pure callee)
  | @callMore t paren u v args calls _ k _ fs gs ht ha hp hc =>
      rw [List.length_cons, List.length_append, List.length_cons] at hn
      have hu : Reports (arguments n) u (paren :: v ++ r) i args k fs :=
        ih .arguments u _ i args k fs ha (ahead_kind hp rfl)
          (show 17 + 32 * u.length ≤ n by omega)
      have hv : Reports (callRest n (.call callee paren args)) v r k
          (buildCalls (.call callee paren args) calls) j gs :=
        ih .callRest v r k calls j gs hc hf (show 1 + 32 * v.length ≤ n by omega) _
      exact .accept ht (hu.bind (v := paren :: v) (.expect hp hv))

theorem finds_arguments {args : List Expr} (h : ReadsLong .arguments w i args j new)
    (hf : Ahead (· = .rightParen) r = true) (hn : 17 + 32 * w.length ≤ n + 1) :
    Reports (arguments (n + 1)) w r i args j new := by
  rw [arguments]
  cases h with
  | noArguments => exact .test hf (.pure [])
  | someArguments h =>
      have ha : Reports (argumentsFrom n 0) w r i args j new :=
        ih (.argumentsFrom 0) w r i args j new h hf (show 16 + 32 * w.length ≤ n by omega)
      refine .test (c := false) ?_ ha
      exact ahead_ne (fun kind hk => by cases kind <;> first | rfl | cases hk)
        (ahead_append h.begins r)

theorem finds_argumentsFrom {count : Nat} {args : List Expr}
    (h : ReadsLong (.argumentsFrom count) w i args j new)
    (hf : Ahead (· = .rightParen) r = true) (hn : 16 + 32 * w.length ≤ n + 1) :
    Reports (argumentsFrom (n + 1) count) w r i args j new := by
  rw [argumentsFrom]
  cases h with
  | @lastArgument _ w e _ _ fs h =>
      have he : Reports (expression n) w r i e j fs :=
        ih .expression w r i e j fs h
          (ahead_mono (fun kind hk => by rw [of_decide_eq_true hk]; rfl) hf)
          (show 15 + 32 * w.length ≤ n by omega)
      obtain ⟨t, w, rfl⟩ := List.exists_cons_of_ne_nil h.ne_nil
      refine .check ?_ w
      refine he.bind_last (.accept_none ?_ (.pure _))
      exact ahead_ne (fun kind hk => by rw [of_decide_eq_true hk]; rfl) (w := r) hf
  | @moreArguments _ comma u v e es _ k _ fs gs he hc hes =>
      rw [List.length_append, List.length_cons] at hn
      have hu : Reports (expression n) u (comma :: v ++ r) i e k fs :=
        ih .expression u _ i e k fs he (ahead_kind hc rfl)
          (show 15 + 32 * u.length ≤ n by omega)
      have hv : Reports (argumentsFrom n (count + 1)) v r k es j gs :=
        ih (.argumentsFrom (count + 1)) v r k es j gs hes hf
          (show 16 + 32 * v.length ≤ n by omega)
      obtain ⟨t, u, rfl⟩ := List.exists_cons_of_ne_nil he.ne_nil
      rw [List.append_assoc]
      refine .check ?_ u
      exact hu.bind (v := comma :: v) (.accept hc (hv.bind_last (.pure _)))

theorem finds_primary {e : Expr} (h : ReadsLong .primary w i e j new)
    (hn : 1 + 32 * w.length ≤ n + 1) : Reports (primary (n + 1)) w r i e j new := by
  rw [primary]
  cases h with
  | @constant t value _ ht =>
      refine .acceptIf (beginsPrimary_of_constant ht) ?_
      dsimp only
      rw [ht]
      exact .pure _
  | @name t _ ht =>
      refine .acceptIf (by rw [ht]; rfl) ?_
      dsimp only
      rw [Token.constant?, ht]
      dsimp only
      rw [if_pos rfl]
      exact .freshId (.pure _)
  | @group t paren w e _ _ _ ht h hp =>
      rw [List.length_cons, List.length_append, List.length_singleton] at hn
      have he : Reports (expression n) w (paren :: r) i e j new :=
        ih .expression w _ i e j new h (ahead_kind hp rfl) (show 15 + 32 * w.length ≤ n by omega)
      refine .acceptIf (by rw [ht]; rfl) ?_
      dsimp only
      rw [Token.constant?, ht]
      dsimp only
      rw [if_neg (by decide)]
      exact he.bind_clean (v := [paren]) (.expect hp (.pure _))

theorem finds_paramsFrom {count : Nat} {params : List Token}
    (h : ReadsLong (.paramsFrom count) w i params j new) (hf : Ahead (· = .comma) r = false)
    (hn : 1 + 32 * w.length ≤ n + 1) : Reports (paramsFrom (n + 1) count) w r i params j new := by
  rw [paramsFrom]
  cases h with
  | @lastParam _ t _ ht =>
      rw [← List.append_nil (overrun .tooManyParameters count [t])]
      refine .check ?_ []
      exact .expect ht (.accept_none hf (.pure [t]))
  | @moreParams _ t comma w ts _ _ fs ht hc h =>
      rw [List.length_cons, List.length_cons] at hn
      have hw : Reports (paramsFrom n (count + 1)) w r i ts j fs :=
        ih (.paramsFrom (count + 1)) w r i ts j fs h hf (show 1 + 32 * w.length ≤ n by omega)
      refine .check ?_ []
      exact .expect ht (.accept hc (hw.bind_last (.pure _)))

end Phrases

section Plain

variable {n : Nat} {w r : List Token} {i j : Nat} {new : List Fault}
  (hx : ∀ (w r : List Token) (i : Nat) (e : Expr) (j : Nat) (new : List Fault),
    ReadsLong .expression w i e j new → Ahead endsExpression r = true → 15 + 32 * w.length ≤ n →
      Reports (expression n) w r i e j new)
include hx

theorem finds_expressionUnless {kind : Token.Kind} {o : Option Expr}
    (h : ReadsLong (.expressionUnless kind) w i o j new)
    (hk : kind = .semicolon ∨ kind = .rightParen) (hf : Ahead (· = kind) r = true)
    (hn : 15 + 32 * w.length ≤ n) : Reports (expressionUnless n kind) w r i o j new := by
  unfold expressionUnless
  cases h with
  | noExpression => exact .test hf (.pure none)
  | @someExpression _ w e _ _ _ h =>
      have he : Reports (expression n) w r i e j new := by
        refine hx w r i e j new h (ahead_mono (fun kind hk' => ?_) hf) hn
        rw [of_decide_eq_true hk']
        rcases hk with rfl | rfl <;> rfl
      refine .test (c := false) ?_ (he.bind_last (.pure _))
      refine ahead_ne (fun first hb => ?_) (ahead_append h.begins r)
      rcases hk with rfl | rfl <;> cases first <;> first | rfl | cases hb

theorem finds_varDeclaration {s : Stmt} (h : ReadsLong .varDeclaration w i s j new)
    (hn : 15 + 32 * w.length ≤ n) : Reports (varDeclaration n) w r i s j new := by
  unfold varDeclaration
  cases h with
  | @varBare t semicolon _ ht hs =>
      refine .expect ht (.accept_none (ahead_ne (p := (· = .semicolon)) ?_ (ahead_kind hs rfl)) ?_)
      · intro kind hk
        rw [of_decide_eq_true hk]
        rfl
      · exact .expect hs (.pure _)
  | @varValue t equals semicolon w e _ _ _ ht heq h hs =>
      rw [List.length_cons, List.length_cons, List.length_append, List.length_singleton] at hn
      have he : Reports (expression n) w (semicolon :: r) i e j new :=
        hx w _ i e j new h (ahead_kind hs rfl) (by omega)
      exact .expect ht (.accept heq
        ((he.map some).bind_clean (v := [semicolon]) (.expect hs (.pure _))))

theorem finds_expressionStatement {s : Stmt} (h : ReadsLong .expressionStatement w i s j new)
    (hn : 15 + 32 * w.length ≤ n) : Reports (expressionStatement n) w r i s j new := by
  cases h with
  | @expressionStatement semicolon w e _ _ _ h hs =>
      rw [List.length_append, List.length_singleton] at hn
      have he : Reports (expression n) w (semicolon :: r) i e j new :=
        hx w _ i e j new h (ahead_kind hs rfl) (by omega)
      exact he.bind_clean (v := [semicolon]) (.expect hs (.pure _))

theorem finds_printStatement {s : Stmt} (h : ReadsLong .printStatement w i s j new)
    (hn : 15 + 32 * w.length ≤ n) : Reports (printStatement n) w r i s j new := by
  cases h with
  | @printStatement semicolon w e _ _ _ h hs =>
      rw [List.length_append, List.length_singleton] at hn
      have he : Reports (expression n) w (semicolon :: r) i e j new :=
        hx w _ i e j new h (ahead_kind hs rfl) (by omega)
      exact he.bind_clean (v := [semicolon]) (.expect hs (.pure _))

theorem finds_returnStatement {keyword : Token} {s : Stmt}
    (h : ReadsLong (.returnStatement keyword) w i s j new) (hn : 15 + 32 * w.length ≤ n) :
    Reports (returnStatement n keyword) w r i s j new := by
  cases h with
  | @returnStatement _ semicolon w o _ _ _ h hs =>
      rw [List.length_append, List.length_singleton] at hn
      have ho : Reports (expressionUnless n .semicolon) w (semicolon :: r) i o j new :=
        finds_expressionUnless hx h (.inl rfl) (ahead_kind hs rfl) (by omega)
      exact ho.bind_clean (v := [semicolon]) (.expect hs (.pure _))

theorem finds_forInitializer {o : Option Stmt} (h : ReadsLong .forInitializer w i o j new)
    (hn : 15 + 32 * w.length ≤ n) : Reports (forInitializer n) w r i o j new := by
  unfold forInitializer
  cases h with
  | noInitializer hs => exact .accept hs (.pure none)
  | @varInitializer t w s _ _ _ ht h =>
      rw [List.length_cons] at hn
      refine .accept_none (ahead_kind_ne ht rfl) (.accept ht ?_)
      exact (finds_varDeclaration hx h (by omega)).map some
  | @valueInitializer w s _ _ _ h =>
      have hb := ahead_append h.begins r
      refine .accept_none (ahead_ne (fun kind hk => ?_) hb)
        (.accept_none (ahead_ne (fun kind hk => ?_) hb)
          ((finds_expressionStatement hx h hn).map some))
      · cases kind <;> first | rfl | cases hk
      · cases kind <;> first | rfl | cases hk

end Plain

section Statements

variable {n : Nat} {w r : List Token} {i j : Nat} {new : List Fault}
  (ih : ∀ (p : Phrase) (w r : List Token) (i : Nat) (a : p.Tree) (j : Nat) (new : List Fault),
    ReadsLong p w i a j new → Follow p a r → p.cost + 32 * w.length ≤ n →
      FindsLong n p w r i a j new)
include ih

theorem finds_declaration {o : Option Stmt} (h : ReadsLong .declaration w i o j new)
    (hf : o.any Stmt.dangling = true → Ahead (· = .kwElse) r = false)
    (hn : 18 + 32 * w.length ≤ n + 1) : Reports (declaration (n + 1)) w r i o j new := by
  rw [declaration]
  cases h with
  | @declaration w s _ _ _ h =>
      have hs : Reports (declared n) w r i s j new :=
        ih .declared w r i s j new h hf (show 17 + 32 * w.length ≤ n by omega)
      exact (hs.map some).tryCatch _

theorem finds_declared {s : Stmt} (h : ReadsLong .declared w i s j new)
    (hf : s.dangling = true → Ahead (· = .kwElse) r = false)
    (hn : 17 + 32 * w.length ≤ n + 1) : Reports (declared (n + 1)) w r i s j new := by
  rw [declared]
  cases h with
  | @functionDeclared t w s _ _ _ ht h =>
      rw [List.length_cons] at hn
      have hs : Reports (function n) w r i s j new :=
        ih .function w r i s j new h hf (show 1 + 32 * w.length ≤ n by omega)
      exact .accept ht hs
  | @varDeclared t w s _ _ _ ht h =>
      rw [List.length_cons] at hn
      have hs : Reports (varDeclaration n) w r i s j new :=
        ih .varDeclaration w r i s j new h hf (show 15 + 32 * w.length ≤ n by omega)
      exact .accept_none (ahead_kind_ne ht rfl) (.accept ht hs)
  | @statementDeclared w s _ _ _ h =>
      have hs : Reports (statement n) w r i s j new :=
        ih .statement w r i s j new h hf (show 16 + 32 * w.length ≤ n by omega)
      have hb := ahead_append h.begins r
      refine .accept_none (ahead_ne (fun kind hk => ?_) hb)
        (.accept_none (ahead_ne (fun kind hk => ?_) hb) hs)
      · cases kind <;> first | rfl | cases hk
      · cases kind <;> first | rfl | cases hk

theorem finds_function {s : Stmt} (h : ReadsLong .function w i s j new)
    (hn : 1 + 32 * w.length ≤ n + 1) : Reports (function (n + 1)) w r i s j new := by
  rw [function]
  cases h with
  | @functionBare name opening closing brace w body _ _ _ ht ho hc hb h =>
      simp only [List.length_cons] at hn
      have hw : Reports (block n) w r i body j new :=
        ih .block w r i body j new h (no_else_of_not_dangling rfl)
          (show 20 + 32 * w.length ≤ n by omega)
      exact .expect ht (.expect ho (.test (ahead_kind hc rfl)
        (.expect hc (.expect hb (hw.bind_last (.pure _))))))
  | @functionParams name opening closing brace u v params body _ k _ fs gs ht ho hp hc hb h =>
      simp only [List.length_cons, List.length_append] at hn
      have hu : Reports (paramsFrom n 0) u (closing :: brace :: v ++ r) i params k fs :=
        ih (.paramsFrom 0) u _ i params k fs hp (ahead_kind_ne hc rfl)
          (show 1 + 32 * u.length ≤ n by omega)
      have hv : Reports (block n) v r k body j gs :=
        ih .block v r k body j gs h (no_else_of_not_dangling rfl)
          (show 20 + 32 * v.length ≤ n by omega)
      refine .expect ht (.expect ho (.test (c := false) ?_ (hu.bind (v := closing :: brace :: v)
        (.expect hc (.expect hb (hv.bind_last (.pure _)))))))
      rw [List.append_assoc]
      cases hp with
      | lastParam ht | moreParams ht => exact ahead_kind_ne ht rfl

theorem finds_statement {s : Stmt} (h : ReadsLong .statement w i s j new)
    (hf : s.dangling = true → Ahead (· = .kwElse) r = false)
    (hn : 16 + 32 * w.length ≤ n + 1) : Reports (statement (n + 1)) w r i s j new := by
  rw [statement]
  cases h with
  | statementPlain h =>
      have hs : Reports (expressionStatement n) w r i s j new :=
        ih .expressionStatement w r i s j new h hf (show 15 + 32 * w.length ≤ n by omega)
      refine .acceptIf_none (ahead_ne (fun kind hk => ?_) (ahead_append h.begins r)) hs
      cases kind <;> first | rfl | cases hk
  | @statementFor t w _ _ _ _ ht h =>
      rw [List.length_cons] at hn
      have hs : Reports (forStatement n) w r i s j new :=
        ih .forStatement w r i s j new h hf (show 1 + 32 * w.length ≤ n by omega)
      refine .acceptIf (by rw [ht]; rfl) ?_
      dsimp only
      rw [ht]
      exact hs
  | @statementIf t w _ _ _ _ ht h =>
      rw [List.length_cons] at hn
      have hs : Reports (ifStatement n) w r i s j new :=
        ih .ifStatement w r i s j new h hf (show 1 + 32 * w.length ≤ n by omega)
      refine .acceptIf (by rw [ht]; rfl) ?_
      dsimp only
      rw [ht]
      exact hs
  | @statementPrint t w _ _ _ _ ht h =>
      rw [List.length_cons] at hn
      have hs : Reports (printStatement n) w r i s j new :=
        ih .printStatement w r i s j new h hf (show 15 + 32 * w.length ≤ n by omega)
      refine .acceptIf (by rw [ht]; rfl) ?_
      dsimp only
      rw [ht]
      exact hs
  | @statementReturn t w _ _ _ _ ht h =>
      rw [List.length_cons] at hn
      have hs : Reports (returnStatement n t) w r i s j new :=
        ih (.returnStatement t) w r i s j new h hf (show 15 + 32 * w.length ≤ n by omega)
      refine .acceptIf (by rw [ht]; rfl) ?_
      dsimp only
      rw [ht]
      exact hs
  | @statementWhile t w _ _ _ _ ht h =>
      rw [List.length_cons] at hn
      have hs : Reports (whileStatement n) w r i s j new :=
        ih .whileStatement w r i s j new h hf (show 1 + 32 * w.length ≤ n by omega)
      refine .acceptIf (by rw [ht]; rfl) ?_
      dsimp only
      rw [ht]
      exact hs
  | @statementBlock t w body _ _ _ ht h =>
      rw [List.length_cons] at hn
      have hb : Reports (block n) w r i body j new :=
        ih .block w r i body j new h (no_else_of_not_dangling rfl)
          (show 20 + 32 * w.length ≤ n by omega)
      refine .acceptIf (by rw [ht]; rfl) ?_
      dsimp only
      rw [ht]
      exact hb.map Stmt.block

theorem finds_forStatement {s : Stmt} (h : ReadsLong .forStatement w i s j new)
    (hf : s.dangling = true → Ahead (· = .kwElse) r = false)
    (hn : 1 + 32 * w.length ≤ n + 1) : Reports (forStatement (n + 1)) w r i s j new := by
  rw [forStatement]
  cases h with
  | @forStatement opening semicolon closing u v w x initializer condition increment body
      _ j₁ j₂ j₃ _ fs₀ fs₁ fs₂ fs₃ ho hi hd hs hm hc hb =>
      simp only [List.length_cons, List.length_append] at hn
      have hu : Reports (forInitializer n) u (v ++ semicolon :: (w ++ closing :: x) ++ r) i
          initializer j₁ fs₀ :=
        ih .forInitializer u _ i initializer j₁ fs₀ hi (no_else_of_not_dangling rfl)
          (show 15 + 32 * u.length ≤ n by omega)
      have hv : Reports (expressionUnless n .semicolon) v (semicolon :: (w ++ closing :: x) ++ r)
          j₁ condition j₂ fs₁ :=
        ih (.expressionUnless .semicolon) v _ j₁ condition j₂ fs₁ hd ⟨.inl rfl, ahead_kind hs rfl⟩
          (show 15 + 32 * v.length ≤ n by omega)
      have hw : Reports (expressionUnless n .rightParen) w (closing :: x ++ r) j₂ increment j₃
          fs₂ :=
        ih (.expressionUnless .rightParen) w _ j₂ increment j₃ fs₂ hm
          ⟨.inr rfl, ahead_kind hc rfl⟩ (show 15 + 32 * w.length ≤ n by omega)
      have hx : Reports (statement n) x r j₃ body j fs₃ :=
        ih .statement x r j₃ body j fs₃ hb hf (show 16 + 32 * x.length ≤ n by omega)
      exact .expect ho (hu.bind (hv.bind (v := semicolon :: (w ++ closing :: x)) (.expect hs
        (hw.bind (v := closing :: x) (.expect hc (hx.bind_last (.pure _)))))))

theorem finds_whileStatement {s : Stmt} (h : ReadsLong .whileStatement w i s j new)
    (hf : s.dangling = true → Ahead (· = .kwElse) r = false)
    (hn : 1 + 32 * w.length ≤ n + 1) : Reports (whileStatement (n + 1)) w r i s j new := by
  rw [whileStatement]
  cases h with
  | @whileStatement opening closing u v condition body _ k _ fs gs ho hd hc hb =>
      simp only [List.length_cons, List.length_append] at hn
      have hu : Reports (expression n) u (closing :: v ++ r) i condition k fs :=
        ih .expression u _ i condition k fs hd (ahead_kind hc rfl)
          (show 15 + 32 * u.length ≤ n by omega)
      have hv : Reports (statement n) v r k body j gs :=
        ih .statement v r k body j gs hb hf (show 16 + 32 * v.length ≤ n by omega)
      exact .expect ho (hu.bind (v := closing :: v) (.expect hc (hv.bind_last (.pure _))))

theorem finds_ifStatement {s : Stmt} (h : ReadsLong .ifStatement w i s j new)
    (hf : s.dangling = true → Ahead (· = .kwElse) r = false)
    (hn : 1 + 32 * w.length ≤ n + 1) : Reports (ifStatement (n + 1)) w r i s j new := by
  rw [ifStatement]
  cases h with
  | @ifBare opening closing u v condition thenBranch _ k _ fs gs ho hd hc ht =>
      simp only [List.length_cons, List.length_append] at hn
      have hu : Reports (expression n) u (closing :: v ++ r) i condition k fs :=
        ih .expression u _ i condition k fs hd (ahead_kind hc rfl)
          (show 15 + 32 * u.length ≤ n by omega)
      have hv : Reports (statement n) v r k thenBranch j gs :=
        ih .statement v r k thenBranch j gs ht (fun _ => hf rfl)
          (show 16 + 32 * v.length ≤ n by omega)
      exact .expect ho (hu.bind (v := closing :: v) (.expect hc
        (hv.bind_last (.accept_none (hf rfl) (.pure _)))))
  | @ifElse opening closing keyword u v w condition thenBranch elseBranch _ k l _ fs gs hs ho hd
      hc ht hn' hk he =>
      simp only [List.length_cons, List.length_append] at hn
      have hu : Reports (expression n) u (closing :: (v ++ keyword :: w) ++ r) i condition k fs :=
        ih .expression u _ i condition k fs hd (ahead_kind hc rfl)
          (show 15 + 32 * u.length ≤ n by omega)
      have hv : Reports (statement n) v (keyword :: w ++ r) k thenBranch l gs := by
        refine ih .statement v _ k thenBranch l gs ht (fun hd => ?_)
          (show 16 + 32 * v.length ≤ n by omega)
        exact absurd (hn'.symm.trans hd) Bool.false_ne_true
      have hw : Reports (statement n) w r l elseBranch j hs :=
        ih .statement w r l elseBranch j hs he hf (show 16 + 32 * w.length ≤ n by omega)
      exact .expect ho (hu.bind (v := closing :: (v ++ keyword :: w)) (.expect hc
        (hv.bind (v := keyword :: w) (.accept hk ((hw.map some).bind_last (.pure _))))))

theorem finds_block {body : List Stmt} (h : ReadsLong .block w i body j new)
    (hn : 20 + 32 * w.length ≤ n + 1) : Reports (block (n + 1)) w r i body j new := by
  rw [block]
  cases h with
  | @block brace w body _ _ _ h hb =>
      rw [List.length_append, List.length_singleton] at hn
      have hw : Reports (declarations n true) w (brace :: r) i body j new :=
        ih (.declarations true) w _ i body j new h (ahead_kind hb rfl)
          (show 19 + 32 * w.length ≤ n by omega)
      exact hw.bind_clean (v := [brace]) (.expect hb (.pure _))

theorem finds_declarations {inBlock : Bool} {body : List Stmt}
    (h : ReadsLong (.declarations inBlock) w i body j new) (hf : FollowAll inBlock r)
    (hn : 19 + 32 * w.length ≤ n + 1) :
    Reports (declarations (n + 1) inBlock) w r i body j new := by
  intro last faults
  rw [run_declarations]
  cases h with
  | declarationsEnd =>
      rw [if_pos]
      · rw [List.append_nil]
        rfl
      · cases inBlock with
        | true => exact .inr ⟨rfl, hf⟩
        | false => exact .inl hf
  | @declarationsMore _ u v s rest _ k _ fs gs hs hr =>
      rw [List.length_append] at hn
      have hpos := hs.pos_of_declaration
      have hb := ahead_append hs.begins (v ++ r)
      have hu : Reports (declaration n) u (v ++ r) i (some s) k fs := by
        exact ih .declaration u _ i (some s) k fs hs (fun _ => no_else_of_declarations hr hf)
          (show 18 + 32 * u.length ≤ n by omega)
      have hv : Reports (declarations n inBlock) v r k rest j gs :=
        ih (.declarations inBlock) v r k rest j gs hr hf (show 19 + 32 * v.length ≤ n by omega)
      rw [if_neg]
      · exact hu.bind (hv.bind_last (.pure (s :: rest))) last faults
      · rw [List.append_assoc]
        intro h
        rcases h with h | ⟨-, h⟩
        · exact Bool.false_ne_true ((congrArg (Ahead beginsDeclared) h).symm.trans hb)
        · rw [ahead_ne (fun kind hk => ?_) hb] at h
          · exact Bool.false_ne_true h
          · cases kind <;> first | rfl | cases hk

end Statements

/-- With enough fuel, a reading that could not be continued is found, with its reports. -/
theorem finds_long (n : Nat) : ∀ (p : Phrase) (w r : List Token) (i : Nat) (a : p.Tree) (j : Nat)
    (new : List Fault), ReadsLong p w i a j new → Follow p a r → p.cost + 32 * w.length ≤ n →
      FindsLong n p w r i a j new := by
  induction n with
  | zero =>
      intro p w r i a j new _ _ hn
      have := p.cost_pos
      omega
  | succ n ih =>
      have hx : ∀ (w r : List Token) (i : Nat) (e : Expr) (j : Nat) (new : List Fault),
          ReadsLong .expression w i e j new → Ahead endsExpression r = true →
            15 + 32 * w.length ≤ n + 1 → Reports (expression (n + 1)) w r i e j new :=
        fun w r i e j new h hf hn => finds_expression ih h hf hn
      intro p w r i a j new h hf hn
      cases p with
      | expression => exact finds_expression ih h hf hn
      | level l => exact finds_level ih h hf hn
      | levelRest l => exact finds_levelRest ih h hf hn
      | operand l => exact finds_operand ih h hf hn
      | unary => exact finds_unary ih h hf hn
      | callRest => exact finds_callRest ih h hf hn
      | arguments => exact finds_arguments ih h hf hn
      | argumentsFrom count => exact finds_argumentsFrom ih h hf hn
      | primary => exact finds_primary ih h hn
      | paramsFrom count => exact finds_paramsFrom ih h hf hn
      | expressionUnless kind => exact finds_expressionUnless hx h hf.1 hf.2 hn
      | varDeclaration => exact finds_varDeclaration hx h hn
      | expressionStatement => exact finds_expressionStatement hx h hn
      | printStatement => exact finds_printStatement hx h hn
      | returnStatement keyword => exact finds_returnStatement hx h hn
      | forInitializer => exact finds_forInitializer hx h hn
      | declaration => exact finds_declaration ih h hf hn
      | declared => exact finds_declared ih h hf hn
      | function => exact finds_function ih h hn
      | statement => exact finds_statement ih h hf hn
      | forStatement => exact finds_forStatement ih h hf hn
      | ifStatement => exact finds_ifStatement ih h hf hn
      | whileStatement => exact finds_whileStatement ih h hf hn
      | block => exact finds_block ih h hn
      | declarations inBlock => exact finds_declarations ih h hf hn

end Lox.Parse
