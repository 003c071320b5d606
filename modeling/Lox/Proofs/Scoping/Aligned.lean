import Lox.Proofs.Scoping.Steps

/-!
# Linked programs find their variables

The frames stay around the current scope through blocks, loops and calls, whether they
end in a value, a return, a fault or not at all. A call leaves the frames of its caller
for those kept with the function, and the function is linked under the names it had at
its declaration, its own among them: names that came later do not concern it.
-/

namespace Lox

open Binding

/-- A use at a place that the frames lie around is as it should be, if the distance to
the name is on record. -/
theorem Chronicle.At.fine {recorded : Recorded} {c : Chronicle} {frames : Frames}
    {access : Access} {id : NodeId} {name : Token} (hs : c.Sane recorded) (ha : c.At frames)
    (hready : Frames.Ready frames.tail) (hrec : recorded id (frames.scopes.distance? name.lexeme))
    (hread : access = .read → frames.scopes.innermost? name.lexeme ≠ some false) :
    (Use.mk access id name frames c.machine).Fine := by
  have htable := hs.table id _ hrec
  refine ⟨?_, ?_, ?_⟩
  · intro hacc h
    obtain ⟨f, hf, hl⟩ := h
    refine hread hacc ?_
    change frames.head? = some f at hf
    rw [Scopes.innermost?, Frames.scopes, List.head?_map, hf]
    exact hl
  · intro distance hd hpending
    have hdist := htable.symm.trans hd
    obtain ⟨hlt, hsome, hbefore⟩ := List.findIdx?_eq_some_iff_getElem.mp hdist
    have hlen : frames.scopes.length = frames.length := List.length_map _
    have hnames : ∀ k (hk : k < frames.scopes.length) (hk' : k < frames.length),
        frames.scopes[k] = frames[k].names := fun k hk hk' => List.getElem_map _
    rw [hnames distance hlt (hlen ▸ hlt)] at hsome
    rw [hlen] at hlt
    have hget : frames[distance]? = some frames[distance] := List.getElem?_eq_getElem hlt
    have htrue : frames[distance].names.lookup name.lexeme = some true := by
      obtain ⟨ready, hl⟩ := Option.isSome_iff_exists.mp hsome
      cases ready with
      | true => exact hl
      | false =>
          cases frames with
          | nil => cases hget
          | cons f outer =>
              cases distance with
              | zero => exact absurd ⟨f, rfl, hl⟩ hpending
              | succ k => exact absurd hl (hready _ (List.getElem_mem _) _)
    refine ⟨frames[distance], hget, ?_, htrue, ?_, ?_⟩
    · intro k f hk hf
      have hklt := Nat.lt_trans hk hlt
      change frames[k]? = some f at hf
      rw [List.getElem?_eq_getElem hklt] at hf
      cases hf
      have hb := hbefore k hk
      rw [hnames k _ hklt] at hb
      exact Option.not_isSome_iff_eq_none.mp hb
    · refine Store.ancestor?_of_chain ha.around.chain ?_
      rw [List.getElem?_map, hget]
      rfl
    · exact ha.around.bound _ (List.getElem_mem _) _ htrue
  · intro h
    obtain ⟨f, hf, hl⟩ := h
    change frames.head? = some f at hf
    change f.names.lookup name.lexeme = some false at hl
    cases frames with
    | nil => cases hf
    | cons g outer =>
        cases hf
        have hcur : c.machine.current = f.scope := ha.around.chain.1
        refine ⟨htable.trans ?_, ?_⟩
        · rw [Scopes.distance?, Frames.scopes, List.map_cons, List.findIdx?_cons, hl]
          rfl
        · show c.machine.store.lookup? c.machine.current name.lexeme = none
          rw [hcur]
          cases hv : c.machine.store.lookup? f.scope name.lexeme with
          | none => rfl
          | some v =>
              have := ha.exact f outer name.lexeme rfl (Option.isSome_iff_exists.mpr ⟨v, hv⟩)
              rw [hl] at this
              cases this

/-- With so much fuel all rules of evaluation keep the frames aligned. -/
structure Aligned (recorded : Recorded) (n : Nat) : Prop where
  evaluate : ∀ {c frames e}, c.Sane recorded → c.At frames → Frames.Ready frames.tail →
    e.Linked recorded frames.scopes →
      Stays recorded (Traced.evaluate n frames e) c Nowhere fun v c' => v.Fits recorded c'
  evaluateAll : ∀ {c frames es}, c.Sane recorded → c.At frames → Frames.Ready frames.tail →
    Expr.LinkedAll recorded frames.scopes es →
      Stays recorded (Traced.evaluateAll n frames es) c Nowhere fun vs c' =>
        ∀ v ∈ vs, v.Fits recorded c'
  call : ∀ {c callee arguments} (paren), c.Sane recorded → callee.Fits recorded c →
    (∀ v ∈ arguments, v.Fits recorded c) →
      Stays recorded (Traced.call n callee paren arguments) c Nowhere fun v c' =>
        v.Fits recorded c'
  execute : ∀ {c frames s inFunction}, c.Sane recorded → c.At frames → Frames.Ready frames →
    s.Linked recorded inFunction frames.scopes →
      Stays recorded (Traced.execute n frames s) c (· = c.machine.current) fun k c' =>
        k.value.Fits recorded c' ∧ c'.At (frames.behind s)
  executeAll : ∀ {c frames body inFunction}, c.Sane recorded → c.At frames →
    Frames.Ready frames → Stmt.LinkedAll recorded inFunction frames.scopes body →
      Stays recorded (Traced.executeAll n frames body) c (· = c.machine.current) fun k c' =>
        k.value.Fits recorded c'
  loop : ∀ {c frames condition body inFunction}, c.Sane recorded → c.At frames →
    Frames.Ready frames → condition.Linked recorded frames.scopes → body.plain = true →
      body.Linked recorded inFunction frames.scopes →
      Stays recorded (Traced.loop n frames condition body none) c (· = c.machine.current)
        fun k c' => k.value.Fits recorded c' ∧ c'.At frames

section Steps

variable {recorded : Recorded} {n : Nat} (ih : Aligned recorded n) {c : Chronicle}
  {frames : Frames}
include ih

theorem evaluate_aligned {e : Expr} (hs : c.Sane recorded) (ha : c.At frames)
    (hr : Frames.Ready frames.tail) (hl : e.Linked recorded frames.scopes) :
    Stays recorded (Traced.evaluate (n + 1) frames e) c Nowhere fun v c' =>
      v.Fits recorded c' := by
  cases e with
  | literal value => exact .pure hs (Literal.simple_value value).fits
  | group inner => exact ih.evaluate hs ha hr hl
  | unary operator operand =>
      refine (ih.evaluate (e := operand) hs ha hr hl).bind ?_
      intro value c' hs' _ _
      exact .asks hs' (Run.applyUnary_asks operator value _) fun _ h => h.fits
  | binary left operator right =>
      refine (ih.evaluate hs ha hr hl.1).bind ?_
      intro a c₁ hs₁ he₁ _
      refine (ih.evaluate hs₁ (ha.evolves he₁) hr hl.2).bind ?_
      intro b c₂ hs₂ _ _
      exact .asks hs₂ (Run.applyBinary_asks operator a b _) fun _ h => h.fits
  | logical left operator right =>
      refine (ih.evaluate hs ha hr hl.1).bind ?_
      intro a c' hs' he hfits
      by_cases h : Run.decidedBy operator a = true
      · rw [if_pos h]
        exact .pure hs' hfits
      · rw [if_neg h]
        exact ih.evaluate hs' (ha.evolves he) hr hl.2
  | «variable» id name =>
      refine (Stays.note hs (ha.fine hs hr hl.1 fun _ => hl.2)).bind ?_
      intro _ c' hs' _ _
      exact .asks hs' (Run.readVariable_asks id name _) fun v ⟨scope, hv⟩ =>
        hs'.values scope name.lexeme v hv
  | assign id name value =>
      refine (ih.evaluate hs ha hr hl.1).bind ?_
      intro v c₁ hs₁ he₁ hv
      have hfine : (Use.mk (.write v) id name frames c₁.machine).Fine :=
        (ha.evolves he₁).fine hs₁ hr hl.2 fun h => by cases h
      refine (Stays.note hs₁ hfine).bind ?_
      intro _ c₂ hs₂ he₂ _
      refine (Stays.write hs₂ (hv.evolves he₂)).bind ?_
      intro _ c₃ hs₃ he₃ _
      exact .pure hs₃ ((hv.evolves he₂).evolves he₃)
  | call callee paren arguments =>
      refine (ih.evaluate hs ha hr hl.1).bind ?_
      intro v c₁ hs₁ he₁ hv
      refine (ih.evaluateAll hs₁ (ha.evolves he₁) hr hl.2).bind ?_
      intro vs c₂ hs₂ he₂ hvs
      exact ih.call paren hs₂ (hv.evolves he₂) hvs

theorem evaluateAll_aligned {es : List Expr} (hs : c.Sane recorded) (ha : c.At frames)
    (hr : Frames.Ready frames.tail) (hl : Expr.LinkedAll recorded frames.scopes es) :
    Stays recorded (Traced.evaluateAll (n + 1) frames es) c Nowhere fun vs c' =>
      ∀ v ∈ vs, v.Fits recorded c' := by
  cases es with
  | nil => exact .pure hs fun v hv => by cases hv
  | cons first rest =>
      refine (ih.evaluate hs ha hr hl.1).bind ?_
      intro v c₁ hs₁ he₁ hv
      refine (ih.evaluateAll hs₁ (ha.evolves he₁) hr hl.2).bind ?_
      intro vs c₂ hs₂ he₂ hvs
      refine .pure hs₂ ?_
      intro w hw
      rcases List.mem_cons.mp hw with rfl | hw
      · exact hv.evolves he₂
      · exact hvs w hw

theorem call_aligned {callee : Value} {arguments : List Value} (paren : Token)
    (hs : c.Sane recorded) (hc : callee.Fits recorded c)
    (hv : ∀ v ∈ arguments, v.Fits recorded c) :
    Stays recorded (Traced.call (n + 1) callee paren arguments) c Nowhere fun v c' =>
      v.Fits recorded c' := by
  cases callee with
  | function serial declaration closure =>
      obtain ⟨frames, hb, ha, hr, hl⟩ := hc
      refine .of_fresh (.ask hs (Run.checkArity_asks ..) fun _ hlen => ?_)
      refine .after (t := Traced.framesOf serial) (b := frames) ?_ ?_
      · show (Except.ok (c.births[serial]?.getD []), c) = _
        rw [hb]
        rfl
      have hparams : (declaration.params.zip arguments).map Prod.fst = declaration.params :=
        List.map_fst_zip (Nat.le_of_eq hlen.symm)
      refine (Stays.enter hs ha fun b hb => hv b.2 (List.of_mem_zip hb).2).bind
        fun scope c₁ hs₁ he₁ ⟨hle, hat⟩ => ?_
      rw [hparams] at hat
      rw [← Frames.scopes_call frames scope] at hl
      have hbody := ih.executeAll (hs₁.moved scope) hat (Frames.ready_call hr scope _) hl
      have hwithin := Stays.within (hbody.mono (fun s hs => Nat.le_trans hle (Nat.le_of_eq hs.symm))
        fun _ _ _ hk => hk) fun k c' hk => (Value.fits_moved k.value c' _).mpr hk
      exact hwithin.bind fun k c₂ hs₂ _ hk => .pure hs₂ hk
  | native serial name arity =>
      refine .ask hs (Run.checkArity_asks ..) ?_
      intro _ _
      refine .asks hs (Run.applyNative_asks ..) fun v ⟨native, hn, happly⟩ => ?_
      exact (hs.natives native hn).fits happly hv
  | _ => exact .asks (P := fun _ => False) hs (.fail ..) fun _ h => h.elim

theorem execute_aligned {s : Stmt} {inFunction : Bool} (hs : c.Sane recorded) (ha : c.At frames)
    (hr : Frames.Ready frames) (hl : s.Linked recorded inFunction frames.scopes) :
    Stays recorded (Traced.execute (n + 1) frames s) c (· = c.machine.current) fun k c' =>
      k.value.Fits recorded c' ∧ c'.At (frames.behind s) := by
  have hr' := Frames.ready_tail hr
  cases s with
  | expression value =>
      refine ((ih.evaluate hs ha hr' hl).keeping ha).bind fun _ c' hs' _ ⟨_, ha'⟩ => ?_
      exact .pure hs' ⟨trivial, ha'⟩
  | print value =>
      refine ((ih.evaluate hs ha hr' hl).keeping ha).bind fun v c' hs' _ ⟨_, ha'⟩ => ?_
      refine ((Stays.print hs' v).keeping ha').bind fun _ c'' hs'' _ ⟨_, ha''⟩ => ?_
      exact .pure hs'' ⟨trivial, ha''⟩
  | var name initializer =>
      obtain ⟨hnew, hinit⟩ := hl
      cases initializer with
      | none =>
          have hnil : ∀ c', Value.nil.Fits recorded c' := fun _ => trivial
          refine (Stays.define hs ha fun c' _ _ => hnil c').bind ?_
          intro _ c' hs' _ ha'
          exact .pure hs' ⟨trivial, ha'⟩
      | some initializer =>
          rw [← Frames.scopes_declare] at hinit
          have heval := ih.evaluate hs (ha.declare hnew) (Frames.ready_declare hr name) hinit
          refine (heval.keeping ha).bind fun v c' hs' he ⟨hv, ha'⟩ => .here he ?_
          refine (Stays.define hs' ha' fun _ he' _ => hv.evolves he').bind
            fun _ c'' hs'' _ ha'' => ?_
          exact .pure hs'' ⟨trivial, ha''⟩
  | block body =>
      have hblock : Stays recorded (Traced.execute (n + 1) frames (.block body)) c Nowhere
          fun k c' => k.value.Fits recorded c' := by
        refine .of_fresh ?_
        refine (Stays.enterBlock hs ha).bind fun scope c₁ hs₁ _ ⟨hle, hat⟩ => ?_
        have hbody := ih.executeAll (hs₁.moved scope) hat (Frames.ready_call hr scope []) hl
        exact .within (hbody.mono (fun s hs => Nat.le_trans hle (Nat.le_of_eq hs.symm))
          fun _ _ _ hk => hk) fun k c' hk => (Value.fits_moved k.value c' _).mpr hk
      exact hblock.keeping ha
  | ifThen condition thenBranch elseBranch =>
      obtain ⟨hcond, ⟨hp, hthen⟩, helse⟩ := hl
      refine ((ih.evaluate hs ha hr' hcond).keeping ha).bind fun v c' hs' he ⟨_, ha'⟩ => ?_
      by_cases hv : v.truthy = true
      · rw [if_pos hv]
        have h := ih.execute hs' ha' hr hthen
        rw [Frames.behind_of_plain hp] at h
        exact .here he h
      · rw [if_neg hv]
        cases elseBranch with
        | none => exact .pure hs' ⟨trivial, ha'⟩
        | some elseBranch =>
            have h := ih.execute hs' ha' hr helse.2
            rw [Frames.behind_of_plain helse.1] at h
            exact .here he h
  | whileLoop condition body => exact ih.loop hs ha hr hl.1 hl.2.1 hl.2.2
  | forLoop => exact hl.elim
  | function name params body =>
      refine ((Stays.close hs ⟨name, params, body⟩ (frames.introduce name)).keeping ha).bind ?_
      intro _ c' hs' he h
      obtain ⟨⟨serial, rfl, hb⟩, ha'⟩ := h
      refine .here he ((Stays.define hs' ha' fun c'' he' ha'' => ?_).bind
        fun _ c'' hs'' _ ha'' => .pure hs'' ⟨trivial, ha''⟩)
      have hcur : c''.machine.current = c.machine.current := he'.current.trans he.current
      refine ⟨frames.introduce name, he'.births_getElem? hb, hcur ▸ ha''.around,
        Frames.ready_introduce hr name, ?_⟩
      rw [Frames.scopes_introduce]
      exact hl.2.2
  | ret keyword value =>
      cases value with
      | none => exact .pure hs ⟨trivial, ha⟩
      | some value =>
          refine ((ih.evaluate hs ha hr' hl.2).keeping ha).bind fun v c' hs' _ ⟨hv, ha'⟩ => ?_
          exact .pure hs' ⟨hv, ha'⟩

theorem executeAll_aligned {body : List Stmt} {inFunction : Bool} (hs : c.Sane recorded)
    (ha : c.At frames) (hr : Frames.Ready frames)
    (hl : Stmt.LinkedAll recorded inFunction frames.scopes body) :
    Stays recorded (Traced.executeAll (n + 1) frames body) c (· = c.machine.current) fun k c' =>
      k.value.Fits recorded c' := by
  cases body with
  | nil => exact .pure hs trivial
  | cons first rest =>
      refine (ih.execute hs ha hr hl.1).bind fun k c' hs' he ⟨hk, ha'⟩ => ?_
      cases k with
      | returned value => exact .pure hs' hk
      | normal =>
          have hrest := hl.2
          rw [← Frames.scopes_behind] at hrest
          exact .here he (ih.executeAll hs' ha' (Frames.ready_behind hr first) hrest)

theorem loop_aligned {condition : Expr} {body : Stmt} {inFunction : Bool} (hs : c.Sane recorded)
    (ha : c.At frames) (hr : Frames.Ready frames)
    (hcond : condition.Linked recorded frames.scopes) (hp : body.plain = true)
    (hbody : body.Linked recorded inFunction frames.scopes) :
    Stays recorded (Traced.loop (n + 1) frames condition body none) c (· = c.machine.current)
      fun k c' => k.value.Fits recorded c' ∧ c'.At frames := by
  refine ((ih.evaluate hs ha (Frames.ready_tail hr) hcond).keeping ha).bind
    fun v c₁ hs₁ he₁ ⟨_, ha₁⟩ => ?_
  by_cases hv : v.truthy = true
  · rw [if_pos hv]
    refine .here he₁ ((ih.execute hs₁ ha₁ hr hbody).bind fun k c₂ hs₂ he₂ ⟨hk, ha₂⟩ => ?_)
    rw [Frames.behind_of_plain hp] at ha₂
    cases k with
    | returned value => exact .pure hs₂ ⟨hk, ha₂⟩
    | normal => exact .here he₂ (ih.loop hs₂ ha₂ hr hcond hp hbody)
  · rw [if_neg hv]
    exact .pure hs₁ ⟨trivial, ha₁⟩

end Steps

theorem aligned (recorded : Recorded) (n : Nat) : Aligned recorded n := by
  induction n with
  | zero =>
      refine ⟨?_, ?_, ?_, ?_, ?_, ?_⟩
      all_goals intros; exact .exhausted ‹_›
  | succ n ih =>
      exact ⟨evaluate_aligned ih, evaluateAll_aligned ih, call_aligned ih, execute_aligned ih,
        executeAll_aligned ih, loop_aligned ih⟩

/-- A program stands in no block and no call. -/
theorem program_aligned {recorded : Recorded} {c : Chronicle} (n : Nat) {body : List Stmt}
    (hs : c.Sane recorded) (ha : c.At []) (hl : Stmt.LinkedAll recorded false [] body) :
    Stays recorded (Traced.program n body) c (· = c.machine.current) fun _ _ => True := by
  induction body generalizing c with
  | nil => exact .pure hs trivial
  | cons first rest ih =>
      have hready : Frames.Ready [] := fun f hf => by cases hf
      refine ((aligned recorded n).execute hs ha hready hl.1).bind
        fun k c' hs' he ⟨_, ha'⟩ => ?_
      cases k with
      | returned value => exact .pure hs' trivial
      | normal =>
          have hbehind : (Frames.behind [] first) = [] := by cases first <;> rfl
          have hscopes : Scopes.behind [] first = [] := by cases first <;> rfl
          rw [hbehind] at ha'
          exact .here he (ih hs' ha' (hscopes ▸ hl.2))

end Lox
