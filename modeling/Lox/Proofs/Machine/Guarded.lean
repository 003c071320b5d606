import Lox.Proofs.Machine.Moments
import Lox.Proofs.Scoping.Steps

/-!
# What holds of every machine and every value

`Machine.Guarded` asks of an invariant of machines, and of a property of the values at hand,
that they hold over each of the few things a run can do, while the machines before and
behind stand in a relation that every run keeps. Of a function that is made it may be used
where that is, if something is known of the moments that are come to. Then they hold at every
moment of every run, of the machine, of the values that are held, and of what the run gives.
-/

namespace Lox

/-- An invariant of machines and a property of values hold over all that a run can do at the
moments that are come to. -/
structure Machine.Guarded (R : Machine → Machine → Prop) (I : Machine → Prop)
    (V : Machine → Value → Prop) (P : Moment → Prop) : Prop where
  kept : Kept R
  carry : ∀ {m m' v}, R m m' → V m v → V m' v
  /-- The scope in force does not matter to a value. -/
  moved : ∀ {m : Machine} {v} (scope : ScopeId), V m v → V { m with current := scope } v
  plain : ∀ {m} {v : Value}, v.Plain → V m v
  stored : ∀ {m scope name v}, I m → m.store.lookup? scope name = some v → V m v
  native : ∀ {m native arguments v}, I m → native ∈ m.natives → (∀ a ∈ arguments, V m a) →
    native.apply arguments = .ok v → V m v
  print : ∀ {m : Machine} {text}, I m → I { m with output := m.output ++ text }
  bind : ∀ {m : Machine} {scope name v}, I m → V m v →
    I { m with store := m.store.define scope name v }
  close : ∀ {m : Machine}, I m → I { m with functions := m.functions + 1 }
  closed : ∀ {m : Machine} {name params body held}, I m →
    P ⟨.execute (.function name params body), m, held⟩ →
    V { m with functions := m.functions + 1 }
      (.function m.functions ⟨name, params, body⟩ m.current)
  enterBlock : ∀ {m : Machine}, I m → I (m.entered m.current [])
  enterCall : ∀ {m : Machine} {serial declaration closure bindings}, I m →
    V m (.function serial declaration closure) → (∀ b ∈ bindings, V m b.2) →
    I (m.entered closure bindings)
  leave : ∀ {m m' : Machine}, I m → R m { m' with current := m.current } → I m' →
    I { m' with current := m.current }
  enters : ∀ {p q}, P p → Enters p q → P q

variable {α β : Type} {R : Machine → Machine → Prop} {I : Machine → Prop}
  {V : Machine → Value → Prop} {P : Moment → Prop}

/-- A value has its property in a new scope. -/
theorem Machine.Guarded.inside (h : Machine.Guarded R I V P) {m : Machine} {v : Value}
    (hv : V m v) (parent : ScopeId) (bindings : List (Token × Value)) :
    V (m.entered parent bindings) v :=
  have hback := h.kept.leave m parent bindings _ (h.kept.refl _)
  h.moved (m.entered parent bindings).current (h.carry hback hv)

namespace Run

/-- From this machine, if the invariant holds for it and the values have the property, the run
comes to one for which it holds, and gives values that have the property. -/
def Guards (R : Machine → Machine → Prop) (I : Machine → Prop) (V : Machine → Value → Prop)
    (m : Machine) (held : List Value) (r : Run α) (gives : α → List Value) : Prop :=
  ∀ result m', I m → (∀ v ∈ held, V m v) → r.run m = some (result, m') →
    R m m' ∧ I m' ∧ ∀ a, result = .ok a → ∀ v ∈ gives a, V m' v

section Rules

variable {m : Machine} {held : List Value} {gives : α → List Value} {gives' : β → List Value}

theorem Guards.exhausted : Guards R I V m held (exhausted : Run α) gives :=
  fun _ _ _ _ h => nomatch h

theorem Guards.mono {r : Run α} {held' : List Value} (h : Guards R I V m held r gives)
    (hheld : held ⊆ held') : Guards R I V m held' r gives :=
  fun result m' hm hv => h result m' hm fun v hmem => hv v (hheld hmem)

variable (hG : Machine.Guarded R I V P)
include hG

theorem Guards.pure {a : α} (h : gives a ⊆ held) : Guards R I V m held (pure a) gives := by
  intro result m' hm hv hrun
  cases hrun
  exact ⟨hG.kept.refl m, hm, fun b hb v hmem => hv v (h (Except.ok.inj hb ▸ hmem))⟩

/-- A run that leaves the machine as it is. -/
theorem Guards.of_asks {r : Run α} {Q : α → Prop} (h : r.Asks m Q)
    (hQ : ∀ a, I m → (∀ v ∈ held, V m v) → Q a → ∀ v ∈ gives a, V m v) :
    Guards R I V m held r gives := by
  intro result m' hm hv hrun
  rcases h with ⟨a, ha, hQa⟩ | ⟨fault, hf⟩
  · obtain ⟨rfl, rfl⟩ := Prod.mk.inj (Option.some.inj (ha.symm.trans hrun))
    exact ⟨hG.kept.refl m, hm, fun b hb => Except.ok.inj hb ▸ hQ a hm hv hQa⟩
  · obtain ⟨rfl, rfl⟩ := Prod.mk.inj (Option.some.inj (hf.symm.trans hrun))
    exact ⟨hG.kept.refl m, hm, fun _ hb => nomatch hb⟩

theorem Guards.plain {r : Run Value} (h : r.Asks m Value.Plain) :
    Guards R I V m held r ([·]) :=
  .of_asks hG h fun _ _ _ hv _ hmem => hG.plain (List.mem_singleton.mp hmem ▸ hv)

theorem Guards.fail (cause : Machine.Cause) (token : Token) :
    Guards R I V m held (fail cause token : Run α) gives :=
  .of_asks hG (Q := fun _ => False) (.fail cause token) fun _ _ _ h => h.elim

/-- The values that the first run gives are held through the second. -/
theorem Guards.bind {r : Run α} {f : α → Run β} (hr : Guards R I V m held r gives)
    (hf : ∀ a m₁, r.run m = some (.ok a, m₁) →
      Guards R I V m₁ (gives a ++ held) (f a) gives') :
    Guards R I V m held (r >>= f) gives' := by
  intro result m' hm hv hrun
  rw [run_bind] at hrun
  rcases hs : r.run m with _ | ⟨fault | a, m₁⟩ <;> rw [hs] at hrun
  · cases hrun
  · cases hrun
    obtain ⟨hR, hI, -⟩ := hr _ _ hm hv hs
    exact ⟨hR, hI, fun _ h => nomatch h⟩
  · obtain ⟨hR, hI, hgives⟩ := hr _ _ hm hv hs
    have hheld : ∀ v ∈ gives a ++ held, V m₁ v := fun v hmem =>
      (List.mem_append.mp hmem).elim (hgives a rfl v) fun h => hG.carry hR (hv v h)
    obtain ⟨hR', hI', hgives'⟩ := hf a m₁ hs result m' hI hheld hrun
    exact ⟨hG.kept.trans hR hR', hI', hgives'⟩

theorem Guards.print (value : Value) : Guards R I V m held (print value) fun _ => [] := by
  intro result m' hm hv hrun
  have hkeeps := Keeps.print hG.kept value m result m' hrun
  cases hrun
  refine ⟨hkeeps, ?_, fun _ _ _ h => nomatch h⟩
  have hI : I { m with output := m.output ++ (value.text ++ "\n") } := hG.print hm
  rwa [← String.append_assoc] at hI

theorem Guards.define (name : Token) {value : Value} (h : value ∈ held) :
    Guards R I V m held (define name value) fun _ => [] := by
  intro result m' hm hv hrun
  have hkeeps := Keeps.define hG.kept name value m result m' hrun
  cases hrun
  exact ⟨hkeeps, hG.bind hm (hv value h), fun _ _ _ h => nomatch h⟩

theorem Guards.close {name : Token} {params : List Token} {body : List Stmt}
    {around : List Value} (hp : P ⟨.execute (.function name params body), m, around⟩) :
    Guards R I V m held (close ⟨name, params, body⟩) ([·]) := by
  intro result m' hm hv hrun
  have hkeeps := Keeps.close hG.kept _ m result m' hrun
  cases hrun
  refine ⟨hkeeps, hG.close hm, fun a ha v hmem => ?_⟩
  rw [List.mem_singleton.mp hmem, ← Except.ok.inj ha]
  exact hG.closed hm hp

theorem Guards.readVariable (id : NodeId) (name : Token) :
    Guards R I V m held (readVariable id name) ([·]) := by
  refine .of_asks hG (readVariable_asks id name m) fun v hm _ hstored w hmem => ?_
  obtain ⟨scope, hlookup⟩ := hstored
  exact hG.stored hm (List.mem_singleton.mp hmem ▸ hlookup)

theorem Guards.writeVariable (id : NodeId) (name : Token) {value : Value} (h : value ∈ held) :
    Guards R I V m held (writeVariable id name value) fun _ => [] := by
  intro result m' hm hv hrun
  have hkeeps := Keeps.writeVariable hG.kept id name value m result m' hrun
  rw [run_writeVariable] at hrun
  split at hrun
  · cases hrun
    exact ⟨hkeeps, hG.bind hm (hv value h), fun _ _ _ h => nomatch h⟩
  · cases hrun
    exact ⟨hkeeps, hm, fun _ h => nomatch h⟩

/-- What a run in a new scope comes to, it comes to behind the scope. -/
theorem Guards.of_entered {parent : ScopeId} {bindings : List (Token × Value)} {body : Run α}
    (hbody : Guards R I V (m.entered parent bindings) held body gives) {m' : Machine}
    {result : Except Machine.Fault α} (hm : I m) (hentered : I (m.entered parent bindings))
    (hv : ∀ v ∈ held, V m v)
    (hrun : (enterScope parent bindings >>= fun s => within s body).run m = some (result, m')) :
    R m m' ∧ I m' ∧ ∀ a, result = .ok a → ∀ v ∈ gives a, V m' v := by
  rw [run_entering] at hrun
  obtain ⟨⟨result₁, m₁⟩, hbodyRun, ho⟩ := Option.map_eq_some_iff.mp hrun
  cases ho
  have hinside : ∀ v ∈ held, V (m.entered parent bindings) v := fun v hmem =>
    hG.inside (hv v hmem) parent bindings
  obtain ⟨hR, hI, hgives⟩ := hbody _ _ hentered hinside hbodyRun
  have hback := hG.kept.leave m parent bindings m₁ hR
  exact ⟨hback, hG.leave hm hback hI, fun a ha v hmem => hG.moved _ (hgives a ha v hmem)⟩

theorem Guards.enteringBlock {body : Run α}
    (hbody : Guards R I V (m.entered m.current []) held body gives) :
    Guards R I V m held (enterBlock >>= fun s => within s body) gives := by
  intro result m' hm hv hrun
  rw [run_enteringBlock, ← run_entering] at hrun
  exact hbody.of_entered hG hm (hG.enterBlock hm) hv hrun

theorem Guards.enteringCall {serial : Nat} {declaration : Declaration} {closure : ScopeId}
    {arguments : List Value} {body : Run α}
    (hcallee : .function serial declaration closure ∈ held) (harguments : arguments ⊆ held)
    (hbody : Guards R I V (m.entered closure (declaration.params.zip arguments)) held body gives) :
    Guards R I V m held (enterScope closure (declaration.params.zip arguments) >>= fun s =>
      within s body) gives := by
  intro result m' hm hv hrun
  have hbindings : ∀ b ∈ declaration.params.zip arguments, V m b.2 := fun b hb =>
    hv b.2 (harguments (List.of_mem_zip hb).2)
  exact hbody.of_entered hG hm (hG.enterCall hm (hv _ hcallee) hbindings) hv hrun

/-- A question first. -/
theorem Guards.asking {r : Run α} {f : α → Run β} {Q : α → Prop} (hr : r.Asks m Q)
    (hf : ∀ a, Q a → Guards R I V m held (f a) gives') : Guards R I V m held (r >>= f) gives' := by
  intro result m' hm hv hrun
  rw [run_bind] at hrun
  rcases hr with ⟨a, ha, hQ⟩ | ⟨fault, hfault⟩
  · rw [ha] at hrun
    exact hf a hQ result m' hm hv hrun
  · rw [hfault] at hrun
    cases hrun
    exact ⟨hG.kept.refl m, hm, fun _ h => nomatch h⟩

theorem Guards.applyNative (serial : Nat) {arguments : List Value} (paren : Token)
    (h : arguments ⊆ held) : Guards R I V m held (applyNative serial arguments paren) ([·]) := by
  refine .of_asks hG (applyNative_asks serial arguments paren m) fun v hm hv hnative w hmem => ?_
  obtain ⟨native, hn, happly⟩ := hnative
  rw [List.mem_singleton.mp hmem]
  exact hG.native hm hn (fun a ha => hv a (h ha)) happly

end Rules

/-! ## Rule by rule -/

/-- With so much fuel every rule guards the values it is given and the values it gives, at the
moments that are come to. -/
structure Guarding (R : Machine → Machine → Prop) (I : Machine → Prop) (V : Machine → Value → Prop)
    (P : Moment → Prop) (n : Nat) : Prop where
  evaluate : ∀ {e m held}, P ⟨.evaluate e, m, held⟩ → Guards R I V m [] (evaluate n e) ([·])
  evaluateAll : ∀ {es m held}, P ⟨.evaluateAll es, m, held⟩ →
    Guards R I V m [] (evaluateAll n es) id
  call : ∀ {callee paren arguments m held}, P ⟨.call callee paren arguments, m, held⟩ →
    Guards R I V m (callee :: arguments) (call n callee paren arguments) ([·])
  execute : ∀ {s m held}, P ⟨.execute s, m, held⟩ →
    Guards R I V m [] (execute n s) Completion.values
  executeAll : ∀ {body m held}, P ⟨.executeAll body, m, held⟩ →
    Guards R I V m [] (executeAll n body) Completion.values
  loop : ∀ {condition body increment m held}, P ⟨.loop condition body increment, m, held⟩ →
    Guards R I V m [] (loop n condition body increment) Completion.values

section Steps

variable (hG : Machine.Guarded R I V P) {n : Nat} (ih : Guarding R I V P n) {m : Machine}
  {held : List Value}
include hG ih

theorem evaluate_guards {e : Expr} (hp : P ⟨.evaluate e, m, held⟩) :
    Guards R I V m [] (evaluate (n + 1) e) ([·]) := by
  cases e with
  | literal value => exact .plain hG (.pure value.plain_value)
  | group inner => exact ih.evaluate (hG.enters hp .group)
  | unary operator operand =>
      exact (ih.evaluate (hG.enters hp .operand)).bind hG fun a m₁ _ =>
        .plain hG (applyUnary_plain operator a m₁)
  | binary left operator right =>
      refine (ih.evaluate (hG.enters hp .left)).bind hG fun a m₁ ha => ?_
      have hright := ih.evaluate (hG.enters hp (.right ⟨n, ha⟩))
      exact (hright.mono (List.nil_subset _)).bind hG fun b m₂ _ =>
        .plain hG (applyBinary_plain operator a b m₂)
  | logical left operator right =>
      refine (ih.evaluate (hG.enters hp .deciding)).bind hG fun a m₁ ha => ?_
      split
      · exact .pure hG (List.subset_append_left _ _)
      · rename_i hd
        have hright := hG.enters hp (.undecided ⟨n, ha⟩ (Bool.eq_false_iff.mpr hd))
        exact (ih.evaluate hright).mono (List.nil_subset _)
  | «variable» id name => exact .readVariable hG id name
  | assign id name value =>
      refine (ih.evaluate (hG.enters hp .assigned)).bind hG fun a m₁ _ => ?_
      refine (Guards.writeVariable hG id name List.mem_cons_self).bind hG fun _ _ _ => ?_
      exact .pure hG (List.subset_append_left _ _)
  | call callee paren arguments =>
      refine (ih.evaluate (hG.enters hp .callee)).bind hG fun f m₁ hf => ?_
      have harguments := ih.evaluateAll (hG.enters hp (.arguments ⟨n, hf⟩))
      refine (harguments.mono (List.nil_subset _)).bind hG fun values m₂ hvalues => ?_
      have hcall := ih.call (hG.enters hp (.call ⟨n, hf⟩ ⟨n, hvalues⟩))
      refine hcall.mono (List.cons_subset.mpr ⟨?_, ?_⟩)
      · exact List.mem_append_right _ List.mem_cons_self
      · exact List.subset_append_left _ _

theorem evaluateAll_guards {es : List Expr} (hp : P ⟨.evaluateAll es, m, held⟩) :
    Guards R I V m [] (evaluateAll (n + 1) es) id := by
  cases es with
  | nil => exact .pure hG (List.Subset.refl _)
  | cons first rest =>
      refine (ih.evaluate (hG.enters hp .firstArgument)).bind hG fun a m₁ ha => ?_
      have hrest := ih.evaluateAll (hG.enters hp (.moreArguments ⟨n, ha⟩))
      refine (hrest.mono (List.nil_subset _)).bind hG fun values _ _ => ?_
      refine .pure hG (List.cons_subset.mpr ⟨?_, List.subset_append_left _ _⟩)
      exact List.mem_append_right _ List.mem_cons_self

theorem call_guards {callee : Value} {paren : Token} {arguments : List Value}
    (hp : P ⟨.call callee paren arguments, m, held⟩) :
    Guards R I V m (callee :: arguments) (call (n + 1) callee paren arguments) ([·]) := by
  cases callee with
  | function serial declaration closure =>
      refine Guards.asking hG (checkArity_asks _ _ paren m) fun _ harity => ?_
      have hinside := ih.executeAll (hG.enters hp (.callBody harity))
      have hbody := (hinside.mono (List.nil_subset _)).enteringCall hG
        (List.mem_cons_self (a := .function serial declaration closure) (l := arguments))
        (List.subset_cons_self _ _)
      suffices hcall : Guards R I V m (.function serial declaration closure :: arguments)
          ((enterScope closure (declaration.params.zip arguments) >>= fun s =>
            within s (executeAll n declaration.body)) >>= fun completion =>
              Pure.pure completion.value) ([·]) by
        rwa [bind_assoc] at hcall
      refine hbody.bind hG fun completion _ _ => ?_
      cases completion with
      | normal => exact .plain hG (.pure rfl)
      | returned value => exact .pure hG (List.subset_append_left _ _)
  | native serial name arity =>
      exact .asking hG (checkArity_asks _ _ paren m) fun _ _ =>
        .applyNative hG _ _ (List.subset_cons_self _ _)
  | _ => exact .fail hG _ _

theorem execute_guards {s : Stmt} (hp : P ⟨.execute s, m, held⟩) :
    Guards R I V m [] (execute (n + 1) s) Completion.values := by
  have hnormal (m : Machine) (held : List Value) :
      Guards R I V m held (Pure.pure Completion.normal) Completion.values :=
    .pure hG (List.nil_subset _)
  have hnil : Guards R I V m [] (Pure.pure Value.nil) ([·]) := .plain hG (.pure rfl)
  cases s with
  | expression value =>
      exact (ih.evaluate (hG.enters hp .value)).bind hG fun _ _ _ => hnormal _ _
  | print value =>
      exact (ih.evaluate (hG.enters hp .printed)).bind hG fun _ _ _ =>
        (Guards.print hG _).bind hG fun _ _ _ => hnormal _ _
  | var name initializer =>
      cases initializer with
      | none =>
          exact hnil.bind hG (f := fun value => Run.define name value >>= fun _ =>
            Pure.pure Completion.normal) fun _ _ _ =>
              (Guards.define hG name List.mem_cons_self).bind hG fun _ _ _ => hnormal _ _
      | some initializer =>
          exact (ih.evaluate (hG.enters hp .initialValue)).bind hG fun _ _ _ =>
            (Guards.define hG name List.mem_cons_self).bind hG fun _ _ _ => hnormal _ _
  | block body => exact .enteringBlock hG (ih.executeAll (hG.enters hp (.within .block)))
  | ifThen condition thenBranch elseBranch =>
      refine (ih.evaluate (hG.enters hp .condition)).bind hG fun value m₁ hv => ?_
      split
      · rename_i ht
        have hthen := hG.enters hp (.within (.thenBranch ⟨n, hv⟩ ht))
        exact (ih.execute hthen).mono (List.nil_subset _)
      · rename_i ht
        cases elseBranch with
        | none => exact hnormal _ _
        | some s =>
            have helse := hG.enters hp
              (.within (.elseBranch ⟨n, hv⟩ (Bool.eq_false_iff.mpr ht)))
            exact (ih.execute helse).mono (List.nil_subset _)
  | whileLoop condition body => exact ih.loop (hG.enters hp (.within .whileLoop))
  | forLoop initializer condition increment body =>
      cases initializer with
      | none => exact ih.loop (hG.enters hp (.within .forLoop))
      | some initializer =>
          have hfirst := ih.execute (hG.enters hp (.within .initializer))
          refine .enteringBlock hG (hfirst.bind hG fun completion m₁ hs => ?_)
          cases completion with
          | returned value => exact .pure hG (List.subset_append_left _ _)
          | normal =>
              have hloop := hG.enters hp (.within (.initialized ⟨n, hs⟩))
              exact (ih.loop hloop).mono (List.nil_subset _)
  | function name params body =>
      exact (Guards.close hG hp).bind hG fun _ _ _ =>
        (Guards.define hG name List.mem_cons_self).bind hG fun _ _ _ => hnormal _ _
  | ret keyword value =>
      cases value with
      | none =>
          exact hnil.bind hG (f := fun value => Pure.pure (Completion.returned value))
            fun _ _ _ => .pure hG (List.subset_append_left _ _)
      | some value =>
          exact (ih.evaluate (hG.enters hp .returned)).bind hG fun _ _ _ =>
            .pure hG (List.subset_append_left _ _)

theorem executeAll_guards {body : List Stmt} (hp : P ⟨.executeAll body, m, held⟩) :
    Guards R I V m [] (executeAll (n + 1) body) Completion.values := by
  cases body with
  | nil => exact .pure hG (List.nil_subset _)
  | cons first rest =>
      refine (ih.execute (hG.enters hp (.within .first))).bind hG fun completion m₁ hs => ?_
      cases completion with
      | returned value => exact .pure hG (List.subset_append_left _ _)
      | normal =>
          have hrest := hG.enters hp (.within (.rest ⟨n, hs⟩))
          exact (ih.executeAll hrest).mono (List.nil_subset _)

theorem loop_guards {condition : Expr} {body : Stmt} {increment : Option Expr}
    (hp : P ⟨.loop condition body increment, m, held⟩) :
    Guards R I V m [] (loop (n + 1) condition body increment) Completion.values := by
  refine (ih.evaluate (hG.enters hp .loopCondition)).bind hG fun value m₁ hv => ?_
  split
  · rename_i ht
    have hround := ih.execute (hG.enters hp (.within (.body ⟨n, hv⟩ ht)))
    refine (hround.mono (List.nil_subset _)).bind hG fun completion m₂ hs => ?_
    cases completion with
    | returned value => exact .pure hG (List.subset_append_left _ _)
    | normal =>
        cases increment with
        | none =>
            have hagain := hG.enters hp (.within (.again ⟨n, hv⟩ ht ⟨n, hs⟩ rfl))
            exact (ih.loop hagain).mono (List.nil_subset _)
        | some step =>
            have hstep := ih.evaluate (hG.enters hp (.increment ⟨n, hv⟩ ht ⟨n, hs⟩))
            refine (hstep.mono (List.nil_subset _)).bind hG fun a m₃ ha => ?_
            have hagain := hG.enters hp (.within (.again ⟨n, hv⟩ ht ⟨n, hs⟩ ⟨a, n, ha⟩))
            exact (ih.loop hagain).mono (List.nil_subset _)
  · exact .pure hG (List.nil_subset _)

end Steps

theorem guarding (hG : Machine.Guarded R I V P) (n : Nat) : Guarding R I V P n := by
  induction n with
  | zero =>
      exact ⟨fun _ => .exhausted, fun _ => .exhausted, fun _ => .exhausted,
        fun _ => .exhausted, fun _ => .exhausted, fun _ => .exhausted⟩
  | succ n ih =>
      exact ⟨evaluate_guards hG ih, evaluateAll_guards hG ih, call_guards hG ih,
        execute_guards hG ih, executeAll_guards hG ih, loop_guards hG ih⟩

end Run

/-! ## Moment by moment -/

/-- The invariant holds of the machine, and all the values at hand have the property. -/
structure Moment.Holds (I : Machine → Prop) (V : Machine → Value → Prop) (p : Moment) : Prop where
  machine : I p.machine
  values : ∀ v ∈ p.values, V p.machine v

section Moments

variable (hG : Machine.Guarded R I V P)
include hG

theorem Job.Ends.guards {t : Job} {m m' : Machine} {result : Except Machine.Fault t.Result}
    (h : t.Ends m result m') (held : List Value) (hP : P ⟨t, m, held⟩) (hm : I m)
    (hv : ∀ v ∈ t.values, V m v) : I m' ∧ ∀ a, result = .ok a → ∀ v ∈ t.gives a, V m' v := by
  obtain ⟨n, hn⟩ := h
  have hrun : Run.Guards R I V m t.values (t.run n) t.gives := by
    have hguarding := Run.guarding hG n
    cases t with
    | evaluate => exact hguarding.evaluate hP
    | evaluateAll => exact hguarding.evaluateAll hP
    | call => exact hguarding.call hP
    | execute => exact hguarding.execute hP
    | executeAll => exact hguarding.executeAll hP
    | loop => exact hguarding.loop hP
  exact (hrun result m' hm hv hn).2

namespace Moment

variable {t t' : Job} {m m' : Machine} {held held' : List Value}

/-- What is at hand behind a job is what it gives and what was at hand before. -/
theorem Holds.behind {result : Except Machine.Fault t.Result} (hp : Holds I V ⟨t, m, held⟩)
    (h : t.Ends m result m') (hP : P ⟨t, m, held⟩ := by trivial) :
    I m' ∧ (∀ v ∈ t.values ++ held, V m' v) ∧
      ∀ a, result = .ok a → ∀ v ∈ t.gives a, V m' v := by
  have hv : ∀ v ∈ t.values, V m v := fun v hmem => hp.values v (List.mem_append_left _ hmem)
  obtain ⟨hI, hgives⟩ := h.guards hG held hP hp.machine hv
  exact ⟨hI, fun v hmem => hG.carry (h.keeps hG.kept) (hp.values v hmem), hgives⟩

theorem Holds.next {a : t.Result} (hp : Holds I V ⟨t, m, held⟩) (hP : P ⟨t, m, held⟩)
    (h : t.Gives m a m') (hsub : t'.values ++ held' ⊆ t.gives a ++ (t.values ++ held)) :
    Holds I V ⟨t', m', held'⟩ := by
  obtain ⟨hI, hheld, hgives⟩ := hp.behind hG h hP
  exact ⟨hI, fun v hmem => (List.mem_append.mp (hsub hmem)).elim (hgives a rfl v) (hheld v)⟩

theorem Holds.stepped {increment : Option Expr} (hp : Holds I V ⟨t, m, held⟩)
    (hP : ∀ step, increment = some step → P ⟨.evaluate step, m, held⟩)
    (h : Stepped increment m m') (hsub : t'.values ++ held' ⊆ held) :
    Holds I V ⟨t', m', held'⟩ := by
  have hheld : held ⊆ t.values ++ held := List.subset_append_right _ _
  cases increment with
  | none =>
      cases (h : m' = m)
      exact ⟨hp.machine, fun v hmem => hp.values v (hheld (hsub hmem))⟩
  | some step =>
      obtain ⟨value, hvalue⟩ := h
      have hstep : Holds I V ⟨.evaluate step, m, held⟩ :=
        ⟨hp.machine, fun v hmem => hp.values v (hheld hmem)⟩
      exact hstep.next hG (hP step rfl) hvalue fun v hmem => List.mem_cons_of_mem _ (hsub hmem)

theorem Holds.within {p q : Moment} (hp : p.Holds I V) (hP : P p) (h : Within p q) :
    q.Holds I V := by
  cases h with
  | first | whileLoop | forLoop => exact ⟨hp.machine, hp.values⟩
  | @rest s rest m m' held hfirst =>
      have hs : Holds I V ⟨.execute s, m, held⟩ := ⟨hp.machine, hp.values⟩
      exact hs.next hG (hG.enters hP (.within .first)) hfirst (List.Subset.refl _)
  | block => exact ⟨hG.enterBlock hp.machine, fun v hmem => hG.inside (hp.values v hmem) _ _⟩
  | @thenBranch condition _ _ _ m _ held hcondition _
  | @elseBranch condition _ _ _ m _ held hcondition _ =>
      have hc : Holds I V ⟨.evaluate condition, m, held⟩ := ⟨hp.machine, hp.values⟩
      exact hc.next hG (hG.enters hP .condition) hcondition (List.subset_cons_self _ _)
  | @body condition _ _ _ m _ held hcondition _ =>
      have hc : Holds I V ⟨.evaluate condition, m, held⟩ := ⟨hp.machine, hp.values⟩
      exact hc.next hG (hG.enters hP .loopCondition) hcondition (List.subset_cons_self _ _)
  | initializer => exact ⟨hG.enterBlock hp.machine, fun v hmem => hG.inside (hp.values v hmem) _ _⟩
  | @initialized s _ _ _ m _ held hs =>
      have hi : Holds I V ⟨.execute s, m.entered m.current [], held⟩ :=
        ⟨hG.enterBlock hp.machine, fun v hmem => hG.inside (hp.values v hmem) _ _⟩
      exact hi.next hG (hG.enters hP (.within .initializer)) hs (List.Subset.refl _)
  | @again condition body increment value m m₁ m₂ m' held hcondition ht hbody hstep =>
      have hc : Holds I V ⟨.evaluate condition, m, held⟩ := ⟨hp.machine, hp.values⟩
      have hb : Holds I V ⟨.execute body, m₁, held⟩ :=
        hc.next hG (hG.enters hP .loopCondition) hcondition (List.subset_cons_self _ _)
      have hl : Holds I V ⟨.loop condition body increment, m₂, held⟩ :=
        hb.next hG (hG.enters hP (.within (.body hcondition ht))) hbody (List.Subset.refl _)
      refine hl.stepped hG (fun step hsome => ?_) hstep (List.Subset.refl _)
      subst hsome
      exact hG.enters hP (.increment hcondition ht hbody)

/-- What holds at a moment holds at the next. -/
theorem Holds.enters {p q : Moment} (hp : p.Holds I V) (h : Enters p q)
    (hP : P p := by trivial) : q.Holds I V := by
  cases h with
  | within h => exact hp.within hG hP h
  | group | operand | left | deciding | assigned | callee | firstArgument | value | printed
  | initialValue | condition | loopCondition | returned => exact ⟨hp.machine, hp.values⟩
  | @right left _ _ _ m _ held hleft =>
      have hl : Holds I V ⟨.evaluate left, m, held⟩ := ⟨hp.machine, hp.values⟩
      exact hl.next hG (hG.enters hP .left) hleft (List.Subset.refl _)
  | @undecided left _ _ _ m _ held hleft _ =>
      have hl : Holds I V ⟨.evaluate left, m, held⟩ := ⟨hp.machine, hp.values⟩
      exact hl.next hG (hG.enters hP .deciding) hleft (List.subset_cons_self _ _)
  | @arguments e _ _ _ m _ held hcallee =>
      have hc : Holds I V ⟨.evaluate e, m, held⟩ := ⟨hp.machine, hp.values⟩
      exact hc.next hG (hG.enters hP .callee) hcallee (List.Subset.refl _)
  | @call e _ es callee arguments m m₁ m' held hcallee harguments =>
      have hc : Holds I V ⟨.evaluate e, m, held⟩ := ⟨hp.machine, hp.values⟩
      have ha : Holds I V ⟨.evaluateAll es, m₁, callee :: held⟩ :=
        hc.next hG (hG.enters hP .callee) hcallee (List.Subset.refl _)
      refine ha.next hG (hG.enters hP (.arguments hcallee)) harguments fun v hmem => ?_
      simp only [Job.values, Job.gives, List.mem_append, List.mem_cons] at hmem ⊢
      grind
  | @moreArguments e _ _ m _ held hfirst =>
      have hf : Holds I V ⟨.evaluate e, m, held⟩ := ⟨hp.machine, hp.values⟩
      exact hf.next hG (hG.enters hP .firstArgument) hfirst (List.Subset.refl _)
  | @callBody serial declaration closure _ arguments m held _ =>
      have hcallee : V m (.function serial declaration closure) :=
        hp.values _ List.mem_cons_self
      refine ⟨hG.enterCall hp.machine hcallee fun b hb => ?_, fun v hmem => ?_⟩
      · have harg := (List.of_mem_zip hb).2
        exact hp.values b.2 (List.mem_cons_of_mem _ (List.mem_append_left _ harg))
      · refine hG.inside ?_ _ _
        rcases List.mem_cons.mp hmem with rfl | hmem
        · exact hcallee
        · exact hp.values v (List.mem_append_right _ hmem)
  | @increment condition step body _ m m₁ m' held hcondition ht hbody =>
      have hc : Holds I V ⟨.evaluate condition, m, held⟩ := ⟨hp.machine, hp.values⟩
      have hb : Holds I V ⟨.execute body, m₁, held⟩ :=
        hc.next hG (hG.enters hP .loopCondition) hcondition (List.subset_cons_self _ _)
      exact hb.next hG (hG.enters hP (.within (.body hcondition ht))) hbody (List.Subset.refl _)

end Moment

end Moments

/-! ## Properties of what is stored -/

/-- All values that are stored have the property, and the native functions have theirs. -/
structure Machine.Stores (K : Value → Prop) (N : Native → Prop) (m : Machine) : Prop where
  stored : ∀ scope name v, m.store.lookup? scope name = some v → K v
  natives : ∀ native ∈ m.natives, N native

namespace Machine

variable {K : Value → Prop} {N : Native → Prop} {m m' : Machine}

theorem store_entered (m : Machine) (parent : ScopeId) (bindings : List (Token × Value)) :
    (m.entered parent bindings).store =
      (m.store.push (some parent)).2.defineAll m.store.size bindings := rfl

/-- What is stored in a new scope and around it was stored before or has just been bound. -/
theorem mem_of_lookup?_entered {m : Machine} {parent : ScopeId} {bindings : List (Token × Value)}
    {s : ScopeId} {name : String} {v : Value}
    (h : (m.entered parent bindings).store.lookup? s name = some v) :
    m.store.lookup? s name = some v ∨ ∃ b ∈ bindings, b.2 = v := by
  rw [store_entered] at h
  refine (Store.mem_of_lookup?_defineAll _ _ h).imp_left fun hold => ?_
  rwa [Store.lookup?_push] at hold

/-- What a native function is known as behind its registration. -/
theorem eq_of_registered {native : Native} {v : Value}
    (h : (m.register native).store.lookup? m.globals native.name = some v) :
    v = .native m.natives.size native.name native.arity := by
  rw [register, Store.lookup?_define] at h
  split at h
  · exact (Option.some.inj h).symm
  · rename_i hne
    exact absurd ⟨rfl, rfl, Store.lt_of_lookup? h⟩ hne

/-- Only what is stored matters, and the native functions. -/
theorem Stores.congr (h : m.Stores K N) (hs : m'.store = m.store) (hn : m'.natives = m.natives) :
    m'.Stores K N :=
  ⟨fun scope name v hv => h.stored scope name v (hs ▸ hv), fun native hmem =>
    h.natives native (hn ▸ hmem)⟩

theorem Stores.define (h : m.Stores K N) (scope : ScopeId) (name : String) {v : Value}
    (hv : K v) : Stores K N { m with store := m.store.define scope name v } := by
  refine ⟨fun s n w hw => ?_, h.natives⟩
  rcases Store.eq_of_lookup?_define hw with hold | rfl
  · exact h.stored s n w hold
  · exact hv

theorem Stores.entered (h : m.Stores K N) (parent : ScopeId) {bindings : List (Token × Value)}
    (hb : ∀ b ∈ bindings, K b.2) : (m.entered parent bindings).Stores K N := by
  refine ⟨fun s n w hw => ?_, h.natives⟩
  rcases mem_of_lookup?_entered hw with hold | ⟨b, hmem, rfl⟩
  · exact h.stored s n w hold
  · exact hb b hmem

theorem stores_bare : bare.Stores K N := by
  refine ⟨fun scope name v hv => ?_, fun native h => absurd h (Array.not_mem_empty native)⟩
  have hnone : bare.store.lookup? scope name = none :=
    (Store.lookup?_push Store.empty none scope name).trans rfl
  rw [hnone] at hv
  cases hv

theorem Stores.register (h : m.Stores K N) {native : Native} (hn : N native)
    (hv : ∀ v, (m.register native).store.lookup? m.globals native.name = some v → K v) :
    (m.register native).Stores K N := by
  refine ⟨fun scope name w hw => ?_, fun other ho => ?_⟩
  · by_cases hsame : scope = m.globals ∧ name = native.name
    · obtain ⟨rfl, rfl⟩ := hsame
      exact hv w hw
    · rw [Machine.register, Store.lookup?_define, if_neg fun hc => hsame ⟨hc.1, hc.2.1⟩] at hw
      exact h.stored scope name w hw
  · rcases Array.mem_push.mp ho with ho | rfl
    · exact h.natives other ho
    · exact hn

/-- If all functions that are made at the moments that are come to have a property, and none are
made up by native functions without it, then it is a property of all values there are. -/
theorem guarded_stores (hplain : ∀ v : Value, v.Plain → K v)
    (hnative : ∀ native arguments v, N native → (∀ a ∈ arguments, K a) →
      native.apply arguments = .ok v → K v)
    (hclosed : ∀ m name params body held, P ⟨.execute (.function name params body), m, held⟩ →
      K (.function m.functions ⟨name, params, body⟩ m.current))
    (henters : ∀ {p q}, P p → Enters p q → P q) :
    Guarded (fun _ _ => True) (Stores K N) (fun _ => K) P where
  kept := ⟨fun _ => trivial, fun _ _ => trivial, fun _ _ => trivial, fun _ _ _ => trivial,
    fun _ _ _ _ _ => trivial, fun _ => trivial, fun _ _ _ _ _ => trivial⟩
  carry _ hv := hv
  moved _ hv := hv
  plain h := hplain _ h
  stored h hv := h.stored _ _ _ hv
  native h hn hargs happly := hnative _ _ _ (h.natives _ hn) hargs happly
  print h := h.congr rfl rfl
  bind h hv := h.define _ _ hv
  close h := h.congr rfl rfl
  closed _ hp := hclosed _ _ _ _ _ hp
  enterBlock h := h.entered _ fun _ hb => nomatch hb
  enterCall h _ hb := h.entered _ hb
  leave _ _ h' := h'.congr rfl rfl
  enters := henters

end Machine

end Lox
