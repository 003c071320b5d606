import Lox.Proofs.Scoping.Erasure
import Lox.Proofs.Scoping.Invariant

/-!
# What the single steps keep up

One rule for each thing that a rule of evaluation does besides using other rules:
noting and reading or writing a variable, binding a name, making a function, entering
a block or a call. The rest of the machine asks questions and changes nothing.
-/

namespace Lox

open Binding

/-! ## Questions -/

/-- A run that leaves the machine alone, and what holds of what it gives. -/
def Run.Asks {α : Type} (r : Run α) (m : Machine) (P : α → Prop) : Prop :=
  (∃ a, r.run m = some (.ok a, m) ∧ P a) ∨ ∃ fault, r.run m = some (.error fault, m)

namespace Run.Asks

variable {α : Type} {m : Machine} {P : α → Prop}

theorem pure {a : α} (h : P a) : Asks (pure a) m P := .inl ⟨a, rfl, h⟩

theorem fail (cause : Machine.Cause) (token : Token) :
    Asks (Run.fail cause token : Run α) m P :=
  .inr ⟨_, rfl⟩

theorem mono {r : Run α} {Q : α → Prop} (h : r.Asks m P) (hPQ : ∀ a, P a → Q a) : r.Asks m Q :=
  h.imp_left fun ⟨a, ha, hP⟩ => ⟨a, ha, hPQ a hP⟩

end Run.Asks

/-- Is the value no function, be it declared or native? -/
def Value.Plain (v : Value) : Prop := v.signature? = none

/-- Is the value anything but a declared function? -/
def Value.Simple : Value → Prop
  | .function .. => False
  | _ => True

theorem Value.Plain.simple {v : Value} (h : v.Plain) : v.Simple := by
  cases v with
  | function => cases h
  | _ => trivial

theorem Value.Simple.fits {recorded : Recorded} {c : Chronicle} {v : Value} (h : v.Simple) :
    v.Fits recorded c := by
  cases v with
  | function => exact h.elim
  | _ => trivial

theorem Literal.plain_value (l : Literal) : l.value.Plain := by cases l <;> rfl

theorem Literal.simple_value (l : Literal) : l.value.Simple := l.plain_value.simple

theorem Run.applyUnary_plain (operator : Token) (operand : Value) (m : Machine) :
    Asks (applyUnary operator operand) m Value.Plain := by
  rw [applyUnary.eq_def]
  split
  · exact .pure rfl
  · exact .fail ..
  · exact .pure rfl
  · exact .fail ..

theorem Run.applyNumeric_plain (operator : Token) (a b : Float) (m : Machine) :
    Asks (applyNumeric operator a b) m Value.Plain := by
  rw [applyNumeric]
  split <;> first | exact .pure rfl | exact .fail ..

theorem Run.applyBinary_plain (operator : Token) (left right : Value) (m : Machine) :
    Asks (applyBinary operator left right) m Value.Plain := by
  rw [applyBinary.eq_def]
  split
  · exact .pure rfl
  · exact .pure rfl
  · exact .fail ..
  · exact .pure rfl
  · exact .pure rfl
  · exact applyNumeric_plain ..
  · exact .fail ..

theorem Run.applyUnary_asks (operator : Token) (operand : Value) (m : Machine) :
    Asks (applyUnary operator operand) m Value.Simple :=
  (applyUnary_plain operator operand m).mono fun _ => Value.Plain.simple

theorem Run.applyBinary_asks (operator : Token) (left right : Value) (m : Machine) :
    Asks (applyBinary operator left right) m Value.Simple :=
  (applyBinary_plain operator left right m).mono fun _ => Value.Plain.simple

theorem Run.checkArity_asks (expected given : Nat) (paren : Token) (m : Machine) :
    Asks (checkArity expected given paren) m fun _ => given = expected := by
  rw [checkArity]
  split
  · exact .pure ‹_›
  · exact .fail ..

theorem Run.readVariable_asks (id : NodeId) (name : Token) (m : Machine) :
    Asks (readVariable id name) m fun v => ∃ scope, m.store.lookup? scope name.lexeme = some v := by
  have hrun := run_readVariable id name m
  cases h : m.read? id name with
  | none =>
      rw [h] at hrun
      exact .inr ⟨_, hrun⟩
  | some v =>
      rw [h] at hrun
      exact .inl ⟨v, hrun, Machine.lookup?_of_read? h⟩

theorem Run.applyNative_asks (serial : Nat) (arguments : List Value) (paren : Token)
    (m : Machine) : Asks (applyNative serial arguments paren) m fun v =>
      ∃ native ∈ m.natives, native.apply arguments = .ok v := by
  cases hn : m.natives[serial]? with
  | none =>
      refine .inr ⟨⟨.notCallable, paren.line⟩, ?_⟩
      rw [applyNative, run_bind, run_get]
      simp only [hn]
      rfl
  | some native =>
      have hmem : native ∈ m.natives := Array.mem_of_getElem? hn
      cases ha : native.apply arguments with
      | ok v =>
          refine .inl ⟨v, ?_, native, hmem, ha⟩
          rw [applyNative, run_bind, run_get]
          simp only [hn, ha]
          rfl
      | error message =>
          refine .inr ⟨⟨.native message, paren.line⟩, ?_⟩
          rw [applyNative, run_bind, run_get]
          simp only [hn, ha]
          rfl

theorem Native.Honest.fits {native : Native} (h : native.Honest) {arguments : List Value}
    {v : Value} (hv : native.apply arguments = .ok v) {recorded : Recorded} {c : Chronicle}
    (ha : ∀ a ∈ arguments, a.Fits recorded c) : v.Fits recorded c := by
  cases v with
  | function serial declaration closure => exact ha _ (h arguments serial declaration closure hv)
  | _ => trivial

/-! ## Changes of the scopes -/

namespace Frames

theorem ready_tail {frames : Frames} (h : frames.Ready) : Ready frames.tail :=
  fun f hf => h f (List.mem_of_mem_tail hf)

/-- In the frames of a call the parameters are ready, and nothing else is there. -/
theorem call_eq (frames : Frames) (scope : ScopeId) (params : List Token) :
    ∃ names : Names, frames.call scope params = ⟨scope, names⟩ :: frames ∧
      ∀ n, names.lookup n = if n ∈ params.map Token.lexeme then some true else none := by
  have key : ∀ start : Names, ∃ names : Names,
      params.foldl introduce (⟨scope, start⟩ :: frames) = ⟨scope, names⟩ :: frames ∧
        ∀ n, names.lookup n =
          if n ∈ params.map Token.lexeme then some true else start.lookup n := by
    induction params with
    | nil => exact fun start => ⟨start, rfl, fun _ => rfl⟩
    | cons p params ih =>
        intro start
        obtain ⟨names, hf, hn⟩ := ih ((p.lexeme, true) :: (p.lexeme, false) :: start)
        refine ⟨names, hf, fun n => ?_⟩
        rw [hn, lookup_cons_name, lookup_cons_name, List.map_cons]
        by_cases hp : n = p.lexeme
        · rw [if_pos hp, if_pos (List.mem_cons.mpr (.inl hp))]
          split <;> rfl
        · rw [if_neg hp, if_neg hp]
          simp only [List.mem_cons, hp, false_or]
  exact key []

theorem ready_call {frames : Frames} (h : frames.Ready) (scope : ScopeId)
    (params : List Token) : (frames.call scope params).Ready := by
  obtain ⟨names, hf, hn⟩ := call_eq frames scope params
  rw [hf]
  intro f hf name
  rcases List.mem_cons.mp hf with rfl | hf
  · rw [hn]
    split <;> simp
  · exact h f hf name

theorem ready_introduce {frames : Frames} (h : frames.Ready) (name : Token) :
    (frames.introduce name).Ready := by
  cases frames with
  | nil => exact h
  | cons f outer =>
      intro g hg n
      rcases List.mem_cons.mp hg with rfl | hg
      · have hf := h f (List.mem_cons_self ..) n
        show List.lookup n ((name.lexeme, true) :: (name.lexeme, false) :: f.names) ≠ _
        rw [lookup_cons_name, lookup_cons_name]
        split
        · simp
        · exact hf
      · exact h g (List.mem_cons_of_mem _ hg) n

theorem ready_declare {frames : Frames} (h : frames.Ready) (name : Token) :
    Ready (frames.declare name).tail := by
  cases frames with
  | nil => exact h
  | cons f outer => exact fun g hg => h g (List.mem_cons_of_mem _ hg)

theorem behind_of_plain {s : Stmt} (h : s.plain = true) (frames : Frames) :
    frames.behind s = frames := by
  cases s with
  | var | function => cases h
  | _ => rfl

theorem ready_behind {frames : Frames} (h : frames.Ready) (s : Stmt) : (frames.behind s).Ready := by
  cases s with
  | var name | function name => exact ready_introduce h name
  | _ => exact h

end Frames

theorem Value.fits_moved {recorded : Recorded} (v : Value) (c : Chronicle) (scope : ScopeId) :
    v.Fits recorded (c.moved scope) ↔ v.Fits recorded c := by
  cases v <;> exact Iff.rfl

namespace Chronicle

variable {recorded : Recorded} {c c' : Chronicle} {free : ScopeId → Prop} {frames : Frames}

/-- Binds a name in a scope. -/
def define (c : Chronicle) (scope : ScopeId) (name : String) (value : Value) : Chronicle :=
  { c with machine := { c.machine with store := c.machine.store.define scope name value } }

/-- Makes a scope and binds names in it. -/
def extend (c : Chronicle) (parent : ScopeId) (bindings : List (Token × Value)) : Chronicle :=
  { c with machine := { c.machine with
      store := (c.machine.store.push (some parent)).2.defineAll c.machine.store.size bindings } }

theorem Sane.moved (hs : c.Sane recorded) (scope : ScopeId) : (c.moved scope).Sane recorded where
  table := hs.table
  serials := hs.serials
  values s name v hv := (Value.fits_moved v c scope).mpr (hs.values s name v hv)
  natives := hs.natives
  uses := hs.uses

/-- More may become known of the distances. -/
theorem Sane.relink {recorded' : Recorded} {distances : Distances} (hs : c.Sane recorded)
    (hi : recorded.Implies recorded')
    (ht : ∀ id distance, recorded' id distance → distances.find? id = distance) :
    Sane recorded' { c with machine := { c.machine with distances } } where
  table := ht
  serials := hs.serials
  values scope name v hv := by
    have hfits := hs.values scope name v hv
    cases v with
    | function serial declaration closure =>
        obtain ⟨frames, hb, ha, hr, hl⟩ := hfits
        exact ⟨frames, hb, ha, hr, Stmt.LinkedAll.mono hi _ hl⟩
    | _ => trivial
  natives := hs.natives
  uses := hs.uses

/-- What stays sane in a step: the new uses and values have to be seen to. -/
theorem Sane.step (hs : c.Sane recorded) (he : c.Evolves free c')
    (hserials : c'.births.length = c'.machine.functions)
    (hvalues : ∀ scope name v, c'.machine.store.lookup? scope name = some v →
      c.machine.store.lookup? scope name = some v ∨ v.Fits recorded c')
    (huses : ∀ u ∈ c'.uses, u ∈ c.uses ∨ u.Fine) : c'.Sane recorded where
  table id distance hr := by
    rw [he.distances]
    exact hs.table id distance hr
  serials := hserials
  values scope name v hv := by
    rcases hvalues scope name v hv with h | h
    · exact (hs.values scope name v h).evolves he
    · exact h
  natives native hn := by
    rw [he.natives] at hn
    exact hs.natives native hn
  uses u hu := (huses u hu).elim (hs.uses u) id

theorem Evolves.define {scope : ScopeId} {name : String} (value : Value)
    (h : free scope ∨ (c.machine.store.lookup? scope name).isSome) :
    c.Evolves free (c.define scope name value) where
  size := Nat.le_of_eq (Store.size_define ..).symm
  parent s parent hp := (Store.parent?_define ..).trans hp
  bound s n hn := by
    show ((c.machine.store.define scope name value).lookup? s n).isSome
    rw [Store.lookup?_define]
    split
    · rfl
    · exact hn
  kept s n hlt hfree hn := by
    change ((c.machine.store.define scope name value).lookup? s n).isSome at hn
    rw [Store.lookup?_define] at hn
    split at hn
    · obtain ⟨rfl, rfl, -⟩ := ‹s = scope ∧ _›
      exact h.resolve_left hfree
    · exact hn
  globals := rfl
  current := rfl
  distances := rfl
  natives := rfl
  births := List.prefix_refl _

theorem Sane.define {scope : ScopeId} {name : String} {value : Value} (hs : c.Sane recorded)
    (he : c.Evolves free (c.define scope name value))
    (hv : value.Fits recorded (c.define scope name value)) :
    (c.define scope name value).Sane recorded := by
  refine hs.step he hs.serials (fun s n v hl => ?_) fun u hu => .inl hu
  change (c.machine.store.define scope name value).lookup? s n = some v at hl
  rw [Store.lookup?_define] at hl
  split at hl
  · cases hl
    exact .inr hv
  · exact .inl hl

/-- A declaration whose name is new may be begun. -/
theorem At.declare (h : c.At frames) {name : Token}
    (hnew : frames.scopes.innermost? name.lexeme = none) : c.At (frames.declare name) := by
  cases frames with
  | nil => exact h
  | cons f outer =>
      refine ⟨⟨h.around.chain, fun g hg n hn => ?_⟩, fun g _ n hg hn => ?_⟩
      · rcases List.mem_cons.mp hg with rfl | hg
        · change List.lookup n ((name.lexeme, false) :: f.names) = some true at hn
          rw [lookup_cons_name] at hn
          split at hn
          · cases hn
          · exact h.around.bound f (List.mem_cons_self ..) n hn
        · exact h.around.bound g (List.mem_cons_of_mem _ hg) n hn
      · cases hg
        have hready := h.exact f outer n rfl hn
        show List.lookup n ((name.lexeme, false) :: f.names) = some true
        rw [lookup_cons_name, if_neg]
        · exact hready
        · intro heq
          subst heq
          exact absurd (hready.symm.trans hnew) (by simp)

/-- Binding its name ends a declaration. -/
theorem At.introduce (h : c.At frames) (name : Token) (value : Value) :
    (c.define c.machine.current name.lexeme value).At (frames.introduce name) := by
  have he : c.Evolves (· = c.machine.current)
      (c.define c.machine.current name.lexeme value) := .define value (.inl rfl)
  have ha := h.around.evolves he
  cases frames with
  | nil => exact ⟨ha, fun _ _ _ hf => by cases hf⟩
  | cons f outer =>
      have hcur : c.machine.current = f.scope := h.around.chain.1
      have hlt := h.lt_size
      have hl : ∀ n, (c.define c.machine.current name.lexeme value).machine.store.lookup? f.scope n
          = if n = name.lexeme then some value else c.machine.store.lookup? f.scope n := by
        intro n
        refine (Store.lookup?_define ..).trans ?_
        simp only [hcur, true_and, hlt, and_true]
      have hn : ∀ n, List.lookup n ((name.lexeme, true) :: (name.lexeme, false) :: f.names)
          = if n = name.lexeme then some true else f.names.lookup n := by
        intro n
        rw [lookup_cons_name, lookup_cons_name]
        split <;> rfl
      refine ⟨⟨ha.chain, fun g hg n hg' => ?_⟩, fun g _ n hg hs => ?_⟩
      · rcases List.mem_cons.mp hg with rfl | hg
        · change List.lookup n ((name.lexeme, true) :: (name.lexeme, false) :: f.names) = _ at hg'
          show (Store.lookup? _ f.scope n).isSome
          rw [hn] at hg'
          rw [hl]
          split at hg'
          · rename_i heq
            rw [if_pos heq]
            rfl
          · rename_i hne
            rw [if_neg hne]
            exact h.around.bound f (List.mem_cons_self ..) n hg'
        · exact ha.bound g (List.mem_cons_of_mem _ hg) n hg'
      · cases hg
        show List.lookup n ((name.lexeme, true) :: (name.lexeme, false) :: f.names) = _
        change (Store.lookup? _ f.scope n).isSome at hs
        rw [hn]
        rw [hl] at hs
        split
        · rfl
        · rename_i hne
          rw [if_neg hne] at hs
          exact h.exact f outer n rfl hs

theorem Evolves.extend (parent : ScopeId) (bindings : List (Token × Value)) :
    c.Evolves free (c.extend parent bindings) where
  size := by
    refine Nat.le_trans ?_ (Nat.le_of_eq (Store.size_defineAll ..).symm)
    rw [Store.size_push]
    exact Nat.le_succ _
  parent s p hp := by
    refine (Store.parent?_defineAll ..).trans ?_
    rw [Store.parent?_push, if_neg (Nat.ne_of_lt (Store.lt_of_parent? hp))]
    exact hp
  bound s n hn := by
    obtain ⟨v, hv⟩ := Option.isSome_iff_exists.mp hn
    have hne : s ≠ c.machine.store.size := Nat.ne_of_lt (Store.lt_of_lookup? hv)
    rw [Chronicle.extend, Store.lookup?_defineAll_of_ne hne, Store.lookup?_push]
    exact hn
  kept s n hlt _ hn := by
    rw [Chronicle.extend, Store.lookup?_defineAll_of_ne (Nat.ne_of_lt hlt),
      Store.lookup?_push] at hn
    exact hn
  globals := rfl
  current := rfl
  distances := rfl
  natives := rfl
  births := List.prefix_refl _

theorem Sane.extend (hs : c.Sane recorded) (parent : ScopeId)
    {bindings : List (Token × Value)} (hv : ∀ b ∈ bindings, b.2.Fits recorded c) :
    (c.extend parent bindings).Sane recorded := by
  have he : c.Evolves Nowhere (c.extend parent bindings) := .extend parent bindings
  refine hs.step he hs.serials (fun s n v hl => ?_) fun u hu => .inl hu
  rcases Store.mem_of_lookup?_defineAll _ _ hl with h | ⟨b, hb, rfl⟩
  · rw [Store.lookup?_push] at h
    exact .inl h
  · exact .inr ((hv b hb).evolves he)

/-- In a new scope only what has just been bound is bound. -/
theorem isSome_lookup?_extend (c : Chronicle) (parent : ScopeId)
    (bindings : List (Token × Value)) (name : String) :
    ((c.extend parent bindings).machine.store.lookup? c.machine.store.size name).isSome ↔
      name ∈ (bindings.map Prod.fst).map Token.lexeme := by
  refine (Store.isSome_lookup?_defineAll _ (by rw [Store.size_push]; exact Nat.lt_succ_self _)
    bindings name).trans ?_
  rw [Store.lookup?_push, Store.lookup?_of_size_le (Nat.le_refl _)]
  simp

/-- The new scope of a block or a call. -/
theorem At.extend {parent : ScopeId} (bindings : List (Token × Value))
    (h : frames.Around c.machine.store c.machine.globals parent) :
    ((c.extend parent bindings).moved c.machine.store.size).At
      (frames.call c.machine.store.size (bindings.map Prod.fst)) := by
  have he : c.Evolves Nowhere (c.extend parent bindings) := .extend parent bindings
  have ha := h.evolves he
  have hp : (c.extend parent bindings).machine.store.parent? c.machine.store.size
      = some parent := by
    refine (Store.parent?_defineAll ..).trans ?_
    rw [Store.parent?_push, if_pos rfl]
  obtain ⟨names, hf, hn⟩ := Frames.call_eq frames c.machine.store.size (bindings.map Prod.fst)
  have hb := isSome_lookup?_extend c parent bindings
  rw [hf]
  refine ⟨⟨⟨rfl, parent, hp, ha.chain⟩, fun f hf n hn' => ?_⟩, fun f _ n hf hs => ?_⟩
  · rcases List.mem_cons.mp hf with rfl | hf
    · change names.lookup n = some true at hn'
      rw [hn] at hn'
      split at hn'
      · exact (hb n).mpr ‹_›
      · cases hn'
    · exact ha.bound f hf n hn'
  · cases hf
    show names.lookup n = some true
    rw [hn, if_pos ((hb n).mp hs)]

end Chronicle

/-! ## Contracts -/

/-- Run from a chronicle, it stays sane and leaves alone what is not free; what it gives
is as promised. -/
structure Stays {α : Type} (recorded : Recorded) (t : Traced α) (c : Chronicle)
    (free : ScopeId → Prop) (Q : α → Chronicle → Prop) : Prop where
  sane : (t.run.run c).2.Sane recorded
  evolves : c.Evolves free (t.run.run c).2
  result : ∀ a, (t.run.run c).1 = .ok a → Q a (t.run.run c).2

namespace Stays

variable {α β : Type} {recorded : Recorded} {c : Chronicle} {free free' : ScopeId → Prop}
  {Q Q' : α → Chronicle → Prop} {frames : Frames}

theorem of_run {t : Traced α} {o : Except Halt α} {c' : Chronicle} (h : t.run.run c = (o, c'))
    (hs : c'.Sane recorded) (he : c.Evolves free c') (hq : ∀ a, o = .ok a → Q a c') :
    Stays recorded t c free Q := by
  refine ⟨?_, ?_, ?_⟩ <;> rw [h]
  · exact hs
  · exact he
  · exact hq

theorem exhausted (hs : c.Sane recorded) : Stays recorded (Traced.exhausted : Traced α) c free Q :=
  .of_run rfl hs (.refl c) fun _ h => by cases h

theorem pure (hs : c.Sane recorded) {a : α} (hq : Q a c) : Stays recorded (pure a) c free Q :=
  .of_run rfl hs (.refl c) fun _ h => by cases h; exact hq

theorem bind {P : β → Chronicle → Prop} {t : Traced β} {f : β → Traced α}
    (ht : Stays recorded t c free P)
    (hf : ∀ b c', c'.Sane recorded → c.Evolves free c' → P b c' →
      Stays recorded (f b) c' free Q) : Stays recorded (t >>= f) c free Q := by
  obtain ⟨hs, he, hr⟩ := ht
  have hrun := Traced.run_bind t f c
  generalize t.run.run c = o at hs he hr hrun
  obtain ⟨halt | b, c'⟩ := o
  · exact .of_run hrun hs he fun _ h => by cases h
  · have h := hf b c' hs he (hr b rfl)
    exact .of_run hrun h.sane (he.trans h.evolves) h.result

theorem mono {t : Traced α} (h : Stays recorded t c free Q) (hfree : ∀ s, free s → free' s)
    (hq : ∀ a c', c.Evolves free c' → Q a c' → Q' a c') : Stays recorded t c free' Q' :=
  ⟨h.sane, h.evolves.mono hfree, fun a ha => hq a _ h.evolves (h.result a ha)⟩

/-- Scopes that have been made meanwhile were free to begin with. -/
theorem of_fresh {t : Traced α} (h : Stays recorded t c (c.machine.store.size ≤ ·) Q) :
    Stays recorded t c free Q where
  sane := h.sane
  evolves := { h.evolves with
    kept := fun s name hlt _ => h.evolves.kept s name hlt (Nat.not_le.mpr hlt) }
  result := h.result

/-- What binds nothing leaves the frames where they are. -/
theorem keeping {t : Traced α} (h : Stays recorded t c Nowhere Q) (ha : c.At frames) :
    Stays recorded t c free fun a c' => Q a c' ∧ c'.At frames :=
  h.mono (fun _ h => h.elim) fun _ _ he hq => ⟨hq, ha.evolves he⟩

theorem here {c' : Chronicle} {t : Traced α} (he : c.Evolves free c')
    (h : Stays recorded t c' (· = c'.machine.current) Q) :
    Stays recorded t c' (· = c.machine.current) Q := by
  rw [he.current] at h
  exact h

/-- A question has no effect. -/
theorem asks {r : Run α} {P : α → Prop} (hs : c.Sane recorded) (hr : r.Asks c.machine P)
    (hq : ∀ a, P a → Q a c) : Stays recorded (Traced.lift r) c free Q := by
  have hrun := Traced.run_lift r c
  obtain ⟨a, ha, hp⟩ | ⟨fault, hf⟩ := hr
  · rw [ha] at hrun
    exact .of_run hrun hs (.refl c) fun _ h => by cases h; exact hq a hp
  · rw [hf] at hrun
    exact .of_run hrun hs (.refl c) fun _ h => by cases h

/-- What goes before and leaves the chronicle as it is. -/
theorem after {t : Traced β} {f : β → Traced α} {b : β} (ht : t.run.run c = (.ok b, c))
    (hf : Stays recorded (f b) c free Q) : Stays recorded (t >>= f) c free Q := by
  have hrun := Traced.run_bind t f c
  rw [ht] at hrun
  exact .of_run hrun hf.sane hf.evolves hf.result

theorem ask {r : Run β} {f : β → Traced α} {P : β → Prop} (hs : c.Sane recorded)
    (hr : r.Asks c.machine P) (hf : ∀ b, P b → Stays recorded (f b) c free Q) :
    Stays recorded (Traced.lift r >>= f) c free Q := by
  have hlift := Traced.run_lift r c
  obtain ⟨b, hb, hp⟩ | ⟨fault, hfault⟩ := hr
  · rw [hb] at hlift
    exact .after hlift (hf b hp)
  · have hrun := Traced.run_bind (Traced.lift r) f c
    rw [hlift, hfault] at hrun
    exact .of_run hrun hs (.refl c) fun _ h => by cases h

theorem note {access : Access} {id : NodeId} {name : Token} (hs : c.Sane recorded)
    (hu : (Use.mk access id name frames c.machine).Fine) :
    Stays recorded (Traced.note access id name frames) c free
      fun _ c' => c'.machine = c.machine := by
  have he : c.Evolves free
      { c with uses := c.uses ++ [⟨access, id, name, frames, c.machine⟩] } :=
    .of_store rfl rfl rfl rfl rfl (List.prefix_refl _)
  refine .of_run rfl (hs.step he hs.serials (fun _ _ _ h => .inl h) fun u hmem => ?_) he ?_
  · rcases List.mem_append.mp hmem with h | h
    · exact .inl h
    · rw [List.mem_singleton.mp h]
      exact .inr hu
  · intro _ _
    rfl

theorem print (hs : c.Sane recorded) (value : Value) :
    Stays recorded (Traced.lift (Run.print value)) c free fun _ _ => True := by
  let c' : Chronicle := { c with machine := { c.machine with
    output := c.machine.output ++ value.text ++ "\n" } }
  have he : c.Evolves free c' := .of_store rfl rfl rfl rfl rfl (List.prefix_refl _)
  have hrun : (Traced.lift (Run.print value)).run.run c = (.ok (), c') := rfl
  exact .of_run hrun (hs.step he hs.serials (fun _ _ _ h => .inl h) fun _ h => .inl h)
    he fun _ _ => trivial

theorem define {name : Token} {value : Value} (hs : c.Sane recorded) (ha : c.At frames)
    (hv : ∀ c', c.Evolves (· = c.machine.current) c' → c'.At (frames.introduce name) →
      value.Fits recorded c') :
    Stays recorded (Traced.lift (Run.define name value)) c (· = c.machine.current)
      fun _ c' => c'.At (frames.introduce name) := by
  have he : c.Evolves (· = c.machine.current)
      (c.define c.machine.current name.lexeme value) := .define value (.inl rfl)
  have ha' := ha.introduce name value
  exact .of_run rfl (hs.define he (hv _ he ha')) he fun _ _ => ha'

theorem write {id : NodeId} {name : Token} {value : Value} (hs : c.Sane recorded)
    (hv : value.Fits recorded c) :
    Stays recorded (Traced.lift (Run.writeVariable id name value)) c free fun _ _ => True := by
  have hrun := Traced.run_lift (Run.writeVariable id name value) c
  rw [Run.run_writeVariable] at hrun
  cases ht : c.machine.target? id name with
  | none =>
      rw [ht] at hrun
      exact .of_run hrun hs (.refl c) fun _ h => by cases h
  | some scope =>
      rw [ht] at hrun
      have he : c.Evolves free (c.define scope name.lexeme value) :=
        .define value (.inr (Machine.isSome_of_target? ht))
      exact .of_run hrun (hs.define he (hv.evolves he)) he fun _ _ => trivial

theorem close (hs : c.Sane recorded) (declaration : Declaration) (frames : Frames) :
    Stays recorded (Traced.close declaration frames) c free fun v c' =>
      ∃ serial, v = .function serial declaration c.machine.current ∧
        c'.births[serial]? = some frames := by
  let c' : Chronicle := { c with
    machine := { c.machine with functions := c.machine.functions + 1 }
    births := c.births ++ [frames] }
  have he : c.Evolves free c' := .of_store rfl rfl rfl rfl rfl (List.prefix_append ..)
  have hserials : c'.births.length = c'.machine.functions := by
    rw [List.length_append, hs.serials]
    rfl
  have hrun : (Traced.close declaration frames).run.run c =
      (.ok (.function c.machine.functions declaration c.machine.current), c') := rfl
  refine .of_run hrun (hs.step he hserials (fun _ _ _ h => .inl h) fun _ h => .inl h)
    he fun v h => ?_
  cases h
  refine ⟨c.machine.functions, rfl, ?_⟩
  rw [← hs.serials, List.getElem?_append_right (Nat.le_refl _), Nat.sub_self]
  rfl

theorem enter {parent : ScopeId} {bindings : List (Token × Value)} (hs : c.Sane recorded)
    (ha : frames.Around c.machine.store c.machine.globals parent)
    (hv : ∀ b ∈ bindings, b.2.Fits recorded c) :
    Stays recorded (Traced.lift (Run.enterScope parent bindings)) c free fun scope c' =>
      c.machine.store.size ≤ scope ∧
        (c'.moved scope).At (frames.call scope (bindings.map Prod.fst)) := by
  have hrun : (Traced.lift (Run.enterScope parent bindings)).run.run c =
      (.ok c.machine.store.size, c.extend parent bindings) := rfl
  refine .of_run hrun (hs.extend parent hv) (.extend parent bindings) ?_
  intro scope h
  cases h
  exact ⟨Nat.le_refl _, .extend bindings ha⟩

theorem enterBlock (hs : c.Sane recorded) (ha : c.At frames) :
    Stays recorded (Traced.lift Run.enterBlock) c free fun scope c' =>
      c.machine.store.size ≤ scope ∧ (c'.moved scope).At (frames.block scope) := by
  have hnone : ∀ b ∈ ([] : List (Token × Value)), b.2.Fits recorded c := fun _ h => by cases h
  obtain ⟨hs', he, hr⟩ := enter hs ha.around hnone
  exact ⟨hs', he, hr⟩

theorem within {t : Traced α} {scope : ScopeId} (ht : Stays recorded t (c.moved scope) free Q)
    (hq : ∀ a c', Q a c' → Q a (c'.moved c.machine.current)) :
    Stays recorded (Traced.within scope t) c free Q := by
  obtain ⟨hs, he, hr⟩ := ht
  exact .of_run (Traced.run_within scope t c) (hs.moved _) { he with current := rfl }
    fun a ha => hq a _ (hr a ha)

end Stays

end Lox
