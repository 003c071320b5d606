import Lox.Proofs.Executable
import Lox.Proofs.Machine.Succession
import Lox.Proofs.Scoping.Histories
import Mathlib.Data.List.Induction

/-!
# Where functions come from

A function is equal to itself and to nothing else. What it is, is settled where it comes
from: from one execution of a function declaration, or from one registration of a native
function. Copies are the same value, wherever they are kept, and nothing that is done with a
value makes another out of it.

A history is what is done with a bare session, the registration of the clock included.
-/

namespace Lox

open Relation

/-- A native function gives back no functions, declared or native, but those it is given. -/
def Native.Faithful (native : Native) : Prop :=
  ∀ arguments v, native.apply arguments = .ok v → v.signature?.isSome → v ∈ arguments

/-- A function is equal to itself. -/
theorem Value.equals_self {v : Value} (h : v.signature?.isSome) : v.equals v = true := by
  cases v with
  | function | native => exact beq_self_eq_true _
  | _ => cases h

namespace Machine

/-- No function that was made is forgotten, and no native function that was registered. -/
structure Counts (m m' : Machine) : Prop where
  functions : m.functions ≤ m'.functions
  natives : m.natives.size ≤ m'.natives.size

variable {m m' : Machine}

theorem Counts.same (hf : m'.functions = m.functions) (hn : m'.natives = m.natives) :
    m.Counts m' :=
  ⟨Nat.le_of_eq hf.symm, Nat.le_of_eq (congrArg Array.size hn.symm)⟩

theorem Counts.trans {m₁ : Machine} (h : m.Counts m₁) (h' : m₁.Counts m') : m.Counts m' :=
  ⟨Nat.le_trans h.functions h'.functions, Nat.le_trans h.natives h'.natives⟩

end Machine

namespace Session

/-! ## What happens in a history -/

/-- The session before everything, in which not even the clock is known. -/
def bare : Session := ⟨.bare, .empty, 0⟩

/-- A new session is the one in which the clock has been registered. -/
example (clock : Native) : bare.register clock = new clock := rfl

theorem actAll?_append (s : Session) (acts more : List Act) :
    s.actAll? (acts ++ more) = (s.actAll? acts).bind (·.actAll? more) := by
  induction acts generalizing s with
  | nil => rfl
  | cons act acts ih =>
      show (s.act? act).bind (·.actAll? (acts ++ more)) =
        ((s.act? act).bind (·.actAll? acts)).bind (·.actAll? more)
      rw [Option.bind_assoc]
      exact congrArg _ (funext fun t => ih t)

/-- The moments that the run of a source comes to. -/
def Meets (s : Session) (source : String) (p : Moment) : Prop :=
  s.Accepts source ∧
    ReflTransGen Enters ⟨.executeAll (s.programOf source), (s.bound source).machine, []⟩ p

/-- Behind some acts of a history the next one is this, and it is done with this session. -/
def Comes (acts done : List Act) (act : Act) (t : Session) : Prop :=
  (∃ rest, acts = done ++ act :: rest) ∧ bare.actAll? done = some t

/-- The moments that the runs of a history come to. -/
def Visits (acts : List Act) (p : Moment) : Prop :=
  ∃ done fuel source t, Comes acts done (.run fuel source) t ∧ t.Meets source p

/-- The values that turn up in a history: those at hand at a moment of a run, those of the
variables that there are at the moment, what is given there, and the values of the variables
between the runs. -/
inductive Shows (acts : List Act) (v : Value) : Prop
  | atHand {p : Moment} (hp : Visits acts p) (h : v ∈ p.values)
  | stored {p : Moment} (hp : Visits acts p) {scope : ScopeId} {name : String}
    (h : p.machine.store.lookup? scope name = some v)
  | given {p : Moment} (hp : Visits acts p) {a : p.job.Result} {m : Machine}
    (h : p.job.Gives p.machine a m) (hv : v ∈ p.job.gives a)
  | left {done rest : List Act} {t : Session} (hacts : acts = done ++ rest)
    (ht : bare.actAll? done = some t) {scope : ScopeId} {name : String}
    (h : t.machine.store.lookup? scope name = some v)

/-- Where functions come from. -/
inductive Origin
  /-- An execution of a function declaration. -/
  | execution (e : Moment)
  /-- The registration of a native function, behind so many acts. -/
  | registration (done : List Act) (native : Native)

/-- The value is made there, and this happens in the history. -/
def Stems (acts : List Act) (v : Value) : Origin → Prop
  | .execution e => Visits acts e ∧ e.Makes v
  | .registration done native => ∃ t, Comes acts done (.register native) t ∧
      (t.machine.register native).store.lookup? t.machine.globals native.name = some v

/-! ## Every function comes from somewhere -/

variable {acts done rest : List Act} {act : Act} {s t : Session} {source : String} {v : Value}

theorem Visits.enters {p q : Moment} (h : Visits acts p) (hpq : Enters p q) : Visits acts q := by
  obtain ⟨done, fuel, source, t, hcomes, ha, hp⟩ := h
  exact ⟨done, fuel, source, t, hcomes, ha, hp.tail hpq⟩

theorem Accepts.ends (ha : s.Accepts source) {fuel : Nat} {status : Status}
    (h : s.run fuel source = some (status, t)) : ∃ result,
      (Job.executeAll (s.programOf source)).Ends (s.bound source).machine result t.machine := by
  rw [ha.run_eq] at h
  obtain ⟨⟨result, m⟩, hm, ho⟩ := Option.map_eq_some_iff.mp h
  have ht : t.machine = m := by
    cases result <;> cases ho <;> rfl
  exact ht ▸ Job.ends_of_program hm

/-- A run leaves the machine but for the distances as it is, or its program has ended. -/
theorem ends_of_run {fuel : Nat} {status : Status} (h : s.run fuel source = some (status, t)) :
    (∃ distances, t.machine = { s.machine with distances }) ∨ s.Accepts source ∧ ∃ result,
      (Job.executeAll (s.programOf source)).Ends (s.bound source).machine result t.machine := by
  by_cases ha : s.Accepts source
  · exact .inr ⟨ha, ha.ends h⟩
  · rw [Session.run_eq] at h
    split at h
    · cases h
      exact .inl ⟨_, rfl⟩
    · rw [if_pos (eq_true_of_ne_false ha)] at h
      cases h
      exact .inl ⟨_, rfl⟩

/-- The value is a function only if it comes from somewhere. -/
def Sprung (acts : List Act) (v : Value) : Prop := v.signature?.isSome → ∃ o, Stems acts v o

/-- All functions that are stored come from somewhere. -/
abbrev Sourced (acts : List Act) (m : Machine) : Prop := m.Stores (Sprung acts) Native.Faithful

theorem guarded_sourced : Machine.Guarded (fun _ _ => True) (Sourced acts) (fun _ => Sprung acts)
    (Visits acts) := by
  have hplain (v : Value) (hv : v.Plain) : Sprung acts v := by
    intro hcallable
    rw [hv] at hcallable
    cases hcallable
  refine Machine.guarded_stores hplain (fun native arguments v hn hargs happly hv => ?_)
    (fun m name params body held hp _ => ?_) Visits.enters
  · exact hargs v (hn arguments v happly hv) hv
  · exact ⟨.execution _, hp, ⟨name, params, body⟩, _, rfl, rfl⟩

/-- What is stored behind an act comes from somewhere, if what was stored before does. -/
theorem Comes.sourced (h : Comes acts done act s) (hs : Sourced acts s.machine)
    (hn : ∀ native, act = .register native → native.Faithful) (ht : s.act? act = some t) :
    Sourced acts t.machine := by
  cases act with
  | run fuel source =>
      obtain ⟨⟨status, t'⟩, hrun, rfl⟩ := Option.map_eq_some_iff.mp ht
      rcases ends_of_run hrun with ⟨distances, hm⟩ | ⟨ha, result, hends⟩
      · rw [hm]
        exact hs.congr rfl rfl
      · have hbound : Sourced acts (s.bound source).machine := hs.congr rfl rfl
        exact (hends.guards guarded_sourced [] ⟨done, fuel, source, s, h, ha, .refl⟩ hbound
          fun _ hmem => nomatch hmem).1
  | register native =>
      cases ht
      exact hs.register (hn native rfl) fun _ hv _ => ⟨.registration done native, s, h, hv⟩
  | takeDiagnostics | takeOutput =>
      cases ht
      exact hs.congr rfl rfl

section History

variable (hn : ∀ native, .register native ∈ acts → native.Faithful)
include hn

theorem sourced (hacts : acts = done ++ rest) (ht : bare.actAll? done = some t) :
    Sourced acts t.machine := by
  induction done using List.reverseRecOn generalizing rest t with
  | nil =>
      cases ht
      exact Machine.stores_bare
  | append_singleton done act ih =>
      rw [actAll?_append] at ht
      obtain ⟨s, hs, hact⟩ := Option.bind_eq_some_iff.mp ht
      obtain ⟨t', ht', hnil⟩ := Option.bind_eq_some_iff.mp hact
      cases hnil
      rw [List.append_assoc] at hacts
      have hcomes : Comes acts done act s := ⟨⟨rest, hacts⟩, hs⟩
      refine hcomes.sourced (ih hacts hs) (fun native hregister => hn native ?_) ht'
      rw [hacts, hregister]
      exact List.mem_append_right _ List.mem_cons_self

theorem Visits.holds {p : Moment} (hp : Visits acts p) :
    p.Holds (Sourced acts) fun _ => Sprung acts := by
  obtain ⟨done, fuel, source, t, hcomes, ha, hreach⟩ := hp
  obtain ⟨rest, hacts⟩ := hcomes.1
  induction hreach with
  | refl =>
      refine ⟨?_, fun _ hmem => nomatch hmem⟩
      exact (sourced hn hacts hcomes.2).congr rfl rfl
  | tail hreach hstep ih =>
      exact ih.enters guarded_sourced hstep ⟨done, fuel, source, t, hcomes, ha, hreach⟩

theorem Shows.sprung (h : Shows acts v) : Sprung acts v := by
  cases h with
  | atHand hp hmem => exact (hp.holds hn).values v hmem
  | stored hp hv => exact (hp.holds hn).machine.stored _ _ v hv
  | given hp hgives hmem =>
      exact ((hp.holds hn).behind guarded_sourced hgives hp).2.2 _ rfl v hmem
  | left hacts ht hv => exact (sourced hn hacts ht).stored _ _ v hv

end History

/-! ## No two functions come from the same -/

theorem counts_of_act (h : s.act? act = some t) : s.machine.Counts t.machine := by
  cases act with
  | run fuel source =>
      obtain ⟨⟨status, t'⟩, hrun, rfl⟩ := Option.map_eq_some_iff.mp h
      rcases ends_of_run hrun with ⟨distances, hm⟩ | ⟨-, result, hends⟩
      · rw [hm]
        exact .same rfl rfl
      · have hfunctions := hends.keeps Machine.kept_functions
        have hnatives := hends.keeps Machine.kept_natives
        exact ⟨hfunctions, Nat.le_of_eq (congrArg Array.size hnatives.symm)⟩
  | register native =>
      cases h
      exact ⟨Nat.le_refl _, Nat.le_trans (Nat.le_succ _) (Nat.le_of_eq (Array.size_push _).symm)⟩
  | takeDiagnostics | takeOutput =>
      cases h
      exact .same rfl rfl

theorem counts_of_actAll (h : s.actAll? acts = some t) : s.machine.Counts t.machine := by
  induction acts generalizing s with
  | nil =>
      cases h
      exact .same rfl rfl
  | cons act acts ih =>
      obtain ⟨s', hs', hrest⟩ := Option.bind_eq_some_iff.mp h
      exact (counts_of_act hs').trans (ih hrest)

variable {done' : List Act} {act' : Act} {t' : Session}

/-- The act has been done with the first session, and the second one comes later. -/
def Done (act : Act) (t t' : Session) : Prop :=
  ∃ u, t.act? act = some u ∧ u.machine.Counts t'.machine

/-- Two acts of a history are the same, or one is done before the other. -/
theorem Comes.inTurn (h : Comes acts done act t) (h' : Comes acts done' act' t') :
    (done = done' ∧ act = act' ∧ t = t') ∨ Done act t t' ∨ Done act' t' t := by
  have hbefore {done more act t t'} (ht : bare.actAll? done = some t)
      (ht' : bare.actAll? (done ++ act :: more) = some t') : Done act t t' := by
    rw [actAll?_append, ht] at ht'
    have hact : (t.act? act).bind (·.actAll? more) = some t' := ht'
    obtain ⟨u, hu, hrest⟩ := Option.bind_eq_some_iff.mp hact
    exact ⟨u, hu, counts_of_actAll hrest⟩
  obtain ⟨⟨rest, hacts⟩, ht⟩ := h
  obtain ⟨⟨rest', hacts'⟩, ht'⟩ := h'
  rcases List.places_cases hacts hacts' with ⟨rfl, rfl⟩ | ⟨more, rfl⟩ | ⟨more, rfl⟩
  · exact .inl ⟨rfl, rfl, Option.some.inj (ht.symm.trans ht')⟩
  · exact .inr (.inl (hbefore ht ht'))
  · exact .inr (.inr (hbefore ht' ht))

/-- Behind a run that has come back, more functions have been made than an execution in it
has found. -/
theorem Done.execution {fuel : Nat} {e : Moment} (h : Done (.run fuel source) t t')
    (he : t.Meets source e) (hv : e.Makes v) : e.machine.functions < t'.machine.functions := by
  obtain ⟨u, hu, hcounts⟩ := h
  obtain ⟨⟨status, u'⟩, hrun, rfl⟩ := Option.map_eq_some_iff.mp hu
  obtain ⟨ha, hreach⟩ := he
  obtain ⟨result, hends⟩ := ha.ends hrun
  have hby : Moment.EndsBy ⟨.executeAll (t.programOf source), (t.bound source).machine, []⟩
      u'.machine.functions := hends.endsBy (Nat.le_refl _)
  exact Nat.lt_of_lt_of_le (hv.lt (hby.reaches hreach)) hcounts.functions

theorem Meets.functions_le {p : Moment} (h : t.Meets source p) :
    t.machine.functions ≤ p.machine.functions := functions_le_of_reaches h.2

theorem Done.registration {native : Native} (h : Done (.register native) t t') :
    t.machine.natives.size < t'.machine.natives.size := by
  obtain ⟨u, hu, hcounts⟩ := h
  cases hu
  exact Nat.lt_of_lt_of_le (Nat.le_of_eq (Array.size_push _).symm) hcounts.natives

variable {v' : Value} {o o' : Origin}

theorem Stems.callable (h : Stems acts v o) : v.signature?.isSome := by
  cases o with
  | execution e =>
      obtain ⟨d, rfl⟩ := h.2.eq
      rfl
  | registration done native =>
      obtain ⟨t, -, hv⟩ := h
      rw [Machine.eq_of_registered hv]
      rfl

/-- One origin makes one value. -/
theorem Stems.unique (h : Stems acts v o) (h' : Stems acts v' o) : v = v' := by
  cases o with
  | execution e => exact h.2.unique h'.2
  | registration done native =>
      obtain ⟨t, hcomes, hv⟩ := h
      obtain ⟨t', hcomes', hv'⟩ := h'
      cases hcomes.2.symm.trans hcomes'.2
      exact Option.some.inj (hv.symm.trans hv')

/-- Equal values are made in one place. -/
theorem Stems.alone (h : Stems acts v o) (h' : Stems acts v' o') (heq : v.equals v' = true) :
    o = o' := by
  cases o with
  | execution e =>
    cases o' with
    | execution e' =>
        obtain ⟨⟨done, fuel, source, t, hcomes, he⟩, hv⟩ := h
        obtain ⟨⟨done', fuel', source', t', hcomes', he'⟩, hv'⟩ := h'
        have hcount : e.machine.functions = e'.machine.functions := by
          obtain ⟨d, rfl⟩ := hv.eq
          obtain ⟨d', rfl⟩ := hv'.eq
          exact eq_of_beq heq
        rcases hcomes.inTurn hcomes' with ⟨-, hact, rfl⟩ | hdone | hdone
        · cases hact
          exact congrArg _ (hv.alone hv' he.2 he'.2 hcount)
        · have hlt := hdone.execution he hv
          have hle := he'.functions_le
          omega
        · have hlt := hdone.execution he' hv'
          have hle := he.functions_le
          omega
    | registration done' native' =>
        obtain ⟨d, rfl⟩ := h.2.eq
        obtain ⟨t', -, hv'⟩ := h'
        cases Machine.eq_of_registered hv'
        cases heq
  | registration done native =>
    cases o' with
    | execution e' =>
        obtain ⟨t, -, hv⟩ := h
        obtain ⟨d, rfl⟩ := h'.2.eq
        cases Machine.eq_of_registered hv
        cases heq
    | registration done' native' =>
        obtain ⟨t, hcomes, hv⟩ := h
        obtain ⟨t', hcomes', hv'⟩ := h'
        cases Machine.eq_of_registered hv
        cases Machine.eq_of_registered hv'
        have hcount : t.machine.natives.size = t'.machine.natives.size := eq_of_beq heq
        rcases hcomes.inTurn hcomes' with ⟨rfl, hact, -⟩ | hdone | hdone
        · cases hact
          rfl
        · have hlt := hdone.registration
          omega
        · have hlt := hdone.registration
          omega

theorem Stems.equals_iff (h : Stems acts v o) (h' : Stems acts v' o') :
    v.equals v' = true ↔ o = o' := by
  refine ⟨h.alone h', fun heq => ?_⟩
  subst heq
  rw [h.unique h']
  exact Value.equals_self h'.callable

/-! ## Comparisons -/

theorem gives_equalEqual {left right : Expr} {operator : Token} {m m₁ m₂ : Machine} {w : Value}
    (h : operator.kind = .equalEqual) (hleft : (Job.evaluate left).Gives m v m₁)
    (hright : (Job.evaluate right).Gives m₁ w m₂) :
    (Job.evaluate (.binary left operator right)).Gives m (.bool (v.equals w)) m₂ := by
  obtain ⟨n, hl, hr⟩ := hleft.both hright
  refine ⟨n + 1, (run_bind_of_ok hl).trans ((run_bind_of_ok hr).trans ?_)⟩
  rw [Run.applyBinary.eq_def]
  simp only [h]
  rfl

/-- Every function that turns up in a history, whatever has been done there and however the
runs have ended, comes from just one execution of a declaration or from just one
registration. Two of them are equal just if they come from the same, and so says each
comparison of two functions that a run comes to. -/
theorem functions_equal_by_origin {acts : List Act}
    (hn : ∀ native, .register native ∈ acts → native.Faithful) :
    (∀ v, Shows acts v → v.signature?.isSome → ∃! o, Stems acts v o) ∧
    (∀ v v' o o', Stems acts v o → Stems acts v' o' → (v.equals v' = true ↔ o = o')) ∧
    ∀ left operator right m held v w m₁ m₂, operator.kind = .equalEqual →
      Visits acts ⟨.evaluate (.binary left operator right), m, held⟩ →
      (Job.evaluate left).Gives m v m₁ → (Job.evaluate right).Gives m₁ w m₂ →
      v.signature?.isSome → w.signature?.isSome →
      ∃ b, (Job.evaluate (.binary left operator right)).Gives m (.bool b) m₂ ∧
        (b = true ↔ ∃ o, Stems acts v o ∧ Stems acts w o) := by
  have horigin (v) (hv : Shows acts v) (hcallable : v.signature?.isSome) :
      ∃! o, Stems acts v o := by
    obtain ⟨o, ho⟩ := hv.sprung hn hcallable
    exact ⟨o, ho, fun o' ho' => (ho'.equals_iff ho).mp (Value.equals_self hcallable)⟩
  refine ⟨horigin, fun _ _ _ _ h h' => h.equals_iff h', ?_⟩
  intro left operator right m held v w m₁ m₂ hkind hp hleft hright hv hw
  refine ⟨v.equals w, gives_equalEqual hkind hleft hright, fun heq => ?_, fun ⟨o, ho, ho'⟩ => ?_⟩
  · obtain ⟨o, ho, -⟩ := horigin v (.given (hp.enters .left) hleft List.mem_cons_self) hv
    obtain ⟨o', ho', -⟩ :=
      horigin w (.given (hp.enters (.right hleft)) hright List.mem_cons_self) hw
    cases (ho.equals_iff ho').mp heq
    exact ⟨o, ho, ho'⟩
  · exact (ho.equals_iff ho').mpr rfl

/-- Two calls make two functions by one declaration, one of which is copied, and the clock is
registered a second time under its name while the first one is kept in a variable. -/
theorem functions_made_twice_differ :
    let acts : List Act :=
      [.register (.clock 0),
        .run 20 "fun make() \x7b fun f() \x7b\x7d return f; \x7d
          var a = make(); var b = make(); var copy = a; var old = clock;",
        .register (.clock 1),
        .run 20 "print a == b; print a == copy; print old == clock;"]
    ∃ t : Session, bare.actAll? acts = some t ∧ t.machine.output = "false\ntrue\nfalse\n" ∧
      ∃ a b copy old clock : Value,
        [a, b, copy, old, clock].map some = ["a", "b", "copy", "old", "clock"].map
          (t.machine.store.lookup? t.machine.globals ·) ∧
        (∀ v ∈ [a, b, copy, old, clock], ∃! o, Stems acts v o) ∧
        (∃ o, Stems acts a o ∧ Stems acts copy o) ∧ (¬ ∃ o, Stems acts a o ∧ Stems acts b o) ∧
        ¬ ∃ o, Stems acts old o ∧ Stems acts clock o := by
  intro acts
  have hn : ∀ native, .register native ∈ acts → native.Faithful := by
    intro native hmem arguments v happly hv
    have hclock : native = .clock 0 ∨ native = .clock 1 := by
      simpa [acts] using hmem
    rcases hclock with rfl | rfl <;> cases happly <;> cases hv
  obtain ⟨horigin, hequals, -⟩ := functions_equal_by_origin hn
  let found (t : Session) (name : String) := t.machine.store.lookup? t.machine.globals name
  have hruns : (bare.actAll? acts).any (fun t => t.machine.output = "false\ntrue\nfalse\n" &&
      (found t "a").any fun a => (found t "b").any fun b => (found t "copy").any fun copy =>
        (found t "old").any fun old => (found t "clock").any fun clock =>
          [a, b, copy, old, clock].all (fun v => v.signature?.isSome) &&
            (a.equals copy && !a.equals b && !old.equals clock)) = true := by
    decide +kernel
  simp only [Option.any_eq_true, Bool.and_eq_true, decide_eq_true_eq, List.all_eq_true,
    Bool.not_eq_true'] at hruns
  obtain ⟨t, ht, hout, a, ha, b, hb, copy, hcopy, old, hold, clock, hclock, hcallable,
    ⟨hsame, hother⟩, hagain⟩ := hruns
  have hfound : [a, b, copy, old, clock].map some =
      ["a", "b", "copy", "old", "clock"].map (found t) := by
    simp only [List.map_cons, List.map_nil, ha, hb, hcopy, hold, hclock]
  have hall : ∀ v ∈ [a, b, copy, old, clock], ∃! o, Stems acts v o := by
    intro v hv
    obtain ⟨name, -, hname⟩ := List.mem_map.mp (hfound ▸ List.mem_map_of_mem hv)
    exact horigin v (.left (List.append_nil acts).symm ht hname) (hcallable v hv)
  have hdiffer {v w : Value} (h : v.equals w = false) : ¬ ∃ o, Stems acts v o ∧ Stems acts w o :=
    fun ⟨o, ho, ho'⟩ => Bool.false_ne_true (h.symm.trans ((hequals v w o o ho ho').mpr rfl))
  refine ⟨t, ht, hout, a, b, copy, old, clock, hfound, hall, ?_, hdiffer hother, hdiffer hagain⟩
  obtain ⟨o, ho, -⟩ := hall a (by simp)
  obtain ⟨o', ho', -⟩ := hall copy (by simp)
  cases (hequals a copy o o' ho ho').mp hsame
  exact ⟨o, ho, ho'⟩

end Session

end Lox
