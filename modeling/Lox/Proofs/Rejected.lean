import Lox.Proofs.Machine.Lockstep
import Lox.Proofs.Parser.Moved
import Lox.Proofs.Parser.Renumbered
import Lox.Proofs.Scoping.Moved
import Lox.Proofs.Session

/-!
# Rejected sources leave nothing to see

A source that is rejected is not run, but it is not without a trace: its nodes have been
given numbers, and if it was the walk over the scopes that rejected it, distances have
been recorded for them. Two sessions of which only one has been given such a source go
on with different numbers and different distances. They are apart by a number of nodes
from some node on, and remain so whatever is done with both; nothing of it can be seen.
-/

namespace Lox.Session

/-! ## What is seen of a session -/

/-- What is done with a session from outside. -/
inductive Call
  | run (fuel : Nat) (source : String)
  | tokenize (source : String)
  | takeDiagnostics
  | register (native : Native)

/-- The answer to a call. -/
inductive Reply
  | status (status : Status)
  | tokens (tokens : List Token)
  | diagnostics (diagnostics : List Diagnostic)
  | done

/-- What is seen after a call: its answer, all that has been printed so far, and the
diagnostics that are held. -/
structure Seen where
  reply : Reply
  output : String
  log : Log

/-- A call. A run that uses up its fuel does not come back. -/
def call? (s : Session) : Call → Option (Reply × Session)
  | .run fuel source => (s.run fuel source).map fun o => (.status o.1, o.2)
  | .tokenize source => some (.tokens (s.tokenize source).1, (s.tokenize source).2)
  | .takeDiagnostics => some (.diagnostics s.takeDiagnostics.1, s.takeDiagnostics.2)
  | .register native => some (.done, s.register native)

/-- One call after the other, with what is seen after each of them. -/
def callAll? (s : Session) : List Call → Option (List Seen × Session)
  | [] => some ([], s)
  | call :: rest => do
    let (reply, s) ← s.call? call
    let (seen, t) ← s.callAll? rest
    return (⟨reply, s.machine.output, s.log⟩ :: seen, t)

/-- Native functions that a call makes known are discreet. -/
def Call.Discreet : Call → Prop
  | .register native => native.Discreet
  | _ => True

end Lox.Session

namespace Lox

namespace Log

/-- Nothing is remembered but what the diagnostics held say. -/
def Plain (log : Log) : Prop := log = empty.reportAll log.held

theorem held_reportAll (log : Log) (ds : List Diagnostic) :
    (log.reportAll ds).held = log.held ++ ds := by
  induction ds generalizing log with
  | nil => exact (List.append_nil _).symm
  | cons d ds ih =>
      show ((log.report d).reportAll ds).held = _
      rw [ih, report, List.append_assoc]
      rfl

theorem Plain.reportAll {log : Log} (h : log.Plain) (ds : List Diagnostic) :
    (log.reportAll ds).Plain := by
  rw [Plain, held_reportAll]
  conv_lhs => rw [h]
  exact (List.foldl_append ..).symm

theorem Plain.eq_empty {log : Log} (h : log.Plain) (hheld : log.held = []) : log = .empty := by
  rw [h, hheld]
  rfl

end Log

namespace Session

variable {i d : Nat} {s s' : Session}

/-! ## Sessions that are apart -/

/-- By how much numbers are apart: all up to some node are the same, and the ones from
there on are further up. -/
def Shifted (i d nextId : Nat) (k : Nat) (id : NodeId) : Prop :=
  id < nextId ∧ k = if id < i then 0 else d

/-- How machines are alike whose nodes are apart. -/
def apart (i d nextId : Nat) (distances distances' : Distances)
    (agree : ∀ k id, Shifted i d nextId k id → distances'.find? (id + k) = distances.find? id)
    (natives : Array Native) (discreet : ∀ native ∈ natives, native.Discreet) : Likeness where
  shifted k _ := k = 0
  known := Shifted i d nextId
  distances := distances
  distances' := distances'
  agree := agree
  natives := natives
  discreet := discreet
  printed := ""

/-- The second session is where the first is, but for the numbers from some node on. -/
structure Apart (i d : Nat) (s s' : Session) : Prop where
  le : i ≤ s.nextId
  nextId : s'.nextId = s.nextId + d
  log : s'.log = s.log
  plain : s.log.Plain
  agree : ∀ k id, Shifted i d s.nextId k id →
    s'.machine.distances.find? (id + k) = s.machine.distances.find? id
  unrecorded : ∀ id, s.nextId ≤ id → s.machine.distances.find? id = none
  unrecorded' : ∀ id, s'.nextId ≤ id → s'.machine.distances.find? id = none
  discreet : ∀ native ∈ s.machine.natives, native.Discreet
  machines : (apart i d s.nextId s.machine.distances s'.machine.distances agree
    s.machine.natives discreet).Machines s.machine s'.machine

/-- What a walk over a program records, on top of what was recorded before. -/
theorem walked_eq (s : Session) (source : String) : s.walked source =
    (Binding.program (s.programOf source) []).moved 0 0 s.machine.distances := by
  have h := Binding.statements_moved 0 0 s.machine.distances false (s.programOf source) ⟨[], [], []⟩
  rw [Stmt.movedAll_zero] at h
  exact h

theorem find?_moved (k d : Nat) (base : Distances) (b : Binding.State) (id : NodeId) :
    (b.moved k d base).distances.find? (id + d) =
      (b.distances.find? id).or (base.find? (id + d)) := by
  rw [Binding.State.moved, Distances.find?, List.lookup_append]
  congr 1
  show (b.distances.map _).lookup (id + d) = b.distances.lookup id
  induction b.distances with
  | nil => rfl
  | cons r rest ih =>
      rw [List.map_cons, List.lookup_cons, List.lookup_cons, ih]
      congr 1
      exact Bool.eq_iff_iff.mpr (by simp)

/-- Of a program that can be read only nodes of its own are recorded. -/
theorem find?_bound (s : Session) (source : String) (hs : (s.parsed source).log.hadError = false)
    {id : NodeId} (hid : id < s.nextId ∨ (s.readOf source).nextId ≤ id) :
    (s.walked source).distances.find? id = s.machine.distances.find? id := by
  obtain ⟨hspans, hwalk, -⟩ := s.links_of_clean source hs
  refine hwalk.outside id fun hmem => ?_
  obtain ⟨hle, hlt⟩ := hspans.bounds id hmem
  rcases hid with hid | hid
  · exact absurd hid (Nat.not_lt.mpr hle)
  · exact absurd hlt (Nat.not_lt.mpr hid)

namespace Apart

/-- Distances that are recorded with both keep them apart. -/
theorem rebind (h : Apart i d s s') {distances distances' : Distances} {j : Nat} {log : Log}
    (hj : s.nextId ≤ j) (hlog : log.Plain)
    (hagree : ∀ k id, Shifted i d j k id → distances'.find? (id + k) = distances.find? id)
    (hnew : ∀ id, j ≤ id → distances.find? id = none)
    (hnew' : ∀ id, j + d ≤ id → distances'.find? id = none) :
    Apart i d ⟨{ s.machine with distances := distances }, log, j⟩
      ⟨{ s'.machine with distances := distances' }, log, j + d⟩ where
  le := Nat.le_trans h.le hj
  nextId := rfl
  log := rfl
  plain := hlog
  agree := hagree
  unrecorded := hnew
  unrecorded' := hnew'
  discreet := h.discreet
  machines := h.machines.rebind (fun _ _ hk => ⟨Nat.lt_of_lt_of_le hk.1 hj, hk.2⟩) rfl rfl rfl

/-- Numbers that have not been given out have no distances with either. -/
theorem agree_unrecorded (h : Apart i d s s') {k : Nat} {id : NodeId} {j : Nat}
    (hk : Shifted i d j k id) :
    s'.machine.distances.find? (id + k) = s.machine.distances.find? id := by
  by_cases hid : id < s.nextId
  · exact h.agree k id ⟨hid, hk.2⟩
  · have hle : s.nextId ≤ id := Nat.le_of_not_lt hid
    have hbeyond : ¬ id < i := Nat.not_lt.mpr (Nat.le_trans h.le hle)
    rw [h.unrecorded id hle, hk.2, if_neg hbeyond]
    exact h.unrecorded' (id + d) (h.nextId ▸ Nat.add_le_add_right hle d)

/-! ## The stages of a run -/

section Run

variable (h : Apart i d s s') (source : String)
include h

theorem readOf : s'.readOf source = (s.readOf source).renumbered d := by
  rw [Session.readOf, h.nextId]
  exact Parsed.ofTokens_renumbered _ _ d

theorem programOf : s'.programOf source = Stmt.movedAll 0 d (s.programOf source) := by
  rw [programOf_eq, programOf_eq, h.readOf source]
  exact Stmt.desugarAll_moved 0 d _

theorem parsed : Apart i d (s.parsed source) (s'.parsed source) := by
  have hs' : s'.parsed source =
      ⟨s'.machine, (s.parsed source).log, (s.readOf source).nextId + d⟩ := by
    show Session.mk _ ((s'.log.reportAll _).reportAll ((s'.readOf source).faults.map _))
      (s'.readOf source).nextId = _
    rw [h.readOf source, h.log]
    rfl
  rw [hs']
  refine h.rebind (Parsed.le_nextId _ _) ((h.plain.reportAll _).reportAll _)
    (fun k id hk => h.agree_unrecorded hk) (fun id hid => h.unrecorded id ?_)
    fun id hid => h.unrecorded' id ?_
  · exact Nat.le_trans (Parsed.le_nextId _ _) hid
  · rw [h.nextId]
    exact Nat.le_trans (Nat.add_le_add_right (Parsed.le_nextId _ _) d) hid

theorem walked : s'.walked source =
    (Binding.program (s.programOf source) []).moved 0 d s'.machine.distances := by
  rw [Session.walked, h.programOf source]
  exact Binding.statements_moved 0 d s'.machine.distances false _ ⟨[], [], []⟩

section Bound

variable (hs : (s.parsed source).log.hadError = false)
include hs

/-- A distance is found for a node of a new program just where one is found for its image. -/
theorem agree_walked {k j : Nat} {id : NodeId} (hk : Shifted i d j k id) :
    (s'.walked source).distances.find? (id + k) = (s.walked source).distances.find? id := by
  have hs' : (s'.parsed source).log.hadError = false := (h.parsed source).log ▸ hs
  by_cases hid : id < s.nextId
  · have hlt : id + k < s'.nextId := by
      rw [hk.2, h.nextId]
      split
      · exact Nat.lt_add_right d hid
      · exact Nat.add_lt_add_right hid d
    rw [find?_bound s source hs (.inl hid), find?_bound s' source hs' (.inl hlt)]
    exact h.agree_unrecorded hk
  · have hle : s.nextId ≤ id := Nat.le_of_not_lt hid
    have hkd : k = d := hk.2.trans (if_neg (Nat.not_lt.mpr (Nat.le_trans h.le hle)))
    have hfirst := find?_moved 0 0 s.machine.distances (Binding.program (s.programOf source) []) id
    rw [← walked_eq, Nat.add_zero, h.unrecorded id hle] at hfirst
    rw [hkd, h.walked source, find?_moved, hfirst,
      h.unrecorded' (id + d) (h.nextId ▸ Nat.add_le_add_right hle d)]

theorem bound : Apart i d (s.bound source) (s'.bound source) := by
  have hp := h.parsed source
  have hs' : (s'.parsed source).log.hadError = false := hp.log ▸ hs
  have hle : s.nextId ≤ (s.readOf source).nextId := Parsed.le_nextId _ _
  have hnext : (s'.readOf source).nextId = (s.readOf source).nextId + d := hp.nextId
  have hfaults : (s'.walked source).faults = (s.walked source).faults := by
    rw [h.walked source, walked_eq]
    rfl
  have hbound : s'.bound source = ⟨{ s'.machine with distances := (s'.walked source).distances },
      (s.bound source).log, (s.readOf source).nextId + d⟩ := by
    show Session.mk _ ((s'.parsed source).log.reportAll ((s'.walked source).faults.map _)) _ = _
    rw [hfaults, hp.log]
    show Session.mk _ _ (s'.readOf source).nextId = _
    rw [hnext]
    rfl
  rw [hbound]
  refine h.rebind hle (hp.plain.reportAll _) (fun k id hk => h.agree_walked source hs hk)
    (fun id hid => ?_) fun id hid => ?_
  · exact (find?_bound s source hs (.inr hid)).trans (h.unrecorded id (Nat.le_trans hle hid))
  · refine (find?_bound s' source hs' (.inr (hnext ▸ hid))).trans (h.unrecorded' id ?_)
    rw [h.nextId]
    exact Nat.le_trans (Nat.add_le_add_right hle d) hid

end Bound

end Run

/-- What sessions that are apart do next. -/
abbrev Sequels {α : Type} (i d : Nat) : Option (α × Session) → Option (α × Session) → Prop :=
  Option.Rel fun o o' => o'.1 = o.1 ∧ Apart i d o.2 o'.2

/-- Machines that remain alike keep the sessions apart. -/
theorem resume (h : Apart i d s s') {m m' : Machine} {log : Log} (hlog : log.Plain)
    (hm : (apart i d s.nextId s.machine.distances s'.machine.distances h.agree s.machine.natives
      h.discreet).Machines m m') : Apart i d ⟨m, log, s.nextId⟩ ⟨m', log, s'.nextId⟩ where
  le := h.le
  nextId := h.nextId
  log := rfl
  plain := hlog
  agree := by
    rw [hm.distances, hm.distances']
    exact h.agree
  unrecorded := by
    rw [hm.distances]
    exact h.unrecorded
  unrecorded' := by
    rw [hm.distances']
    exact h.unrecorded'
  discreet := by
    rw [hm.natives]
    exact h.discreet
  machines := hm.rebind (fun _ _ hk => hk) rfl hm.natives rfl

/-- Both run on, with the same output and the same fault. -/
theorem interpret (h : Apart i d s s') (n : Nat) {program : List Stmt}
    (hp : Stmt.FromAll (Shifted i d s.nextId d) (fun _ => 0 = 0) program) :
    Sequels i d (s.interpret n program) (s'.interpret n (Stmt.movedAll 0 d program)) := by
  have hanswers := Likeness.program_matches _ n hp _ _ h.machines
  rw [Session.interpret, Session.interpret, h.log]
  generalize (Run.program n program).run s.machine = o,
    (Run.program n (Stmt.movedAll 0 d program)).run s'.machine = o' at hanswers
  cases hanswers with
  | none => exact .none
  | ok _ hm => exact .some ⟨rfl, h.resume h.plain hm⟩
  | fault hf hm =>
      obtain ⟨k, t, rfl, hline, rfl⟩ := hf
      refine .some ⟨rfl, ?_⟩
      rw [Nat.add_zero, ← hline]
      exact h.resume (h.plain.reportAll [_]) hm

/-- A source ends in both in the same way. -/
theorem run (h : Apart i d s s') (n : Nat) (source : String) :
    Sequels i d (s.run n source) (s'.run n source) := by
  have hp := h.parsed source
  rw [run_eq, run_eq, hp.log]
  cases hs : (s.parsed source).log.hadError with
  | true => exact .some ⟨rfl, hp⟩
  | false =>
      have hb := h.bound source hs
      rw [hb.log]
      cases (s.bound source).log.hadError with
      | true => exact .some ⟨rfl, hb⟩
      | false =>
          have hfrom : Stmt.FromAll (Shifted i d (s.bound source).nextId d) (fun _ => 0 = 0)
              (s.programOf source) := by
            refine Stmt.FromAll.desugar _ ((s.reads_of_clean source hs).from ?_ fun _ _ => rfl)
            intro id hle hlt
            exact ⟨hlt, (if_neg (Nat.not_lt.mpr (Nat.le_trans h.le hle))).symm⟩
          have hend := hb.interpret n hfrom
          rw [← h.programOf source] at hend
          exact hend

theorem register (h : Apart i d s s') {native : Native} (hn : native.Discreet) :
    Apart i d (s.register native) (s'.register native) where
  le := h.le
  nextId := h.nextId
  log := h.log
  plain := h.plain
  agree := h.agree
  unrecorded := h.unrecorded
  unrecorded' := h.unrecorded'
  discreet := by
    intro other ho
    rcases Array.mem_push.mp ho with ho | rfl
    · exact h.discreet other ho
    · exact hn
  machines := by
    have hm := h.machines
    have hsize : s'.machine.natives = s.machine.natives := hm.natives'
    refine ⟨?_, hm.globals, hm.current, rfl, rfl, rfl, ?_, hm.functions, hm.output⟩
    · show Store.Alike _ _ (s'.machine.store.define s'.machine.globals _ _)
      rw [hm.globals, hsize]
      exact hm.store.define _ _ (.native ..)
    · exact congrArg (·.push native) hsize

/-- Whatever is called, both answer the same and remain apart. -/
theorem call? (h : Apart i d s s') {call : Call} (hc : call.Discreet) :
    Sequels i d (s.call? call) (s'.call? call) := by
  cases call with
  | run fuel source =>
      have hrun := h.run fuel source
      rw [Session.call?, Session.call?]
      generalize s.run fuel source = o, s'.run fuel source = o' at hrun
      cases hrun with
      | none => exact .none
      | some ho => exact .some ⟨congrArg Reply.status ho.1, ho.2⟩
  | tokenize source =>
      refine .some ⟨rfl, ?_⟩
      show Apart i d ⟨_, s.log.reportAll _, _⟩ ⟨_, s'.log.reportAll _, _⟩
      rw [h.log]
      exact h.resume (h.plain.reportAll _) h.machines
  | takeDiagnostics =>
      exact .some ⟨congrArg (fun log : Log => Reply.diagnostics log.held) h.log,
        h.resume rfl h.machines⟩
  | register native => exact .some ⟨rfl, h.register hc⟩

/-- After one call as after another the same is seen of both. -/
theorem callAll? (h : Apart i d s s') {calls : List Call} (hc : ∀ call ∈ calls, call.Discreet) :
    Sequels i d (s.callAll? calls) (s'.callAll? calls) := by
  induction calls generalizing s s' with
  | nil => exact .some ⟨rfl, h⟩
  | cons call calls ih =>
      obtain ⟨hcall, hcalls⟩ := List.forall_mem_cons.mp hc
      have hnext := h.call? hcall
      rw [Session.callAll?, Session.callAll?]
      generalize s.call? call = o, s'.call? call = o' at hnext
      cases hnext with
      | none => exact .none
      | @some o o' ho =>
          obtain ⟨reply, t⟩ := o
          obtain ⟨reply', t'⟩ := o'
          obtain ⟨rfl, ht⟩ := ho
          have hrest := ih ht hcalls
          show Sequels i d ((t.callAll? calls).bind _) ((t'.callAll? calls).bind _)
          generalize t.callAll? calls = r, t'.callAll? calls = r' at hrest
          cases hrest with
          | none => exact .none
          | some hr =>
              refine .some ⟨?_, hr.2⟩
              have houtput : t'.machine.output = t.machine.output :=
                ht.machines.output.trans String.empty_append
              show Seen.mk _ _ _ :: _ = Seen.mk _ _ _ :: _
              rw [houtput, ht.log, hr.1]

theorem seen_eq (h : Apart i d s s') {calls : List Call} (hc : ∀ call ∈ calls, call.Discreet) :
    (s'.callAll? calls).map Prod.fst = (s.callAll? calls).map Prod.fst := by
  have hseen := h.callAll? hc
  generalize s.callAll? calls = o, s'.callAll? calls = o' at hseen
  cases hseen with
  | none => rfl
  | some ho => exact congrArg some ho.1

/-- Numbers that are used up part a session from itself. -/
theorem part (h : Apart 0 0 s s) {distances : Distances} {j : Nat} (hj : s.nextId ≤ j)
    (hd : ∀ id, id < s.nextId ∨ j ≤ id → distances.find? id = s.machine.distances.find? id) :
    Apart s.nextId (j - s.nextId) s ⟨{ s.machine with distances := distances }, s.log, j⟩ where
  le := Nat.le_refl _
  nextId := (Nat.add_sub_of_le hj).symm
  log := rfl
  plain := h.plain
  agree k id hk := by
    obtain ⟨hid, rfl⟩ := hk
    rw [if_pos hid]
    exact hd id (.inl hid)
  unrecorded := h.unrecorded
  unrecorded' id hid := (hd id (.inr hid)).trans (h.unrecorded id (Nat.le_trans hj hid))
  discreet := h.discreet
  machines := by
    refine h.machines.rebind (fun k id hk => ?_) rfl rfl rfl
    obtain ⟨hid, rfl⟩ := hk
    exact ⟨hid, by rw [if_pos hid, if_neg (Nat.not_lt_zero id)]⟩

end Apart

/-! ## From the new session on -/

/-- A session is no way apart from itself. -/
theorem apart_new {clock : Native} (hclock : clock.Discreet) :
    Apart 0 0 (new clock) (new clock) := by
  have hbare : Apart 0 0 ⟨.bare, .empty, 0⟩ ⟨.bare, .empty, 0⟩ := {
    le := Nat.le_refl 0
    nextId := rfl
    log := rfl
    plain := rfl
    agree := fun _ _ _ => rfl
    unrecorded := fun _ _ => rfl
    unrecorded' := fun _ _ => rfl
    discreet := fun native h => by cases Array.mem_def.mp h
    machines := {
      store := Store.Alike.push ⟨rfl, fun _ => rfl, fun _ _ => .none⟩ none
      globals := rfl
      current := rfl
      distances := rfl
      distances' := rfl
      natives := rfl
      natives' := rfl
      functions := rfl
      output := rfl } }
  exact hbare.register hclock

theorem apart_reached {clock : Native} (hclock : clock.Discreet) {calls : List Call}
    (hcalls : ∀ call ∈ calls, call.Discreet) {seen : List Seen} {s : Session}
    (hs : (new clock).callAll? calls = some (seen, s)) : Apart 0 0 s s := by
  have h := (apart_new hclock).callAll? hcalls
  rw [hs] at h
  cases h with
  | some h => exact h.2

/-- What a rejected source leaves behind: numbers that are used up, and distances for
nodes with these numbers. -/
theorem rejected_cases {s t : Session} {n : Nat} {source : String}
    (h : s.run n source = some (.compileError, t)) :
    ∃ distances log,
      t = ⟨{ s.machine with distances := distances }, log, (s.readOf source).nextId⟩ ∧
      ∀ id, id < s.nextId ∨ (s.readOf source).nextId ≤ id →
        distances.find? id = s.machine.distances.find? id := by
  rw [run_eq] at h
  cases hp : (s.parsed source).log.hadError with
  | true =>
      rw [hp, if_pos rfl] at h
      cases h
      exact ⟨s.machine.distances, _, rfl, fun _ _ => rfl⟩
  | false =>
      rw [hp, if_neg Bool.false_ne_true] at h
      cases hb : (s.bound source).log.hadError with
      | true =>
          rw [hb, if_pos rfl] at h
          cases h
          exact ⟨(s.walked source).distances, _, rfl, fun id hid => find?_bound s source hp hid⟩
      | false =>
          rw [hb, if_neg Bool.false_ne_true, interpret] at h
          split at h <;> cases h

/-- A rejected source is invisible afterwards: whatever is called later on, the answers,
what is printed and the diagnostics held are what they would be without it. It has
printed nothing and has neither made nor changed a variable; what it has done is to use
up numbers and to record distances. -/
theorem rejected_invisible {clock : Native} (hclock : clock.Discreet) {earlier : List Call}
    (hearlier : ∀ call ∈ earlier, call.Discreet) {seen : List Seen} {s t : Session}
    (hs : (new clock).callAll? earlier = some (seen, s)) (hheld : s.log.held = []) {n : Nat}
    {source : String} (h : s.run n source = some (.compileError, t)) :
    t.machine = { s.machine with distances := t.machine.distances } ∧ s.nextId ≤ t.nextId ∧
      ∀ later : List Call, (∀ call ∈ later, call.Discreet) →
        (t.takeDiagnostics.2.callAll? later).map Prod.fst = (s.callAll? later).map Prod.fst := by
  have hself := apart_reached hclock hearlier hs
  obtain ⟨distances, log, rfl, hdistances⟩ := rejected_cases h
  have hle : s.nextId ≤ (s.readOf source).nextId := Parsed.le_nextId _ _
  refine ⟨rfl, hle, fun later hlater => ?_⟩
  have hapart := hself.part hle hdistances
  rw [hself.plain.eq_empty hheld] at hapart
  exact hapart.seen_eq hlater

/-- A source is rejected when half of it has been bound, and then a function is called
that was declared before. -/
theorem rejected_return_invisible :
    let earlier := [Call.run 40 "var a = \"x\"; fun f() \x7b print a; a = nil; \x7d"]
    let source := "\x7b var b = a; b = f; \x7d return b;"
    let later := [Call.run 40 "\x7b var c = f; c(); c(); \x7d a();", .takeDiagnostics]
    ∃ s t : Session, ((new (.clock 0)).callAll? earlier).map Prod.snd = some s ∧
      s.run 40 source = some (.compileError, t) ∧
      (s.nextId, s.machine.distances, t.nextId, t.machine.distances) = (3, [], 8, [(6, 0)]) ∧
      (t.takeDiagnostics.2.callAll? later).map Prod.fst = (s.callAll? later).map Prod.fst := by
  intro earlier source later
  have hstart : ((new (.clock 0)).callAll? earlier).map
      (fun o => (o.2.log.held, o.2.nextId, o.2.machine.distances)) = some ([], 3, []) := by
    decide +kernel
  have hend : ((new (.clock 0)).callAll? earlier).bind (fun o => (o.2.run 40 source).map fun r =>
      (r.1, r.2.nextId, r.2.machine.distances)) = some (.compileError, 8, [(6, 0)]) := by
    decide +kernel
  obtain ⟨⟨seen, s⟩, hs, hfacts⟩ := Option.map_eq_some_iff.mp hstart
  rw [hs] at hend
  obtain ⟨⟨status, t⟩, ht, hfacts'⟩ := Option.map_eq_some_iff.mp hend
  simp only [Prod.mk.injEq] at hfacts hfacts'
  obtain ⟨hheld, hid, hdistances⟩ := hfacts
  obtain ⟨rfl, hid', hdistances'⟩ := hfacts'
  have hdiscreet : ∀ call ∈ earlier ++ later, call.Discreet := by
    simp [earlier, later, Call.Discreet]
  obtain ⟨hearlier, hlater⟩ := List.forall_mem_append.mp hdiscreet
  refine ⟨s, t, congrArg (Option.map Prod.snd) hs, ht, ?_, ?_⟩
  · rw [hid, hdistances, hid', hdistances']
  · exact (rejected_invisible (Native.discreet_clock 0) hearlier hs hheld ht).2.2 later hlater

end Session

end Lox
