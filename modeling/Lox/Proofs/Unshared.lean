import Lox.Proofs.Parser.Fresh
import Lox.Proofs.Parser.Spent
import Lox.Proofs.Restored

/-!
# Numbers are never shared

A session goes on numbering where it was, whether what it has read was in order or not. So
over all the calls on one session the nodes of the programs that were read have numbers of
their own, those of each call between the next number before the call and the one behind
it. And since the resolver records distances for the nodes of its program alone, it leaves
those of the programs before as they are.
-/

namespace Lox.Session

/-- A call that has read a source, with the session before it and the one behind it. -/
structure Reading where
  source : String
  before : Session
  after : Session

namespace Reading

/-- The statements that were read. -/
def program (r : Reading) : List Stmt := r.before.programOf r.source

/-- The faults that were reported by the parser. -/
def faults (r : Reading) : List Parse.Fault := (r.before.readOf r.source).faults

/-- The numbers of the nodes that were read. -/
def nodeIds (r : Reading) : List NodeId := Stmt.nodeIdsAll r.program

end Reading

/-- Calls one behind the other, with what those of them have read that read a source. -/
inductive Calls (s : Session) : List Reading → Session → Prop
  | none : Calls s [] s
  | parse {readings : List Reading} {u : Session} (h : Calls s readings u) (source : String) :
    Calls s (readings ++ [⟨source, u, (u.parse source).2⟩]) (u.parse source).2
  | run {readings : List Reading} {u t : Session} {fuel : Nat} {source : String} {status : Status}
    (h : Calls s readings u) (hrun : u.run fuel source = some (status, t)) :
    Calls s (readings ++ [⟨source, u, t⟩]) t
  | tokenize {readings : List Reading} {u : Session} (h : Calls s readings u) (source : String) :
    Calls s readings (u.tokenize source).2
  | takeDiagnostics {readings : List Reading} {u : Session} (h : Calls s readings u) :
    Calls s readings u.takeDiagnostics.2
  | takeOutput {readings : List Reading} {u : Session} (h : Calls s readings u) :
    Calls s readings u.takeOutput.2
  | register {readings : List Reading} {u : Session} (h : Calls s readings u) (native : Native) :
    Calls s readings (u.register native)

/-! ## One call -/

section Run

variable {s t : Session} {fuel : Nat} {source : String} {status : Status}

/-- However a run ends, the numbers go on behind those of its source. -/
theorem nextId_of_run (h : s.run fuel source = some (status, t)) :
    t.nextId = (s.readOf source).nextId := by
  cases run_exit h <;> rfl

/-- However a run ends, nothing has been recorded for the nodes that were there before. -/
theorem find?_of_run (h : s.run fuel source = some (status, t)) {id : NodeId}
    (hid : id < s.nextId) : t.machine.distances.find? id = s.machine.distances.find? id := by
  rcases machine_of_run h with ht | ⟨hp, ht⟩
  · rw [ht]
  · have hbound := find?_bound s source hp (.inl hid)
    rcases ht with ht | ⟨result, hm⟩
    · rw [ht]
      exact hbound
    · have hstays := Run.program_keeps Machine.kept_stays _ _ _ _ _ hm
      rw [hstays.distances]
      exact hbound

end Run

/-- What a call has read has numbers between the one next before it and the one next behind. -/
structure Reading.Numbered (r : Reading) : Prop where
  spans : Spans r.nodeIds r.before.nextId r.after.nextId
  spent : r.faults = [] → r.after.nextId =
    r.before.nextId + Stmt.readsIn r.program + 2 * Stmt.writesIn r.program

/-- Only the next number behind the call is asked for, so all calls that read are alike. -/
theorem Reading.Numbered.of_nextId {s t : Session} {source : String}
    (ht : t.nextId = (s.readOf source).nextId) : Numbered ⟨source, s, t⟩ where
  spans := by
    rw [ht]
    exact (Parsed.spans_ofTokens _ _).perm (Stmt.nodeIds_desugarAll _)
  spent hfaults := by
    rw [ht, Reading.program, programOf_eq, Stmt.readsIn, Stmt.writesIn,
      Stmt.tallyAll_desugarAll, Stmt.tallyAll_desugarAll]
    exact Parsed.spent_ofTokens hfaults

/-! ## Any number of calls -/

section Calls

variable {s t u : Session} {readings later : List Reading}

theorem Calls.numbered (h : s.Calls readings t) : ∀ r ∈ readings, r.Numbered := by
  induction h with
  | none => exact fun _ hr => nomatch hr
  | parse _ source ih =>
      exact List.forall_mem_append.mpr ⟨ih, List.forall_mem_singleton.mpr (.of_nextId rfl)⟩
  | run _ hrun ih =>
      exact List.forall_mem_append.mpr
        ⟨ih, List.forall_mem_singleton.mpr (.of_nextId (nextId_of_run hrun))⟩
  | tokenize _ _ ih | takeDiagnostics _ ih | takeOutput _ ih | register _ _ ih => exact ih

/-- The numbers of all calls together are given out upwards. -/
theorem Calls.spans (h : s.Calls readings t) :
    Spans (readings.flatMap Reading.nodeIds) s.nextId t.nextId := by
  have happend (readings : List Reading) (r : Reading)
      (ih : Spans (readings.flatMap Reading.nodeIds) s.nextId r.before.nextId) (hr : r.Numbered) :
      Spans ((readings ++ [r]).flatMap Reading.nodeIds) s.nextId r.after.nextId := by
    rw [List.flatMap_append, List.flatMap_singleton]
    exact ih.append hr.spans
  induction h with
  | none => exact .nil _
  | parse _ source ih => exact happend _ _ ih (.of_nextId rfl)
  | run _ hrun ih => exact happend _ _ ih (.of_nextId (nextId_of_run hrun))
  | tokenize _ _ ih | takeDiagnostics _ ih | takeOutput _ ih | register _ _ ih => exact ih

theorem Calls.find? (h : s.Calls readings t) {id : NodeId} (hid : id < s.nextId) :
    t.machine.distances.find? id = s.machine.distances.find? id := by
  induction h with
  | none => rfl
  | run h hrun ih => exact (find?_of_run hrun (Nat.lt_of_lt_of_le hid h.spans.le)).trans ih
  | parse _ _ ih | tokenize _ _ ih | takeDiagnostics _ ih | takeOutput _ ih | register _ _ ih =>
      exact ih

/-- Whatever is called on a session, sources with errors among it, no two nodes of all the
programs that are read have the same number; those of a call lie between the next number before
the call and the one behind it; and a call without a fault of the parser takes one number for
each node that reads a variable and two for each that writes one. So the calls that come later
leave the distances of the nodes that were read earlier as they are. -/
theorem numbers_never_shared (h : s.Calls readings u) (h' : u.Calls later t) :
    ((readings ++ later).flatMap Reading.nodeIds).Nodup ∧
    (∀ r ∈ readings ++ later,
      (∀ id ∈ r.nodeIds, r.before.nextId ≤ id ∧ id < r.after.nextId) ∧
      (r.faults = [] → r.after.nextId =
        r.before.nextId + Stmt.readsIn r.program + 2 * Stmt.writesIn r.program)) ∧
    ∀ r ∈ readings, ∀ id ∈ r.nodeIds,
      t.machine.distances.find? id = u.machine.distances.find? id := by
  refine ⟨?_, fun r hr => ?_, fun r hr id hid => ?_⟩
  · rw [List.flatMap_append]
    exact (h.spans.append h'.spans).nodup
  · have hnumbered := (List.mem_append.mp hr).elim (h.numbered r) (h'.numbered r)
    exact ⟨hnumbered.spans.bounds, hnumbered.spent⟩
  · exact h'.find? (h.spans.bounds id (List.mem_flatMap.mpr ⟨r, hr, hid⟩)).2

end Calls

/-- Behind a source that is broken, with numbers lost in it, a node of the next source has its
distance when it has been run, and still has it when another source has been run. -/
theorem numbers_apart_behind_errors :
    let s := new (.clock 0)
    let broken := "a = b = nil; \x7b print c"
    let p := (s.parse broken).2.takeDiagnostics.2
    let inner := "\x7b var a = nil; a = a; print a; \x7d"
    let again := "\x7b var b = nil; print b; \x7d"
    ∃ u t : Session, p.run 30 inner = some (.ok, u) ∧ u.run 30 again = some (.ok, t) ∧
      Stmt.nodeIdsAll (s.programOf broken) = [3, 2] ∧ p.nextId = 5 ∧
      Stmt.nodeIdsAll (p.programOf inner) = [7, 6, 8] ∧ u.nextId = 5 + 2 + 2 * 1 ∧
      (([⟨broken, s, (s.parse broken).2⟩, ⟨inner, p, u⟩] ++
        [⟨again, u, t⟩] : List Reading).flatMap Reading.nodeIds).Nodup ∧
      t.machine.distances.find? 8 = some 0 := by
  intro s broken p inner again
  have hbroken : Stmt.nodeIdsAll (s.programOf broken) = [3, 2] ∧ p.nextId = 5 := by
    decide +kernel
  have hinner : Stmt.nodeIdsAll (p.programOf inner) = [7, 6, 8] ∧
      (p.readOf inner).faults = [] ∧ Stmt.readsIn (p.programOf inner) = 2 ∧
      Stmt.writesIn (p.programOf inner) = 1 := by
    decide +kernel
  have hruns : (p.run 30 inner).bind (fun o => (o.2.run 30 again).map fun r =>
      (o.1, r.1, o.2.machine.distances.find? 8)) = some (.ok, .ok, some 0) := by
    decide +kernel
  obtain ⟨⟨status, u⟩, hu, hrest⟩ := Option.bind_eq_some_iff.mp hruns
  obtain ⟨⟨status', t⟩, ht, heq⟩ := Option.map_eq_some_iff.mp hrest
  simp only [Prod.mk.injEq] at heq
  obtain ⟨rfl, rfl, hdistance⟩ := heq
  have hcalls : s.Calls [⟨broken, s, (s.parse broken).2⟩, ⟨inner, p, u⟩] u :=
    ((Calls.none.parse broken).takeDiagnostics).run hu
  have hlater : u.Calls [⟨again, u, t⟩] t := Calls.none.run ht
  obtain ⟨hnodup, hreadings, hfind⟩ := numbers_never_shared hcalls hlater
  have hspent := (hreadings ⟨inner, p, u⟩ (by simp)).2 hinner.2.1
  have hmem : 8 ∈ Reading.nodeIds ⟨inner, p, u⟩ := by
    show 8 ∈ Stmt.nodeIdsAll (p.programOf inner)
    rw [hinner.1]
    decide
  refine ⟨u, t, hu, ht, hbroken.1, hbroken.2, hinner.1, ?_, hnodup,
    (hfind ⟨inner, p, u⟩ (by simp) 8 hmem).trans hdistance⟩
  rw [hspent]
  show p.nextId + Stmt.readsIn (p.programOf inner) + 2 * Stmt.writesIn (p.programOf inner) = _
  rw [hbroken.2, hinner.2.2.1, hinner.2.2.2]

end Lox.Session
