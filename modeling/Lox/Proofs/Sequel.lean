import Lox.Proofs.Machine.Fuel
import Lox.Proofs.Machine.Lockstep
import Lox.Proofs.Machine.TopLevel
import Lox.Proofs.Parser.Moved
import Lox.Proofs.Scoping.Moved
import Lox.Proofs.Session

/-!
# Sources run one behind the other

A source that is run behind another one in a session does what it does as the second
part of one text: it is read as the same program, bound to the same distances, and run
with machines that are alike.
-/

namespace Lox.Session

/-! ## Sources that are in order -/

theorem readable_tokensOf (source : String) :
    Parsed.readable (tokensOf source) = Token.wordsOf source := by
  rw [tokensOf, Token.tokens_scan, Parsed.readable, List.takeWhile_append_of_pos]
  · exact List.append_nil _
  · intro t ht
    exact decide_eq_true (Token.kind_of_mem_wordsOf ht)

variable {s t : Session} {source tail : String}

theorem readOf_eq {body : List Stmt} {j : NodeId}
    (h : Parse.Reads (.declarations false) (Token.wordsOf source) s.nextId body j) :
    s.readOf source = ⟨body, [], j⟩ := by
  rw [readOf, Parsed.ofTokens_iff_reads, readable_tokensOf]
  exact h

/-- Nothing keeps the source from being run. -/
def Accepts (s : Session) (source : String) : Prop := (s.bound source).log.hadError = false

instance : Decidable (s.Accepts source) := inferInstanceAs (Decidable (_ = false))

/-- What it takes, stage by stage. -/
structure InOrder (s : Session) (source : String) : Prop where
  log : s.log.hadError = false
  scan : Token.faults (Token.scan source) = []
  read : (s.readOf source).faults = []
  walk : (s.walked source).faults = []

theorem accepts_iff : s.Accepts source ↔ s.InOrder source := by
  rw [Accepts, clean_bound, clean_parsed]
  constructor
  · intro h
    exact ⟨h.1.1, h.1.2.1, h.1.2.2, h.2⟩
  · intro h
    exact ⟨⟨h.log, h.scan, h.read⟩, h.walk⟩

theorem Accepts.clean (h : s.Accepts source) : (s.parsed source).log.hadError = false :=
  ((s.clean_bound source).mp h).1

theorem Accepts.reads (h : s.Accepts source) :
    Parse.Reads (.declarations false) (Token.wordsOf source) s.nextId
      (s.readOf source).statements (s.readOf source).nextId := by
  rw [← readable_tokensOf]
  exact s.reads_of_clean source h.clean

theorem Accepts.linked (h : s.Accepts source) (hd : s.machine.distances = []) :
    ∃ recorded, Stmt.LinkedAll recorded false [] (s.programOf source) := by
  obtain ⟨hspans, -, hlinks⟩ := s.links_of_clean source h.clean
  refine ⟨fun id found => found = (s.walked source).distances.find? id,
    hlinks (accepts_iff.mp h).walk hspans.nodup ?_ _ fun id _ => rfl⟩
  rw [hd]
  exact fun _ _ => rfl

theorem Accepts.log_bound (h : s.Accepts source) : (s.bound source).log = s.log := by
  obtain ⟨-, hscan, hread, hwalk⟩ := accepts_iff.mp h
  show Log.reportAll (Log.reportAll (Log.reportAll s.log
    ((Token.faults (Token.scan source)).map _)) ((s.readOf source).faults.map _))
      ((s.walked source).faults.map _) = s.log
  rw [hscan, hread, hwalk]
  rfl

theorem Accepts.walked_eq (h : s.Accepts source) :
    s.walked source = ⟨[], (s.walked source).distances, []⟩ := by
  have hscopes : (s.walked source).scopes = [] :=
    Binding.scopes_program h.reads.proper s.machine.distances
  rw [← hscopes, ← (accepts_iff.mp h).walk]

/-! ## Reading and binding a second source -/

/-- A source that a new session accepts is accepted by any, as the same program with its
nodes numbered from further up. -/
theorem Accepts.elsewhere (h : s.Accepts tail) (hid : s.nextId = 0)
    (hd : s.machine.distances = []) (ht : t.log.hadError = false) : t.Accepts tail := by
  have hreads := h.reads.moved (k := 0) (d := t.nextId)
  rw [hid, Nat.zero_add, Token.map_later_zero] at hreads
  have hread := readOf_eq hreads
  have hwalk : t.walked tail = (s.walked tail).moved 0 t.nextId t.machine.distances := by
    rw [walked, programOf_eq, hread]
    show Binding.program (Stmt.desugarAll (Stmt.movedAll 0 t.nextId _)) _ = _
    rw [Stmt.desugarAll_moved, walked, hd]
    exact Binding.statements_moved 0 t.nextId t.machine.distances false _ ⟨[], [], []⟩
  refine accepts_iff.mpr ⟨ht, (accepts_iff.mp h).scan, ?_, ?_⟩
  · rw [hread]
  · rw [hwalk, h.walked_eq]
    rfl

/-- The number of lines by which the second source stands further down. -/
def linesOf (source : String) : Nat := 1 + source.toList.count '\n'

section Joined

variable (hs : s.Accepts source) (ht : (s.bound source).Accepts tail)
include hs ht

theorem readOf_joined : s.readOf (source ++ "\n" ++ tail) =
    ⟨(s.readOf source).statements ++
      Stmt.movedAll (linesOf source) 0 ((s.bound source).readOf tail).statements,
      [], ((s.bound source).readOf tail).nextId⟩ := by
  have htail := ht.reads.moved (k := linesOf source) (d := 0)
  rw [nextId_bound] at htail
  refine readOf_eq ?_
  rw [Token.wordsOf_join (accepts_iff.mp hs).scan]
  exact hs.reads.declarations_append htail

/-- The program of two sources is that of the one and, further down, that of the other. -/
theorem programOf_joined : s.programOf (source ++ "\n" ++ tail) =
    s.programOf source ++
      Stmt.movedAll (linesOf source) 0 ((s.bound source).programOf tail) := by
  rw [programOf_eq, readOf_joined hs ht, Stmt.desugarAll_append, Stmt.desugarAll_moved]
  rfl

theorem walked_joined : s.walked (source ++ "\n" ++ tail) =
    ((s.bound source).walked tail).moved (linesOf source) 0 [] := by
  have hstart : s.walked source =
      (Binding.State.mk [] (s.walked source).distances []).moved (linesOf source) 0 [] := by
    rw [hs.walked_eq]
    simp [Binding.State.moved]
  rw [walked, programOf_joined hs ht, Binding.program, Binding.statements_append]
  show Binding.statements false _ (s.walked source) = _
  rw [hstart]
  exact Binding.statements_moved _ 0 [] false _ _

/-- What is bound in two steps is bound in one. -/
theorem distances_joined : (s.walked (source ++ "\n" ++ tail)).distances =
    ((s.bound source).walked tail).distances := by
  rw [walked_joined hs ht]
  simp [Binding.State.moved]

theorem accepts_joined : s.Accepts (source ++ "\n" ++ tail) := by
  obtain ⟨hlog, hscan, -, -⟩ := accepts_iff.mp hs
  refine accepts_iff.mpr ⟨hlog, Token.faults_join hscan tail (accepts_iff.mp ht).scan, ?_, ?_⟩
  · rw [readOf_joined hs ht]
  · rw [walked_joined hs ht, ht.walked_eq]
    rfl

omit hs in
/-- The nodes of the first source keep their distances. -/
theorem find?_joined {id : NodeId} (h : id < (s.bound source).nextId) :
    ((s.bound source).walked tail).distances.find? id =
      (s.walked source).distances.find? id := by
  obtain ⟨hspans, hwalk, -⟩ := (s.bound source).links_of_clean tail ht.clean
  exact hwalk.outside id fun hmem => absurd (hspans.bounds id hmem).1 (Nat.not_le_of_lt h)

end Joined

end Lox.Session
