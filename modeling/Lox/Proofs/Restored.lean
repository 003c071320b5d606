import Lox.Proofs.Endings
import Lox.Proofs.Machine.Kept
import Lox.Proofs.Split

/-!
# The scope in force is restored

Blocks and calls go into scopes of their own. However they are left, through their end, by
a return or by a fault from any depth, the scope in force behind them is the one before
them. So between the calls on a session the global scope is in force, whatever has been
run and whatever has stopped it.
-/

namespace Lox

/-- What is the same behind a run as before it: the scope in force, the global scope and the
recorded distances; and what had been printed is still there, with more behind it. -/
structure Machine.Stays (m m' : Machine) : Prop where
  current : m'.current = m.current
  globals : m'.globals = m.globals
  distances : m'.distances = m.distances
  output : ∃ text, m'.output = m.output ++ text

namespace Machine

theorem Stays.refl (m : Machine) : m.Stays m := ⟨rfl, rfl, rfl, "", String.append_empty.symm⟩

theorem Stays.trans {m₁ m₂ m₃ : Machine} (h : m₁.Stays m₂) (h' : m₂.Stays m₃) : m₁.Stays m₃ where
  current := h'.current.trans h.current
  globals := h'.globals.trans h.globals
  distances := h'.distances.trans h.distances
  output := by
    obtain ⟨text, ht⟩ := h.output
    obtain ⟨text', ht'⟩ := h'.output
    exact ⟨text ++ text', by rw [ht', ht, String.append_assoc]⟩

/-- Nothing but going into a new scope concerns what stays, and that is undone. -/
theorem kept_stays : Kept Stays where
  refl := Stays.refl
  trans := Stays.trans
  print _ text := ⟨rfl, rfl, rfl, text, rfl⟩
  define m _ _ := ⟨rfl, rfl, rfl, (Stays.refl m).output⟩
  write m _ _ _ _ := ⟨rfl, rfl, rfl, (Stays.refl m).output⟩
  close m := ⟨rfl, rfl, rfl, (Stays.refl m).output⟩
  leave _ _ _ _ h := ⟨rfl, h.globals, h.distances, h.output⟩

end Machine

namespace Session

open Machine

/-- Only the program moves on to other scopes, and it comes back. -/
theorem current_of_run {s t : Session} {fuel : Nat} {source : String} {status : Status}
    (h : s.run fuel source = some (status, t)) :
    t.machine.current = s.machine.current ∧ t.machine.globals = s.machine.globals := by
  rcases machine_of_run h with ht | ⟨-, ht | ⟨result, hm⟩⟩
  · rw [ht]
    exact ⟨rfl, rfl⟩
  · rw [ht]
    exact ⟨rfl, rfl⟩
  · have hstays := Run.program_keeps kept_stays _ _ _ _ _ hm
    exact ⟨hstays.current, hstays.globals⟩

theorem Reached.current {clock : Native} {s : Session} (hs : Reached clock s) :
    s.machine.current = s.machine.globals := by
  induction hs with
  | new => rfl
  | run _ h ih =>
      obtain ⟨hcurrent, hglobals⟩ := current_of_run h
      rw [hcurrent, hglobals, ih]
  | parse _ _ ih => exact ih
  | tokenize _ _ ih => exact ih
  | takeDiagnostics _ ih => exact ih
  | register _ _ ih => exact ih

end Session

/-- Whichever way the evaluation of an expression or the execution of a statement ends, the
scope in force, the global scope and the recorded distances are what they were, and output
has only been added. So in a session the global scope is in force between any two calls. -/
theorem scope_in_force_restored :
    (∀ n e m result m', (Run.evaluate n e).run m = some (result, m') → m.Stays m') ∧
    (∀ n s m result m', (Run.execute n s).run m = some (result, m') → m.Stays m') ∧
    ∀ clock s, Session.Reached clock s → s.machine.current = s.machine.globals :=
  ⟨fun n e => (Run.keeping Machine.kept_stays n).evaluate e,
    fun n s => (Run.keeping Machine.kept_stays n).execute s, fun _ _ hs => hs.current⟩

/-- A function returns from a block in a loop, or fails there. Either way the caller goes on
in the scope it called from. -/
theorem caller_scope_restored :
    let name : Token := ⟨.identifier, "f", 1⟩
    let callOf (argument : Bool) : Expr :=
      .call (.variable 100 name) ⟨.rightParen, ")", 1⟩ [.literal (.bool argument)]
    let source := "fun f(x) \x7b while (true) \x7b print x; if (x) return x; -x; \x7d \x7d"
    ∃ (s : Session) (m₁ m₂ : Machine), Session.Reached (.clock 0) s ∧
      (Session.new (.clock 0)).run 20 source = some (.ok, s) ∧
      (Run.evaluate 20 (callOf true)).run s.machine = some (.ok (.bool true), m₁) ∧
      (Run.execute 20 (.block [.expression (callOf false)])).run s.machine =
        some (.error ⟨.operandNotNumber, 1⟩, m₂) ∧
      s.machine.current = s.machine.globals ∧ s.machine.Stays m₁ ∧ s.machine.Stays m₂ ∧
      m₁.output = "true\n" ∧ m₂.output = "false\n" := by
  intro name callOf source
  have hruns : ((Session.new (.clock 0)).run 20 source).any (fun o => o.1 = .ok &&
      (((Run.evaluate 20 (callOf true)).run o.2.machine).any fun a =>
        a.1.map (Value.equals (.bool true)) = .ok true && a.2.output = "true\n") &&
      (((Run.execute 20 (.block [.expression (callOf false)])).run o.2.machine).any fun a =>
        a.1.map (fun _ => ()) = .error ⟨.operandNotNumber, 1⟩ && a.2.output = "false\n")) =
      true := by
    decide +kernel
  simp only [Option.any_eq_true, Bool.and_eq_true, decide_eq_true_eq] at hruns
  obtain ⟨⟨_, s⟩, hs, ⟨rfl, ⟨result₁, m₁⟩, h₁, hresult₁, hout₁⟩, ⟨result₂, m₂⟩, h₂, hresult₂,
    hout₂⟩ := hruns
  have hreached : Session.Reached (.clock 0) s := .run .new hs
  obtain ⟨hevaluate, hexecute, hsession⟩ := scope_in_force_restored
  obtain rfl : result₁ = .ok (.bool true) := by
    rcases result₁ with fault | value
    · cases hresult₁
    · have hvalue : Value.equals (.bool true) value = true := Except.ok.inj hresult₁
      cases value with
      | bool value => rw [← show true = value from of_decide_eq_true hvalue]
      | _ => cases hvalue
  obtain rfl : result₂ = .error ⟨.operandNotNumber, 1⟩ := by
    rcases result₂ with fault | completion
    · exact congrArg Except.error (Except.error.inj hresult₂)
    · cases hresult₂
  exact ⟨s, m₁, m₂, hreached, hs, h₁, h₂, hsession _ s hreached, hevaluate _ _ _ _ _ h₁,
    hexecute _ _ _ _ _ h₂, hout₁, hout₂⟩

end Lox
