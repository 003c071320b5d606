import Lox.Machine
import Lox.Native.Library
import Lox.Proofs.Lists

/-!
# What values show

A declared function shows its name and the number of its parameters; what its body says
shows only when it is called. Values that differ in the declarations of functions and
show the same are alike. A native function is discreet if it makes no difference between
values that are alike.
-/

namespace Lox

/-- What a declared function shows of its declaration. -/
def Declaration.signature (d : Declaration) : String × Nat := (d.name.lexeme, d.params.length)

/-- Declarations that are taken for one another show the same. -/
def Lookalikes (R : Declaration → Declaration → Prop) : Prop :=
  ∀ d d', R d d' → d'.signature = d.signature

/-- Two values that are the same but for declarations that are taken for one another. -/
inductive Value.Alike (R : Declaration → Declaration → Prop) : Value → Value → Prop
  | nil : Alike R .nil .nil
  | bool (value : Bool) : Alike R (.bool value) (.bool value)
  | number (value : Float) : Alike R (.number value) (.number value)
  | string (text : String) : Alike R (.string text) (.string text)
  | function {d d' : Declaration} (serial : Nat) (closure : ScopeId) (h : R d d') :
    Alike R (.function serial d closure) (.function serial d' closure)
  | native (serial : Nat) (name : String) (arity : Nat) :
    Alike R (.native serial name arity) (.native serial name arity)

variable {R R' : Declaration → Declaration → Prop}

namespace Value

theorem Alike.literal (value : Literal) : Alike R value.value value.value := by
  cases value <;> constructor

theorem Alike.mono (h : ∀ d d', R d d' → R' d d') {v v' : Value} (hv : Alike R v v') :
    Alike R' v v' := by
  cases hv with
  | function serial closure hd => exact .function serial closure (h _ _ hd)
  | _ => constructor

theorem Alike.truthy {v v' : Value} (h : Alike R v v') : v'.truthy = v.truthy := by
  cases h <;> rfl

theorem Alike.typeName {v v' : Value} (h : Alike R v v') : v'.typeName = v.typeName := by
  cases h <;> rfl

theorem Alike.equals {a a' b b' : Value} (ha : Alike R a a') (hb : Alike R b b') :
    a'.equals b' = a.equals b := by
  cases ha <;> cases hb <;> rfl

theorem Alike.text (hR : Lookalikes R) {v v' : Value} (h : Alike R v v') : v'.text = v.text := by
  cases h with
  | function serial closure hd =>
      have hname := congrArg Prod.fst (hR _ _ hd)
      rw [Value.text, Value.text]
      exact congrArg (fun name : String => s!"<fn {name}>") hname
  | _ => rfl

/-- An operator does not see what a function says. -/
theorem Alike.applyUnary {v v' : Value} (h : Alike R v v') (operator : Token) :
    Run.applyUnary operator v' = Run.applyUnary operator v := by
  cases h with
  | function serial closure hd =>
      unfold Run.applyUnary
      cases operator.kind <;> rfl
  | _ => rfl

theorem Alike.applyBinary {a a' b b' : Value} (ha : Alike R a a') (operator : Token)
    (hb : Alike R b b') : Run.applyBinary operator a' b' = Run.applyBinary operator a b := by
  have heq := ha.equals hb
  unfold Run.applyBinary
  rw [heq]
  cases ha <;> cases hb <;> first | rfl | (cases operator.kind <;> rfl)

theorem Alike.decidedBy {v v' : Value} (h : Alike R v v') (operator : Token) :
    Run.decidedBy operator v' = Run.decidedBy operator v := by
  rw [Run.decidedBy, Run.decidedBy, h.truthy]

end Value

namespace Native

/-- Answers of native functions that are the same message or values that are alike. -/
inductive Agree (R : Declaration → Declaration → Prop) :
    Except String Value → Except String Value → Prop
  | ok {v v' : Value} (h : v.Alike R v') : Agree R (.ok v) (.ok v')
  | error (message : String) : Agree R (.error message) (.error message)

/-- The function makes no difference between arguments that are alike. -/
def Discreet (native : Native) : Prop :=
  ∀ R, Lookalikes R → ∀ args args', List.Forall₂ (Value.Alike R) args args' →
    Agree R (native.apply args) (native.apply args')

section Library

theorem discreet_clock (seconds : Float) : (clock seconds).Discreet :=
  fun _ _ _ _ _ => .ok (.number seconds)

/-- A function that takes one argument, and gives one and the same answer for any other
number of them, is discreet if it is so for one argument. -/
theorem discreet_of_single {native : Native} (other : Except String Value)
    (hnone : native.apply [] = other)
    (hmore : ∀ a b rest, native.apply (a :: b :: rest) = other) (ho : ∀ R, Agree R other other)
    (h : ∀ R, Lookalikes R → ∀ v v', v.Alike R v' →
      Agree R (native.apply [v]) (native.apply [v'])) : native.Discreet := by
  intro R hR args args' hargs
  cases hargs with
  | nil =>
      rw [hnone]
      exact ho R
  | cons hv hrest =>
      cases hrest with
      | nil => exact h R hR _ _ hv
      | cons =>
          rw [hmore, hmore]
          exact ho R

theorem discreet_double : double.Discreet := by
  refine discreet_of_single (.error _) rfl (fun a _ _ => ?_) (fun _ => .error _) ?_
  · cases a <;> rfl
  intro R _ v v' hv
  cases hv with
  | number value => exact .ok (.number _)
  | _ => exact .error _

theorem discreet_boom : boom.Discreet := fun _ _ _ _ _ => .error _

theorem discreet_failIf : failIf.Discreet := by
  refine discreet_of_single (.ok .nil) rfl (fun _ _ _ => rfl) (fun _ => .ok .nil) ?_
  intro R hR v w hv
  show Agree R (if v.truthy then .error s!"Failed: {v.text}" else .ok v)
    (if w.truthy then .error s!"Failed: {w.text}" else .ok w)
  rw [hv.truthy, hv.text hR]
  split
  · exact .error _
  · exact .ok hv

theorem discreet_typeOf : typeOf.Discreet := by
  refine discreet_of_single (.ok .nil) rfl (fun _ _ _ => rfl) (fun _ => .ok .nil) ?_
  intro R _ v v' hv
  show Agree R (.ok (.string v.typeName)) (.ok (.string v'.typeName))
  rw [hv.typeName]
  exact .ok (.string _)

theorem discreet_str : str.Discreet := by
  refine discreet_of_single (.ok .nil) rfl (fun _ _ _ => rfl) (fun _ => .ok .nil) ?_
  intro R hR v v' hv
  show Agree R (.ok (.string v.text)) (.ok (.string v'.text))
  rw [hv.text hR]
  exact .ok (.string _)

theorem discreet_same : same.Discreet := by
  intro R _ args args' hargs
  rcases hargs with _ | ⟨ha, _ | ⟨hb, _ | _⟩⟩
  · exact .ok .nil
  · exact .ok .nil
  · show Agree R (.ok (.bool _)) (.ok (.bool _))
    rw [ha.equals hb]
    exact .ok (.bool _)
  · exact .ok .nil

theorem discreet_join3 : join3.Discreet := by
  intro R hR args args' hargs
  have htexts : args'.map Value.text = args.map Value.text := by
    induction hargs with
    | nil => rfl
    | cons hv _ ih => rw [List.map_cons, List.map_cons, hv.text hR, ih]
  show Agree R (.ok (.string (String.intercalate "|" (args.map Value.text))))
    (.ok (.string (String.intercalate "|" (args'.map Value.text))))
  rw [htexts]
  exact .ok (.string _)

theorem discreet_nameOf : nameOf.Discreet := by
  refine discreet_of_single (.ok .nil) rfl (fun _ _ _ => rfl) (fun _ => .ok .nil) ?_
  intro R hR v v' hv
  cases hv with
  | function serial closure hd =>
      have hname := congrArg Prod.fst (hR _ _ hd)
      show Agree R (.ok (.string _)) (.ok (.string (Declaration.signature _).1))
      rw [hname]
      exact .ok (.string _)
  | native serial name arity => exact .ok (.string _)
  | _ => exact .error _

theorem discreet_arityOf : arityOf.Discreet := by
  refine discreet_of_single (.ok .nil) rfl (fun _ _ _ => rfl) (fun _ => .ok .nil) ?_
  intro R hR v v' hv
  cases hv with
  | function serial closure hd =>
      have harity := congrArg Prod.snd (hR _ _ hd)
      show Agree R (.ok (.number _)) (.ok (.number (Float.ofNat (Declaration.signature _).2)))
      rw [harity]
      exact .ok (.number _)
  | native serial name arity => exact .ok (.number _)
  | _ => exact .error _

theorem discreet_debugOf : debugOf.Discreet := by
  refine discreet_of_single (.error _) rfl (fun a _ _ => ?_) (fun _ => .error _) ?_
  · cases a <;> rfl
  intro R hR v v' hv
  cases hv with
  | @function d d' serial closure hd =>
      have hname : d'.name.lexeme = d.name.lexeme := congrArg Prod.fst (hR _ _ hd)
      have harity : d'.params.length = d.params.length := congrArg Prod.snd (hR _ _ hd)
      show Agree R (.ok (.string _)) (.ok (.string
        ("LoxFunction \x7b name: " ++ Text.quotedName d'.name.lexeme ++ ", arity: " ++
          toString d'.params.length ++ " \x7d")))
      rw [hname, harity]
      exact .ok (.string _)
  | _ => exact .error _

/-- All functions of the library are discreet. -/
theorem discreet_of_ofKey? {clock native : Native} {key : String} (hclock : clock.Discreet)
    (h : ofKey? clock key = some native) : native.Discreet := by
  unfold ofKey? at h
  split at h <;> cases h
  · exact discreet_double
  · exact discreet_boom
  · exact discreet_failIf
  · exact discreet_typeOf
  · exact discreet_str
  · exact discreet_same
  · exact discreet_join3
  · exact discreet_nameOf
  · exact discreet_arityOf
  · exact discreet_debugOf
  · exact discreet_clock 1234.5
  · exact hclock

end Library

end Native

end Lox
