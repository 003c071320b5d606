import Lox.Proofs.Loops.Rounds
import Lox.Proofs.Loops.Twins
import Lox.Proofs.Machine.Finder

/-!
# Runs that match

The run of the program as it is written and the run of the program with its loops written
out match if they give the same and print the same, from scopes of which the one is the
twin of the other. The fuel is what tells the two runs apart: the run of the side that is
given may have no answer, and then nothing is said of the other one.

There is a rule for each step of the machine. Two are for loops: a run in a hollow scope
of the second machine matches one without a new scope, and a run can be put in the place
of another that follows it.
-/

namespace Lox.Loops

open Run (Side)

variable {α β : Type}

/-- The second machine has made the same of the program. -/
structure Machines (x : Setting) (w : World) (m m' : Machine) : Prop where
  store : Stores x w m.store m'.store
  births : w.births.length = m.functions
  globals : m.globals = x.globals
  globals' : m'.globals = x.globals
  distances : m.distances = x.records.1
  distances' : m'.distances = x.records.2
  natives : m.natives = x.natives
  natives' : m'.natives = x.natives
  functions : m'.functions = m.functions
  output : m'.output = m.output

/-- The machines once more has been read and recorded. -/
theorem Machines.rebound {x : Setting} {w : World} {m m' : Machine} (h : Machines x w m m')
    {r : Records} {j : NodeId} (hj : x.nextId ≤ j)
    (hr : ∀ id < x.nextId, r.found id = x.records.found id) :
    Machines (x.rebound r j) w { m with distances := r.1 } { m' with distances := r.2 } :=
  { h with
    store := h.store.rebound hj hr
    distances := rfl
    distances' := rfl }

/-- The second answer is like the first, in some world that the first one has grown into,
and both runs have come back to the scopes they started from. -/
inductive Answers (side : Side) (x : Setting) (w : World) (c c' : ScopeId)
    (R : World → α → α → Prop) :
    Option (Except Machine.Fault α × Machine) → Option (Except Machine.Fault α × Machine) → Prop
  | silent {o o' : Option (Except Machine.Fault α × Machine)} (h : side.Silent o o') :
    Answers side x w c c' R o o'
  | fault {w' : World} {f : Machine.Fault} {m m' : Machine} (hw : w.Grows w')
    (hm : Machines x w' m m') (hc : m.current = c) (hc' : m'.current = c') :
    Answers side x w c c' R (some (.error f, m)) (some (.error f, m'))
  | ok {w' : World} {a a' : α} {m m' : Machine} (hw : w.Grows w') (ha : R w' a a')
    (hm : Machines x w' m m') (hc : m.current = c) (hc' : m'.current = c') :
    Answers side x w c c' R (some (.ok a, m)) (some (.ok a', m'))

/-- From a scope with the layers around it, and from its twin, the second run does what the
first does. -/
def Matches (side : Side) (x : Setting) (w : World) (layers : List Layer)
    (R : World → α → α → Prop) (r r' : Run α) : Prop :=
  ∀ m m', Machines x w m m' → w.sites[m'.current]? = some (layers, m.current) →
    Answers side x w m.current m'.current R (r.run m) (r'.run m')

section Rules

variable {side : Side} {x : Setting} {w w' : World} {layers : List Layer}
  {R : World → α → α → Prop} {S : World → β → β → Prop}

theorem Answers.grow {c c' : ScopeId} {o o' : Option (Except Machine.Fault α × Machine)}
    (hw : w.Grows w') (h : Answers side x w' c c' R o o') : Answers side x w c c' R o o' := by
  cases h with
  | silent h => exact .silent h
  | fault hw' hm hc hc' => exact .fault (hw.trans hw') hm hc hc'
  | ok hw' ha hm hc hc' => exact .ok (hw.trans hw') ha hm hc hc'

theorem Matches.pure {a a' : α} (h : R w a a') :
    Matches side x w layers R (pure a) (pure a') :=
  fun _ _ hm _ => .ok (.refl w) h hm rfl rfl

/-- Without fuel there is nothing to match. -/
theorem Matches.written (r : Run α) : Matches .written x w layers R Run.exhausted r :=
  fun _ _ _ _ => .silent rfl

theorem Matches.writtenOut (r : Run α) : Matches .writtenOut x w layers R r Run.exhausted :=
  fun _ _ _ _ => .silent rfl

theorem Matches.fail (cause : Machine.Cause) (t : Token) :
    Matches side x w layers R (Run.fail cause t) (Run.fail cause t) :=
  fun _ _ hm _ => .fault (.refl w) hm rfl rfl

theorem Matches.bind {r r' : Run α} {f f' : α → Run β} (h : Matches side x w layers R r r')
    (hf : ∀ w' a a', w.Grows w' → R w' a a' → Matches side x w' layers S (f a) (f' a')) :
    Matches side x w layers S (r >>= f) (r' >>= f') := by
  intro m m' hm hs
  have hr := h m m' hm hs
  rw [run_bind, run_bind]
  generalize r.run m = o, r'.run m' = o' at hr
  cases hr with
  | silent h => cases side <;> cases h <;> exact .silent rfl
  | fault hw hm hc hc' => exact .fault hw hm hc hc'
  | ok hw ha hm₁ hc hc' =>
      have hs₁ := hw.site hs
      rw [← hc, ← hc'] at hs₁ ⊢
      exact (hf _ _ _ hw ha _ _ hm₁ hs₁).grow hw

theorem Matches.within {r r' : Run α} {scope scope' : ScopeId} {inner : List Layer}
    (hs : w.sites[scope']? = some (inner, scope)) (h : Matches side x w inner R r r') :
    Matches side x w layers R (Run.within scope r) (Run.within scope' r') := by
  intro m m' hm _
  have hr := h { m with current := scope } { m' with current := scope' } { hm with } hs
  rw [Run.run_within, Run.run_within]
  generalize r.run _ = o, r'.run _ = o' at hr
  cases hr with
  | silent h => cases side <;> cases h <;> exact .silent rfl
  | fault hw h _ _ => exact .fault hw { h with } rfl rfl
  | ok hw ha h _ _ => exact .ok hw ha { h with } rfl rfl

/-- What follows the second run takes its place. -/
theorem Matches.follows {r r' c : Run α} (hc : side.Follows r' c)
    (h : Matches side x w layers R r c) : Matches side x w layers R r r' := by
  intro m m' hm hs
  have hr := h m m' hm hs
  cases side with
  | written =>
      generalize hcm : c.run m' = o' at hr
      generalize r.run m = o at hr ⊢
      cases hr with
      | silent h => exact .silent h
      | fault hw hm h h' =>
          rw [hc m' _ hcm]
          exact .fault hw hm h h'
      | ok hw ha hm h h' =>
          rw [hc m' _ hcm]
          exact .ok hw ha hm h h'
  | writtenOut =>
      cases ho : r'.run m' with
      | none => exact .silent rfl
      | some o =>
          rw [hc m' o ho] at hr
          exact hr

theorem Matches.print {v v' : Value} (h : Values x w v v') :
    Matches side x w layers (fun _ => Eq) (Run.print v) (Run.print v') := by
  intro m m' hm _
  refine .ok (.refl w) rfl { hm with output := ?_ } rfl rfl
  show m'.output ++ v'.text ++ "\n" = m.output ++ v.text ++ "\n"
  rw [h.text, hm.output]

/-- A declaration binds its name in the current scope. -/
theorem Matches.define (ho : Layer.Open layers) (name : Token) {v v' : Value}
    (h : Values x w v v') :
    Matches side x w layers (fun _ => Eq) (Run.define name v) (Run.define name v') := by
  intro m m' hm hs
  exact .ok (.refl w) rfl { hm with store := hm.store.define ⟨layers, ho, hs⟩ name.lexeme h }
    rfl rfl

theorem Matches.close {d : Declaration}
    (h : x.Always (Stmt.TiedAll · (.shared :: layers) d.body)) :
    Matches side x w layers (Values x) (Run.close d) (Run.close d.desugar) := by
  intro m m' hm hs
  have hgrows := w.grows_closed ⟨d, m.current, m'.current⟩
  refine .ok hgrows (m := { m with functions := m.functions + 1 }) ?_
    { hm with
      store := hm.store.closed _
      births := List.length_append.trans (congrArg (· + 1) hm.births)
      functions := congrArg (· + 1) hm.functions } rfl rfl
  rw [hm.functions]
  refine .function ?_ (hgrows.site hs) h
  rw [← hm.births]
  exact w.birth_closed _

/-- A new scope that is shared, within the scope of a block or a function. -/
theorem Matches.enterScope {p p' : ScopeId} {outer : List Layer}
    (hp : w.sites[p']? = some (outer, p)) (params : List Token) {args args' : List Value}
    (ha : List.Forall₂ (Values x w) args args') :
    Matches side x w layers
      (fun w' scope scope' => w'.sites[scope']? = some (.shared :: outer, scope))
      (Run.enterScope p (params.zip args)) (Run.enterScope p' (params.zip args')) := by
  intro m m' hm _
  have hgrows := w.grows_opened (.shared :: outer) m.store.size
  have hsite := w.site_opened (.shared :: outer) m.store.size
  rw [hm.store.sites] at hsite
  refine .ok hgrows hsite { hm with store := ?_ } rfl rfl
  exact (hm.store.push hp).defineAll ⟨_, Layer.open_shared _, hsite⟩ params
    (ha.imp fun _ _ hv => hv.mono hgrows)

theorem Matches.enterBlock :
    Matches side x w layers
      (fun w' scope scope' => w'.sites[scope']? = some (.shared :: layers, scope))
      Run.enterBlock Run.enterBlock :=
  fun m m' hm hs => Matches.enterScope hs [] .nil m m' hm hs

theorem Matches.inBlock {r r' : Run α}
    (h : ∀ w', w.Grows w' → Matches side x w' (.shared :: layers) R r r') :
    Matches side x w layers R (Run.inBlock r) (Run.inBlock r') :=
  Matches.enterBlock.bind fun w' _ _ hw hs => .within hs (h w' hw)

/-- In a hollow scope the second machine does what the first does without it. -/
theorem Matches.inHollow {r r' : Run α}
    (h : ∀ w', w.Grows w' → Matches side x w' (.hollow :: layers) R r r') :
    Matches side x w layers R r (Run.inBlock r') := by
  intro m m' hm hs
  have hgrows := w.grows_opened (.hollow :: layers) m.current
  have hsite := w.site_opened (.hollow :: layers) m.current
  rw [hm.store.sites] at hsite
  have hm₁ : Machines x (w.opened (.hollow :: layers) m.current) m
      { m' with
        store := (m'.store.push (some m'.current)).2
        current := m'.store.size } := { hm with store := hm.store.pushHollow hs }
  have hr := h _ hgrows _ _ hm₁ hsite
  show Answers side x w _ _ R (r.run m) ((Run.within m'.store.size r').run
    { m' with store := (m'.store.push (some m'.current)).2 })
  rw [Run.run_within]
  generalize r.run m = o, r'.run _ = o' at hr
  cases hr with
  | silent h => cases side <;> cases h <;> exact .silent rfl
  | fault hw h hc _ => exact .fault (hgrows.trans hw) { h with } hc rfl
  | ok hw ha h hc _ => exact .ok (hgrows.trans hw) ha { h with } hc rfl

/-- Both machines find a variable, in a scope and in its twin, or neither does. -/
theorem Machines.target? {m m' : Machine} (hm : Machines x w m m')
    (hs : w.sites[m'.current]? = some (layers, m.current)) {id : NodeId}
    (hid : x.records.Ties layers id) (name : Token) :
    Option.Rel w.Twins (m.target? id name) (m'.target? id name) := by
  rw [Machine.target?, Machine.target?, hm.distances, hm.distances', hm.globals, hm.globals']
  change Option.Rel _ (x.records.1.find? id) (x.records.2.find? id) at hid
  generalize x.records.1.find? id = d, x.records.2.find? id = d' at hid
  cases hid with
  | none => exact hm.store.binder?_globals name.lexeme
  | some hd => exact hm.store.binderAt? hd hs name.lexeme

theorem Matches.readVariable {id : NodeId} (hid : x.records.Ties layers id) (name : Token) :
    Matches side x w layers (Values x) (Run.readVariable id name) (Run.readVariable id name) := by
  intro m m' hm hs
  rw [Run.run_readVariable, Run.run_readVariable, ← Run.bind_target?, ← Run.bind_target?]
  have hfound := hm.target? hs hid name
  generalize m.target? id name = o, m'.target? id name = o' at hfound
  cases hfound with
  | none => exact .fault (.refl w) hm rfl rfl
  | some ht =>
      have hl := hm.store.lookup? _ _ ht name.lexeme
      simp only [Option.bind_some]
      generalize m.store.lookup? _ _ = v, m'.store.lookup? _ _ = v' at hl
      cases hl with
      | none => exact .fault (.refl w) hm rfl rfl
      | some hv => exact .ok (.refl w) hv hm rfl rfl

theorem Matches.writeVariable {id : NodeId} (hid : x.records.Ties layers id) (name : Token)
    {v v' : Value} (hv : Values x w v v') :
    Matches side x w layers (fun _ => Eq) (Run.writeVariable id name v)
      (Run.writeVariable id name v') := by
  intro m m' hm hs
  rw [Run.run_writeVariable, Run.run_writeVariable]
  have hfound := hm.target? hs hid name
  generalize m.target? id name = o, m'.target? id name = o' at hfound
  cases hfound with
  | none => exact .fault (.refl w) hm rfl rfl
  | some ht =>
      exact .ok (.refl w) rfl { hm with store := hm.store.define ht name.lexeme hv } rfl rfl

/-! ## Operators and native functions -/

section Operators

variable {operator : Token} {a a' b b' : Value}

theorem Matches.applyUnary (ha : Values x w a a') :
    Matches side x w layers (Values x) (Run.applyUnary operator a)
      (Run.applyUnary operator a') := by
  rw [← a'.applyUnary_shown, ha.shown, a.applyUnary_shown]
  unfold Run.applyUnary
  split
  · exact .pure (.simple trivial)
  · exact .fail _ _
  · exact .pure (.simple trivial)
  · exact .fail _ _

theorem Matches.applyNumeric (y z : Float) :
    Matches side x w layers (Values x) (Run.applyNumeric operator y z)
      (Run.applyNumeric operator y z) := by
  unfold Run.applyNumeric
  split <;> first | exact .pure (.simple trivial) | exact .fail _ _

theorem Matches.applyBinary (ha : Values x w a a') (hb : Values x w b b') :
    Matches side x w layers (Values x) (Run.applyBinary operator a b)
      (Run.applyBinary operator a' b') := by
  rw [← a'.applyBinary_shown, ha.shown, hb.shown, a.applyBinary_shown]
  unfold Run.applyBinary
  split
  · exact .pure (.simple trivial)
  · exact .pure (.simple trivial)
  · exact .fail _ _
  · exact .pure (.simple trivial)
  · exact .pure (.simple trivial)
  · exact .applyNumeric _ _
  · exact .fail _ _

end Operators

theorem Matches.checkArity (expected given : Nat) (paren : Token) :
    Matches side x w layers (fun _ => Eq) (Run.checkArity expected given paren)
      (Run.checkArity expected given paren) := by
  unfold Run.checkArity
  split
  · exact .pure rfl
  · exact .fail _ _

theorem Matches.applyNative (serial : Nat) (paren : Token) {args args' : List Value}
    (ha : List.Forall₂ (Values x w) args args') :
    Matches side x w layers (Values x) (Run.applyNative serial args paren)
      (Run.applyNative serial args' paren) := by
  intro m m' hm hs
  rw [Run.applyNative, Run.applyNative, run_bind, run_bind, run_get, run_get]
  simp only [hm.natives, hm.natives']
  cases hn : x.natives[serial]? with
  | none => exact Matches.fail .notCallable paren m m' hm hs
  | some native =>
      have hmem := Array.mem_of_getElem? hn
      have hshown := x.superficial native hmem args' args (Values.shownAll ha)
      have hvalues := @Values.of_native x w native hmem args args' ha
      dsimp only
      generalize native.apply args = answer, native.apply args' = answer' at hshown hvalues
      cases answer with
      | ok v =>
          cases answer' with
          | ok v' =>
              have hv : v'.shown = v.shown := by injection hshown
              exact Matches.pure (hvalues rfl rfl hv) m m' hm hs
          | error message' => cases hshown
      | error message =>
          cases answer' with
          | ok v' => cases hshown
          | error message' =>
              obtain rfl : message' = message := by injection hshown
              exact Matches.fail _ paren m m' hm hs

end Rules

end Lox.Loops
