import Lox.Proofs.Discreet
import Lox.Proofs.Machine.Finder
import Lox.Proofs.Scoping.Renaming
import Lox.Proofs.Scoping.Steps

/-!
# A run and the run of a renamed program

Beside a program runs the same program with a local variable renamed, on a machine that
may have another way to find the scopes of variables. Both make the same scopes, of which
those made at the place of the variable bind it under different names.

Nothing in a machine tells for which block or call a scope was made, nor where in the
program a function was declared. A world keeps both: the places around each scope, and
the place of the declaration of each function that was made. Scopes and functions are
never lost, so worlds only grow, and what is known in one stays known.
-/

namespace Lox

namespace Declaration

/-- The declaration, which stands at a place within the scopes at others, with the variable
renamed. Its name is declared further out and is none of its business. -/
def renamed (ρ : Renaming) (here : Place) (around : List Place) (d : Declaration) : Declaration :=
  ⟨d.name, d.params.map (ρ.declaration (here :: around)),
    Stmt.renamedAll ρ here (here :: around) 0 d.body⟩

def Sited (y : Layout) (here : Place) (around : List Place) (d : Declaration) : Prop :=
  (∀ t ∈ d.params, y.Lists (here :: around) t.lexeme .parameter) ∧
    Stmt.SitedAll y here (here :: around) 0 d.body

end Declaration

/-- The second declaration is the first with the variable renamed. -/
def Renaming.Declared (ρ : Renaming) (d d' : Declaration) : Prop :=
  ∃ here around, d' = d.renamed ρ here around

theorem Renaming.lookalikes (ρ : Renaming) : Lookalikes ρ.Declared := by
  rintro d d' ⟨here, around, rfl⟩
  exact congrArg (d.name.lexeme, ·) (List.length_map _)

/-! ## Worlds -/

/-- A function that was made: where its declaration stands, and in which scope it was run. -/
structure Birth where
  here : Place
  declaration : Declaration
  closure : ScopeId

structure World where
  /-- The places around each scope, its own first. -/
  sites : List (List Place)
  /-- The functions by their numbers. -/
  births : List Birth

namespace World

/-- What was known stays known. -/
structure Grows (w w' : World) : Prop where
  sites : w.sites <+: w'.sites
  births : w.births <+: w'.births

variable {w w' w'' : World}

theorem Grows.refl (w : World) : w.Grows w := ⟨List.prefix_refl _, List.prefix_refl _⟩

theorem Grows.trans (h : w.Grows w') (h' : w'.Grows w'') : w.Grows w'' :=
  ⟨h.sites.trans h'.sites, h.births.trans h'.births⟩

theorem Grows.site (h : w.Grows w') {scope : ScopeId} {around : List Place}
    (hs : w.sites[scope]? = some around) : w'.sites[scope]? = some around :=
  h.sites.getElem?_eq_some hs

theorem Grows.birth (h : w.Grows w') {serial : Nat} {birth : Birth}
    (hb : w.births[serial]? = some birth) : w'.births[serial]? = some birth :=
  h.births.getElem?_eq_some hb

/-- The world with a new scope. -/
def opened (w : World) (around : List Place) : World := { w with sites := w.sites ++ [around] }

/-- The world with a new function. -/
def closed (w : World) (birth : Birth) : World := { w with births := w.births ++ [birth] }

theorem grows_opened (w : World) (around : List Place) : w.Grows (w.opened around) :=
  ⟨List.prefix_append .., List.prefix_refl _⟩

theorem grows_closed (w : World) (birth : Birth) : w.Grows (w.closed birth) :=
  ⟨List.prefix_refl _, List.prefix_append ..⟩

theorem site_opened (w : World) (around : List Place) :
    (w.opened around).sites[w.sites.length]? = some around := List.getElem?_concat_length

theorem birth_closed (w : World) (birth : Birth) :
    (w.closed birth).births[w.births.length]? = some birth := List.getElem?_concat_length

/-- A scope of the new world is old or the new one. -/
theorem site_of_opened {around other : List Place} {scope : ScopeId}
    (h : (w.opened around).sites[scope]? = some other) :
    w.sites[scope]? = some other ∨ (scope = w.sites.length ∧ other = around) :=
  List.getElem?_concat_cases h

end World

/-! ## Values and scopes -/

/-- What the two sides have in common. -/
structure Mirror where
  layout : Layout
  spelling : Renaming
  natives : Array Native
  /-- A declaration says what its name is called in its scope. -/
  declared : ∀ {around : List Place} {t : Token} {binder : Binder},
    layout.Lists around t.lexeme binder →
      (spelling.declaration around t).lexeme = spelling.called around t.lexeme
  kept : ∀ {around : List Place} {name : String},
    layout.Lists around name .function → spelling.called around name = name
  honest : ∀ native ∈ natives, native.Honest
  /-- Native functions make no difference between the two sides. -/
  agree : ∀ native ∈ natives, ∀ args args',
    List.Forall₂ (Value.Alike spelling.Declared) args args' →
      Native.Agree spelling.Declared (native.apply args) (native.apply args')

namespace Mirror

variable (μ : Mirror) (w : World)

/-- The second value is the first, with the variable renamed in it if it is a function. -/
inductive Values : Value → Value → Prop
  | simple {v : Value} (h : v.Simple) : Values v v
  | function {serial : Nat} {d : Declaration} {closure : ScopeId} {here : Place}
    {around : List Place} (hb : w.births[serial]? = some ⟨here, d, closure⟩)
    (hs : w.sites[closure]? = some around) (hd : d.Sited μ.layout here around) :
    Values (.function serial d closure)
      (.function serial (d.renamed μ.spelling here around) closure)

/-- The two stores have the same scopes. Each lies within those that the places around it say,
and binds names that are listed there, to values that are the same but for the renaming. -/
structure Stores (globals : ScopeId) (s s' : Store) : Prop where
  sites : w.sites.length = s.size
  size : s'.size = s.size
  parent? : ∀ scope, s'.parent? scope = s.parent? scope
  top : w.sites[globals]? = some []
  alone : ∀ scope, w.sites[scope]? = some [] → scope = globals ∧ s.parent? scope = none
  outward : ∀ scope place outer, w.sites[scope]? = some (place :: outer) →
    ∃ parent < scope, s.parent? scope = some parent ∧ w.sites[parent]? = some outer
  lookup? : ∀ scope around, w.sites[scope]? = some around → ∀ name,
    Option.Rel (μ.Values w) (s.lookup? scope name)
      (s'.lookup? scope (μ.spelling.called around name))
  listed : ∀ scope around name, w.sites[scope]? = some around →
    (s.lookup? scope name).isSome → ∃ binder, μ.layout.Lists around name binder

variable {μ w} {w' : World}

theorem Values.literal (value : Literal) : μ.Values w value.value value.value :=
  .simple value.simple_value

theorem Values.mono {v v' : Value} (h : μ.Values w v v') (hw : w.Grows w') : μ.Values w' v v' := by
  cases h with
  | simple h => exact .simple h
  | function hb hs hd => exact .function (hw.birth hb) (hw.site hs) hd

theorem Values.alike {v v' : Value} (h : μ.Values w v v') :
    v.Alike μ.spelling.Declared v' := by
  cases h with
  | simple h =>
      cases v with
      | function => exact h.elim
      | _ => constructor
  | function hb hs hd => exact .function _ _ ⟨_, _, rfl⟩

/-- A function is made once, so that its number says what the second side has for it. -/
theorem Values.function_unique {serial : Nat} {d d₁ d₂ : Declaration} {closure : ScopeId}
    {v : Value} (h : μ.Values w (.function serial d closure) v)
    (h' : μ.Values w (.function serial d₁ closure) (.function serial d₂ closure)) :
    μ.Values w (.function serial d closure) (.function serial d₂ closure) := by
  cases h with
  | simple h => exact h.elim
  | function hb hs hd =>
      cases h' with
      | simple h' => exact h'.elim
      | function hb' hs' hd' =>
          cases hb.symm.trans hb'
          exact .function hb' hs' hd'

namespace Stores

variable {globals : ScopeId} {s s' : Store} (h : μ.Stores w globals s s')
include h

theorem lt_size {scope : ScopeId} {around : List Place} (hs : w.sites[scope]? = some around) :
    scope < s.size := h.sites ▸ (List.getElem?_eq_some_iff.mp hs).1

theorem closed (birth : Birth) : μ.Stores (w.closed birth) globals s s' :=
  { h with lookup? := fun scope around hs name =>
      (h.lookup? scope around hs name).imp fun _ _ hv => hv.mono (w.grows_closed birth) }

theorem push {parent : ScopeId} {outer : List Place} (hp : w.sites[parent]? = some outer)
    (place : Place) :
    μ.Stores (w.opened (place :: outer)) globals (s.push (some parent)).2
      (s'.push (some parent)).2 where
  sites := by
    rw [Store.size_push, ← h.sites]
    exact List.length_append
  size := by rw [Store.size_push, Store.size_push, h.size]
  parent? scope := by rw [Store.parent?_push, Store.parent?_push, h.size, h.parent?]
  top := (w.grows_opened _).site h.top
  alone scope hs := by
    rcases World.site_of_opened hs with hs | ⟨-, hnil⟩
    · rw [Store.parent?_push, if_neg (Nat.ne_of_lt (h.lt_size hs))]
      exact h.alone scope hs
    · cases hnil
  outward scope place' outer' hs := by
    rcases World.site_of_opened hs with hs | ⟨rfl, heq⟩
    · obtain ⟨t, hlt, ht, hsite⟩ := h.outward scope place' outer' hs
      rw [Store.parent?_push, if_neg (Nat.ne_of_lt (h.lt_size hs))]
      exact ⟨t, hlt, ht, (w.grows_opened _).site hsite⟩
    · cases heq
      rw [Store.parent?_push, if_pos h.sites]
      exact ⟨parent, h.sites ▸ h.lt_size hp, rfl, (w.grows_opened _).site hp⟩
  lookup? scope around hs name := by
    rw [Store.lookup?_push, Store.lookup?_push]
    rcases World.site_of_opened hs with hs | ⟨rfl, rfl⟩
    · exact (h.lookup? scope around hs name).imp fun _ _ hv => hv.mono (w.grows_opened _)
    · rw [Store.lookup?_of_size_le (Nat.le_of_eq h.sites.symm),
        Store.lookup?_of_size_le (Nat.le_of_eq (h.size.trans h.sites.symm))]
      exact .none
  listed scope around name hs hn := by
    rw [Store.lookup?_push] at hn
    rcases World.site_of_opened hs with hs | ⟨rfl, rfl⟩
    · exact h.listed scope around name hs hn
    · rw [Store.lookup?_of_size_le (Nat.le_of_eq h.sites.symm)] at hn
      cases hn

theorem define {scope : ScopeId} {around : List Place} (hs : w.sites[scope]? = some around)
    {name name' : String} (hname : name' = μ.spelling.called around name) {binder : Binder}
    (hl : μ.layout.Lists around name binder) {v v' : Value} (hv : μ.Values w v v') :
    μ.Stores w globals (s.define scope name v) (s'.define scope name' v') where
  sites := by rw [Store.size_define, h.sites]
  size := by rw [Store.size_define, Store.size_define, h.size]
  parent? t := by rw [Store.parent?_define, Store.parent?_define, h.parent?]
  top := h.top
  alone t ht := by
    rw [Store.parent?_define]
    exact h.alone t ht
  outward t place outer ht := by
    rw [Store.parent?_define]
    exact h.outward t place outer ht
  lookup? t site ht n := by
    rw [Store.lookup?_define, Store.lookup?_define, h.size]
    by_cases hc : t = scope ∧ n = name ∧ t < s.size
    · obtain ⟨rfl, rfl, hlt⟩ := hc
      cases hs.symm.trans ht
      rw [if_pos ⟨rfl, rfl, hlt⟩, if_pos ⟨rfl, hname.symm, hlt⟩]
      exact .some hv
    · rw [if_neg hc, if_neg]
      · exact h.lookup? t site ht n
      · rintro ⟨rfl, hn, hlt⟩
        cases hs.symm.trans ht
        refine hc ⟨rfl, ?_, hlt⟩
        rw [hname, μ.spelling.called_eq_iff, Renaming.called_called] at hn
        exact hn
  listed t site n ht hn := by
    rw [Store.lookup?_define] at hn
    split at hn
    · rename_i hc
      obtain ⟨rfl, rfl, -⟩ := hc
      cases hs.symm.trans ht
      exact ⟨binder, hl⟩
    · exact h.listed t site n ht hn

omit h in
/-- Parameters are bound under what they are called. -/
theorem defineAll (h : μ.Stores w globals s s') {scope : ScopeId} {around : List Place}
    (hs : w.sites[scope]? = some around) {params : List Token}
    (hp : ∀ t ∈ params, μ.layout.Lists around t.lexeme .parameter) {args args' : List Value}
    (ha : List.Forall₂ (μ.Values w) args args') :
    μ.Stores w globals (s.defineAll scope (params.zip args))
      (s'.defineAll scope ((params.map (μ.spelling.declaration around)).zip args')) := by
  induction params generalizing s s' args args' with
  | nil => exact h
  | cons t params ih =>
      obtain ⟨ht, hrest⟩ := List.forall_mem_cons.mp hp
      cases ha with
      | nil => exact h
      | cons hv hvs => exact ih (h.define hs (μ.declared ht) ht hv) hrest hvs

end Stores

/-! ## Machines -/

variable (μ w)

/-- The second machine is where the first is. -/
structure Machines (m m' : Machine) : Prop where
  store : μ.Stores w m.globals m.store m'.store
  births : w.births.length = m.functions
  globals : m'.globals = m.globals
  current : m'.current = m.current
  distances : m.distances = μ.layout.distances
  distances' : m'.distances = μ.layout.distances
  natives : m.natives = μ.natives
  natives' : m'.natives = μ.natives
  functions : m'.functions = m.functions
  output : m'.output = m.output

/-- The second fault is the first, but that a variable that is missing may be the one that has
been renamed. -/
def Faults (f f' : Machine.Fault) : Prop :=
  f' = f ∨ (f.cause = .undefinedVariable μ.spelling.name ∧
    f' = { f with cause := .undefinedVariable μ.spelling.fresh })

variable {α β : Type}

/-- The second answer is like the first, in some world that the first one has grown into, and
both runs have come back to the scope they started from. -/
inductive Answers (scope : ScopeId) (R : World → α → α → Prop) :
    Option (Except Machine.Fault α × Machine) → Option (Except Machine.Fault α × Machine) → Prop
  | none : Answers scope R none none
  | fault {w' : World} {f f' : Machine.Fault} {m m' : Machine} (hw : w.Grows w')
    (hf : μ.Faults f f') (hm : μ.Machines w' m m') (hc : m.current = scope) :
    Answers scope R (some (.error f, m)) (some (.error f', m'))
  | ok {w' : World} {a a' : α} {m m' : Machine} (hw : w.Grows w') (ha : R w' a a')
    (hm : μ.Machines w' m m') (hc : m.current = scope) :
    Answers scope R (some (.ok a, m)) (some (.ok a', m'))

/-- From a scope within those at the places, the second run does what the first does. -/
def Matches (around : List Place) (R : World → α → α → Prop) (r r' : Run α) : Prop :=
  ∀ m m', μ.Machines w m m' → w.sites[m.current]? = some around →
    μ.Answers w m.current R (r.run m) (r'.run m')

/-- What the second finder finds for the name in the renamed program is what the first finds
for the name in the program: a scope that calls the one what the other says. -/
def Finds (find find' : Finder) : Prop :=
  ∀ {w : World} {m m' : Machine} {around : List Place} {id : NodeId} {t : Token},
    μ.Machines w m m' → w.sites[m.current]? = some around → μ.layout.Uses around id t →
      find' m' id (μ.spelling.use around id t) = find m id t ∧
      ∀ scope, find m id t = some scope → ∃ site, w.sites[scope]? = some site ∧
        (μ.spelling.use around id t).lexeme = μ.spelling.called site t.lexeme ∧
          (m.store.lookup? scope t.lexeme).isSome

variable {μ w}

theorem Answers.grow {scope : ScopeId} {R : World → α → α → Prop}
    {o o' : Option (Except Machine.Fault α × Machine)} (hw : w.Grows w')
    (h : μ.Answers w' scope R o o') : μ.Answers w scope R o o' := by
  cases h with
  | none => exact .none
  | fault hw' hf hm hc => exact .fault (hw.trans hw') hf hm hc
  | ok hw' ha hm hc => exact .ok (hw.trans hw') ha hm hc

/-! ## Rules -/

section Rules

variable {around : List Place} {R : World → α → α → Prop} {S : World → β → β → Prop}

theorem Matches.pure {a a' : α} (h : R w a a') : μ.Matches w around R (pure a) (pure a') :=
  fun _ _ hm _ => .ok (.refl w) h hm rfl

theorem Matches.exhausted : μ.Matches w around R Run.exhausted Run.exhausted :=
  fun _ _ _ _ => .none

theorem Matches.fail (cause : Machine.Cause) (t : Token) :
    μ.Matches w around R (Run.fail cause t) (Run.fail cause t) :=
  fun _ _ hm _ => .fault (.refl w) (.inl rfl) hm rfl

theorem Matches.bind {r r' : Run α} {f f' : α → Run β} (h : μ.Matches w around R r r')
    (hf : ∀ w' a a', w.Grows w' → R w' a a' → μ.Matches w' around S (f a) (f' a')) :
    μ.Matches w around S (r >>= f) (r' >>= f') := by
  intro m m' hm hs
  have hr := h m m' hm hs
  rw [run_bind, run_bind]
  generalize r.run m = o, r'.run m' = o' at hr
  cases hr with
  | none => exact .none
  | fault hw hf hm hc => exact .fault hw hf hm hc
  | ok hw ha hm₁ hc =>
      have h₁ := hf _ _ _ hw ha _ _ hm₁ (hc ▸ hw.site hs)
      rw [hc] at h₁
      exact h₁.grow hw

theorem Matches.within {r r' : Run α} {scope : ScopeId} {inner : List Place}
    (hs : w.sites[scope]? = some inner) (h : μ.Matches w inner R r r') :
    μ.Matches w around R (Run.within scope r) (Run.within scope r') := by
  intro m m' hm _
  have hr := h { m with current := scope } { m' with current := scope }
    { hm with current := rfl } hs
  rw [Run.run_within, Run.run_within]
  generalize r.run _ = o, r'.run _ = o' at hr
  cases hr with
  | none => exact .none
  | fault hw hf h _ => exact .fault hw hf { h with current := hm.current } rfl
  | ok hw ha h _ => exact .ok hw ha { h with current := hm.current } rfl

theorem Matches.print {v v' : Value} (h : μ.Values w v v') :
    μ.Matches w around (fun _ => Eq) (Run.print v) (Run.print v') := by
  intro m m' hm _
  refine .ok (.refl w) rfl { hm with output := ?_ } rfl
  show m'.output ++ v'.text ++ "\n" = m.output ++ v.text ++ "\n"
  rw [h.alike.text μ.spelling.lookalikes, hm.output]

/-- A declaration binds its name in the current scope. -/
theorem Matches.define {v v' : Value} (h : μ.Values w v v') {t t' : Token} {binder : Binder}
    (hl : μ.layout.Lists around t.lexeme binder)
    (ht : t'.lexeme = μ.spelling.called around t.lexeme) :
    μ.Matches w around (fun _ => Eq) (Run.define t v) (Run.define t' v') := by
  intro m m' hm hs
  refine .ok (.refl w) rfl { hm with store := ?_ } rfl
  show μ.Stores w _ _ (m'.store.define m'.current t'.lexeme v')
  rw [hm.current]
  exact hm.store.define hs ht hl h

theorem Matches.close {here : Place} {d : Declaration} (h : d.Sited μ.layout here around) :
    μ.Matches w around μ.Values (Run.close d)
      (Run.close (d.renamed μ.spelling here around)) := by
  intro m m' hm hs
  have hgrows := w.grows_closed ⟨here, d, m.current⟩
  refine .ok hgrows (m := { m with functions := m.functions + 1 }) ?_
    { hm with
      store := hm.store.closed _
      births := List.length_append.trans (congrArg (· + 1) hm.births)
      functions := congrArg (· + 1) hm.functions } rfl
  rw [hm.functions, hm.current]
  refine .function ?_ (hgrows.site hs) h
  rw [← hm.births]
  exact w.birth_closed _

/-- A new scope at a place, within the scope of a block or a function. -/
theorem Matches.enterScope {parent : ScopeId} {outer : List Place}
    (hp : w.sites[parent]? = some outer) (place : Place) {params : List Token}
    (hparams : ∀ t ∈ params, μ.layout.Lists (place :: outer) t.lexeme .parameter)
    {args args' : List Value} (ha : List.Forall₂ (μ.Values w) args args') :
    μ.Matches w around
      (fun w' scope scope' => scope' = scope ∧ w'.sites[scope]? = some (place :: outer))
      (Run.enterScope parent (params.zip args))
      (Run.enterScope parent
        ((params.map (μ.spelling.declaration (place :: outer))).zip args')) := by
  intro m m' hm _
  have hgrows := w.grows_opened (place :: outer)
  have hsite : (w.opened (place :: outer)).sites[m.store.size]? = some (place :: outer) := by
    rw [← hm.store.sites]
    exact w.site_opened _
  refine .ok hgrows ⟨hm.store.size, hsite⟩ { hm with store := ?_ } rfl
  show μ.Stores _ _ (Store.defineAll _ m.store.size _) (Store.defineAll _ m'.store.size _)
  rw [hm.store.size]
  exact (hm.store.push hp place).defineAll hsite hparams (ha.imp fun _ _ hv => hv.mono hgrows)

theorem Matches.enterBlock (place : Place) :
    μ.Matches w around
      (fun w' scope scope' => scope' = scope ∧ w'.sites[scope]? = some (place :: around))
      Run.enterBlock Run.enterBlock := by
  intro m m' hm hs
  have hnone : ∀ t ∈ ([] : List Token), μ.layout.Lists (place :: around) t.lexeme .parameter :=
    fun _ ht => (List.not_mem_nil ht).elim
  have h := Matches.enterScope hs place hnone .nil m m' hm hs
  show μ.Answers w _ _ ((Run.enterScope m.current []).run m)
    ((Run.enterScope m'.current []).run m')
  rw [hm.current]
  exact h

/-- A variable that one side misses the other misses as well. -/
theorem faults_use (around : List Place) (id : NodeId) (t : Token) :
    μ.Faults ⟨.undefinedVariable t.lexeme, t.line⟩
      ⟨.undefinedVariable (μ.spelling.use around id t).lexeme,
        (μ.spelling.use around id t).line⟩ := by
  unfold Renaming.use
  split
  · rename_i hc
    exact .inr ⟨congrArg _ hc.1, rfl⟩
  · exact .inl rfl

section Variables

variable {find find' : Finder} (hfinds : μ.Finds find find') {id : NodeId} {t : Token}
  (hu : μ.layout.Uses around id t)
include hfinds hu

theorem Matches.readBy :
    μ.Matches w around μ.Values (Run.readBy find id t)
      (Run.readBy find' id (μ.spelling.use around id t)) := by
  intro m m' hm hs
  obtain ⟨hsame, hfound⟩ := hfinds hm hs hu
  rw [Run.run_readBy, Run.run_readBy, hsame]
  cases hf : find m id t with
  | none => exact .fault (.refl w) (faults_use ..) hm rfl
  | some scope =>
      obtain ⟨site, hsite, hname, -⟩ := hfound scope hf
      have hl := hm.store.lookup? scope site hsite t.lexeme
      rw [← hname] at hl
      simp only [Option.bind_some]
      generalize m.store.lookup? _ _ = o, m'.store.lookup? _ _ = o' at hl
      cases hl with
      | none => exact .fault (.refl w) (faults_use ..) hm rfl
      | some hv => exact .ok (.refl w) hv hm rfl

theorem Matches.writeBy {v v' : Value} (hv : μ.Values w v v') :
    μ.Matches w around (fun _ => Eq) (Run.writeBy find id t v)
      (Run.writeBy find' id (μ.spelling.use around id t) v') := by
  intro m m' hm hs
  obtain ⟨hsame, hfound⟩ := hfinds hm hs hu
  rw [Run.run_writeBy, Run.run_writeBy, hsame]
  cases hf : find m id t with
  | none => exact .fault (.refl w) (faults_use ..) hm rfl
  | some scope =>
      obtain ⟨site, hsite, hname, hbound⟩ := hfound scope hf
      obtain ⟨binder, hl⟩ := hm.store.listed scope site t.lexeme hsite hbound
      exact .ok (.refl w) rfl { hm with store := hm.store.define hsite hname hl hv } rfl

end Variables

end Rules

end Mirror

end Lox
