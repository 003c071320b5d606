import Lox.Proofs.Loops.Layers
import Lox.Proofs.Lists
import Lox.Proofs.Shown
import Lox.Proofs.Store

/-!
# The machine that runs loops as they are written, and the one that runs them written out

The second machine makes every scope that the first one makes, at the same time, and
hollow ones in between. So a scope has different numbers on the two sides. A world keeps,
for each scope of the second machine, the layers around it and its twin, the scope in
which the first machine is meanwhile; of a hollow scope this is the twin of the scope
around it. Scopes that are shared bind the same names, to values that show the same.

A world also keeps with which declaration and in which scopes a function was made, by its
number, which is the same on both sides. Worlds only grow.
-/

namespace Lox

/-- The declaration with the loops in its body written out. -/
def Declaration.desugar (d : Declaration) : Declaration :=
  { d with body := Stmt.desugarAll d.body }

namespace Loops

/-- A function that was made, and the scopes its declaration was run in. -/
structure Birth where
  declaration : Declaration
  closure : ScopeId
  closure' : ScopeId

structure World where
  /-- The layers around each scope of the second machine, its own first, and its twin. -/
  sites : List (List Layer × ScopeId)
  /-- The functions by their numbers. -/
  births : List Birth

namespace World

/-- What was known stays known. -/
structure Grows (w w' : World) : Prop where
  sites : w.sites <+: w'.sites
  births : w.births <+: w'.births

variable {w w' w'' : World}

theorem Grows.refl (w : World) : w.Grows w := ⟨List.prefix_refl _, List.prefix_refl _⟩

theorem Grows.trans (h : w.Grows w') (h' : w'.Grows w'') : w.Grows w'' :=
  ⟨h.sites.trans h'.sites, h.births.trans h'.births⟩

theorem Grows.site (h : w.Grows w') {t : ScopeId} {site : List Layer × ScopeId}
    (hs : w.sites[t]? = some site) : w'.sites[t]? = some site := h.sites.getElem?_eq_some hs

theorem Grows.birth (h : w.Grows w') {serial : Nat} {birth : Birth}
    (hb : w.births[serial]? = some birth) : w'.births[serial]? = some birth :=
  h.births.getElem?_eq_some hb

/-- The world with a new scope of the second machine. -/
def opened (w : World) (layers : List Layer) (twin : ScopeId) : World :=
  { w with sites := w.sites ++ [(layers, twin)] }

/-- The world with a new function. -/
def closed (w : World) (birth : Birth) : World := { w with births := w.births ++ [birth] }

theorem grows_opened (w : World) (layers : List Layer) (twin : ScopeId) :
    w.Grows (w.opened layers twin) := ⟨List.prefix_append .., List.prefix_refl _⟩

theorem grows_closed (w : World) (birth : Birth) : w.Grows (w.closed birth) :=
  ⟨List.prefix_refl _, List.prefix_append ..⟩

theorem site_opened (w : World) (layers : List Layer) (twin : ScopeId) :
    (w.opened layers twin).sites[w.sites.length]? = some (layers, twin) :=
  List.getElem?_concat_length

theorem birth_closed (w : World) (birth : Birth) :
    (w.closed birth).births[w.births.length]? = some birth := List.getElem?_concat_length

/-- A scope of the new world is old or the new one. -/
theorem site_of_opened {layers : List Layer} {twin t : ScopeId} {site : List Layer × ScopeId}
    (h : (w.opened layers twin).sites[t]? = some site) :
    w.sites[t]? = some site ∨ (t = w.sites.length ∧ site = (layers, twin)) :=
  List.getElem?_concat_cases h

end World

/-- What the two machines have in common, and what has been recorded for the nodes that were
read so far. -/
structure Setting where
  globals : ScopeId
  records : Records
  nextId : NodeId
  natives : Array Native
  honest : ∀ native ∈ natives, native.Honest
  superficial : ∀ native ∈ natives, native.Superficial

/-- It holds of what has been recorded, and will hold whatever is recorded later on. -/
def Setting.Always (x : Setting) (P : Records → Prop) : Prop :=
  ∀ r : Records, (∀ id < x.nextId, r.found id = x.records.found id) → P r

namespace Setting.Always

variable {x : Setting} {P Q : Records → Prop}

theorem now (h : x.Always P) : P x.records := h x.records fun _ _ => rfl

theorem left (h : x.Always fun r => P r ∧ Q r) : x.Always P := fun r hr => (h r hr).1

theorem right (h : x.Always fun r => P r ∧ Q r) : x.Always Q := fun r hr => (h r hr).2

end Setting.Always

/-- The setting once more has been read and recorded. -/
def Setting.rebound (x : Setting) (r : Records) (j : NodeId) : Setting :=
  { x with records := r, nextId := j }

/-- What was to hold always still is, if nothing has been recorded anew. -/
theorem Setting.Always.rebound {x : Setting} {P : Records → Prop} (h : x.Always P) {r : Records}
    {j : NodeId} (hj : x.nextId ≤ j) (hr : ∀ id < x.nextId, r.found id = x.records.found id) :
    (x.rebound r j).Always P := fun known hknown =>
  h known fun id hid => (hknown id (Nat.lt_of_lt_of_le hid hj)).trans (hr id hid)

/-! ## Values -/

/-- The second value is the first, or the function made of the same declaration in the
scope whose twin the first one has. -/
inductive Values (x : Setting) (w : World) : Value → Value → Prop
  | simple {v : Value} (h : v.Simple) : Values x w v v
  | function {serial : Nat} {d : Declaration} {closure closure' : ScopeId}
    {layers : List Layer} (hb : w.births[serial]? = some ⟨d, closure, closure'⟩)
    (hs : w.sites[closure']? = some (layers, closure))
    (hd : x.Always (Stmt.TiedAll · (.shared :: layers) d.body)) :
    Values x w (.function serial d closure) (.function serial d.desugar closure')

section Values

variable {x : Setting} {w w' : World}

theorem Values.literal (value : Literal) : Values x w value.value value.value :=
  .simple value.simple_value

theorem Values.mono {v v' : Value} (h : Values x w v v') (hw : w.Grows w') :
    Values x w' v v' := by
  cases h with
  | simple h => exact .simple h
  | function hb hs hd => exact .function (hw.birth hb) (hw.site hs) hd

theorem Values.rebound {v v' : Value} (h : Values x w v v') {r : Records} {j : NodeId}
    (hj : x.nextId ≤ j) (hr : ∀ id < x.nextId, r.found id = x.records.found id) :
    Values (x.rebound r j) w v v' := by
  cases h with
  | simple h => exact .simple h
  | function hb hs hd => exact .function hb hs (hd.rebound hj hr)

theorem Values.shown {v v' : Value} (h : Values x w v v') : v'.shown = v.shown := by
  cases h with
  | simple h => rfl
  | function hb hs hd => rfl

theorem Values.truthy {v v' : Value} (h : Values x w v v') : v'.truthy = v.truthy := by
  rw [← v'.truthy_shown, h.shown, v.truthy_shown]

theorem Values.text {v v' : Value} (h : Values x w v v') : v'.text = v.text := by
  rw [← v'.text_shown, h.shown, v.text_shown]

theorem Values.decidedBy {v v' : Value} (h : Values x w v v') (operator : Token) :
    Run.decidedBy operator v' = Run.decidedBy operator v := by
  rw [← v'.decidedBy_shown, h.shown, v.decidedBy_shown]

theorem Values.shownAll {args args' : List Value} (h : List.Forall₂ (Values x w) args args') :
    args'.map Value.shown = args.map Value.shown := by
  induction h with
  | nil => rfl
  | cons hv _ ih => rw [List.map_cons, List.map_cons, hv.shown, ih]

theorem Values.of_shown {v v' : Value} (h : v.Simple) (hshown : v'.shown = v.shown) :
    Values x w v v' := by
  rw [Value.eq_of_shown h hshown]
  exact .simple h

/-- A function is made once, so that its number says what it is on both sides. -/
theorem Values.function_unique {serial : Nat} {d d' d₁ d₁' : Declaration}
    {c c' c₁ c₁' : ScopeId}
    (h : Values x w (.function serial d c) (.function serial d₁ c₁))
    (h' : Values x w (.function serial d' c') (.function serial d₁' c₁')) :
    Values x w (.function serial d c) (.function serial d₁' c₁') := by
  cases h with
  | simple h => exact h.elim
  | function hb hs hd =>
      cases h' with
      | simple h' => exact h'.elim
      | function hb' hs' hd' =>
          cases hb.symm.trans hb'
          exact .function hb' hs' hd'

/-- What a native function gives back it was given, or is no function of the program. -/
theorem Values.of_native {native : Native} (hn : native ∈ x.natives) {args args' : List Value}
    (ha : List.Forall₂ (Values x w) args args') {v v' : Value} (hv : native.apply args = .ok v)
    (hv' : native.apply args' = .ok v') (hshown : v'.shown = v.shown) : Values x w v v' := by
  cases v with
  | function serial d c =>
      cases v' with
      | function serial' d' c' =>
          obtain rfl : serial' = serial := by
            injection hshown
          obtain ⟨u', hu⟩ := ha.exists_right (x.honest native hn args _ d c hv)
          obtain ⟨u, hu'⟩ := ha.exists_left (x.honest native hn args' _ d' c' hv')
          cases hu with
          | simple h => exact h.elim
          | function hb hs hd =>
              cases hu' with
              | simple h => exact h.elim
              | function hb' hs' hd' =>
                  exact Values.function_unique (.function hb hs hd) (.function hb' hs' hd')
      | _ => cases hshown
  | _ => exact .of_shown trivial hshown

end Values

/-! ## Scopes -/

/-- How the twin of a scope lies in the twin of the scope around it. -/
def Lies (s : Store) : Layer → ScopeId → ScopeId → Prop
  | .shared, c, p => s.parent? c = some p
  | .hollow, c, p => p = c

/-- A scope of the second machine that is shared, and its twin. -/
def World.Twins (w : World) (c t : ScopeId) : Prop :=
  ∃ layers, Layer.Open layers ∧ w.sites[t]? = some (layers, c)

/-- A scope has no more than one twin. -/
theorem World.twins_unique {w : World} {b c t : ScopeId} (h : w.Twins b t) (h' : w.Twins c t) :
    b = c := by
  obtain ⟨_, -, ht⟩ := h
  obtain ⟨_, -, ht'⟩ := h'
  cases ht.symm.trans ht'
  rfl

/-- Of the scopes of the new world with a twin, the new one is shared. -/
theorem World.twins_of_opened {w : World} {layer : Layer} {layers : List Layer}
    {b c t : ScopeId} (h : (w.opened (layer :: layers) c).Twins b t) :
    w.Twins b t ∨ (t = w.sites.length ∧ b = c ∧ layer = .shared) := by
  obtain ⟨site, hopen, ht⟩ := h
  rcases site_of_opened ht with ht | ⟨rfl, heq⟩
  · exact .inl ⟨site, hopen, ht⟩
  · cases heq
    cases layer with
    | shared => exact .inr ⟨rfl, rfl, rfl⟩
    | hollow => exact absurd rfl hopen

/-- The scopes of the second machine lie as the layers around them say, and those that are
shared bind the names that their twins do. -/
structure Stores (x : Setting) (w : World) (s s' : Store) : Prop where
  sites : w.sites.length = s'.size
  top : w.sites[x.globals]? = some ([], x.globals)
  root : s.parent? x.globals = none
  root' : s'.parent? x.globals = none
  bound : ∀ (t : ScopeId) layers c, w.sites[t]? = some (layers, c) → c < s.size
  outward : ∀ (t : ScopeId) layer layers c, w.sites[t]? = some (layer :: layers, c) →
    ∃ (p p' : ScopeId), s'.parent? t = some p' ∧ w.sites[p']? = some (layers, p) ∧ Lies s layer c p
  unique : ∀ c t t', w.Twins c t → w.Twins c t' → t' = t
  lookup? : ∀ c t, w.Twins c t → ∀ name,
    Option.Rel (Values x w) (s.lookup? c name) (s'.lookup? t name)

namespace Stores

variable {x : Setting} {w : World} {s s' : Store}
  (h : Stores x w s s')
include h

theorem lt_size {t : ScopeId} {site : List Layer × ScopeId} (ht : w.sites[t]? = some site) :
    t < s'.size := h.sites ▸ (List.getElem?_eq_some_iff.mp ht).1

theorem lt_of_twins {c t : ScopeId} (ht : w.Twins c t) : c < s.size := by
  obtain ⟨layers, -, ht⟩ := ht
  exact h.bound t layers c ht

theorem lt_of_twins' {c t : ScopeId} (ht : w.Twins c t) : t < s'.size := by
  obtain ⟨layers, -, ht⟩ := ht
  exact h.lt_size ht

theorem twins_globals : w.Twins x.globals x.globals := ⟨[], Layer.open_nil, h.top⟩

/-- Tied distances lead to a scope and its twin. -/
theorem ancestor? {layers : List Layer} {d d' : Nat} (hd : Layer.Reaches layers d d')
    {c t : ScopeId} (ht : w.sites[t]? = some (layers, c)) :
    ∃ c₁ t₁, s.ancestor? c d = some c₁ ∧ s'.ancestor? t d' = some t₁ ∧ w.Twins c₁ t₁ := by
  induction hd generalizing c t with
  | here => exact ⟨c, t, rfl, rfl, _, Layer.open_shared _, ht⟩
  | shared hd ih =>
      obtain ⟨p, p', hp', hsite, hp⟩ := h.outward t _ _ c ht
      obtain ⟨c₁, t₁, hc, ht₁, htwins⟩ := ih hsite
      refine ⟨c₁, t₁, ?_, ?_, htwins⟩
      · rw [Store.ancestor?, show s.parent? c = some p from hp]
        exact hc
      · rw [Store.ancestor?, hp']
        exact ht₁
  | hollow hd ih =>
      obtain ⟨p, p', hp', hsite, rfl⟩ := h.outward t _ _ c ht
      obtain ⟨c₁, t₁, hc, ht₁, htwins⟩ := ih hsite
      refine ⟨c₁, t₁, hc, ?_, htwins⟩
      rw [Store.ancestor?, hp']
      exact ht₁

theorem isSome_lookup? {c t : ScopeId} (ht : w.Twins c t) (name : String) :
    (s'.lookup? t name).isSome = (s.lookup? c name).isSome := (h.lookup? c t ht name).isSome_eq

theorem closed (birth : Birth) : Stores x (w.closed birth) s s' :=
  { h with lookup? := fun c t ht name =>
      (h.lookup? c t ht name).imp fun _ _ hv => hv.mono (w.grows_closed birth) }

theorem rebound {r : Records} {j : NodeId} (hj : x.nextId ≤ j)
    (hr : ∀ id < x.nextId, r.found id = x.records.found id) :
    Stores (x.rebound r j) w s s' :=
  { h with lookup? := fun c t ht name =>
      (h.lookup? c t ht name).imp fun _ _ hv => hv.rebound hj hr }

/-- The second machine makes a scope, be it that the first one makes its twin. -/
theorem opened {s₁ : Store} {layer : Layer} {layers : List Layer} {c p p' : ScopeId}
    (hp : w.sites[p']? = some (layers, p)) (hsize : s.size ≤ s₁.size) (hc : c < s₁.size)
    (hparent : ∀ b < s.size, s₁.parent? b = s.parent? b)
    (hlookup : ∀ b name, s₁.lookup? b name = s.lookup? b name) (hwithin : Lies s₁ layer c p)
    (hnew : layer = .shared → s.size ≤ c) :
    Stores x (w.opened (layer :: layers) c) s₁ (s'.push (some p')).2 where
  sites := by
    rw [Store.size_push, ← h.sites]
    exact List.length_append
  top := (w.grows_opened _ _).site h.top
  root := (hparent _ (h.bound _ _ _ h.top)).trans h.root
  root' := by
    rw [Store.parent?_push, if_neg (Nat.ne_of_lt (h.lt_size h.top))]
    exact h.root'
  bound t site b ht := by
    rcases World.site_of_opened ht with ht | ⟨-, heq⟩
    · exact Nat.lt_of_lt_of_le (h.bound t site b ht) hsize
    · cases heq
      exact hc
  outward t layer' layers' b ht := by
    rcases World.site_of_opened ht with ht | ⟨rfl, heq⟩
    · obtain ⟨q, q', hq', hsite, hq⟩ := h.outward t layer' layers' b ht
      refine ⟨q, q', ?_, (w.grows_opened _ _).site hsite, ?_⟩
      · rw [Store.parent?_push, if_neg (Nat.ne_of_lt (h.lt_size ht))]
        exact hq'
      · cases layer' with
        | shared => exact (hparent b (h.bound t _ b ht)).trans hq
        | hollow => exact hq
    · cases heq
      refine ⟨p, p', ?_, (w.grows_opened _ _).site hp, hwithin⟩
      rw [Store.parent?_push, if_pos h.sites]
  unique b t t' ht ht' := by
    rcases World.twins_of_opened ht with hold | ⟨rfl, rfl, hshared⟩
    · rcases World.twins_of_opened ht' with hold' | ⟨-, rfl, hshared⟩
      · exact h.unique b t t' hold hold'
      · exact absurd (h.lt_of_twins hold) (Nat.not_lt_of_le (hnew hshared))
    · rcases World.twins_of_opened ht' with hold' | ⟨rfl, -, -⟩
      · exact absurd (h.lt_of_twins hold') (Nat.not_lt_of_le (hnew hshared))
      · rfl
  lookup? b t ht name := by
    rw [hlookup, Store.lookup?_push]
    rcases World.twins_of_opened ht with ht | ⟨rfl, rfl, hshared⟩
    · exact (h.lookup? b t ht name).imp fun _ _ hv => hv.mono (w.grows_opened _ _)
    · rw [Store.lookup?_of_size_le (hnew hshared),
        Store.lookup?_of_size_le (Nat.le_of_eq h.sites.symm)]
      exact .none

/-- Both machines make a scope. -/
theorem push {layers : List Layer} {p p' : ScopeId} (hp : w.sites[p']? = some (layers, p)) :
    Stores x (w.opened (.shared :: layers) s.size) (s.push (some p)).2
      (s'.push (some p')).2 := by
  refine h.opened hp ?_ ?_ (fun b hb => ?_) (fun b name => s.lookup?_push _ b name) ?_
    fun _ => Nat.le_refl _
  · rw [Store.size_push]
    exact Nat.le_succ _
  · rw [Store.size_push]
    exact Nat.lt_succ_self _
  · rw [Store.parent?_push, if_neg (Nat.ne_of_lt hb)]
  · show Store.parent? _ _ = _
    rw [Store.parent?_push, if_pos rfl]

/-- The second machine makes a hollow scope. -/
theorem pushHollow {layers : List Layer} {c p' : ScopeId}
    (hp : w.sites[p']? = some (layers, c)) :
    Stores x (w.opened (.hollow :: layers) c) s (s'.push (some p')).2 :=
  h.opened hp (Nat.le_refl _) (h.bound _ _ _ hp) (fun _ _ => rfl) (fun _ _ => rfl) rfl nofun

/-- In a scope and its twin the same name is bound. -/
theorem define {c t : ScopeId} (ht : w.Twins c t) (name : String) {v v' : Value}
    (hv : Values x w v v') : Stores x w (s.define c name v) (s'.define t name v') where
  sites := by rw [Store.size_define, h.sites]
  top := h.top
  root := (Store.parent?_define ..).trans h.root
  root' := (Store.parent?_define ..).trans h.root'
  bound := by
    rw [Store.size_define]
    exact h.bound
  outward u layer layers b hu := by
    obtain ⟨p, p', hp', hsite, hp⟩ := h.outward u layer layers b hu
    refine ⟨p, p', (Store.parent?_define ..).trans hp', hsite, ?_⟩
    cases layer with
    | shared => exact (Store.parent?_define ..).trans hp
    | hollow => exact hp
  unique := h.unique
  lookup? b u hu n := by
    have hb : b < s.size := h.lt_of_twins hu
    have hlt : u < s'.size := h.lt_of_twins' hu
    rw [Store.lookup?_define, Store.lookup?_define]
    by_cases hbc : b = c
    · subst hbc
      obtain rfl := h.unique _ _ _ ht hu
      by_cases hn : n = name
      · rw [if_pos ⟨rfl, hn, hb⟩, if_pos ⟨rfl, hn, hlt⟩]
        exact .some hv
      · rw [if_neg fun hc => hn hc.2.1, if_neg fun hc => hn hc.2.1]
        exact h.lookup? _ _ hu n
    · have hut : u ≠ t := by
        rintro rfl
        exact hbc (World.twins_unique hu ht)
      rw [if_neg fun heq => hbc heq.1, if_neg fun heq => hut heq.1]
      exact h.lookup? b u hu n

/-- Both global scopes bind a name or neither does. -/
theorem binder?_globals (name : String) :
    Option.Rel w.Twins (s.binder? x.globals name) (s'.binder? x.globals name) := by
  have htwins := h.twins_globals
  have hpos : 0 < s.scopes.size := Nat.zero_lt_of_lt (h.lt_of_twins htwins)
  have hpos' : 0 < s'.scopes.size := Nat.zero_lt_of_lt (h.lt_of_twins' htwins)
  rw [Store.binder?, Store.binder?, Store.nearest?_of_root h.root name hpos,
    Store.nearest?_of_root h.root' name hpos', h.isSome_lookup? htwins]
  split
  · exact .some htwins
  · exact .none

/-- Tied distances lead to a scope and its twin, which bind the name both or not. -/
theorem binderAt? {layers : List Layer} {d d' : Nat} (hd : Layer.Reaches layers d d')
    {c t : ScopeId} (ht : w.sites[t]? = some (layers, c)) (name : String) :
    Option.Rel w.Twins (s.binderAt? c d name) (s'.binderAt? t d' name) := by
  obtain ⟨c₁, t₁, hc, ht₁, htwins⟩ := h.ancestor? hd ht
  rw [Store.binderAt?, Store.binderAt?, hc, ht₁, Option.filter_some, Option.filter_some,
    h.isSome_lookup? htwins]
  split
  · exact .some htwins
  · exact .none

omit h in
theorem defineAll (h : Stores x w s s') {c t : ScopeId} (ht : w.Twins c t)
    (params : List Token) {args args' : List Value}
    (ha : List.Forall₂ (Values x w) args args') :
    Stores x w (s.defineAll c (params.zip args)) (s'.defineAll t (params.zip args')) := by
  induction params generalizing s s' args args' with
  | nil => exact h
  | cons name params ih =>
      cases ha with
      | nil => exact h
      | cons hv hvs => exact ih (h.define ht name.lexeme hv) hvs

end Stores

end Loops

end Lox
