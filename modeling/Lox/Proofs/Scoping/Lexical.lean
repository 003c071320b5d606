import Mathlib.Order.Bounds.Basic
import Lox.Proofs.Scoping.Occurrences
import Lox.Proofs.Scoping.Walk
import Lox.Session

/-!
# The walk computes lexical scoping

The walk keeps names in a stack of scopes and turns a name back to one that is not ready
when it is declared again. What it records and what it reports can be said without all
that: the distance of a node is the number of scopes out to the first that has declared
its name before the node, and a fault is seen from the declarations before it.

Behind occurrences the stack tracks them. A scope knows a name if the name has been
declared with that scope innermost, and the name is ready unless the walk is in its
initializer. Each step of the walk is followed by one occurrence, and the rest is
putting steps together.
-/

namespace Lox

open Binding Occurrence

/-- The number of scopes out to the first that declares the name before the setting. -/
def Setting.distance? (a : Setting) (before : List Occurrence) (name : String) : Option Nat :=
  a.scopes.findIdx? fun place => declared before place name

/-- The distance to record for an occurrence. -/
def Occurrence.link? (before : List Occurrence) (o : Occurrence) : Option (NodeId × Nat) :=
  o.mention.use?.bind fun (id, name) =>
    (o.setting.distance? before name.lexeme).map fun distance => (id, distance)

theorem Occurrence.declared_append (before os : List Occurrence) (place : Place) (name : String) :
    declared (before ++ os) place name = (declared before place name || declared os place name) :=
  List.any_append

theorem Occurrence.declared_declare (name : Token) (a : Setting) (place : Place) (x : String) :
    declared [⟨.declare name, a⟩] place x =
      (name.lexeme == x && a.scopes.head? == some place) :=
  Bool.or_false _

section

variable (before : List Occurrence) (a : Setting)

theorem Occurrence.link?_of_use {o : Occurrence} {id : NodeId} {name : Token}
    (h : o.mention.use? = some (id, name)) :
    link? before o =
      (o.setting.distance? before name.lexeme).map fun distance => (id, distance) := by
  rw [link?, h]
  rfl

theorem Occurrence.fault?_declare (name : Token) :
    fault? before ⟨.declare name, a⟩ =
      if ∃ place ∈ a.scopes.head?, declared before place name.lexeme then
        some ⟨.alreadyDeclared, name⟩ else none := rfl

theorem Occurrence.fault?_read (id : NodeId) (name : Token) :
    fault? before ⟨.read id name, a⟩ =
      if a.initializing = some name.lexeme ∧ a.scopes ≠ [] then
        some ⟨.readInOwnInitializer, name⟩ else none := rfl

end

namespace Binding

/-! ## What the open scopes know -/

/-- A scope knows the names that have been declared in it, each ready unless it is being
initialized. -/
structure Known (before : List Occurrence) (initializing : Option String) (place : Place)
    (names : Names) : Prop where
  lookup : ∀ x, names.lookup x =
    if declared before place x then some (decide (initializing ≠ some x)) else none
  /-- A name is initialized behind its declaration. -/
  begun : ∀ x, initializing = some x → declared before place x = true

theorem Known.isSome_lookup {before : List Occurrence} {initializing : Option String}
    {place : Place} {names : Names} (h : Known before initializing place names) (x : String) :
    (names.lookup x).isSome = declared before place x := by
  rw [h.lookup]
  split
  · rename_i hd
    exact hd.symm
  · rename_i hd
    exact (Bool.eq_false_iff.mpr hd).symm

/-- The open scopes stand at places apart, and each knows what has been declared in it. Only
in the innermost one a name is being initialized. -/
inductive Tracks (before : List Occurrence) :
    Option String → List Place → List Names → Prop
  | top {initializing : Option String} : Tracks before initializing [] []
  | scope {initializing : Option String} {place : Place} {places : List Place} {names : Names}
      {scopes : List Names} (known : Known before initializing place names)
      (apart : place ∉ places) (outer : Tracks before none places scopes) :
      Tracks before initializing (place :: places) (names :: scopes)

namespace Tracks

variable {before before' : List Occurrence} {initializing : Option String} {places : List Place}
  {scopes : List Names} {s : State} {name : Token} {x : String}

/-- A name is not ready where it is being initialized. -/
theorem innermost?_eq_false (h : Tracks before initializing places s.scopes) :
    s.innermost? x = some false ↔ initializing = some x ∧ places ≠ [] := by
  rw [State.innermost?]
  generalize s.scopes = scopes at h
  cases h with
  | top => simp
  | scope known =>
      rw [List.head?_cons, Option.bind_some, known.lookup]
      by_cases hi : initializing = some x
      · simp [known.begun x hi, hi]
      · simp [hi]

/-- A name is known to the innermost scope that has declared it. -/
theorem isSome_innermost? (h : Tracks before initializing places s.scopes) :
    (s.innermost? x).isSome = true ↔ ∃ place ∈ places.head?, declared before place x = true := by
  rw [State.innermost?]
  generalize s.scopes = scopes at h
  cases h with
  | top => simp
  | scope known => simp [known.isSome_lookup x]

theorem findIdx?_eq (h : Tracks before initializing places scopes) (x : String) :
    (scopes.findIdx? fun names => (names.lookup x).isSome) =
      places.findIdx? fun place => declared before place x := by
  induction h with
  | top => rfl
  | scope known apart outer ih =>
      rw [List.findIdx?_cons, List.findIdx?_cons, known.isSome_lookup, ih]

/-- Only what is declared in the open scopes matters. -/
theorem congr (h : Tracks before initializing places scopes)
    (heq : ∀ place ∈ places, ∀ x, declared before' place x = declared before place x) :
    Tracks before' initializing places scopes := by
  induction h with
  | top => exact .top
  | scope known apart outer ih =>
      have hplace := heq _ (List.mem_cons_self ..)
      refine .scope ⟨fun x => ?_, fun x hx => ?_⟩ apart
        (ih fun place hp => heq place (List.mem_cons_of_mem _ hp))
      · rw [hplace]
        exact known.lookup x
      · rw [hplace]
        exact known.begun x hx

/-- The name of a variable is declared, and its initializer is next. -/
theorem declare (h : Tracks before none places s.scopes) {a : Setting} (ha : a.scopes = places) :
    Tracks (before ++ [⟨.declare name, a⟩]) (some name.lexeme) places (s.declare name).scopes := by
  rw [scopes_declare]
  generalize s.scopes = scopes at h
  subst ha
  cases hs : a.scopes with
  | nil =>
      rw [hs] at h
      cases h
      exact .top
  | cons place places =>
      rw [hs] at h
      obtain _ | ⟨known, apart, outer⟩ := h
      refine .scope ⟨fun x => ?_, fun x hx => ?_⟩ apart (outer.congr fun place' hp x => ?_)
      · rw [lookup_cons_name, declared_append, declared_declare, hs, known.lookup]
        by_cases hx : x = name.lexeme
        · simp [hx]
        · simp [hx, Ne.symm hx]
      · cases hx
        simp [declared_append, declared_declare, hs]
      · have hne : place ≠ place' := fun heq => apart (heq ▸ hp)
        simp [declared_append, declared_declare, hs, hne]

/-- Behind its initializer a variable is ready. -/
theorem define (h : Tracks before (some name.lexeme) places s.scopes) :
    Tracks before none places (s.define name).scopes := by
  rw [State.define, scopes_enter]
  generalize s.scopes = scopes at h
  cases h with
  | top => exact .top
  | scope known apart outer =>
      refine .scope ⟨fun x => ?_, fun x hx => by cases hx⟩ apart outer
      rw [lookup_cons_name, known.lookup]
      by_cases hx : x = name.lexeme
      · simp [hx, known.begun _ rfl]
      · simp [hx, Ne.symm hx]

/-- A scope is opened at a place where nothing has been declared. -/
theorem openScope {place : Place} (h : Tracks before none places s.scopes)
    (hnew : ∀ x, declared before place x = false) (apart : place ∉ places) :
    Tracks before none (place :: places) s.openScope.scopes :=
  .scope ⟨fun x => by rw [hnew, if_neg Bool.false_ne_true]; rfl, fun _ hx => by cases hx⟩ apart h

theorem closeScope {place : Place} (h : Tracks before none (place :: places) s.scopes) :
    Tracks before none places s.closeScope.scopes := by
  rw [State.closeScope]
  generalize s.scopes = scopes at h
  obtain _ | ⟨-, -, outer⟩ := h
  exact outer

end Tracks

/-! ## Steps of the walk -/

/-- A step of the walk reports the faults of the occurrences that it follows and records
their distances, and the open scopes track the declarations among them. -/
structure Follows (before : List Occurrence) (initializing : Option String)
    (places : List Place) (os : List Occurrence) (s s' : State) : Prop where
  faults : s'.faults = s.faults ++ inOrder fault? before os
  distances : s'.distances = (inOrder link? before os).reverse ++ s.distances
  tracks : Tracks (before ++ os) initializing places s'.scopes

section Steps

variable {before os os' : List Occurrence} {initializing initializing' : Option String}
  {places places' : List Place} {s s' s'' : State} {a : Setting}

theorem Follows.refl (h : Tracks before initializing places s.scopes) :
    Follows before initializing places [] s s :=
  ⟨(List.append_nil _).symm, rfl, (List.append_nil before).symm ▸ h⟩

theorem Follows.append (h : Follows before initializing places os s s')
    (h' : Follows (before ++ os) initializing' places' os' s' s'') :
    Follows before initializing' places' (os ++ os') s s'' where
  faults := by rw [h'.faults, h.faults, inOrder_append, List.append_assoc]
  distances := by
    rw [h'.distances, h.distances, inOrder_append, List.reverse_append, List.append_assoc]
  tracks := List.append_assoc .. ▸ h'.tracks

/-- What is walked inside a scope, from its opening to its closing. -/
theorem Follows.inScope {place : Place}
    (h : Follows before none (place :: places) os s.openScope s') :
    Follows before none places os s s'.closeScope :=
  ⟨h.faults, h.distances, h.tracks.closeScope⟩

theorem declare_follows (h : Tracks before none a.scopes s.scopes) (name : Token) :
    Follows before (some name.lexeme) a.scopes [⟨.declare name, a⟩] s (s.declare name) where
  faults := by
    have hknown := h.isSome_innermost? (x := name.lexeme)
    rw [inOrder_singleton, fault?_declare, State.declare]
    by_cases hd : (s.innermost? name.lexeme).isSome = true
    · rw [if_pos hd, if_pos (hknown.mp hd), State.report, faults_enter]
      rfl
    · rw [if_neg hd, if_neg (mt hknown.mpr hd), faults_enter]
      exact (List.append_nil _).symm
  distances := by
    rw [State.declare]
    split <;> exact distances_enter ..
  tracks := h.declare rfl

theorem Follows.define {name : Token} (h : Follows before (some name.lexeme) places os s s') :
    Follows before none places os s (s'.define name) :=
  ⟨(faults_enter ..).trans h.faults, (distances_enter ..).trans h.distances, h.tracks.define⟩

theorem introduce_follows (h : Tracks before none a.scopes s.scopes) (name : Token) :
    Follows before none a.scopes [⟨.declare name, a⟩] s (s.introduce name) :=
  (declare_follows h name).define

/-- An occurrence that declares nothing leaves the open scopes as they are. -/
theorem Tracks.undeclared {o : Occurrence} (h : Tracks before initializing places s.scopes)
    (hs : s'.scopes = s.scopes) (ho : ∀ name, o.mention ≠ .declare name) :
    Tracks (before ++ [o]) initializing places s'.scopes := by
  rw [hs]
  refine h.congr fun place _ x => ?_
  obtain ⟨mention, setting⟩ := o
  rw [declared_append]
  cases mention with
  | declare name => exact absurd rfl (ho name)
  | read | write | ret => exact Bool.or_false _

theorem distances_link {mention : Mention} {id : NodeId} {name : Token}
    (h : Tracks before initializing a.scopes s.scopes) (hm : mention.use? = some (id, name)) :
    (s.link id name).distances = (inOrder link? before [⟨mention, a⟩]).reverse ++ s.distances := by
  rw [inOrder_singleton, link?_of_use before (o := ⟨mention, a⟩) hm, State.link, State.distance?,
    h.findIdx?_eq, ← Setting.distance?]
  cases a.distance? before name.lexeme <;> rfl

theorem read_follows (h : Tracks before a.initializing a.scopes s.scopes) (id : NodeId)
    (name : Token) :
    Follows before a.initializing a.scopes [⟨.read id name, a⟩] s (s.read id name) where
  faults := by
    have hown := h.innermost?_eq_false (x := name.lexeme)
    rw [inOrder_singleton, fault?_read, State.read, faults_link]
    by_cases hi : s.innermost? name.lexeme = some false
    · rw [if_pos hi, if_pos (hown.mp hi)]
      rfl
    · rw [if_neg hi, if_neg (mt hown.mpr hi)]
      exact (List.append_nil _).symm
  distances := by
    rw [State.read]
    split
    · exact distances_link (s := s.report _ _) h rfl
    · exact distances_link h rfl
  tracks := h.undeclared (scopes_read s id name) fun _ heq => by cases heq

theorem write_follows (h : Tracks before a.initializing a.scopes s.scopes) (id : NodeId)
    (name : Token) :
    Follows before a.initializing a.scopes [⟨.write id name, a⟩] s (s.link id name) where
  faults := (faults_link s id name).trans (List.append_nil _).symm
  distances := distances_link h rfl
  tracks := h.undeclared (scopes_link s id name) fun _ heq => by cases heq

theorem ret_follows (h : Tracks before a.initializing a.scopes s.scopes) (keyword : Token) :
    Follows before a.initializing a.scopes [⟨.ret keyword, a⟩] s
      (if a.inFunction then s else s.report .returnFromTopLevel keyword) where
  faults := by
    rw [inOrder_singleton, fault?]
    cases a.inFunction
    · rfl
    · exact (List.append_nil _).symm
  distances := by
    cases a.inFunction <;> rfl
  tracks := h.undeclared (by cases a.inFunction <;> rfl) fun _ heq => by cases heq

end Steps

/-! ## The walk over expressions -/

mutual

theorem expression_follows (e : Expr) {before : List Occurrence} {a : Setting} {s : State}
    (h : Tracks before a.initializing a.scopes s.scopes) :
    Follows before a.initializing a.scopes (a.occurrences e.mentions) s (expression e s) := by
  match e with
  | .literal _ => exact .refl h
  | .group inner => exact expression_follows inner h
  | .unary _ operand => exact expression_follows operand h
  | .binary left _ right | .logical left _ right =>
      have hl := expression_follows left h
      rw [Expr.mentions, Setting.occurrences, List.map_append]
      exact hl.append (expression_follows right hl.tracks)
  | .variable id name => exact read_follows h id name
  | .assign id name value =>
      have hv := expression_follows value h
      rw [Expr.mentions, Setting.occurrences, List.map_append]
      exact hv.append (write_follows hv.tracks id name)
  | .call callee _ arguments =>
      have hc := expression_follows callee h
      rw [Expr.mentions, Setting.occurrences, List.map_append]
      exact hc.append (expressions_follow arguments hc.tracks)

theorem expressions_follow (es : List Expr) {before : List Occurrence} {a : Setting} {s : State}
    (h : Tracks before a.initializing a.scopes s.scopes) :
    Follows before a.initializing a.scopes (a.occurrences (Expr.mentionsAll es)) s
      (expressions es s) := by
  match es with
  | [] => exact .refl h
  | e :: rest =>
      have he := expression_follows e h
      rw [Expr.mentionsAll, Setting.occurrences, List.map_append]
      exact he.append (expressions_follow rest he.tracks)

end

theorem optionalExpression_follows (o : Option Expr) {before : List Occurrence} {a : Setting}
    {s : State} (h : Tracks before a.initializing a.scopes s.scopes) :
    Follows before a.initializing a.scopes (a.occurrences (Expr.mentionsOptional o)) s
      (optionalExpression o s) := by
  cases o with
  | none => exact .refl h
  | some e => exact expression_follows e h

/-- The parameters of a function are declared one after the other. -/
theorem introduceAll_follows (params : List Token) {before : List Occurrence} {a : Setting}
    {s : State} (h : Tracks before none a.scopes s.scopes) :
    Follows before none a.scopes (a.occurrences (params.map .declare)) s
      (params.foldl State.introduce s) := by
  induction params generalizing before s with
  | nil => exact .refl h
  | cons name params ih =>
      have hname := introduce_follows h name
      exact hname.append (ih hname.tracks)

/-! ## The walk over statements -/

/-- No scope at the place or further in is open, and nothing has been declared in one. -/
structure Untouched (here : Place) (before : List Occurrence) (places : List Place) : Prop where
  closed : ∀ place ∈ places, ¬ here <:+ place
  undeclared : ∀ o ∈ before, ∀ place ∈ o.setting.scopes.head?, ¬ here <:+ place

namespace Untouched

variable {here there : Place} {before os : List Occurrence} {places : List Place}

theorem part (h : Untouched here before places) (i : Nat) : Untouched (i :: here) before places :=
  ⟨fun place hp hs => h.closed place hp (Place.step_back hs),
    fun o ho place hp hs => h.undeclared o ho place hp (Place.step_back hs)⟩

/-- Nothing is declared in the scope yet. -/
theorem declared_eq (h : Untouched here before places) (x : String) :
    declared before here x = false := by
  refine List.any_eq_false.mpr fun o ho hd => ?_
  rw [Occurrence.declares] at hd
  split at hd
  · rw [Bool.and_eq_true, beq_iff_eq, beq_iff_eq] at hd
    exact h.undeclared o ho here hd.2 (List.suffix_refl _)
  · cases hd

/-- Inside the scope, at one of its statements. -/
theorem enter (h : Untouched here before places) (i : Nat) :
    Untouched (i :: here) before (here :: places) where
  closed := by
    intro place hp hs
    rcases List.mem_cons.mp hp with rfl | hp
    · exact Place.ne_of_step hs rfl
    · exact h.closed place hp (Place.step_back hs)
  undeclared := (h.part i).undeclared

/-- Behind occurrences elsewhere. -/
theorem append (h : Untouched here before places) (hos : Inside there places os)
    (apart : ∀ place, there <:+ place → ¬ here <:+ place) :
    Untouched here (before ++ os) places := by
  refine ⟨h.closed, fun o ho place hp => ?_⟩
  rcases List.mem_append.mp ho with ho | ho
  · exact h.undeclared o ho place hp
  · exact (hos o ho place hp).elim (h.closed place) (apart place)

/-- Behind the mentions of an expression. -/
theorem mentions (h : Untouched here before places) {a : Setting} (ha : a.scopes = places)
    (mentions : List Mention) : Untouched here (before ++ a.occurrences mentions) places := by
  refine ⟨h.closed, fun o ho place hp => ?_⟩
  rcases List.mem_append.mp ho with ho | ho
  · exact h.undeclared o ho place hp
  · obtain ⟨mention, -, rfl⟩ := List.mem_map.mp ho
    exact h.closed place (ha ▸ List.mem_of_mem_head? hp)

/-- Behind another part of the statement. -/
theorem sibling {i j : Nat} (h : Untouched (i :: here) before places)
    (hos : Inside (j :: here) places os) (hne : j ≠ i) :
    Untouched (i :: here) (before ++ os) places :=
  h.append hos fun _ hj hi => hne (Place.step_unique hj hi)

end Untouched

/-- An expression outside all initializers. -/
theorem value_follows (e : Expr) {before : List Occurrence} {a : Setting} {s : State}
    (ha : a.initializing = none) (h : Tracks before none a.scopes s.scopes) :
    Follows before none a.scopes (a.occurrences e.mentions) s (expression e s) :=
  ha ▸ expression_follows e (ha ▸ h)

theorem optionalValue_follows (o : Option Expr) {before : List Occurrence} {a : Setting}
    {s : State} (ha : a.initializing = none) (h : Tracks before none a.scopes s.scopes) :
    Follows before none a.scopes (a.occurrences (Expr.mentionsOptional o)) s
      (optionalExpression o s) :=
  ha ▸ optionalExpression_follows o (ha ▸ h)

mutual

theorem statement_follows (st : Stmt) (here : Place) {before : List Occurrence} {a : Setting}
    {s : State} (ha : a.initializing = none) (h : Tracks before none a.scopes s.scopes)
    (hu : Untouched here before a.scopes) :
    Follows before none a.scopes (st.occurrences here a) s (statement a.inFunction st s) := by
  match st with
  | .expression value | .print value => exact value_follows value ha h
  | .var name initializer =>
      have hd := declare_follows h name
      exact (hd.append (optionalExpression_follows (a := a.inInitializer name) initializer
        hd.tracks)).define
  | .block body =>
      have hopen := h.openScope hu.declared_eq fun hmem => hu.closed here hmem (List.suffix_refl _)
      exact (statements_follow body here 0 (a := a.inBlock here) ha hopen
        fun j _ => hu.enter j).inScope
  | .ifThen condition thenBranch elseBranch =>
      have hc := value_follows condition ha h
      have hu' := hu.mentions rfl condition.mentions
      have ht := statement_follows thenBranch (0 :: here) ha hc.tracks (hu'.part 0)
      have he := optionalStatement_follows elseBranch (1 :: here) ha ht.tracks
        ((hu'.part 1).sibling (thenBranch.occurrences_inside (0 :: here) a) Nat.zero_ne_one)
      exact hc.append (ht.append he)
  | .whileLoop condition body =>
      have hc := value_follows condition ha h
      exact hc.append (statement_follows body (0 :: here) ha hc.tracks
        ((hu.mentions rfl condition.mentions).part 0))
  | .forLoop none condition increment body =>
      have hc := optionalValue_follows condition ha h
      have hb := statement_follows body (0 :: here) ha hc.tracks
        ((hu.mentions rfl (Expr.mentionsOptional condition)).part 0)
      exact hc.append (hb.append (optionalValue_follows increment ha hb.tracks))
  | .forLoop (some initializer) condition increment body =>
      have hopen := h.openScope hu.declared_eq fun hmem => hu.closed here hmem (List.suffix_refl _)
      have hi := statement_follows initializer (0 :: here) (a := a.inBlock here) ha hopen
        (hu.enter 0)
      have hc := optionalValue_follows (a := a.inBlock here) condition ha hi.tracks
      have hu' : Untouched (1 :: here) _ (a.inBlock here).scopes :=
        (hu.enter 1).sibling (initializer.occurrences_inside (0 :: here) (a.inBlock here))
          Nat.zero_ne_one
      have hb := statement_follows body (1 :: here) (a := a.inBlock here) ha hc.tracks
        (hu'.mentions rfl (Expr.mentionsOptional condition))
      have hr := optionalValue_follows (a := a.inBlock here) increment ha hb.tracks
      exact (hi.append (hc.append (hb.append hr))).inScope
  | .function name params body =>
      have hn := introduce_follows h name
      have hu' : Untouched here (before ++ [⟨.declare name, a⟩]) a.scopes :=
        hu.mentions rfl [.declare name]
      have hopen := hn.tracks.openScope hu'.declared_eq
        fun hmem => hu.closed here hmem (List.suffix_refl _)
      have hp := introduceAll_follows (a := a.inCall here) params hopen
      have hb := statements_follow body here 0 (a := a.inCall here) ha hp.tracks
        fun j _ => (hu'.enter j).mentions (a := a.inCall here) rfl _
      exact hn.append (hp.append hb).inScope
  | .ret keyword value =>
      have hr := ret_follows (a := a) (ha ▸ h) keyword
      rw [ha] at hr
      exact hr.append (optionalValue_follows value ha hr.tracks)

theorem statements_follow (body : List Stmt) (here : Place) (k : Nat) {before : List Occurrence}
    {a : Setting} {s : State} (ha : a.initializing = none)
    (h : Tracks before none a.scopes s.scopes)
    (hu : ∀ j, k ≤ j → Untouched (j :: here) before a.scopes) :
    Follows before none a.scopes (Stmt.occurrencesAll here k a body) s
      (statements a.inFunction body s) := by
  match body with
  | [] => exact .refl h
  | st :: rest =>
      have hst := statement_follows st (k :: here) ha h (hu k (Nat.le_refl k))
      refine hst.append (statements_follow rest here (k + 1) ha hst.tracks fun j hj => ?_)
      exact (hu j (Nat.le_of_succ_le hj)).sibling (st.occurrences_inside (k :: here) a)
        (Nat.ne_of_lt hj)

theorem optionalStatement_follows (o : Option Stmt) (here : Place) {before : List Occurrence}
    {a : Setting} {s : State} (ha : a.initializing = none)
    (h : Tracks before none a.scopes s.scopes) (hu : Untouched here before a.scopes) :
    Follows before none a.scopes (Stmt.occurrencesOptional here a o) s
      (optionalStatement a.inFunction o s) := by
  match o with
  | none => exact .refl h
  | some st => exact statement_follows st here ha h hu

end

/-- A program is followed by all that it says, from the front. -/
theorem program_follows (body : List Stmt) (distances : Distances) :
    Follows [] none [] (Stmt.chronology body) ⟨[], distances, []⟩ (program body distances) :=
  statements_follow body [] 0 (a := .top) rfl .top fun _ _ =>
    ⟨fun _ hp => absurd hp List.not_mem_nil, fun _ ho => absurd ho List.not_mem_nil⟩

/-! ## What is recorded and what is reported -/

end Binding

namespace Setting

variable {a : Setting} {before : List Occurrence} {name : String} {distance : Nat}

theorem distance?_eq_some_iff :
    a.distance? before name = some distance ↔ IsLeast {d | a.Finds before name d} distance := by
  rw [distance?, List.findIdx?_eq_some_iff_getElem]
  constructor
  · rintro ⟨hlt, hd, hleast⟩
    refine ⟨⟨a.scopes[distance], List.getElem?_eq_getElem hlt, hd⟩, ?_⟩
    rintro d ⟨place, hp, hfound⟩
    by_contra hd
    obtain ⟨_, rfl⟩ := List.getElem?_eq_some_iff.mp hp
    exact hleast d (Nat.lt_of_not_le hd) hfound
  · rintro ⟨⟨place, hp, hd⟩, hleast⟩
    obtain ⟨hlt, rfl⟩ := List.getElem?_eq_some_iff.mp hp
    refine ⟨hlt, hd, fun j hj hfound => ?_⟩
    have hle : distance ≤ j :=
      hleast ⟨a.scopes[j], List.getElem?_eq_getElem (hj.trans hlt), hfound⟩
    omega

theorem distance?_eq_none_iff :
    a.distance? before name = none ↔ ∀ d, ¬ a.Finds before name d := by
  rw [distance?, List.findIdx?_eq_none_iff]
  constructor
  · rintro h d ⟨place, hp, hd⟩
    rw [h place (List.mem_of_getElem? hp)] at hd
    cases hd
  · intro h place hp
    obtain ⟨d, hd, rfl⟩ := List.mem_iff_getElem.mp hp
    exact Bool.eq_false_iff.mpr fun hfound =>
      h d ⟨a.scopes[d], List.getElem?_eq_getElem hd, hfound⟩

end Setting

namespace Occurrence

theorem mem_ids_of_mem_inOrder {before os : List Occurrence} {id : NodeId} {distance : Nat}
    (h : (id, distance) ∈ inOrder link? before os) : id ∈ ids os := by
  induction os generalizing before with
  | nil => cases h
  | cons o os ih =>
      rw [show o :: os = [o] ++ os from rfl, ids_append, List.mem_append]
      rcases List.mem_append.mp h with h | h
      · obtain ⟨⟨_, name⟩, huse, hd⟩ := Option.bind_eq_some_iff.mp (Option.mem_toList.mp h)
        obtain ⟨_, -, heq⟩ := Option.map_eq_some_iff.mp hd
        cases heq
        refine .inl (List.mem_filterMap.mpr ⟨o.mention, List.mem_singleton_self _, ?_⟩)
        rw [huse]
        rfl
      · exact .inr (ih h)

/-- Nothing is recorded for a node that is not among the occurrences. -/
theorem lookup_inOrder {before os : List Occurrence} {id : NodeId} (h : id ∉ ids os) :
    (inOrder link? before os).reverse.lookup id = none := by
  refine List.lookup_eq_none_iff.mpr fun ⟨id', distance⟩ hmem => ?_
  rw [bne_iff_ne]
  rintro rfl
  exact h (mem_ids_of_mem_inOrder (List.mem_reverse.mp hmem))

end Occurrence

namespace Binding

/-- A node that names a variable keeps what is recorded for it, or its old entry if nothing
is. -/
theorem find?_program {body : List Stmt} (hn : (Stmt.nodeIdsAll body).Nodup)
    (distances : Distances) {before after : List Occurrence} {o : Occurrence} {id : NodeId}
    {name : Token} (h : Stmt.chronology body = before ++ o :: after)
    (huse : o.mention.use? = some (id, name)) :
    (program body distances).distances.find? id =
      (o.setting.distance? before name.lexeme).or (distances.find? id) := by
  have hids : (ids (before ++ ([o] ++ after))).Nodup :=
    (h ▸ Stmt.ids_chronology body).nodup_iff.mpr hn
  have ho : ids [o] = [id] := by
    rw [ids, List.map_singleton, Mention.ids, List.filterMap_cons_some (by rw [huse]; rfl)]
    rfl
  rw [ids_append, ids_append, ho, List.singleton_append, List.nodup_append] at hids
  obtain ⟨-, hafter, hbefore⟩ := hids
  have hid : id ∉ ids before := fun hmem => hbefore id hmem id (List.mem_cons_self ..) rfl
  rw [(program_follows body distances).distances, h, ← List.singleton_append, inOrder_append,
    inOrder_append, inOrder_singleton, List.reverse_append, List.reverse_append,
    Distances.find?, List.lookup_append, List.lookup_append, List.lookup_append,
    lookup_inOrder hid, lookup_inOrder (List.nodup_cons.mp hafter).1, List.nil_append,
    link?_of_use before huse]
  generalize o.setting.distance? before name.lexeme = found
  cases found <;> simp [Distances.find?]

/-- The resolver computes lexical scoping. Of the names that a program mentions, from the
front, a node that reads or writes a variable gets the least number of scopes out to one
with an earlier declaration of its name, and no entry if there is none. What is reported
are the second declarations of names, the reads of local variables in their own
initializers and the returns outside functions, one by one as they come. Each node is one
of the mentions, and all other entries stay. -/
theorem program_scopes_lexically {body : List Stmt} (hn : (Stmt.nodeIdsAll body).Nodup)
    (distances : Distances) :
    let s := program body distances
    (∀ before o after, Stmt.chronology body = before ++ o :: after →
      ∀ id name, o.mention.use? = some (id, name) →
        (∀ d, IsLeast {d | o.setting.Finds before name.lexeme d} d →
          s.distances.find? id = some d) ∧
        ((∀ d, ¬ o.setting.Finds before name.lexeme d) →
          s.distances.find? id = distances.find? id)) ∧
      (ids (Stmt.chronology body)).Perm (Stmt.nodeIdsAll body) ∧
      (∀ id ∉ Stmt.nodeIdsAll body, s.distances.find? id = distances.find? id) ∧
      s.faults = Stmt.scopingFaults body := by
  have hids := Stmt.ids_chronology body
  have hwalk := program_follows body distances
  refine ⟨fun before o after h id name huse => ?_, hids, fun id hid => ?_, hwalk.faults⟩
  · have hfind := find?_program hn distances h huse
    refine ⟨fun d hd => ?_, fun hnone => ?_⟩
    · rw [hfind, Setting.distance?_eq_some_iff.mpr hd]
      rfl
    · rw [hfind, Setting.distance?_eq_none_iff.mpr hnone]
      rfl
  · rw [hwalk.distances, Distances.find?, List.lookup_append,
      lookup_inOrder (mt hids.mem_iff.mp hid)]
    rfl

/-- A name is read in its own initializer, declared again, declared by two parameters and
written to from a function inside the block; the return and the last read are at the top. -/
theorem nested_program_scopes :
    let source := "\x7b var a = a; var a = 1; fun f(b, b) \x7b a = b; \x7d \x7d return a;"
    let body := ((Session.new (.clock 0)).parse source).1
    let s := program body [(9, 4)]
    Stmt.nodeIdsAll body = [0, 3, 2, 4] ∧
      s.distances = [(3, 1), (2, 0), (0, 0), (9, 4)] ∧
      (Stmt.scopingFaults body).map (fun fault => (fault.cause, fault.token.lexeme)) =
        [(.readInOwnInitializer, "a"), (.alreadyDeclared, "a"), (.alreadyDeclared, "b"),
          (.returnFromTopLevel, "return")] ∧
      s.faults = Stmt.scopingFaults body ∧
      ∀ id ∉ Stmt.nodeIdsAll body, s.distances.find? id = Distances.find? [(9, 4)] id := by
  intro source body s
  have hids : Stmt.nodeIdsAll body = [0, 3, 2, 4] := by decide +kernel
  have hn : (Stmt.nodeIdsAll body).Nodup := by
    rw [hids]
    decide
  obtain ⟨-, -, hothers, hfaults⟩ := program_scopes_lexically hn [(9, 4)]
  exact ⟨hids, by decide +kernel, by decide +kernel, hfaults, hothers⟩

end Binding

end Lox
