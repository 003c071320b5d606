import Lox.Proofs.Sequel

/-!
# Programs split over two sources

Splitting a program over two sources of one session does not change what it does. Up to
the end of the first source the machine that runs it alone and the one that runs both
as one text are alike; from there on the second program runs on the one, and the same
program further down on the other.
-/

namespace Lox

open Token (wordsOf)

/-- What is reported of the second source of a session, and the same where the two are
one text: at a token of the second source it stands further down, at one of the first
where it stood. -/
def Diagnostic.Displaced (source tail : String) (d d' : Diagnostic) : Prop :=
  ∃ message line line', d = .runtime line message ∧ d' = .runtime line' message ∧
    ((line' = line ∧ ∃ t ∈ wordsOf source, t.line = line) ∨
      (line' = line + Session.linesOf source ∧ ∃ t ∈ wordsOf tail, t.line = line)) ∧
    (line' = line + Session.linesOf source ↔ Session.linesOf source < line')

namespace Session

/-! ## New sessions -/

/-- A session in which nothing has been run, with some native functions. -/
def fresh (clock : Native) (natives : List Native) : Session :=
  natives.foldl register (new clock)

/-- What is known of a session in which nothing has been run. -/
structure Blank (s : Session) : Prop where
  log : s.log = .empty
  nextId : s.nextId = 0
  distances : s.machine.distances = []
  output : s.machine.output = ""
  store : ∀ R, s.machine.store.Alike R s.machine.store
  discreet : ∀ native ∈ s.machine.natives, native.Discreet

theorem blank_bare : (Session.mk .bare .empty 0).Blank where
  log := rfl
  nextId := rfl
  distances := rfl
  output := rfl
  store R :=
    have hempty : Store.empty.Alike R Store.empty := ⟨rfl, fun _ => rfl, fun _ _ => .none⟩
    hempty.push none
  discreet := by
    intro native h
    cases Array.mem_def.mp h

theorem Blank.register {s : Session} (h : s.Blank) {native : Native} (hn : native.Discreet) :
    (s.register native).Blank where
  log := h.log
  nextId := h.nextId
  distances := h.distances
  output := h.output
  store R := (h.store R).define _ _ (.native ..)
  discreet := by
    intro other ho
    rcases Array.mem_push.mp ho with ho | rfl
    · exact h.discreet other ho
    · exact hn

theorem Blank.registerAll {s : Session} (h : s.Blank) {natives : List Native}
    (hn : ∀ native ∈ natives, native.Discreet) : (natives.foldl Session.register s).Blank := by
  induction natives generalizing s with
  | nil => exact h
  | cons native natives ih =>
      obtain ⟨hnative, hrest⟩ := List.forall_mem_cons.mp hn
      exact ih (h.register hnative) hrest

theorem blank_fresh {clock : Native} {natives : List Native}
    (h : ∀ native ∈ clock :: natives, native.Discreet) : (fresh clock natives).Blank := by
  obtain ⟨hclock, hnatives⟩ := List.forall_mem_cons.mp h
  exact (blank_bare.register hclock).registerAll hnatives

/-! ## Runs of sources that are in order -/

/-- The status and the session that an answer of the machine leads to. -/
def ending (s : Session) : Except Machine.Fault Unit × Machine → Status × Session
  | (.ok (), machine) => (.ok, { s with machine })
  | (.error fault, machine) =>
    (.runtimeError, { s with machine, log := s.log.report fault.diagnostic })

theorem interpret_eq (fuel : Nat) (s : Session) (program : List Stmt) :
    s.interpret fuel program = ((Run.program fuel program).run s.machine).map s.ending := by
  rw [interpret]
  rcases (Run.program fuel program).run s.machine with _ | ⟨fault | ⟨⟩, machine⟩ <;> rfl

/-- A run leaves the machine as it is, or as the resolver leaves it, or as the program does. -/
theorem machine_of_run {s t : Session} {fuel : Nat} {source : String} {status : Status}
    (h : s.run fuel source = some (status, t)) :
    t.machine = s.machine ∨ (s.parsed source).log.hadError = false ∧
      (t.machine = (s.bound source).machine ∨ ∃ result,
        (Run.program fuel (s.programOf source)).run (s.bound source).machine =
          some (result, t.machine)) := by
  rw [Session.run_eq] at h
  split at h
  · cases h
    exact .inl rfl
  · rename_i hp
    refine .inr ⟨Bool.eq_false_iff.mpr hp, ?_⟩
    split at h
    · cases h
      exact .inl rfl
    · rw [interpret_eq] at h
      obtain ⟨⟨fault | ⟨⟩, m⟩, hm, ho⟩ := Option.map_eq_some_iff.mp h <;> cases ho <;>
        exact .inr ⟨_, hm⟩

variable {s : Session} {source tail : String}

theorem Accepts.run_eq (h : s.Accepts source) (n : Nat) : s.run n source =
    ((Run.program n (s.programOf source)).run (s.bound source).machine).map
      (s.bound source).ending := by
  rw [Session.run_eq, if_neg (Bool.eq_false_iff.mp h.clean), if_neg (Bool.eq_false_iff.mp h)]
  exact interpret_eq ..

/-- What comes of a run stays the same with more fuel. -/
theorem Accepts.run_of_le (h : s.Accepts source) {n n' : Nat} (hn : n ≤ n')
    {o : Status × Session} (ho : s.run n source = some o) : s.run n' source = some o := by
  rw [h.run_eq] at ho ⊢
  obtain ⟨answer, ha, rfl⟩ := Option.map_eq_some_iff.mp ho
  rw [Run.program_extends_of_le hn _ _ _ ha]
  rfl

/-- A source that was run to its end is in order, and its program has ended. -/
theorem ok_of_run {n : Nat} {t : Session} (h : s.run n source = some (.ok, t)) :
    s.Accepts source ∧ ∃ m, t = { s.bound source with machine := m } ∧
      (Run.program n (s.programOf source)).run (s.bound source).machine = some (.ok (), m) := by
  have hs : s.Accepts source := by
    rw [Session.run_eq] at h
    split at h
    · cases h
    · split at h
      · cases h
      · rename_i hb
        exact Bool.eq_false_iff.mpr hb
  rw [hs.run_eq] at h
  obtain ⟨⟨fault | ⟨⟩, m⟩, ha, ho⟩ := Option.map_eq_some_iff.mp h
  · cases ho
  · cases ho
    exact ⟨hs, m, rfl, ha⟩

/-! ## The two sources as one text -/

/-- The tokens of the first source stay where they are, those of the second move down. -/
def Placed (source tail : String) (k : Nat) (t : Token) : Prop :=
  (k = 0 ∧ t ∈ wordsOf source) ∨ (k = linesOf source ∧ t ∈ wordsOf tail)

/-- How the sources one behind the other are like the two as one text: for nodes known
up to now, and with what has been printed up to now. -/
def likeness (hs : s.Blank) (source tail : String) (known : NodeId → Prop) (d d' : Distances)
    (agree : ∀ id, known id → d'.find? id = d.find? id) (printed : String) : Likeness where
  shifted := Placed source tail
  known k id := k = 0 ∧ known id
  distances := d
  distances' := d'
  agree := by
    rintro _ id ⟨rfl, hid⟩
    exact agree id hid
  natives := s.machine.natives
  discreet := hs.discreet
  printed := printed

theorem Accepts.from (h : s.Accepts source) {nodes : NodeId → Prop} {tokens : Token → Prop}
    (hn : ∀ id, id < (s.bound source).nextId → nodes id) (ht : ∀ t ∈ wordsOf source, tokens t) :
    Stmt.FromAll nodes tokens (s.programOf source) :=
  Stmt.FromAll.desugar _ (h.reads.from (fun id _ hid => hn id hid) ht)

section Joined

variable (hs : s.Blank) (ha : s.Accepts source) (ht : (s.bound source).Accepts tail)

/-- Up to the end of the first source. -/
def beforeSeam : Likeness :=
  likeness hs source tail (· < (s.bound source).nextId) (s.walked source).distances
    ((s.bound source).walked tail).distances (fun _ h => find?_joined ht h) ""

/-- From there on. -/
def afterSeam (hs : s.Blank) (source tail printed : String) : Likeness :=
  likeness hs source tail (fun _ => True) ((s.bound source).walked tail).distances
    ((s.bound source).walked tail).distances (fun _ _ => rfl) printed

include ha in
theorem first_answers (n : Nat) : (beforeSeam hs ht).Answers Eq
    ((Run.program n (s.programOf source)).run (s.bound source).machine)
    ((Run.program n (s.programOf source)).run (s.bound (source ++ "\n" ++ tail)).machine) := by
  have hfrom : Stmt.FromAll ((beforeSeam hs ht).known 0) ((beforeSeam hs ht).shifted 0)
      (s.programOf source) :=
    ha.from (fun _ h => ⟨rfl, h⟩) fun _ h => .inl ⟨rfl, h⟩
  have hmatch := Likeness.program_matches _ n hfrom
  rw [Stmt.movedAll_zero] at hmatch
  refine hmatch _ _ ⟨hs.store _, rfl, rfl, rfl, ?_, rfl, rfl, rfl, ?_⟩
  · exact distances_joined ha ht
  · exact (String.empty_append).symm

/-- At the seam the second source is bound, and what the first has printed is taken out. -/
theorem machines_seam {m m' : Machine} (hm : (beforeSeam hs ht).Machines m m') :
    (afterSeam hs source tail m.output).Machines
      { m with distances := ((s.bound source).walked tail).distances, output := "" } m' where
  store := hm.store.mono fun d d' h => by
    obtain ⟨k, i, hfrom, rfl⟩ := h
    exact ⟨k, i, hfrom.mono fun id hid => ⟨hid.1, trivial⟩, rfl⟩
  globals := hm.globals
  current := hm.current
  distances := rfl
  distances' := hm.distances'
  natives := hm.natives
  natives' := hm.natives'
  functions := hm.functions
  output := by
    rw [hm.output]
    exact String.empty_append.trans String.append_empty.symm

include ha ht in
theorem second_answers {n : Nat} {m : Machine}
    (h : (Run.program n (s.programOf source)).run (s.bound source).machine = some (.ok (), m)) :
    m.distances = (s.walked source).distances ∧ (afterSeam hs source tail m.output).Answers Eq
      ((Run.program n ((s.bound source).programOf tail)).run
        { m with distances := ((s.bound source).walked tail).distances, output := "" })
      ((Run.program n (s.programOf (source ++ "\n" ++ tail))).run
        (s.bound (source ++ "\n" ++ tail)).machine) := by
  have hfirst := first_answers hs ha ht n
  rw [h] at hfirst
  generalize ho : (Run.program n (s.programOf source)).run
    (s.bound (source ++ "\n" ++ tail)).machine = o at hfirst
  cases hfirst with
  | @ok _ _ _ m' _ hm =>
      obtain ⟨recorded, hlinked⟩ := ha.linked hs.distances
      have hfrom : Stmt.FromAll ((afterSeam hs source tail m.output).known 0)
          (Placed source tail (linesOf source)) ((s.bound source).programOf tail) :=
        ht.from (fun _ _ => ⟨rfl, trivial⟩) fun _ h => .inr ⟨rfl, h⟩
      refine ⟨hm.distances, ?_⟩
      rw [programOf_joined ha ht, Run.program_append hlinked, run_bind, ho]
      exact Likeness.program_matches _ n hfrom _ _ (machines_seam hs ht hm)

end Joined

/-- How the second source of a session ended, and how the two as one text did. -/
structure Ends (source tail printed : String) (o o' : Status × Session) : Prop where
  status : o'.1 = o.1
  output : o'.2.takeOutput.1 = printed ++ o.2.takeOutput.1
  log : List.Forall₂ (Diagnostic.Displaced source tail) o.2.log.held o'.2.log.held

theorem displaced_of_placed {k : Nat} {t : Token} (h : Placed source tail k t)
    (message : String) :
    Diagnostic.Displaced source tail (.runtime t.line message) (.runtime (t.line + k) message) := by
  refine ⟨message, t.line, t.line + k, rfl, rfl, ?_⟩
  rcases h with ⟨rfl, ht⟩ | ⟨rfl, ht⟩
  · have hle : t.line ≤ linesOf source := (Token.line_of_mem_wordsOf ht).2
    have hpos : 0 < linesOf source := by
      rw [linesOf]
      omega
    exact ⟨.inl ⟨rfl, t, ht, rfl⟩, by omega⟩
  · have hpos := (Token.line_of_mem_wordsOf ht).1
    exact ⟨.inr ⟨rfl, t, ht, rfl⟩, by omega⟩

/-- The session once it has run the first source, with what was printed taken out. -/
def resumed (s : Session) (source : String) (m : Machine) : Session :=
  { s.bound source with machine := { m with output := "" } }

theorem machine_bound_resumed {m : Machine} (h : m.distances = (s.walked source).distances) :
    ((s.resumed source m).bound tail).machine =
      { m with distances := ((s.bound source).walked tail).distances, output := "" } := by
  have hwalk : (s.resumed source m).walked tail = (s.bound source).walked tail := by
    show Binding.program _ m.distances = Binding.program _ (s.walked source).distances
    rw [h]
    rfl
  rw [machine_bound, hwalk]
  rfl

/-- With fuel that brings the first source to its end, the second source and the two as
one text have the same answer. -/
theorem ends_joined (hs : s.Blank) (ha : s.Accepts source) {m : Machine}
    (ht : (s.resumed source m).Accepts tail) (hb : (s.bound source).Accepts tail) {n : Nat}
    (hm : (Run.program n (s.programOf source)).run (s.bound source).machine =
      some (.ok (), m)) :
    Option.Rel (Ends source tail m.output) ((s.resumed source m).run n tail)
      (s.run n (source ++ "\n" ++ tail)) := by
  obtain ⟨hd, hanswers⟩ := second_answers hs ha hb hm
  have hlog : ((s.resumed source m).bound tail).log = .empty :=
    ht.log_bound.trans (ha.log_bound.trans hs.log)
  have hlog' : (s.bound (source ++ "\n" ++ tail)).log = .empty :=
    (accepts_joined ha hb).log_bound.trans hs.log
  have hprogram : (s.resumed source m).programOf tail = (s.bound source).programOf tail := rfl
  rw [ht.run_eq, (accepts_joined ha hb).run_eq, machine_bound_resumed hd, hprogram]
  generalize (Run.program n ((s.bound source).programOf tail)).run _ = o,
    (Run.program n (s.programOf (source ++ "\n" ++ tail))).run _ = o' at hanswers
  cases hanswers with
  | none => exact .none
  | ok _ hend =>
      refine .some ⟨rfl, hend.output, ?_⟩
      show List.Forall₂ _ (bound _ tail).log.held (bound _ _).log.held
      rw [hlog, hlog']
      exact .nil
  | fault hf hend =>
      obtain ⟨k, t, hplaced, hline, rfl⟩ := hf
      refine .some ⟨rfl, hend.output, ?_⟩
      show List.Forall₂ _ ((bound _ tail).log.report _).held ((bound _ _).log.report _).held
      rw [hlog, hlog', Machine.Fault.diagnostic, hline]
      exact .cons (displaced_of_placed hplaced _) .nil

/-- Splitting a program over two sources of a session does not change it. If each source
is in order by itself and the first one runs to its end, then the second one ends in the
session as the two do as one text, what is printed is the same in all, and a fault has
the same message, further down in the text by the lines of the first source just if it is
at a token of the second. -/
theorem run_joined {clock : Native} {natives : List Native}
    (hn : ∀ native ∈ clock :: natives, native.Discreet) {source tail : String} {n₁ : Nat}
    {t₁ : Session} (h₁ : (fresh clock natives).run n₁ source = some (.ok, t₁))
    (h₂ : (fresh clock natives).Accepts tail) :
    (∀ status, (∃ n t, t₁.takeOutput.2.run n tail = some (status, t)) ↔
      ∃ n t, (fresh clock natives).run n (source ++ "\n" ++ tail) = some (status, t)) ∧
    ∀ n n' o o', t₁.takeOutput.2.run n tail = some o →
      (fresh clock natives).run n' (source ++ "\n" ++ tail) = some o' →
      Ends source tail t₁.takeOutput.1 o o' := by
  have hs := blank_fresh hn
  obtain ⟨ha, m, rfl, hm⟩ := ok_of_run h₁
  have hb : ((fresh clock natives).bound source).Accepts tail :=
    h₂.elsewhere hs.nextId hs.distances ha
  have ht : ((fresh clock natives).resumed source m).Accepts tail :=
    h₂.elsewhere hs.nextId hs.distances ha
  have hj := accepts_joined ha hb
  have hends : ∀ {n}, n₁ ≤ n → Option.Rel (Ends source tail m.output)
      (((fresh clock natives).resumed source m).run n tail)
      ((fresh clock natives).run n (source ++ "\n" ++ tail)) := fun hn =>
    ends_joined hs ha ht hb (Run.program_extends_of_le hn _ _ _ hm)
  show (∀ status, (∃ n t, ((fresh clock natives).resumed source m).run n tail = _) ↔ _) ∧
    ∀ n n' o o', ((fresh clock natives).resumed source m).run n tail = _ → _ → _
  constructor
  · intro status
    constructor
    · intro h
      obtain ⟨n, t, hrun⟩ := h
      have h := hends (Nat.le_max_right n n₁)
      rw [ht.run_of_le (Nat.le_max_left n n₁) hrun] at h
      generalize ho : (fresh clock natives).run _ (source ++ "\n" ++ tail) = r at h
      cases h with
      | @some _ o' hend => exact ⟨_, o'.2, ho.trans (congrArg some (Prod.ext hend.status rfl))⟩
    · intro h
      obtain ⟨n, t', hrun⟩ := h
      have h := hends (Nat.le_max_right n n₁)
      rw [hj.run_of_le (Nat.le_max_left n n₁) hrun] at h
      generalize ho : ((fresh clock natives).resumed source m).run _ tail = r at h
      cases h with
      | @some o _ hend =>
          exact ⟨_, o.2, ho.trans (congrArg some (Prod.ext hend.status.symm rfl))⟩
  · intro n n' o o' ho ho'
    have h := hends (Nat.le_max_right (max n n') n₁)
    rw [ht.run_of_le (by omega) ho, hj.run_of_le (by omega) ho'] at h
    cases h with
    | some h => exact h

/-- The second source calls a function of the first, which fails where it was declared. -/
theorem callback_ends_as_joined :
    let s := fresh (.clock 0) [.typeOf]
    let source := "fun f(x) \x7b return -x; \x7d print type_of(f);"
    let tail := "print \"a\";\nf(\"b\");"
    (s.run 20 (source ++ "\n" ++ tail)).map (fun o => (o.1, o.2.takeOutput.1, o.2.log.held)) =
        some (.runtimeError, "callable\na\n", [.runtime 1 "Operand must be a number."]) ∧
      ∃ t₁, s.run 20 source = some (.ok, t₁) ∧ s.Accepts tail ∧
        (∀ status, (∃ n t, t₁.takeOutput.2.run n tail = some (status, t)) ↔
          ∃ n t, s.run n (source ++ "\n" ++ tail) = some (status, t)) ∧
        ∀ n n' o o', t₁.takeOutput.2.run n tail = some o →
          s.run n' (source ++ "\n" ++ tail) = some o' →
          Ends source tail t₁.takeOutput.1 o o' := by
  intro s source tail
  have hok : (s.run 20 source).map Prod.fst = some .ok := by decide +kernel
  have htail : s.Accepts tail := by decide +kernel
  have hdiscreet : ∀ native ∈ [Native.clock 0, .typeOf], native.Discreet := by
    intro native h
    simp only [List.mem_cons, List.not_mem_nil, or_false] at h
    rcases h with rfl | rfl
    · exact Native.discreet_clock 0
    · exact Native.discreet_typeOf
  obtain ⟨⟨_, t₁⟩, h₁, rfl⟩ := Option.map_eq_some_iff.mp hok
  exact ⟨by decide +kernel, t₁, h₁, htail, run_joined hdiscreet h₁ htail⟩

end Session

end Lox
