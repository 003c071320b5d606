import Lox.Proofs.Parser.InTurn
import Lox.Proofs.Parser.Kept

/-!
# The order in which faults are found

A fault is noted where the parser stands, and the parser does not go back. So each fault is
reported at the token of the one before or further on, with one exception. That there is
nothing to assign to is found when the value has been read, and it is reported at the `=`.
Whatever is wrong in the value has been reported by then, and stands behind that `=`.

This is also all there is to say: what comes before the report at an `=` and is not in its
value is reported no later than at the `=`, and what is in its value is what is found when
the value is read by itself. So the reports are in the order of the source just if no such
assignment has a fault in its value.
-/

namespace Lox.Parse

/-- The faults in the value of an assignment, when the tokens behind the `=` are read by
themselves. -/
def faultsInValue (last : Token) (tokens : List Token) : List Fault :=
  match (expression (Parsed.fuel tokens)).run ⟨tokens, last, 0, []⟩ with
  | some (_, s) => s.faults
  | none => []

/-- A value that was read has added the faults that are in it by themselves. -/
theorem faults_of_value {n : Nat} {s s' : State} {value : Expr}
    (h : (expression n).run s = some (.ok value, s')) :
    s'.faults = s.faults ++ faultsInValue s.last s.rest := by
  obtain ⟨rest, last, i, faults⟩ := s
  let alone : State := ⟨rest, last, 0, []⟩
  have hfuel : Phrase.cost .expression + 32 * alone.rest.length ≤ Parsed.fuel rest := by
    show 15 + 32 * rest.length ≤ 32 * (rest.length + 1)
    omega
  obtain ⟨result, s₁, hrun, -, -⟩ : Obeys (expression _) alone _ _ :=
    sound (Parsed.fuel rest) .expression alone hfuel
  -- both runs are runs with the larger fuel, and that one answers once
  have halone := (indifferent faults i (Nat.le_max_right n (Parsed.fuel rest))).expression _ _ _ hrun
  have hstart : alone.shifted faults i = ⟨rest, last, i, faults⟩ := by
    simp only [alone, State.shifted, Nat.zero_add, List.append_nil]
  have hmore := (indifferent [] 0 (Nat.le_max_left n (Parsed.fuel rest))).expression.answer
    Expr.moved_zero h
  rw [hstart] at halone
  obtain ⟨-, rfl⟩ := Prod.mk.inj (Option.some.inj (hmore.symm.trans halone))
  rw [faultsInValue, show (expression (Parsed.fuel rest)).run ⟨rest, last, 0, []⟩ = _ from hrun]
  rfl

/-! ## Reports and their places -/

/-- A fault, and the tokens from the one on at which it is reported. -/
structure Report where
  fault : Fault
  rest : List Token

namespace Report

/-- The one is reported at the token of the other or at one before. -/
def NoLater (x y : Report) : Prop := y.rest <:+ x.rest

/-- The one says that there is nothing to assign to, and the other stands behind it. -/
def Encloses (y x : Report) : Prop :=
  y.fault.cause = .invalidAssignmentTarget ∧ y.NoLater x ∧ ¬x.NoLater y

/-- The report is about a token that is read, or about the mark behind them. -/
def Stands (tokens : List Token) (r : Report) : Prop :=
  r.rest <:+ Parsed.readable tokens ∧ r.fault.token = r.rest.headD (Parsed.mark tokens)

end Report

/-- What has been reported before a fault is reported. -/
inductive Follows (last : Token) : List Report → Report → Prop
  | here {earlier y} (hcause : y.fault.cause ≠ .invalidAssignmentTarget)
      (hearlier : ∀ x ∈ earlier, x.NoLater y) : Follows last earlier y
  | behindValue {before inside equals tokens}
      (hbefore : ∀ x ∈ before,
        x.NoLater ⟨⟨.invalidAssignmentTarget, equals⟩, equals :: tokens⟩)
      (hinside : ∀ x ∈ inside, x.rest <:+ tokens)
      (hfaults : inside.map Report.fault = faultsInValue last tokens) :
      Follows last (before ++ inside) ⟨⟨.invalidAssignmentTarget, equals⟩, equals :: tokens⟩

/-- Every report stands where it belongs among those before it. -/
def InTurn (last : Token) (reports : List Report) : Prop :=
  ∀ earlier y later, reports = earlier ++ y :: later → Follows last earlier y

section Turns

variable {last : Token} {earlier reports reports' : List Report} {y : Report}

theorem Follows.behind (h : Follows last earlier y) (hreports : ∀ x ∈ reports, x.NoLater y) :
    Follows last (reports ++ earlier) y := by
  cases h with
  | here hcause hearlier =>
      exact .here hcause fun x hx => (List.mem_append.mp hx).elim (hreports x) (hearlier x)
  | behindValue hbefore hinside hfaults =>
      rw [← List.append_assoc]
      exact .behindValue (fun x hx => (List.mem_append.mp hx).elim (hreports x) (hbefore x))
        hinside hfaults

/-- What is enclosed by the report of an assignment is what is wrong in its value. -/
theorem Follows.enclosed (h : Follows last earlier y)
    (hcause : y.fault.cause = .invalidAssignmentTarget) :
    ∃ before inside, earlier = before ++ inside ∧ (∀ x ∈ before, x.NoLater y) ∧
      (∀ x ∈ inside, y.Encloses x) ∧ inside.map Report.fault = faultsInValue last y.rest.tail := by
  cases h with
  | here hne _ => exact absurd hcause hne
  | @behindValue before inside equals tokens hbefore hinside hfaults =>
      refine ⟨before, inside, rfl, hbefore, fun x hx => ⟨rfl, ?_, fun hnoLater => ?_⟩, hfaults⟩
      · exact (hinside x hx).trans (List.suffix_cons equals tokens)
      · have hle := (List.IsSuffix.trans hnoLater (hinside x hx)).length_le
        exact absurd hle (Nat.not_succ_le_self _)

theorem InTurn.nil : InTurn last [] := fun _ _ _ h => nomatch List.append_ne_nil_of_right_ne_nil _
  (List.cons_ne_nil _ _) h.symm

theorem InTurn.append (h : InTurn last reports) (h' : InTurn last reports')
    (hbehind : ∀ x ∈ reports, ∀ y ∈ reports', x.NoLater y) : InTurn last (reports ++ reports') := by
  intro earlier y later heq
  obtain ⟨between, rfl, hlater⟩ | ⟨between, rfl, hearlier⟩ := List.append_eq_append_iff.mp heq
  · exact (h' between y later hlater).behind fun x hx =>
      hbehind x hx y (hlater ▸ List.mem_append_right _ List.mem_cons_self)
  · cases between with
    | nil =>
        rw [List.nil_append] at hearlier
        subst hearlier
        rw [List.append_nil] at hbehind
        have hy := (h' [] y later rfl).behind fun x hx => hbehind x hx y List.mem_cons_self
        rwa [List.append_nil] at hy
    | cons z between =>
        obtain ⟨rfl, rfl⟩ := List.cons.inj hearlier
        exact h earlier y between rfl

theorem InTurn.one (h : Follows last [] y) : InTurn last [y] := by
  intro earlier z later heq
  obtain ⟨rfl, hz⟩ | ⟨-, hz⟩ := List.append_eq_singleton_iff.mp heq.symm
  · obtain ⟨rfl, -⟩ := List.cons.inj hz
    exact h
  · exact absurd hz (List.cons_ne_nil _ _)

end Turns

/-- In a list of reports in turn the order can be broken only by what an assignment encloses. -/
theorem InTurn.pairwise_iff {last : Token} {reports : List Report} (h : InTurn last reports)
    {P : Report → Report → Prop} {Q : Fault → Fault → Prop}
    (hnoLater : ∀ x ∈ reports, ∀ y ∈ reports, x.NoLater y → P x y)
    (hencloses : ∀ x ∈ reports, ∀ y ∈ reports, y.Encloses x → (P x y ↔ Q x.fault y.fault)) :
    reports.Pairwise P ↔ ∀ y ∈ reports, y.fault.cause = .invalidAssignmentTarget →
      ∀ fault ∈ faultsInValue last y.rest.tail, Q fault y.fault := by
  constructor
  · intro hpairwise y hy hcause fault hfault
    obtain ⟨earlier, later, rfl⟩ := List.append_of_mem hy
    obtain ⟨before, inside, rfl, -, hinside, hfaults⟩ := (h _ _ _ rfl).enclosed hcause
    rw [← hfaults] at hfault
    obtain ⟨x, hx, rfl⟩ := List.mem_map.mp hfault
    have hearlier := List.mem_append_right before hx
    have hpair := (List.pairwise_append.mp hpairwise).2.2 x hearlier y List.mem_cons_self
    exact (hencloses x (List.mem_append_left _ hearlier) y hy (hinside x hx)).mp hpair
  · intro hvalues
    rw [List.pairwise_iff_getElem]
    intro i j hi hj hij
    have hx := List.getElem_mem hi
    have hy := List.getElem_mem hj
    have hturn := h (reports.take j) reports[j] (reports.drop (j + 1))
      (by rw [← List.drop_eq_getElem_cons hj, List.take_append_drop])
    have hearlier : reports[i] ∈ reports.take j :=
      List.mem_take_iff_getElem.mpr ⟨i, Nat.lt_min.mpr ⟨hij, hi⟩, rfl⟩
    generalize reports[i] = x at hx hearlier ⊢
    generalize reports[j] = y at hy hturn ⊢
    generalize reports.take j = earlier at hturn hearlier
    by_cases hcause : y.fault.cause = .invalidAssignmentTarget
    · obtain ⟨before, inside, heq, hbefore, hinside, hfaults⟩ := hturn.enclosed hcause
      rcases List.mem_append.mp (heq ▸ hearlier) with hx' | hx'
      · exact hnoLater x hx y hy (hbefore x hx')
      · refine (hencloses x hx y hy (hinside x hx')).mpr (hvalues y hy hcause x.fault ?_)
        rw [← hfaults]
        exact List.mem_map_of_mem hx'
    · cases hturn with
      | here _ hnoLater' => exact hnoLater x hx y hy (hnoLater' x hearlier)
      | behindValue _ _ _ => exact absurd rfl hcause

/-! ## What a reading reports -/

/-- The reading has added these reports, in turn, between where it began and where it stands. -/
structure Tells (s s' : State) (reports : List Report) : Prop where
  last : s'.last = s.last
  rest : s'.rest <:+ s.rest
  faults : s'.faults = s.faults ++ reports.map Report.fault
  above : ∀ r ∈ reports, r.rest <:+ s.rest
  below : ∀ r ∈ reports, s'.rest <:+ r.rest
  token : ∀ r ∈ reports, r.fault.token = r.rest.headD s.last
  inTurn : InTurn s.last reports

/-- Between the two states there is nothing but reports, and they are in turn. -/
def Telling (s s' : State) : Prop := ∃ reports, Tells s s' reports

section Telling

variable {s s₁ s' : State} {reports reports' : List Report}

theorem Tells.silent (hlast : s'.last = s.last) (hrest : s'.rest <:+ s.rest)
    (hfaults : s'.faults = s.faults) : Tells s s' [] :=
  ⟨hlast, hrest, by rw [hfaults, List.map_nil, List.append_nil], (fun _ h => nomatch h),
    (fun _ h => nomatch h), (fun _ h => nomatch h), .nil⟩

theorem Tells.append (h : Tells s s₁ reports) (h' : Tells s₁ s' reports') :
    Tells s s' (reports ++ reports') where
  last := h'.last.trans h.last
  rest := h'.rest.trans h.rest
  faults := by rw [h'.faults, h.faults, List.map_append, List.append_assoc]
  above r hr := (List.mem_append.mp hr).elim (h.above r) fun hr => (h'.above r hr).trans h.rest
  below r hr := (List.mem_append.mp hr).elim (fun hr => h'.rest.trans (h.below r hr)) (h'.below r)
  token r hr := (List.mem_append.mp hr).elim (h.token r) fun hr => by
    rw [h'.token r hr, h.last]
  inTurn := by
    have hturn := h'.inTurn
    rw [h.last] at hturn
    exact h.inTurn.append hturn fun x hx y hy => (h'.above y hy).trans (h.below x hx)

/-- A fault that is noted where the parser stands. -/
theorem Tells.noted {cause : Cause} (s : State) (hcause : cause ≠ .invalidAssignmentTarget) :
    Tells s { s with faults := s.faults ++ [⟨cause, s.peek⟩] } [⟨⟨cause, s.peek⟩, s.rest⟩] where
  last := rfl
  rest := List.suffix_refl _
  faults := rfl
  above _ hr := List.mem_singleton.mp hr ▸ List.suffix_refl _
  below _ hr := List.mem_singleton.mp hr ▸ List.suffix_refl _
  token _ hr := List.mem_singleton.mp hr ▸ rfl
  inTurn := .one (.here hcause fun _ h => nomatch h)

theorem recover_suffix (tokens : List Token) : recover tokens <:+ tokens := by
  induction tokens with
  | nil => exact List.suffix_refl _
  | cons t rest ih =>
      rw [recover]
      split
      · exact List.suffix_cons t rest
      · exact ih.trans (List.suffix_cons t rest)

/-- What is wrong in the value has been reported when the target is looked at. -/
theorem Tells.misassigned {equals : Token} {rest : List Token} (hs : s.rest = equals :: rest)
    (h : Tells { s with rest } s' reports)
    (hfaults : reports.map Report.fault = faultsInValue s.last rest) :
    Tells s { s' with faults := s'.faults ++ [⟨.invalidAssignmentTarget, equals⟩] }
      (reports ++ [⟨⟨.invalidAssignmentTarget, equals⟩, equals :: rest⟩]) where
  last := h.last
  rest := by
    rw [hs]
    exact h.rest.trans (List.suffix_cons equals rest)
  faults := by
    show s'.faults ++ _ = _
    rw [h.faults, List.map_append, List.append_assoc]
    rfl
  above r hr := by
    rw [hs]
    rcases List.mem_append.mp hr with hr | hr
    · exact (h.above r hr).trans (List.suffix_cons equals rest)
    · exact List.mem_singleton.mp hr ▸ List.suffix_refl _
  below r hr := by
    rcases List.mem_append.mp hr with hr | hr
    · exact h.below r hr
    · exact List.mem_singleton.mp hr ▸ h.rest.trans (List.suffix_cons equals rest)
  token r hr := by
    rcases List.mem_append.mp hr with hr | hr
    · exact h.token r hr
    · exact List.mem_singleton.mp hr ▸ rfl
  inTurn := by
    intro earlier y later heq
    rcases List.eq_nil_or_concat later with rfl | ⟨later, z, rfl⟩
    · obtain ⟨rfl, hy⟩ := List.append_inj' heq rfl
      obtain ⟨rfl, -⟩ := List.cons.inj hy
      exact .behindValue (List.forall_mem_nil _) h.above hfaults
    · rw [List.concat_eq_append, ← List.cons_append, ← List.append_assoc] at heq
      obtain ⟨heq, -⟩ := List.append_inj' heq rfl
      exact h.inTurn earlier y later heq

end Telling

theorem kept_telling : Kept Telling where
  refl s := ⟨[], .silent rfl (List.suffix_refl _) rfl⟩
  trans := fun ⟨_, h⟩ ⟨_, h'⟩ => ⟨_, h.append h'⟩
  take {s t rest} hs := ⟨[], .silent rfl (hs ▸ List.suffix_cons t rest) rfl⟩
  number s := ⟨[], .silent rfl (List.suffix_refl _) rfl⟩
  note s _ hcause := ⟨_, .noted s hcause⟩
  skip s := ⟨[], .silent rfl (recover_suffix _) rfl⟩
  misassign := by
    rintro n s s' equals rest value hs hrun ⟨inside, htells⟩
    have hfaults := faults_of_value hrun
    rw [htells.faults] at hfaults
    exact ⟨_, htells.misassigned hs (List.append_cancel_left hfaults)⟩

end Lox.Parse

namespace Lox.Parsed

open Parse

/-! ## Programs -/

/-- The lines of the tokens that are read do not go back if those of the tokens do not, and the
mark is on no line before them. -/
theorem lines_marked {tokens : List Token} (h : tokens.Pairwise (·.line ≤ ·.line)) :
    (readable tokens ++ [mark tokens]).Pairwise (·.line ≤ ·.line) := by
  refine List.pairwise_append.mpr ⟨h.sublist (List.takeWhile_sublist _),
    List.pairwise_singleton _ _, fun t ht last hlast => ?_⟩
  rw [List.mem_singleton.mp hlast]
  cases hfind : tokens.find? (·.kind = .eof) with
  | some e =>
      obtain ⟨-, before, behind, rfl, hbefore⟩ := List.find?_eq_some_iff_append.mp hfind
      have hmark : mark (before ++ e :: behind) = e := by rw [mark, start, hfind]; rfl
      have heof : e.kind = .eof := by simpa using List.find?_some hfind
      have hread : readable (before ++ e :: behind) = before := by
        rw [readable_append fun t ht => by simpa using hbefore t ht, readable,
          List.takeWhile_cons_of_neg (by simpa using heof), List.append_nil]
      rw [hmark]
      rw [hread] at ht
      exact (List.pairwise_append.mp h).2.2 t ht e List.mem_cons_self
  | none =>
      have ht : t ∈ tokens := (List.takeWhile_sublist _).subset ht
      obtain ⟨before, final, rfl⟩ := (List.eq_nil_or_concat tokens).resolve_left
        (List.ne_nil_of_mem ht)
      rw [List.concat_eq_append] at h ht hfind ⊢
      have hmark : (mark (before ++ [final])).line = final.line := by
        rw [mark, start, hfind, List.getLast?_concat]
        rfl
      rw [hmark]
      rcases List.mem_append.mp ht with ht | ht
      · exact (List.pairwise_append.mp h).2.2 t ht final List.mem_cons_self
      · exact Nat.le_of_eq (congrArg Token.line (List.mem_singleton.mp ht))

/-- Of two reports the one that stands no later is on no later line. -/
theorem line_le_of_noLater {tokens : List Token} (h : tokens.Pairwise (·.line ≤ ·.line))
    {x y : Report} (hx : x.Stands tokens) (hy : y.Stands tokens) (hxy : x.NoLater y) :
    x.fault.token.line ≤ y.fault.token.line := by
  have hsuffix {r r' : List Token} (hr : r <:+ r') : r ++ [mark tokens] <:+ r' ++ [mark tokens] :=
    (List.suffix_append_inj_of_length_eq rfl).mpr ⟨hr, rfl⟩
  have hhead (r : List Token) : ∃ tail, r ++ [mark tokens] = r.headD (mark tokens) :: tail := by
    cases r with
    | nil => exact ⟨[], rfl⟩
    | cons t r => exact ⟨r ++ [mark tokens], rfl⟩
  obtain ⟨tailx, htailx⟩ := hhead x.rest
  obtain ⟨taily, htaily⟩ := hhead y.rest
  have hlines := (lines_marked h).sublist (hsuffix hx.1).sublist
  have hmem : y.fault.token ∈ x.rest ++ [mark tokens] :=
    (hsuffix hxy).subset (by rw [htaily, hy.2]; exact List.mem_cons_self)
  rw [htailx, ← hx.2] at hlines hmem
  rcases List.mem_cons.mp hmem with heq | hmem
  · exact Nat.le_of_eq (congrArg Token.line heq.symm)
  · exact (List.pairwise_cons.mp hlines).1 _ hmem

/-- What the parser reports, in the order in which it reports it: every fault stands at a token
that was read or at the mark, those found before it and not in its value stand no later, and
those in its value are the ones that the value has by itself. So the faults are in the order of
their tokens just if no assignment without a target has a fault in its value; and where the
lines of the tokens never go back, those of the faults never do just if all the faults in such
values are on the line of the `=`. -/
theorem faults_in_turn (tokens : List Token) (i : NodeId) :
    ∃ reports : List Report,
      reports.map Report.fault = (ofTokens tokens i).faults ∧
      (∀ r ∈ reports, r.Stands tokens) ∧
      InTurn (mark tokens) reports ∧
      (reports.Pairwise Report.NoLater ↔
        ∀ y ∈ reports, y.fault.cause = .invalidAssignmentTarget →
          faultsInValue (mark tokens) y.rest.tail = []) ∧
      (tokens.Pairwise (·.line ≤ ·.line) →
        ((ofTokens tokens i).faults.Pairwise (·.token.line ≤ ·.token.line) ↔
          ∀ y ∈ reports, y.fault.cause = .invalidAssignmentTarget →
            ∀ fault ∈ faultsInValue (mark tokens) y.rest.tail,
              fault.token.line = y.fault.token.line)) := by
  obtain ⟨n, s, hrun, hfaults, -⟩ := ofTokens_answers tokens i
  obtain ⟨⟨reports, htells⟩, -⟩ := (keeping kept_telling n).declarations false _ _ _ hrun
  have hmap : reports.map Report.fault = (ofTokens tokens i).faults :=
    htells.faults.symm.trans hfaults
  have hstands : ∀ r ∈ reports, r.Stands tokens := fun r hr => ⟨htells.above r hr, htells.token r hr⟩
  have hturn : InTurn (mark tokens) reports := htells.inTurn
  refine ⟨reports, hmap, hstands, hturn, ?_, fun hlines => ?_⟩
  · have hiff := hturn.pairwise_iff (P := Report.NoLater) (Q := fun _ _ => False)
      (fun _ _ _ _ h => h) fun _ _ _ _ hencloses => iff_false_intro hencloses.2.2
    simpa only [List.eq_nil_iff_forall_not_mem] using hiff
  · rw [← hmap, List.pairwise_map]
    refine hturn.pairwise_iff (P := fun x y => x.fault.token.line ≤ y.fault.token.line)
      (Q := fun f g => f.token.line = g.token.line)
      (fun x hx y hy => line_le_of_noLater hlines (hstands x hx) (hstands y hy))
      fun x hx y hy hencloses => ?_
    have hle := line_le_of_noLater hlines (hstands y hy) (hstands x hx) hencloses.2.1
    exact ⟨fun h => Nat.le_antisymm h hle, fun h => Nat.le_of_eq h⟩

/-- `1 =` on the first line, and `2 = 3;` on the second. -/
def chained : List Token :=
  [⟨.number 1, "1", 1⟩, ⟨.equal, "=", 1⟩, ⟨.number 2, "2", 2⟩, ⟨.equal, "=", 2⟩,
    ⟨.number 3, "3", 2⟩, ⟨.semicolon, ";", 2⟩, ⟨.eof, "", 2⟩]

/-- The second `=` is reported before the first, and its line before the first line. -/
theorem chained_out_of_turn :
    chained.Pairwise (·.line ≤ ·.line) ∧
      (ofTokens chained 0).faults = [⟨.invalidAssignmentTarget, ⟨.equal, "=", 2⟩⟩,
        ⟨.invalidAssignmentTarget, ⟨.equal, "=", 1⟩⟩] ∧
      ∃ reports : List Report, reports.map Report.fault = (ofTokens chained 0).faults ∧
        InTurn (mark chained) reports ∧ ¬reports.Pairwise Report.NoLater := by
  have hlines : chained.Pairwise (·.line ≤ ·.line) := by decide
  have hfaults : (ofTokens chained 0).faults = [⟨.invalidAssignmentTarget, ⟨.equal, "=", 2⟩⟩,
      ⟨.invalidAssignmentTarget, ⟨.equal, "=", 1⟩⟩] := rfl
  obtain ⟨reports, hmap, -, hturn, horder, hback⟩ := faults_in_turn chained 0
  refine ⟨hlines, hfaults, reports, hmap, hturn, fun hordered => ?_⟩
  -- reports in the order of their tokens would be in the order of their lines
  have hforward := (hback hlines).mpr fun y hy hcause fault hfault => by
    rw [horder.mp hordered y hy hcause] at hfault
    cases hfault
  rw [hfaults] at hforward
  revert hforward
  decide

end Lox.Parsed
