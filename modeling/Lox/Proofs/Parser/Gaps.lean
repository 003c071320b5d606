import Lox.Proofs.Parser.Cut

/-!
# Programs with a semicolon missing

If one semicolon that ends a statement is left out of a program without faults, the statement either
goes on with what follows, and the program still has no fault, or there is a fault at the next
token. The other faults, if there are any, are those of the program without what recovery passes
over: recovery does not heed braces, so it may pass over one that closes a block, or over all of a
statement but a part of it.
-/

namespace Lox

namespace Parse

variable {α β : Type}

/-! ## Behind the statement -/

section Behind

variable {p : Phrase} {b s r z : List Token} {i j : NodeId} {cause : Cause}
  {goesOn : Token.Kind → Bool}

theorem Unended.goesOn_begins (h : Unended p s i j cause goesOn) (kind : Token.Kind)
    (hk : goesOn kind = true) : beginsExpression kind = true := by
  have hcontinues (hk : continues kind = true) : beginsExpression kind = true := by
    cases kind <;> first | rfl | cases hk
  cases h with
  | expression | print | ret | var => exact hcontinues hk
  | bareRet => exact hk
  | bareVar => cases hk

theorem Broken.goesOn_begins (h : Broken b s i j cause goesOn) (kind : Token.Kind)
    (hk : goesOn kind = true) : beginsExpression kind = true := by
  cases h with
  | inBranch _ hs | var hs => exact hs.goesOn_begins kind hk

/-- What remains, and what closes the block around, may stand behind a statement. -/
theorem Remains.next (hr : Remains r) (hz : z = [] ∨ Ahead (· = .rightBrace) z = true) :
    Next (r ++ z) := by
  have hz : Next z := hz.imp id (ahead_mono fun kind hk => by
    rw [of_decide_eq_true hk]
    rfl)
  rcases hr with hr | hr
  · exact .inr (ahead_append (ahead_mono (fun kind hk => by
      rw [of_decide_eq_true hk]
      rfl) hr) z)
  · obtain ⟨body, j, hr⟩ := hr 0
    rcases hr.next with rfl | hr
    · exact hz
    · exact .inr (ahead_append hr z)

/-- A declaration that begins like an expression is an expression statement. -/
theorem Reads.expression_of_begins {w : List Token} {s : Stmt} (h : Reads .declared w i s j)
    (hw : Ahead beginsExpression w = true) : Reads .expressionStatement w i s j := by
  cases h with
  | functionDeclared ht | varDeclared ht =>
      rw [ahead_cons, ht] at hw
      cases hw
  | statementDeclared h =>
      cases h with
      | statementPlain h => exact h
      | statementFor ht | statementIf ht | statementPrint ht | statementReturn ht
      | statementWhile ht | statementBlock ht =>
          rw [ahead_cons, ht] at hw
          cases hw

theorem no_expression {kind : Token.Kind} {w : List Token} (h : Ahead (· = kind) w = true)
    (hkind : beginsExpression kind = false) : Ahead beginsExpression w = false :=
  ahead_ne (fun kind' hk => by rw [of_decide_eq_true hk, hkind]) h

/-- If an expression follows, it is the next statement. -/
theorem Remains.expression (hr : Remains r) (hz : z = [] ∨ Ahead (· = .rightBrace) z = true)
    (h : Ahead beginsExpression (r ++ z) = true) :
    ∃ v w, r = v ++ w ∧ Ahead beginsExpression v = true ∧ Found .expressionStatement v ∧
      Found (.declarations true) w := by
  rcases hr with hr | hr
  · exact absurd ((no_expression (ahead_append hr z) rfl).symm.trans h) Bool.false_ne_true
  · obtain ⟨body, j, hbody⟩ := hr 0
    cases hbody with
    | declarationsEnd =>
        rcases hz with rfl | hz
        · cases h
        · exact absurd ((no_expression hz rfl).symm.trans h) Bool.false_ne_true
    | @declarationsMore _ v w _ _ _ _ _ hs hw =>
        have hv : Ahead beginsExpression v = true := ahead_left hs.begins (by simpa using h)
        cases hs with
        | declaration hs => exact ⟨v, w, rfl, hv, (hs.expression_of_begins hv).found, hw.found⟩

theorem Broken.joined {v : List Token} (h : Broken b s i j cause goesOn)
    (hv : Found .expressionStatement v) (hgoesOn : Ahead goesOn v = true) :
    Found .declared (b ++ (s ++ v)) := by
  cases h with
  | inBranch hb hs =>
      intro i'
      obtain ⟨a, k, ha⟩ := hb.found (hs.joined hv hgoesOn) i'
      exact ⟨a, k, .statementDeclared ha⟩
  | var hs => exact hs.joined hv hgoesOn

/-- The statement goes on with the next one, and the program can still be read. -/
theorem Broken.found_joined {inBlock : Bool} {u : List Token} (h : Broken b s i j cause goesOn)
    (hr : Remains r) (hz : z = [] ∨ Ahead (· = .rightBrace) z = true)
    (hfound : ∀ y, Found (.declarations true) y → Found (.declarations inBlock) (u ++ (y ++ z)))
    (hgoesOn : Ahead goesOn (r ++ z) = true) :
    Found (.declarations inBlock) (u ++ (b ++ s) ++ (r ++ z)) := by
  obtain ⟨v, w, rfl, hbegins, hv, hw⟩ :=
    hr.expression hz (ahead_mono h.goesOn_begins hgoesOn)
  have hjoined := h.joined hv (ahead_left hbegins (by simpa using hgoesOn))
  simpa using hfound _ (found_declarations_cons hjoined hw)

theorem not_begins {kind : Token.Kind} {w : List Token} (h : Ahead (· = kind) w = true)
    (hkind : beginsDeclared kind = false) : Ahead beginsDeclared w = false :=
  ahead_ne (fun kind' hk => by rw [of_decide_eq_true hk, hkind]) h

/-- The next declaration is the same however it is found. -/
theorem Reads.declaration_unique {v w v' w' : List Token} {a a' : Stmt} {j' : NodeId}
    (h : Reads .declaration v i (some a) j) (h' : Reads .declaration v' i (some a') j')
    (hw : a.dangling = true → Ahead (· = .kwElse) w = false)
    (hw' : a'.dangling = true → Ahead (· = .kwElse) w' = false) (heq : v ++ w = v' ++ w') :
    w = w' := by
  have hv := finds (18 + 32 * max v.length v'.length) .declaration v w i (some a) j h hw
    (show 18 + 32 * v.length ≤ _ by omega)
  have hv' := finds (18 + 32 * max v.length v'.length) .declaration v' w' i (some a') j' h' hw'
    (show 18 + 32 * v'.length ≤ _ by omega)
  have hrun := hv ⟨.eof, "", 0⟩ []
  rw [heq, hv' ⟨.eof, "", 0⟩ []] at hrun
  exact (congrArg (fun x : Except Fault (Option Stmt) × State => x.2.rest)
    (Option.some.inj hrun)).symm

theorem Reads.no_else {inBlock : Bool} {w : List Token} {body : List Stmt}
    (h : Reads (.declarations inBlock) w i body j)
    (hz : z = [] ∨ Ahead (· = .rightBrace) z = true) : Ahead (· = .kwElse) (w ++ z) = false := by
  cases h with
  | declarationsMore hs =>
      refine ahead_ne (fun kind hk => ?_) (ahead_append (ahead_append hs.begins _) z)
      cases kind <;> first | rfl | cases hk
  | declarationsEnd =>
      rcases hz with rfl | hz
      · rfl
      · exact ahead_ne (fun kind hk => by rw [of_decide_eq_true hk]; rfl) hz

/-- If a statement that ends in a semicolon follows, it is the next declaration. -/
theorem Remains.statement {p : Phrase} {s₁ v : List Token} {semicolon : Token} {i j : NodeId}
    {cause : Cause} {goesOn : Token.Kind → Bool} (hr : Remains r)
    (hz : z = [] ∨ Ahead (· = .rightBrace) z = true) (h : Unended p s₁ i j cause goesOn)
    (hs : semicolon.kind = .semicolon) (hv : r ++ z = s₁ ++ semicolon :: v) :
    ∃ w, v = w ++ z ∧ Found (.declarations true) w := by
  obtain ⟨a, ha, hdangling⟩ := h.ended hs
  have heq : r ++ z = (s₁ ++ [semicolon]) ++ v := by rw [hv, List.append_assoc]; rfl
  have hbegins : Ahead beginsDeclared (r ++ z) = true := heq ▸ ahead_append ha.begins v
  rcases hr with hr | hr
  · exact absurd ((not_begins (ahead_append hr z) rfl).symm.trans hbegins) Bool.false_ne_true
  · obtain ⟨body, k, hbody⟩ := hr i
    cases hbody with
    | declarationsEnd =>
        rcases hz with rfl | hz
        · cases hbegins
        · exact absurd ((not_begins hz rfl).symm.trans hbegins) Bool.false_ne_true
    | @declarationsMore _ w₁ w _ _ _ l _ hw₁ hw =>
        refine ⟨w, ?_, hw.found⟩
        exact (hw₁.declaration_unique (.declaration ha) (fun _ => hw.no_else hz)
          (fun hd => absurd (hdangling.symm.trans hd) Bool.false_ne_true)
          (by rw [← heq, List.append_assoc])).symm

end Behind

/-! ## Throwing at the gap -/

/-- The parser reads up to the end of the statement and throws there, unless it goes on. -/
theorem Broken.throws {b s r : List Token} {i j : NodeId} {cause : Cause}
    {goesOn : Token.Kind → Bool} (h : Broken b s i j cause goesOn) (hr : Next r)
    (hgoesOn : Ahead goesOn r = false) :
    ∃ N, ∀ n, N ≤ n → Throws (declared n) (b ++ s) r i cause j := by
  cases h with
  | var hs => exact ⟨_, fun n hn => throws_declared hs hr hgoesOn hn⟩
  | inBranch hb hs =>
      obtain ⟨C, d, N, hC, hreaches⟩ := hb.leads
      refine ⟨max N (16 + 32 * s.length) + d + 1, fun n hn => ?_⟩
      obtain ⟨n, rfl⟩ : ∃ k, n = k + d + 1 := ⟨n - (d + 1), by omega⟩
      have hs' : Throws (statement n) s r _ cause j := throws_statement hs hr hgoesOn (by omega)
      have hplain : Ahead beginsPlain (b ++ s ++ r) = true := by
        rw [List.append_assoc]
        exact hb.begins (ahead_append hs.begins_statement r)
      have hstatement : Throws (statement (n + d)) (b ++ s) r i cause j :=
        (hreaches n (by omega) (s ++ r)).throws (hC.throws hs')
      exact Reaches.throws (u := []) (reaches_statement hplain) hstatement

theorem Broken.begins {b s : List Token} {i j : NodeId} {cause : Cause}
    {goesOn : Token.Kind → Bool} (h : Broken b s i j cause goesOn) :
    Ahead beginsDeclared (b ++ s) = true := by
  cases h with
  | inBranch hb hs => exact beginsDeclared_of_plain (hb.begins hs.begins_statement)
  | var hs =>
      cases hs with
      | var ht | bareVar ht => exact ahead_kind ht rfl

/-- With its semicolon the statement can be read wherever it stands. -/
theorem Broken.ended {b s : List Token} {i j : NodeId} {cause : Cause}
    {goesOn : Token.Kind → Bool} (h : Broken b s i j cause goesOn) {semicolon : Token}
    (hs : semicolon.kind = .semicolon) (i' : NodeId) :
    ∃ a k, Reads .declared (s ++ [semicolon]) i' a k ∧ a.dangling = false := by
  cases h with
  | inBranch _ h | var h =>
      obtain ⟨a, ha, hd⟩ := h.ended hs
      obtain ⟨a', k, ha', hd'⟩ := ha.anywhere i'
      exact ⟨a', k, ha', hd'.trans hd⟩

/-! ## The mended program -/

/-- The program in which the statement behind the tokens `u` has its semicolon, belongs to no
condition or loop, and is followed by what recovery leaves. -/
def mended (u s : List Token) (semicolon : Token) (r : List Token) : List Token :=
  u ++ (s ++ semicolon :: recover r)

/-- No tokens, or a statement that ends in a semicolon, and more. -/
inductive Harmless : List Token → Prop
  | nothing : Harmless []
  | statement {p : Phrase} {s r : List Token} {semicolon : Token} {i j : NodeId} {cause : Cause}
      {goesOn : Token.Kind → Bool} (h : Unended p s i j cause goesOn)
      (hs : semicolon.kind = .semicolon) : Harmless (s ++ semicolon :: r)

/-- Recovery leaves what remains, or all of it but its first declaration. -/
theorem Harmless.recover {r z : List Token} (h : Harmless (r ++ z)) (hr : Remains r)
    (hz : z = [] ∨ Ahead (· = .rightBrace) z = true) :
    ∃ w, Parse.recover (r ++ z) = w ++ z ∧ Found (.declarations true) w := by
  generalize hv : r ++ z = v at h
  cases h with
  | nothing =>
      obtain ⟨rfl, rfl⟩ := List.append_eq_nil_iff.mp hv
      exact ⟨[], rfl, fun i => ⟨[], i, .declarationsEnd⟩⟩
  | statement h hs =>
      obtain ⟨w, rfl, hw⟩ := hr.statement hz h hs hv
      exact ⟨w, h.recover hs, hw⟩

theorem Broken.found_mended {inBlock : Bool} {u b s r z : List Token} {semicolon : Token}
    {i j : NodeId} {cause : Cause} {goesOn : Token.Kind → Bool} (h : Broken b s i j cause goesOn)
    (hs : semicolon.kind = .semicolon) (hr : Remains r)
    (hz : z = [] ∨ Ahead (· = .rightBrace) z = true)
    (hfound : ∀ y, Found (.declarations true) y → Found (.declarations inBlock) (u ++ (y ++ z)))
    (hharmless : Harmless (r ++ z)) :
    Found (.declarations inBlock) (mended u s semicolon (r ++ z)) := by
  obtain ⟨w, hrecover, hw⟩ := hharmless.recover hr hz
  have hstatement : Found .declared (s ++ [semicolon]) := fun i' =>
    let ⟨a, k, ha, _⟩ := h.ended hs i'
    ⟨a, k, ha⟩
  rw [mended, hrecover]
  simpa using hfound _ (found_declarations_cons hstatement hw)

/-! ## With the gap and without -/

/-- The run that finds the gap comes to stand beside the one that reads the statement, and behind
it what recovery leaves. -/
theorem Broken.meet {b s r : List Token} {i j : NodeId} {cause : Cause}
    {goesOn : Token.Kind → Bool} (h : Broken b s i j cause goesOn) (hr : Next r)
    (hgoesOn : Ahead goesOn r = false) {semicolon : Token} (hs : semicolon.kind = .semicolon)
    (inBlock : Bool) (last : Token) :
    Meet ⟨cause, r.headD last⟩ (declarations · inBlock) (declarations · inBlock)
      ⟨b ++ s ++ r, last, i, []⟩ ⟨s ++ [semicolon] ++ recover r, last, i, []⟩ := by
  obtain ⟨N, hthrows⟩ := h.throws hr hgoesOn
  obtain ⟨a, k, ha, hdangling⟩ := h.ended hs i
  -- one run drops the statement, the other reads it
  have hfirst : Meet ⟨cause, r.headD last⟩ declaration declaration
      ⟨b ++ s ++ r, last, i, []⟩ ⟨s ++ [semicolon] ++ recover r, last, i, []⟩ := by
    refine ⟨.ok none, ⟨recover r, last, j, [⟨cause, r.headD last⟩]⟩, .ok (some a),
      ⟨recover r, last, k, []⟩, ⟨N + 1, fun n hn => ?_⟩,
      ⟨18 + 32 * (s ++ [semicolon]).length, fun n hn => ?_⟩, .intro _ _ _ _ _, .ok _ _⟩
    · obtain ⟨n, rfl⟩ : ∃ m, n = m + 1 := ⟨n - 1, by omega⟩
      exact (hthrows n (by omega)).caught last []
    · exact finds n .declaration _ _ i (some a) k (.declaration ha)
        (no_else_of_not_dangling hdangling) hn last []
  -- and the declarations behind it are read by both
  have hall : Meet ⟨cause, r.headD last⟩
      (fun n => declaration n >>= fun first =>
        declarations n inBlock >>= fun rest => pure (first.toList ++ rest))
      (fun n => declaration n >>= fun first =>
        declarations n inBlock >>= fun rest => pure (first.toList ++ rest))
      ⟨b ++ s ++ r, last, i, []⟩ ⟨s ++ [semicolon] ++ recover r, last, i, []⟩ :=
    hfirst.bind fun _ _ => (InStep.declarations inBlock).bind fun _ _ => .pure _ _
  exact hall.of_agree (d := 1) (N := 0)
    (fun n _ => reaches_first (ahead_append h.begins r) last [])
    fun n _ => reaches_first (ahead_append ha.begins (recover r)) last []

/-- What is before the place does not matter. -/
theorem Way.meet {outer inner : Bool} {u v w : List Token} {i j : NodeId} {fault : Fault}
    {last : Token} (hu : Way outer inner u i j) (hv : Ahead beginsDeclared v = true)
    (hw : Ahead beginsDeclared w = true)
    (h : Meet fault (declarations · inner) (declarations · inner) ⟨v, last, j, []⟩
      ⟨w, last, j, []⟩) :
    Meet fault (declarations · outer) (declarations · outer) ⟨u ++ v, last, i, []⟩
      ⟨u ++ w, last, i, []⟩ := by
  obtain ⟨C, d, N, hC, hreaches⟩ := hu.leads
  exact (hC _ _ _ _ _ h).of_agree (d := d) (N := N) (fun n hn => hreaches n hn v hv last [])
    fun n hn => hreaches n hn w hw last []

end Parse

namespace Parsed

open Parse

/-- If the two runs of programs come to stand side by side, the first one has found one fault
more, and before all others. -/
theorem faults_of_meet {fault : Fault} {tokens tokens' : List Token} {i : NodeId}
    (h : Meet fault (declarations · false) (declarations · false) (start tokens i)
      (start tokens' i)) : (ofTokens tokens i).faults = fault :: (ofTokens tokens' i).faults := by
  obtain ⟨x, s, y, t, ⟨N, hN⟩, ⟨M, hM⟩, hbeside, hends⟩ := h
  cases hends with
  | error e => exact absurd (hN N (Nat.le_refl N)) declarations_catch
  | ok body body' =>
      rw [ofTokens_of_run (hN N (Nat.le_refl N)), ofTokens_of_run (hM M (Nat.le_refl M))]
      cases hbeside with
      | intro => rfl

theorem faults_marked_eq_nil_iff {w : List Token} {last : Token} (hw : ∀ t ∈ w, t.kind ≠ .eof)
    (hlast : last.kind = .eof) (i : NodeId) :
    (ofTokens (w ++ [last]) i).faults = [] ↔ Grammar.Sentence w := by
  have hreadable : readable (w ++ [last]) = w := by
    rw [readable_append hw]
    exact (congrArg (w ++ ·) (List.takeWhile_cons_of_neg (by simp [hlast]))).trans
      (List.append_nil w)
  rw [faults_eq_nil_iff, hreadable, sentence_iff_reads i]

theorem mended_ne_eof {u b s v : List Token} {semicolon : Token}
    (heof : ∀ t ∈ u ++ (b ++ s), t.kind ≠ .eof) (hs : semicolon.kind = .semicolon) :
    ∀ t ∈ mended u s semicolon (readable v), t.kind ≠ .eof := by
  intro t ht
  rcases List.mem_append.mp ht with ht | ht
  · exact heof t (List.mem_append_left _ ht)
  rcases List.mem_append.mp ht with ht | ht
  · exact heof t (List.mem_append_right _ (List.mem_append_right _ ht))
  rcases List.mem_cons.mp ht with rfl | ht
  · rw [hs]
    nofun
  · exact readable_ne_eof v t (recover_subset _ ht)

/-- Where the statement does not go on there is a fault, and otherwise those of the mended
program. -/
theorem faults_mended {inner : Bool} {u b s v : List Token} {semicolon : Token} {i j k : NodeId}
    {cause : Cause} {goesOn : Token.Kind → Bool} (hu : Way false inner u i j)
    (hb : Broken b s j k cause goesOn) (hnext : Next (readable v))
    (hgoesOn : Ahead goesOn (readable v) = false) (hs : semicolon.kind = .semicolon)
    (heof : ∀ t ∈ u ++ (b ++ s), t.kind ≠ .eof) :
    (ofTokens (u ++ (b ++ s) ++ v) i).faults =
      ⟨cause, (readable v).headD (mark (u ++ (b ++ s) ++ v))⟩ ::
        (ofTokens (mended u s semicolon (readable v) ++ [mark (u ++ (b ++ s) ++ v)]) i).faults := by
  obtain ⟨a, m, ha, -⟩ := hb.ended hs j
  have hmeet := hu.meet (ahead_append hb.begins (readable v))
    (ahead_append ha.begins (recover (readable v)))
    (hb.meet hnext hgoesOn hs inner (mark (u ++ (b ++ s) ++ v)))
  refine faults_of_meet ?_
  rw [start_marked (mended_ne_eof heof hs) (kind_mark _), mended, List.append_cons]
  have hstart : start (u ++ (b ++ s) ++ v) i =
      ⟨u ++ (b ++ s ++ readable v), mark (u ++ (b ++ s) ++ v), i, []⟩ := by
    show State.mk (readable (u ++ (b ++ s) ++ v)) _ _ _ = _
    rw [readable_append heof, List.append_assoc u]
    rfl
  rw [hstart]
  exact hmeet

/-- A program without faults in which one semicolon that ends a statement is left out. If the
statement goes on, there is no fault. If not, there is one at the next token, and the others are
those of the mended program. So there is at most one just if the statement goes on or the mended
program is a sentence, and always if nothing follows or a statement with a semicolon of its own. -/
theorem ofTokens_gap {x v : List Token} {semicolon : Token} {i : NodeId}
    (h : (ofTokens (x ++ semicolon :: v) i).faults = []) (hs : semicolon.kind = .semicolon)
    (heof : ∀ t ∈ x, t.kind ≠ .eof) (hopen : openParens x = 0) :
    ∃ inner u b s j k cause goesOn, x = u ++ (b ++ s) ∧ Way false inner u i j ∧
      Broken b s j k cause goesOn ∧
      (ofTokens (x ++ v) i).faults =
        (if Ahead goesOn (readable v) = true then []
        else ⟨cause, (readable v).headD (mark (x ++ v))⟩ ::
          (ofTokens (mended u s semicolon (readable v) ++ [mark (x ++ v)]) i).faults) ∧
      ((ofTokens (x ++ v) i).faults.length ≤ 1 ↔ Ahead goesOn (readable v) = true ∨
        Grammar.Sentence (mended u s semicolon (readable v))) ∧
      (Harmless (readable v) → (ofTokens (x ++ v) i).faults.length ≤ 1) := by
  have hreadable : readable (x ++ semicolon :: v) = x ++ semicolon :: readable v := by
    rw [readable_append heof]
    exact congrArg (x ++ ·) (List.takeWhile_cons_of_pos (decide_eq_true (by rw [hs]; nofun)))
  obtain ⟨body, m, hbody⟩ := (faults_eq_nil_iff _ _).mp h
  rw [hreadable] at hbody
  have hcut : Cut false x (readable v) i := hbody.cut hs rfl hopen
  generalize hv : readable v = rest at hcut ⊢
  cases hcut with
  | @intro inner u b s r z _ j k cause goesOn hu hb hr hz hfound =>
      have hclean (hgoesOn : Ahead goesOn (r ++ z) = true) :
          (ofTokens (u ++ (b ++ s) ++ v) i).faults = [] := by
        rw [faults_eq_nil_iff, readable_append heof, hv]
        exact hb.found_joined hr hz hfound hgoesOn i
      have hgap (hgoesOn : Ahead goesOn (r ++ z) = false) :
          (ofTokens (u ++ (b ++ s) ++ v) i).faults =
            ⟨cause, (r ++ z).headD (mark (u ++ (b ++ s) ++ v))⟩ :: (ofTokens
              (mended u s semicolon (r ++ z) ++ [mark (u ++ (b ++ s) ++ v)]) i).faults := by
        rw [← hv] at hgoesOn ⊢
        exact faults_mended hu hb (hv ▸ hr.next hz) hgoesOn hs heof
      have hsentence (hharmless : Harmless (r ++ z)) :
          Grammar.Sentence (mended u s semicolon (r ++ z)) := by
        rw [sentence_iff_reads i]
        exact hb.found_mended hs hr hz hfound hharmless i
      have hone : (ofTokens (u ++ (b ++ s) ++ v) i).faults.length ≤ 1 ↔
          Ahead goesOn (r ++ z) = true ∨ Grammar.Sentence (mended u s semicolon (r ++ z)) := by
        cases hgoesOn : Ahead goesOn (r ++ z) with
        | true =>
            rw [hclean hgoesOn]
            exact iff_of_true (Nat.zero_le 1) (.inl rfl)
        | false =>
            rw [hgap hgoesOn, List.length_cons, Nat.succ_le_succ_iff, Nat.le_zero,
              List.length_eq_zero_iff, ← hv,
              faults_marked_eq_nil_iff (mended_ne_eof heof hs) (kind_mark _)]
            exact ⟨.inr, fun h => h.resolve_left Bool.false_ne_true⟩
      refine ⟨inner, u, b, s, j, k, cause, goesOn, rfl, hu, hb, ?_, hone, fun hharmless => ?_⟩
      · split
        · exact hclean ‹_›
        · exact hgap (Bool.eq_false_iff.mpr ‹_›)
      · exact hone.mpr (.inr (hsentence hharmless))

/-- A closing brace behind the gap is passed over, and then it is missing. -/
theorem ofTokens_gap_brace :
    let word (kind : Token.Kind) : Token := ⟨kind, "", 1⟩
    let last : Token := ⟨.eof, "", 1⟩
    let x := [word .leftBrace, word .kwPrint, word .kwNil]
    let v := [word .rightBrace, last]
    (ofTokens (x ++ word .semicolon :: v) 0).faults = [] ∧
      (ofTokens (x ++ v) 0).faults = [⟨.expectSemicolonAfterValue, word .rightBrace⟩,
        ⟨.expectBraceAfterBlock, last⟩] ∧
      ∃ u b s, x = u ++ (b ++ s) ∧
        ¬Grammar.Sentence (mended u s (word .semicolon) [word .rightBrace]) := by
  intro word last x v
  have hclean : (ofTokens (x ++ word .semicolon :: v) 0).faults = [] := rfl
  have hfaults : (ofTokens (x ++ v) 0).faults = [⟨.expectSemicolonAfterValue, word .rightBrace⟩,
    ⟨.expectBraceAfterBlock, last⟩] := rfl
  obtain ⟨_, u, b, s, _, _, _, _, hx, -, -, -, hone, -⟩ :=
    ofTokens_gap hclean rfl (by simp [x, word]) rfl
  refine ⟨hclean, hfaults, u, b, s, hx, fun hsentence => ?_⟩
  have hlength := hone.mpr (.inr hsentence)
  rw [hfaults] at hlength
  exact absurd hlength (by decide)

end Parsed

end Lox
