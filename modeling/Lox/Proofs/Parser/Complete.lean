import Lox.Proofs.Parser.Reports
import Lox.Proofs.Parser.Sound

/-!
# The parser finds every reading

If tokens stand for a tree, and what follows them could not be read as a
continuation, the parser takes these tokens and gives this tree, without a fault.
As it also reads nothing else without a fault, what it does with tokens that are in
order is said by `Reads` alone, as `ofTokens_iff_reads` states it. The same holds with
`ReadsLong` of tokens that are in order but for the length of lists.
-/

namespace Lox.Parse

variable {α β : Type}

/-- The parser takes `w` off the tokens `w ++ r`, with the result `a`. -/
def Takes (p : Parse α) (w r : List Token) (i : Nat) (a : α) (j : Nat) : Prop :=
  ∀ last faults, p.run ⟨w ++ r, last, i, faults⟩ = some (.ok a, ⟨r, last, j, faults⟩)

theorem takes_iff {p : Parse α} {w r : List Token} {i j : Nat} {a : α} :
    Takes p w r i a j ↔ Reports p w r i a j [] := by
  constructor
  · intro h last faults
    rw [h last faults, List.append_nil]
  · intro h last faults
    rw [h last faults, List.append_nil]

section Rules

variable {p : Parse α} {u v w r : List Token} {i j k : Nat} {a : α} {b : β}

theorem Takes.pure (a : α) : Takes (pure a) [] r i a i := fun _ _ => rfl

theorem Takes.bind {f : α → Parse β} (hp : Takes p u (v ++ r) i a j)
    (hf : Takes (f a) v r j b k) : Takes (p >>= f) (u ++ v) r i b k :=
  takes_iff.2 ((takes_iff.1 hp).bind_clean (takes_iff.1 hf))

/-- The second parser takes nothing. -/
theorem Takes.bind_last {f : α → Parse β} (hp : Takes p w r i a j)
    (hf : Takes (f a) [] r j b k) : Takes (p >>= f) w r i b k :=
  takes_iff.2 ((takes_iff.1 hp).bind_last (takes_iff.1 hf))

theorem Takes.map (hp : Takes p w r i a j) (f : α → β) : Takes (f <$> p) w r i (f a) j :=
  takes_iff.2 ((takes_iff.1 hp).map f)

theorem Takes.accept {kind : Token.Kind} {f : Option Token → Parse β} {t : Token}
    (ht : t.kind = kind) (hf : Takes (f (some t)) w r i b j) :
    Takes (Parse.accept kind >>= f) (t :: w) r i b j :=
  takes_iff.2 (.accept ht (takes_iff.1 hf))

theorem Takes.accept_none {kind : Token.Kind} {f : Option Token → Parse β}
    (hw : Ahead (· = kind) (w ++ r) = false) (hf : Takes (f none) w r i b j) :
    Takes (Parse.accept kind >>= f) w r i b j :=
  takes_iff.2 (.accept_none hw (takes_iff.1 hf))

theorem Takes.test {kind : Token.Kind} {f : Bool → Parse β} {c : Bool}
    (hw : Ahead (· = kind) (w ++ r) = c) (hf : Takes (f c) w r i b j) :
    Takes (nextIs kind >>= f) w r i b j :=
  takes_iff.2 (.test hw (takes_iff.1 hf))

theorem Takes.freshId {f : NodeId → Parse β} (hf : Takes (f i) w r (i + 1) b j) :
    Takes (Parse.freshId >>= f) w r i b j :=
  takes_iff.2 (.freshId (takes_iff.1 hf))

end Rules

/-! ## Phrases -/

/-- What the parser does with a reading of a phrase. -/
def Finds (n : Nat) : (p : Phrase) → (w r : List Token) → Nat → p.Tree → Nat → Prop
  | .expression => Takes (expression n)
  | .level l => Takes (level n l)
  | .levelRest l => fun w r i rest j =>
    ∀ left, Takes (levelRest n l left) w r i (l.build left rest) j
  | .operand l => Takes (operand n l)
  | .unary => Takes (unary n)
  | .callRest => fun w r i calls j =>
    ∀ callee, Takes (callRest n callee) w r i (buildCalls callee calls) j
  | .arguments => Takes (arguments n)
  | .argumentsFrom count => Takes (argumentsFrom n count)
  | .primary => Takes (primary n)
  | .paramsFrom count => Takes (paramsFrom n count)
  | .expressionUnless kind => Takes (expressionUnless n kind)
  | .varDeclaration => Takes (varDeclaration n)
  | .expressionStatement => Takes (expressionStatement n)
  | .printStatement => Takes (printStatement n)
  | .returnStatement keyword => Takes (returnStatement n keyword)
  | .forInitializer => Takes (forInitializer n)
  | .declaration => Takes (declaration n)
  | .declared => Takes (declared n)
  | .function => Takes (function n)
  | .statement => Takes (statement n)
  | .forStatement => Takes (forStatement n)
  | .ifStatement => Takes (ifStatement n)
  | .whileStatement => Takes (whileStatement n)
  | .block => Takes (block n)
  | .declarations inBlock => Takes (declarations n inBlock)

/-- A reading without reports is found without a fault. -/
theorem FindsLong.finds {n : Nat} {p : Phrase} {w r : List Token} {i j : Nat} {a : p.Tree}
    (h : FindsLong n p w r i a j []) : Finds n p w r i a j := by
  cases p with
  | levelRest | callRest => exact fun left => takes_iff.2 (h left)
  | _ => exact takes_iff.2 h

/-- With enough fuel, a reading that could not be continued is found. -/
theorem finds (n : Nat) : ∀ (p : Phrase) (w r : List Token) (i : Nat) (a : p.Tree) (j : Nat),
    Reads p w i a j → Follow p a r → p.cost + 32 * w.length ≤ n → Finds n p w r i a j :=
  fun p w r i a j h hf hn => (finds_long n p w r i a j [] h.long hf hn).finds

end Lox.Parse

namespace Lox.Parsed

open Parse

/-- The tokens that the parser reads. -/
def readable (tokens : List Token) : List Token := tokens.takeWhile (·.kind ≠ .eof)

theorem length_readable_le (tokens : List Token) : (readable tokens).length ≤ tokens.length :=
  (List.takeWhile_prefix _).length_le

/-- The parser reports nothing but entries that are too many just as the tokens can be read with
these reports, lists of any length allowed. -/
theorem ofTokens_iff_readsLong (tokens : List Token) (i : NodeId) (body : List Stmt)
    (faults : List Fault) (j : NodeId) :
    ofTokens tokens i = ⟨body, faults, j⟩ ∧ Overruns faults ↔
      ReadsLong (.declarations false) (readable tokens) i body j faults := by
  have hlen := length_readable_le tokens
  constructor
  · intro h
    obtain ⟨h, hover⟩ := h
    obtain ⟨result, s', hrun, hlead, hok, hthrown⟩ := obeys_declarations tokens (start tokens i) hlen
    rw [ofTokens, hrun] at h
    cases result with
    | error fault =>
        obtain ⟨-, rfl, -⟩ := Parsed.mk.inj h
        have hfault := hover fault (List.mem_append_right _ (.head _))
        exact absurd hfault (by rw [hthrown fault rfl]; exact Bool.false_ne_true)
    | ok body' =>
        obtain ⟨rfl, rfl, rfl⟩ := Parsed.mk.inj h
        obtain ⟨w, hw, hm, hend⟩ := (hok body' rfl).2 s'.faults rfl hover
        rw [hend rfl, List.append_nil] at hw
        rw [readable, show tokens.takeWhile _ = w from hw]
        exact hm.1
  · intro h
    have hrun : Reports (declarations (fuel tokens) false) (readable tokens) [] i body j faults :=
      finds_long _ (.declarations false) _ [] i body j faults h rfl
        (show 19 + 32 * (readable tokens).length ≤ 32 * (tokens.length + 1) by omega)
    have hstart : start tokens i = ⟨readable tokens ++ [], (start tokens i).last, i, []⟩ := by
      rw [List.append_nil]
      rfl
    rw [ofTokens, hstart, hrun]
    exact ⟨rfl, h.overruns⟩

/-- The parser answers without a fault just as the tokens can be read. -/
theorem ofTokens_iff_reads (tokens : List Token) (i : NodeId) (body : List Stmt) (j : NodeId) :
    ofTokens tokens i = ⟨body, [], j⟩ ↔
      Reads (.declarations false) (readable tokens) i body j := by
  rw [← readsLong_nil_iff, ← ofTokens_iff_readsLong]
  exact (and_iff_left fun _ h => nomatch h).symm

/-- Numbers are given out upwards, whether there are faults or not. -/
theorem le_nextId (tokens : List Token) (i : NodeId) : i ≤ (ofTokens tokens i).nextId := by
  obtain ⟨result, s', hrun, hlead, -⟩ :=
    obeys_declarations tokens (start tokens i) (length_readable_le tokens)
  rw [ofTokens, hrun]
  cases result with
  | error fault => exact hlead.nextId
  | ok body => exact hlead.nextId

/-- There is a fault unless the tokens can be read. -/
theorem faults_eq_nil_iff (tokens : List Token) (i : NodeId) :
    (ofTokens tokens i).faults = [] ↔
      ∃ body j, Reads (.declarations false) (readable tokens) i body j := by
  constructor
  · intro h
    refine ⟨(ofTokens tokens i).statements, (ofTokens tokens i).nextId, ?_⟩
    rw [← ofTokens_iff_reads, ← h]
  · intro h
    obtain ⟨body, j, h⟩ := h
    rw [(ofTokens_iff_reads tokens i body j).2 h]

end Lox.Parsed
