import Lox.Proofs.Parser.Beside
import Lox.Proofs.Parser.Unended

/-!
# Places in a program

Where a statement stands in a program is given by the tokens before it: declarations that have been
read, blocks and functions that have been opened, and conditions and loops that it belongs to. When
these tokens have been read, the parser goes on with the statement, and what it does afterwards does
not look at the statement any more.
-/

namespace Lox.Parse

variable {α β : Type}

/-! ## The tokens before a place -/

/-- The tokens between the beginning of a statement and a statement that belongs to it without
being in a block: conditions, heads of loops, and branches before an `else`. -/
inductive Branch : List Token → NodeId → NodeId → Prop
  | here {i : NodeId} : Branch [] i i
  | ifThen {t opening closing : Token} {u b : List Token} {condition : Expr} {i j k : NodeId}
      (ht : t.kind = .kwIf) (ho : opening.kind = .leftParen)
      (hd : Reads .expression u i condition j) (hc : closing.kind = .rightParen)
      (hb : Branch b j k) :
      Branch (t :: opening :: (u ++ closing :: b)) i k
  | ifElse {t opening closing keyword : Token} {u v b : List Token} {condition : Expr}
      {thenBranch : Stmt} {i j k l : NodeId} (ht : t.kind = .kwIf) (ho : opening.kind = .leftParen)
      (hd : Reads .expression u i condition j) (hc : closing.kind = .rightParen)
      (hv : Reads .statement v j thenBranch k) (hn : thenBranch.dangling = false)
      (hk : keyword.kind = .kwElse) (hb : Branch b k l) :
      Branch (t :: opening :: (u ++ closing :: (v ++ keyword :: b))) i l
  | whileLoop {t opening closing : Token} {u b : List Token} {condition : Expr} {i j k : NodeId}
      (ht : t.kind = .kwWhile) (ho : opening.kind = .leftParen)
      (hd : Reads .expression u i condition j) (hc : closing.kind = .rightParen)
      (hb : Branch b j k) : Branch (t :: opening :: (u ++ closing :: b)) i k
  | forLoop {t opening semicolon closing : Token} {u v w b : List Token}
      {initializer : Option Stmt} {condition increment : Option Expr} {i j k l m : NodeId}
      (ht : t.kind = .kwFor) (ho : opening.kind = .leftParen)
      (hi : Reads .forInitializer u i initializer j)
      (hd : Reads (.expressionUnless .semicolon) v j condition k)
      (hs : semicolon.kind = .semicolon)
      (hn : Reads (.expressionUnless .rightParen) w k increment l)
      (hc : closing.kind = .rightParen) (hb : Branch b l m) :
      Branch (t :: opening :: (u ++ (v ++ semicolon :: (w ++ closing :: b)))) i m

/-- Parameters between parentheses, none or some. -/
def Params (w : List Token) (i j : NodeId) : Prop :=
  w = [] ∧ i = j ∨ ∃ params, Reads (.paramsFrom 0) w i params j

/-- The tokens before a place between declarations: those of a list of declarations, in a block or
not, up to a place in a list within it, in a block or not. -/
inductive Way : Bool → Bool → List Token → NodeId → NodeId → Prop
  | here {inBlock : Bool} {i : NodeId} : Way inBlock inBlock [] i i
  | after {outer inner : Bool} {w u : List Token} {s : Stmt} {i j k : NodeId}
      (hs : Reads .declaration w i (some s) j) (hu : Way outer inner u j k) :
      Way outer inner (w ++ u) i k
  | block {outer inner : Bool} {b u : List Token} {brace : Token} {i j k : NodeId}
      (hb : Branch b i j) (ht : brace.kind = .leftBrace) (hu : Way true inner u j k) :
      Way outer inner (b ++ brace :: u) i k
  | function {outer inner : Bool} {t name opening closing brace : Token} {w u : List Token}
      {i j k : NodeId} (ht : t.kind = .kwFun) (hn : name.kind = .identifier)
      (ho : opening.kind = .leftParen) (hp : Params w i j) (hc : closing.kind = .rightParen)
      (hb : brace.kind = .leftBrace) (hu : Way true inner u j k) :
      Way outer inner (t :: name :: opening :: (w ++ closing :: brace :: u)) i k

/-! ## Reading up to a place -/

/-- When the first parser has read the tokens `u`, it goes on as the second one. -/
def Reaches (p q : Parse α) (u r : List Token) (i j : NodeId) : Prop :=
  ∀ last faults, p.run ⟨u ++ r, last, i, faults⟩ = q.run ⟨r, last, j, faults⟩

section Rules

variable {p q q' : Parse α} {f : α → Parse β} {u v w r : List Token} {i j k : NodeId}
  {cause : Cause}

theorem Reaches.refl : Reaches p p [] r i i := fun _ _ => rfl

theorem Reaches.trans (h : Reaches p q u (v ++ r) i j) (h' : Reaches q q' v r j k) :
    Reaches p q' (u ++ v) r i k := by
  intro last faults
  rw [List.append_assoc, h, h']

theorem Reaches.of_eq (h : Reaches p q u r i j) (hu : u = v) : Reaches p q v r i j := hu ▸ h

theorem Reaches.bind (h : Reaches p q u r i j) : Reaches (p >>= f) (q >>= f) u r i j := by
  intro last faults
  rw [run_bind, run_bind, h]

theorem Reaches.map (h : Reaches p q u r i j) (g : α → β) :
    Reaches (g <$> p) (g <$> q) u r i j := by
  rw [← bind_pure_comp, ← bind_pure_comp]
  exact h.bind

theorem Reaches.tryCatch (h : Reaches p q u r i j) (handler : Fault → Parse α) :
    Reaches (tryCatch p handler) (tryCatch q handler) u r i j := by
  intro last faults
  rw [run_tryCatch, run_tryCatch, h]

theorem Takes.reaches {a : α} (h : Takes p u r i a j) : Reaches (p >>= f) (f a) u r i j := by
  intro last faults
  rw [run_bind, h]

theorem Reaches.acceptIf {wanted : Token.Kind → Bool} {f : Option Token → Parse β} {t : Token}
    (ht : wanted t.kind = true) : Reaches (Parse.acceptIf wanted >>= f) (f (some t)) [t] r i i :=
  Takes.reaches fun _ _ => run_acceptIf_cons rfl ht

theorem Reaches.acceptIf_none {wanted : Token.Kind → Bool} {f : Option Token → Parse β}
    (hr : Ahead wanted r = false) : Reaches (Parse.acceptIf wanted >>= f) (f none) [] r i i :=
  Takes.reaches fun _ _ => run_acceptIf_none hr

theorem Reaches.accept {kind : Token.Kind} {f : Option Token → Parse β} {t : Token}
    (ht : t.kind = kind) : Reaches (Parse.accept kind >>= f) (f (some t)) [t] r i i :=
  .acceptIf (decide_eq_true ht)

theorem Reaches.accept_none {kind : Token.Kind} {f : Option Token → Parse β}
    (hr : Ahead (· = kind) r = false) : Reaches (Parse.accept kind >>= f) (f none) [] r i i :=
  .acceptIf_none hr

theorem Reaches.expect {kind : Token.Kind} {cause : Cause} {f : Token → Parse β} {t : Token}
    (ht : t.kind = kind) : Reaches (Parse.expect kind cause >>= f) (f t) [t] r i i :=
  Takes.reaches (.accept ht (.pure t))

theorem Reaches.test {kind : Token.Kind} {f : Bool → Parse β} {c : Bool}
    (hr : Ahead (· = kind) r = c) : Reaches (nextIs kind >>= f) (f c) [] r i i := by
  intro last faults
  rw [List.nil_append, run_bind, run_nextIs, hr]

theorem Reaches.throws (h : Reaches p q u (w ++ r) i j) (hq : Throws q w r j cause k) :
    Throws p (u ++ w) r i cause k := by
  intro last faults
  rw [List.append_assoc, h]
  exact hq last faults

end Rules

/-- What is around a statement: it begins with the statement, lets through what the statement
throws, and carries two runs along side by side. -/
structure Surrounds (C : Nat → Parse Stmt → Parse α) : Prop where
  carries : Carries C
  reaches {n : Nat} {p q : Parse Stmt} {u r : List Token} {i j : NodeId}
    (h : Reaches p q u r i j) : Reaches (C n p) (C n q) u r i j
  throws {n : Nat} {p : Parse Stmt} {w r : List Token} {i j : NodeId} {cause : Cause}
    (h : Throws p w r i cause j) : Throws (C n p) w r i cause j

theorem Surrounds.here : Surrounds fun _ (p : Parse Stmt) => p := ⟨.here, id, id⟩

theorem Surrounds.bind {C : Nat → Parse Stmt → Parse α} (h : Surrounds C)
    {k : Nat → α → Parse β} (hk : ∀ fault a b, InStep fault (k · a) (k · b)) :
    Surrounds fun n p => C n p >>= k n :=
  ⟨h.carries.bind hk, fun hp => (h.reaches hp).bind, fun hp => (h.throws hp).bind _⟩

/-- Behind its first word the parser goes on as the word says. -/
theorem reaches_keyed {t : Token} {kind : Token.Kind} {r : List Token} {i : NodeId} (n : Nat) :
    t.kind = kind → beginsKeyed kind = true → Reaches (statement (n + 1)) (match kind with
      | .kwFor => forStatement n
      | .kwIf => ifStatement n
      | .kwPrint => printStatement n
      | .kwReturn => returnStatement n t
      | .kwWhile => whileStatement n
      | _ => .block <$> block n) [t] r i i := by
  rintro rfl hk
  rw [statement]
  exact .acceptIf hk

/-- What a conditional does behind its first branch. -/
def elseOrEnd (condition : Expr) (n : Nat) (thenBranch : Stmt) : Parse Stmt := do
  let elseBranch ← match ← accept .kwElse with
    | some _ => some <$> statement n
    | none => pure none
  return .ifThen condition thenBranch elseBranch

theorem inStep_elseOrEnd (condition : Expr) (fault : Fault) (a b : Stmt) :
    InStep fault (elseOrEnd condition · a) (elseOrEnd condition · b) := by
  refine .looks (.acceptIf _) fun found => ?_
  cases found with
  | none => exact .pure _ _
  | some _ => exact (InStep.statement.map some some).bind fun _ _ => .pure _ _

/-- What is read behind the condition of a conditional or a loop. -/
theorem reaches_condition {opening closing : Token} {u r : List Token} {condition : Expr}
    {i j : NodeId} {cause cause' : Cause} {k : Expr → Parse Stmt} {n : Nat}
    (ho : opening.kind = .leftParen) (hd : Reads .expression u i condition j)
    (hc : closing.kind = .rightParen) (hn : 15 + 32 * u.length ≤ n) :
    Reaches (expect .leftParen cause >>= fun _ => expression n >>= fun e =>
      expect .rightParen cause' >>= fun _ => k e) (k condition) (opening :: (u ++ [closing])) r
      i j :=
  have hu : Takes (expression n) u (closing :: r) i condition j :=
    finds n .expression u _ i condition j hd (ahead_kind hc rfl) hn
  Reaches.trans (u := [opening]) (.expect ho)
    (Reaches.trans (v := [closing]) hu.reaches (.expect hc))

/-- From the beginning of a statement to one that belongs to it: the parser goes on with that one,
and what it does around it carries two runs along side by side. -/
def LeadsToStatement (b : List Token) (i j : NodeId) : Prop :=
  ∃ (C : Nat → Parse Stmt → Parse Stmt) (d N : Nat), Surrounds C ∧
    ∀ n, N ≤ n → ∀ r, Reaches (statement (n + d)) (C n (statement n)) b r i j

/-- The head of a conditional or a loop comes first. -/
theorem LeadsToStatement.behind {head b : List Token} {i j k : NodeId} {M : Nat}
    {after : Nat → Stmt → Parse Stmt}
    (hafter : ∀ fault s t, InStep fault (after · s) (after · t))
    (hhead : ∀ n, M ≤ n → ∀ r, Reaches (statement (n + 2)) (statement n >>= after n) head r i j)
    (h : LeadsToStatement b j k) : LeadsToStatement (head ++ b) i k := by
  obtain ⟨C, d, N, hC, hreaches⟩ := h
  exact ⟨fun n p => C n p >>= after (n + d), d + 2, max N M,
    hC.bind fun fault s t => (hafter fault s t).later d, fun n hn r =>
      (hhead (n + d) (by omega) (b ++ r)).trans (hreaches n (by omega) r).bind⟩

section Heads

variable {t opening closing : Token} {u r : List Token} {condition : Expr} {i j : NodeId} {n : Nat}
  (ho : opening.kind = .leftParen) (hd : Reads .expression u i condition j)
  (hc : closing.kind = .rightParen)
include ho hd hc

theorem reaches_then (ht : t.kind = .kwIf) (hn : 15 + 32 * u.length ≤ n) :
    Reaches (statement (n + 2)) (statement n >>= elseOrEnd condition n)
      (t :: opening :: (u ++ [closing])) r i j :=
  Reaches.trans (u := [t]) (reaches_keyed (n + 1) ht rfl) (reaches_condition ho hd hc hn)

theorem reaches_else {keyword : Token} {v : List Token} {thenBranch : Stmt} {k : NodeId}
    (ht : t.kind = .kwIf) (hv : Reads .statement v j thenBranch k)
    (hdangling : thenBranch.dangling = false) (hk : keyword.kind = .kwElse)
    (hn : 16 + 32 * u.length + 32 * v.length ≤ n) :
    Reaches (statement (n + 2)) (statement n >>= fun elseBranch =>
        pure (.ifThen condition thenBranch (some elseBranch)))
      (t :: opening :: (u ++ closing :: (v ++ [keyword]))) r i k := by
  have hthen : Takes (statement n) v (keyword :: r) j thenBranch k :=
    finds n .statement v _ j thenBranch k hv (no_else_of_not_dangling hdangling)
      (show 16 + 32 * v.length ≤ n by omega)
  have helse : Reaches (elseOrEnd condition n thenBranch)
      (some <$> statement n >>= fun elseBranch =>
        pure (.ifThen condition thenBranch elseBranch)) [keyword] r k k := .accept hk
  rw [bind_map_left] at helse
  exact ((reaches_then ho hd hc ht (by omega)).trans (Reaches.trans hthen.reaches helse)).of_eq
    (by simp)

theorem reaches_whileBody (ht : t.kind = .kwWhile) (hn : 15 + 32 * u.length ≤ n) :
    Reaches (statement (n + 2)) (statement n >>= fun body => pure (.whileLoop condition body))
      (t :: opening :: (u ++ [closing])) r i j :=
  Reaches.trans (u := [t]) (reaches_keyed (n + 1) ht rfl) (reaches_condition ho hd hc hn)

end Heads

theorem reaches_forBody {t opening semicolon closing : Token} {u v w r : List Token}
    {initializer : Option Stmt} {condition increment : Option Expr} {i j k l : NodeId} {n : Nat}
    (ht : t.kind = .kwFor) (ho : opening.kind = .leftParen)
    (hi : Reads .forInitializer u i initializer j)
    (hd : Reads (.expressionUnless .semicolon) v j condition k)
    (hs : semicolon.kind = .semicolon)
    (hn : Reads (.expressionUnless .rightParen) w k increment l)
    (hc : closing.kind = .rightParen)
    (hfuel : 15 + 32 * u.length + 32 * v.length + 32 * w.length ≤ n) :
    Reaches (statement (n + 2)) (statement n >>= fun body =>
        pure (.forLoop initializer condition increment body))
      (t :: opening :: (u ++ (v ++ semicolon :: (w ++ [closing])))) r i l := by
  have hu : Takes (forInitializer n) u (v ++ semicolon :: (w ++ [closing]) ++ r) i initializer j :=
    finds n .forInitializer u _ i initializer j hi (no_else_of_not_dangling rfl)
      (show 15 + 32 * u.length ≤ n by omega)
  have hv : Takes (expressionUnless n .semicolon) v (semicolon :: (w ++ [closing]) ++ r) j
      condition k :=
    finds n (.expressionUnless .semicolon) v _ j condition k hd ⟨.inl rfl, ahead_kind hs rfl⟩
      (show 15 + 32 * v.length ≤ n by omega)
  have hw : Takes (expressionUnless n .rightParen) w ([closing] ++ r) k increment l :=
    finds n (.expressionUnless .rightParen) w _ k increment l hn ⟨.inr rfl, ahead_kind hc rfl⟩
      (show 15 + 32 * w.length ≤ n by omega)
  have hclauses : Reaches (forStatement (n + 1)) (statement n >>= fun body =>
      pure (.forLoop initializer condition increment body))
      ([opening] ++ (u ++ (v ++ ([semicolon] ++ (w ++ [closing]))))) r i l :=
    (Reaches.expect ho).trans (hu.reaches.trans (hv.reaches.trans ((Reaches.expect hs).trans
      (hw.reaches.trans (.expect hc)))))
  exact (reaches_keyed (n + 1) ht rfl).trans hclauses

/-- Behind the tokens of a branch the parser goes on with the statement that belongs to it. -/
theorem Branch.leads {b : List Token} {i j : NodeId} (hb : Branch b i j) :
    LeadsToStatement b i j := by
  induction hb with
  | here => exact ⟨_, 0, 0, .here, fun n _ r => .refl⟩
  | ifThen ht ho hd hc _ ih =>
      simpa using ih.behind (inStep_elseOrEnd _) fun n hn r => reaches_then ho hd hc ht hn
  | ifElse ht ho hd hc hv hdangling hk _ ih =>
      simpa using ih.behind (fun _ _ _ => .pure _ _) fun n hn r =>
        reaches_else ho hd hc ht hv hdangling hk hn
  | whileLoop ht ho hd hc _ ih =>
      simpa using ih.behind (fun _ _ _ => .pure _ _) fun n hn r =>
        reaches_whileBody ho hd hc ht hn
  | forLoop ht ho hi hd hs hn hc _ ih =>
      simpa using ih.behind (fun _ _ _ => .pure _ _) fun n hfuel r =>
        reaches_forBody ht ho hi hd hs hn hc hfuel

/-! ## Up to a place between declarations -/

/-- What a list of declarations does with the first of them and with the rest. -/
def afterDeclared (n : Nat) (inBlock : Bool) (p : Parse Stmt) : Parse (List Stmt) := do
  let first ← tryCatch (some <$> p) fun fault => do
    record fault
    skipBroken
    return none
  let rest ← declarations n inBlock
  return first.toList ++ rest

theorem carries_afterDeclared (d : Nat) (inBlock : Bool) {C : Nat → Parse α → Parse Stmt}
    (hC : Carries C) : Carries fun n p => afterDeclared (n + d) inBlock (C n p) := by
  have hfirst : Carries fun n p => (tryCatch (some <$> C n p) fun fault =>
      record fault >>= fun _ => skipBroken >>= fun _ => pure none : Parse (Option Stmt)) :=
    (hC.map some).tryCatch fun _ e => .caught e
  refine hfirst.bind fun fault a b => ?_
  exact ((InStep.declarations inBlock).later d).bind fun _ _ => .pure _ _

/-- There is a declaration to be read. -/
theorem goes_on_of_begins {inBlock : Bool} {r : List Token} (hr : Ahead beginsDeclared r = true) :
    ¬(r = [] ∨ inBlock = true ∧ Ahead (· = .rightBrace) r = true) := by
  rintro (rfl | ⟨-, hbrace⟩)
  · exact Bool.false_ne_true hr
  · refine Bool.false_ne_true ((ahead_ne (fun kind hk => ?_) hr).symm.trans hbrace)
    cases kind <;> first | rfl | cases hk

theorem reaches_first {n : Nat} {inBlock : Bool} {r : List Token} {i : NodeId}
    (hr : Ahead beginsDeclared r = true) :
    Reaches (declarations (n + 1) inBlock) (declaration n >>= fun first =>
      declarations n inBlock >>= fun rest => pure (first.toList ++ rest)) [] r i i := by
  intro last faults
  rw [List.nil_append, run_declarations, if_neg (goes_on_of_begins hr)]

theorem reaches_declared {n : Nat} {inBlock : Bool} {q : Parse Stmt} {u r : List Token}
    {i j : NodeId} (hu : Ahead beginsDeclared (u ++ r) = true)
    (h : Reaches (declared n) q u r i j) :
    Reaches (declarations (n + 2) inBlock) (afterDeclared (n + 1) inBlock q) u r i j := by
  have hfirst : Reaches (declarations (n + 2) inBlock)
      (afterDeclared (n + 1) inBlock (declared n)) [] (u ++ r) i i := by
    have h : Reaches (declarations (n + 2) inBlock) (declaration (n + 1) >>= fun first =>
        declarations (n + 1) inBlock >>= fun rest => pure (first.toList ++ rest)) [] (u ++ r) i i :=
      reaches_first hu
    rwa [declaration] at h
  have hrest : Reaches (afterDeclared (n + 1) inBlock (declared n))
      (afterDeclared (n + 1) inBlock q) u r i j := ((h.map some).tryCatch _).bind
  exact hfirst.trans hrest

theorem Branch.begins {b r : List Token} {i j : NodeId} (hb : Branch b i j)
    (hr : Ahead beginsPlain r = true) : Ahead beginsPlain (b ++ r) = true := by
  cases hb with
  | here => exact hr
  | ifThen ht | ifElse ht | whileLoop ht | forLoop ht => exact ahead_kind ht rfl

theorem beginsDeclared_of_plain {r : List Token} (hr : Ahead beginsPlain r = true) :
    Ahead beginsDeclared r = true :=
  ahead_mono (fun _ h => Bool.or_eq_true_iff.mpr (.inr h)) hr

theorem reaches_statement {n : Nat} {r : List Token} {i : NodeId}
    (hr : Ahead beginsPlain r = true) : Reaches (declared (n + 1)) (statement n) [] r i i := by
  have hfun : Ahead (· = .kwFun) r = false :=
    ahead_ne (fun kind hk => by cases kind <;> first | rfl | cases hk) hr
  have hvar : Ahead (· = .kwVar) r = false :=
    ahead_ne (fun kind hk => by cases kind <;> first | rfl | cases hk) hr
  rw [declared]
  exact Reaches.trans (.accept_none hfun) (.accept_none hvar)

theorem Way.begins {outer inner : Bool} {u r : List Token} {i j : NodeId}
    (hu : Way outer inner u i j) (hr : Ahead beginsDeclared r = true) :
    Ahead beginsDeclared (u ++ r) = true := by
  cases hu with
  | here => exact hr
  | after hs =>
      rw [List.append_assoc]
      exact ahead_append hs.begins _
  | block hb ht =>
      rw [List.append_assoc]
      exact beginsDeclared_of_plain (hb.begins (ahead_kind ht rfl))
  | function ht => exact ahead_kind ht rfl

/-- Up to a place where there is a declaration, the parser goes on with the declarations there. What
it does with them carries two runs along side by side. -/
def LeadsTo (p : Nat → Parse α) (inner : Bool) (u : List Token) (i j : NodeId) : Prop :=
  ∃ (C : Nat → Parse (List Stmt) → Parse α) (d N : Nat), Carries C ∧
    ∀ n, N ≤ n → ∀ r, Ahead beginsDeclared r = true →
      Reaches (p (n + d)) (C n (declarations n inner)) u r i j

theorem LeadsTo.after {outer inner : Bool} {w u : List Token} {s : Stmt} {i j k : NodeId}
    (hs : Reads .declaration w i (some s) j)
    (hu : ∀ r, Ahead beginsDeclared r = true → Ahead beginsDeclared (u ++ r) = true)
    (h : LeadsTo (declarations · outer) inner u j k) :
    LeadsTo (declarations · outer) inner (w ++ u) i k := by
  obtain ⟨C, d, N, hC, hreaches⟩ := h
  refine ⟨fun n p => C n p >>= fun rest => pure (s :: rest), d + 1, max N (18 + 32 * w.length),
    hC.bind fun _ _ _ => .pure _ _, fun n hn r hr => ?_⟩
  have helse : Ahead (· = .kwElse) (u ++ r) = false :=
    ahead_ne (fun kind hk => by cases kind <;> first | rfl | cases hk) (hu r hr)
  have hw : Takes (declaration (n + d)) w (u ++ r) i (some s) j :=
    finds _ .declaration w _ i (some s) j hs (fun _ => helse)
      (show 18 + 32 * w.length ≤ n + d by omega)
  have hrest := (hreaches n (by omega) r hr).bind (f := fun rest => pure (s :: rest))
  have hb := ahead_append hs.begins (u ++ r)
  exact Reaches.trans (v := w ++ u) (reaches_first (by rwa [List.append_assoc]))
    (Reaches.trans hw.reaches hrest)

/-- The place is in the first declaration. -/
theorem LeadsTo.within {outer inner : Bool} {u : List Token} {i j : NodeId}
    (hu : ∀ r, Ahead beginsDeclared (u ++ r) = true) (h : LeadsTo declared inner u i j) :
    LeadsTo (declarations · outer) inner u i j := by
  obtain ⟨C, d, N, hC, hreaches⟩ := h
  exact ⟨fun n p => afterDeclared (n + (d + 1)) outer (C n p), d + 2, N,
    carries_afterDeclared _ _ hC, fun n hn r hr =>
      reaches_declared (hu r) (hreaches n hn r hr)⟩

/-- What a block does behind its declarations. -/
def closeBlock (body : List Stmt) : Parse (List Stmt) := do
  let _ ← expect .rightBrace .expectBraceAfterBlock
  return body

theorem inStep_closeBlock (fault : Fault) (a b : List Stmt) :
    InStep fault (fun _ => closeBlock a) (fun _ => closeBlock b) :=
  .looks (k := fun _ _ => pure a) (.expect _ _) fun _ => .pure a b

theorem LeadsTo.block {inner : Bool} {b u : List Token} {brace : Token} {i j k : NodeId}
    (hb : Branch b i j) (ht : brace.kind = .leftBrace)
    (h : LeadsTo (declarations · true) inner u j k) :
    LeadsTo declared inner (b ++ brace :: u) i k := by
  obtain ⟨C, d, N, hC, hreaches⟩ := h
  obtain ⟨D, e, M, hD, hbranch⟩ := hb.leads
  have hinner : Carries fun n p => Stmt.block <$> (C n p >>= closeBlock) :=
    (hC.bind inStep_closeBlock).map Stmt.block
  refine ⟨fun n p => D (n + (d + 2)) (Stmt.block <$> (C n p >>= closeBlock)), d + 2 + e + 1,
    max N M, (hD.carries.later (d + 2)).comp hinner, fun n hn r hr => ?_⟩
  have hplain : Ahead beginsPlain (b ++ brace :: u ++ r) = true := by
    rw [List.append_assoc]
    exact hb.begins (ahead_kind ht rfl)
  have hblock : Reaches (statement (n + (d + 2)))
      (Stmt.block <$> (C n (declarations n inner) >>= closeBlock)) (brace :: u) r j k :=
    (reaches_keyed (n + d + 1) ht rfl).trans ((hreaches n (by omega) r hr).bind.map Stmt.block)
  have hstatement : Reaches (statement (n + (d + 2) + e))
      (D (n + (d + 2)) (Stmt.block <$> (C n (declarations n inner) >>= closeBlock)))
      (b ++ brace :: u) r i k := (hbranch (n + (d + 2)) (by omega) _).trans (hD.reaches hblock)
  rw [Nat.add_assoc n] at hstatement
  exact Reaches.trans (v := b ++ brace :: u) (reaches_statement hplain) hstatement

/-- Behind its head the parser goes on with the body of a function. -/
theorem reaches_body {name opening closing brace : Token} {w : List Token} {i j : NodeId}
    (hn : name.kind = .identifier) (ho : opening.kind = .leftParen) (hp : Params w i j)
    (hc : closing.kind = .rightParen) (hb : brace.kind = .leftBrace) :
    ∃ params, ∀ n, 1 + 32 * w.length ≤ n → ∀ r,
      Reaches (function (n + 1)) (block n >>= fun body => pure (.function name params body))
        (name :: opening :: (w ++ [closing, brace])) r i j := by
  have hbody {n : Nat} {params r : List Token} :
      Reaches (expect .rightParen .expectParenAfterParameters >>= fun _ =>
          expect .leftBrace .expectBraceBeforeBody >>= fun _ => block n >>= fun body =>
            pure (Stmt.function name params body))
        (block n >>= fun body => pure (.function name params body)) [closing, brace] r j j :=
    Reaches.trans (u := [closing]) (.expect hc) (.expect hb)
  rcases hp with ⟨rfl, rfl⟩ | ⟨params, hp⟩
  · refine ⟨[], fun n _ r => ?_⟩
    rw [function]
    exact Reaches.trans (u := [name]) (.expect hn) (Reaches.trans (u := [opening]) (.expect ho)
      (Reaches.trans (u := []) (.test (ahead_kind hc rfl)) hbody))
  · refine ⟨params, fun n hfuel r => ?_⟩
    have hw : Takes (paramsFrom n 0) w (closing :: brace :: r) i params j :=
      finds n (.paramsFrom 0) w _ i params j hp (ahead_kind_ne hc rfl) hfuel
    have hhead : Ahead (· = .rightParen) (w ++ closing :: brace :: r) = false := by
      cases hp with
      | lastParam _ ht | moreParams _ ht => exact ahead_kind_ne ht rfl
    rw [function]
    refine Reaches.trans (u := [name]) (.expect hn) (Reaches.trans (u := [opening]) (.expect ho)
      (Reaches.trans (u := []) (.test (c := false) ?_) (hw.reaches.trans hbody)))
    simpa using hhead

theorem LeadsTo.function {inner : Bool} {t name opening closing brace : Token} {w u : List Token}
    {i j k : NodeId} (ht : t.kind = .kwFun) (hn : name.kind = .identifier)
    (ho : opening.kind = .leftParen) (hp : Params w i j) (hc : closing.kind = .rightParen)
    (hb : brace.kind = .leftBrace) (h : LeadsTo (declarations · true) inner u j k) :
    LeadsTo declared inner (t :: name :: opening :: (w ++ closing :: brace :: u)) i k := by
  obtain ⟨C, d, N, hC, hreaches⟩ := h
  obtain ⟨params, hhead⟩ := reaches_body hn ho hp hc hb
  refine ⟨fun n p => C n p >>= closeBlock >>= fun body => pure (.function name params body), d + 3,
    max N (1 + 32 * w.length), (hC.bind inStep_closeBlock).bind fun _ _ _ => .pure _ _,
    fun n hn r hr => ?_⟩
  have hblock : Reaches (Parse.block (n + d + 1)) (C n (declarations n inner) >>= closeBlock) u r
      j k := (hreaches n (by omega) r hr).bind
  have hfunction : Reaches (declared (n + (d + 3)))
      (C n (declarations n inner) >>= closeBlock >>= fun body =>
        pure (.function name params body))
      ([t] ++ (name :: opening :: (w ++ [closing, brace]) ++ u)) r i k :=
    Reaches.trans (.accept ht) ((hhead (n + d + 1) (by omega) _).trans hblock.bind)
  exact hfunction.of_eq (by simp)

/-- Up to a place between declarations the parser goes on with the declarations there. -/
theorem Way.leads {outer inner : Bool} {u : List Token} {i j : NodeId}
    (hu : Way outer inner u i j) : LeadsTo (declarations · outer) inner u i j := by
  induction hu with
  | here => exact ⟨_, 0, 0, .here, fun n _ r _ => .refl⟩
  | after hs hu ih => exact ih.after hs fun r => hu.begins
  | block hb ht hu ih =>
      refine (ih.block hb ht).within fun r => ?_
      rw [List.append_assoc]
      exact beginsDeclared_of_plain (hb.begins (ahead_kind ht rfl))
  | function ht hn ho hp hc hb hu ih =>
      exact (ih.function ht hn ho hp hc hb).within fun r => ahead_kind ht rfl

end Lox.Parse
