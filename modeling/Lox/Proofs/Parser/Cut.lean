import Lox.Proofs.Parser.Joined
import Lox.Proofs.Parser.Nested
import Lox.Proofs.Parser.Resumed

/-!
# Where statements end

In a program that is read without a fault, a semicolon with all parentheses closed before it ends a
statement. The tokens before it are those up to a place between declarations, those of the
conditions and loops that the statement belongs to, and those of the statement. Behind it the list
of declarations goes on, unless an `else` follows.
-/

namespace Lox.Parse

/-! ## Parentheses -/

/-- What a token adds to the number of open parentheses. -/
def opens : Token.Kind → Int
  | .leftParen => 1
  | .rightParen => -1
  | _ => 0

/-- How many more parentheses are opened than are closed. -/
def openParens : List Token → Int
  | [] => 0
  | t :: w => opens t.kind + openParens w

@[simp] theorem openParens_nil : openParens [] = 0 := rfl

@[simp] theorem openParens_cons (t : Token) (w : List Token) :
    openParens (t :: w) = opens t.kind + openParens w := rfl

@[simp] theorem openParens_append (u v : List Token) :
    openParens (u ++ v) = openParens u + openParens v := by
  induction u with
  | nil => exact (Int.zero_add _).symm
  | cons t u ih =>
      rw [List.cons_append, openParens_cons, openParens_cons, ih, Int.add_assoc]

theorem opens_of_has {l : Level} {kind : Token.Kind} (h : l.has kind = true) : opens kind = 0 := by
  cases l <;> cases kind <;> first | rfl | cases h

theorem opens_of_unary {kind : Token.Kind} (h : isUnary kind = true) : opens kind = 0 := by
  cases kind <;> first | rfl | cases h

theorem opens_of_constant {t : Token} {value : Literal} (h : t.constant? = some value) :
    opens t.kind = 0 := by
  rw [Token.constant?] at h
  cases hk : t.kind <;> rw [hk] at h <;> first | rfl | cases h

/-- Whatever is read closes its parentheses. -/
theorem Reads.openParens_eq_zero {p : Phrase} {w : List Token} {i j : NodeId} {a : p.Tree}
    (h : Reads p w i a j) : openParens w = 0 := by
  induction h with
  | levelMore ho _ _ ih ih' => simp [opens_of_has ho, ih, ih']
  | operator ht _ ih => simp [opens_of_unary ht, ih]
  | constant ht => simp [opens_of_constant ht]
  | _ => simp [opens, *]

/-! ## Cutting at a semicolon -/

theorem no_semicolon_of_expression {w : List Token} {i j : NodeId} {e : Expr}
    (h : Reads .expression w i e j) : ∀ t ∈ w, t.kind ≠ .semicolon := fun t ht =>
  of_decide_eq_true (Bool.and_eq_true_iff.mp (h.passedOver rfl t ht)).1

theorem no_semicolon_of_expressionUnless {kind : Token.Kind} {w : List Token} {i j : NodeId}
    {o : Option Expr} (h : Reads (.expressionUnless kind) w i o j) :
    ∀ t ∈ w, t.kind ≠ .semicolon := by
  cases h with
  | noExpression => exact List.forall_mem_nil _
  | someExpression h => exact no_semicolon_of_expression h

theorem no_semicolon_of_paramsFrom {count : Nat} {w params : List Token} {i j : NodeId}
    (h : Reads (.paramsFrom count) w i params j) : ∀ t ∈ w, t.kind ≠ .semicolon := by
  induction params generalizing count w i with
  | nil => nomatch h
  | cons t params ih =>
      cases h with
      | lastParam _ ht => exact List.forall_mem_singleton.mpr (by rw [ht]; nofun)
      | moreParams _ ht hc h =>
          exact List.forall_mem_cons.mpr ⟨by rw [ht]; nofun,
            List.forall_mem_cons.mpr ⟨by rw [hc]; nofun, ih h⟩⟩

theorem Params.no_semicolon {w : List Token} {i j : NodeId} (h : Params w i j) :
    ∀ t ∈ w, t.kind ≠ .semicolon := by
  rcases h with ⟨rfl, -⟩ | ⟨params, h⟩
  · exact List.forall_mem_nil _
  · exact no_semicolon_of_paramsFrom h

theorem Params.openParens_eq_zero {w : List Token} {i j : NodeId} (h : Params w i j) :
    openParens w = 0 := by
  rcases h with ⟨rfl, -⟩ | ⟨params, h⟩
  · rfl
  · exact h.openParens_eq_zero

section Cut

variable {u w x v : List Token} {t semicolon : Token}

/-- There is no semicolon in the first of two parts. -/
theorem cut_behind (hu : ∀ t ∈ u, t.kind ≠ .semicolon) (hs : semicolon.kind = .semicolon)
    (h : u ++ w = x ++ semicolon :: v) : ∃ y, x = u ++ y ∧ w = y ++ semicolon :: v := by
  rcases List.append_eq_append_iff.mp h with ⟨y, hx, hw⟩ | ⟨r, hu', hr⟩
  · exact ⟨y, hx, hw⟩
  · cases r with
    | nil => exact ⟨[], by simpa using hu'.symm, hr.symm⟩
    | cons t r =>
        obtain ⟨rfl, -⟩ := List.cons.inj hr
        exact absurd hs (hu _ (by simp [hu']))

theorem cut_cons (ht : t.kind ≠ .semicolon) (hs : semicolon.kind = .semicolon)
    (h : t :: w = x ++ semicolon :: v) : ∃ y, x = t :: y ∧ w = y ++ semicolon :: v :=
  cut_behind (u := [t]) (List.forall_mem_singleton.mpr ht) hs h

/-- Only the last token is a semicolon. -/
theorem cut_last (hw : ∀ t ∈ w, t.kind ≠ .semicolon) (hs : semicolon.kind = .semicolon)
    (h : w ++ [t] = x ++ semicolon :: v) : x = w ∧ v = [] := by
  obtain ⟨y, rfl, hy⟩ := cut_behind hw hs h
  cases y with
  | nil => exact ⟨List.append_nil w, (List.cons.inj hy).2.symm⟩
  | cons t y => exact absurd (List.cons.inj hy).2.symm (by simp)

/-- The cut is in one of two parts. -/
theorem cut_append (h : u ++ w = x ++ semicolon :: v) :
    (∃ r, u = x ++ semicolon :: r ∧ v = r ++ w) ∨ ∃ y, x = u ++ y ∧ w = y ++ semicolon :: v := by
  rcases List.append_eq_append_iff.mp h with ⟨y, hx, hw⟩ | ⟨r, hu, hr⟩
  · exact .inr ⟨y, hx, hw⟩
  · cases r with
    | nil => exact .inr ⟨[], by simpa using hu.symm, hr.symm⟩
    | cons t r =>
        obtain ⟨rfl, rfl⟩ := List.cons.inj hr
        exact .inl ⟨r, hu, rfl⟩

end Cut

/-! ## Branches -/

/-- The head of a conditional or a loop, up to the statement that belongs to it. -/
theorem Branch.found {b w : List Token} {i j : NodeId} (hb : Branch b i j)
    (hw : Found .statement w) : Found .statement (b ++ w) := by
  induction hb with
  | here => exact hw
  | ifThen ht ho hd hc _ ih =>
      intro i'
      obtain ⟨e, k, hd⟩ := hd.found i'
      obtain ⟨s, l, hs⟩ := ih k
      exact ⟨_, l, (Reads.statementIf ht (.ifBare ho hd hc hs)).of_eq (by simp)⟩
  | ifElse ht ho hd hc hv _ hk _ ih =>
      intro i'
      obtain ⟨s, l, hs⟩ := found_ifElse ho hd.found hc hv.found hk ih i'
      exact ⟨s, l, (Reads.statementIf ht hs).of_eq (by simp)⟩
  | whileLoop ht ho hd hc _ ih =>
      intro i'
      obtain ⟨e, k, hd⟩ := hd.found i'
      obtain ⟨s, l, hs⟩ := ih k
      exact ⟨_, l, (Reads.statementWhile ht (.whileStatement ho hd hc hs)).of_eq (by simp)⟩
  | forLoop ht ho hi hd hs hn hc _ ih =>
      intro i'
      obtain ⟨initializer, k, hi⟩ := hi.found i'
      obtain ⟨condition, l, hd⟩ := hd.found k
      obtain ⟨increment, m, hn⟩ := hn.found l
      obtain ⟨s, n, hbody⟩ := ih m
      exact ⟨_, n, (Reads.statementFor ht (.forStatement ho hi hd hs hn hc hbody)).of_eq (by simp)⟩

/-- A branch may be followed to a statement that is a branch itself. -/
theorem Branch.trans {b c : List Token} {i j k : NodeId} (hb : Branch b i j) (hc : Branch c j k) :
    Branch (b ++ c) i k := by
  induction hb with
  | here => exact hc
  | ifThen ht ho hd hp _ ih => simpa using Branch.ifThen ht ho hd hp (ih hc)
  | ifElse ht ho hd hp hv hn hk _ ih => simpa using Branch.ifElse ht ho hd hp hv hn hk (ih hc)
  | whileLoop ht ho hd hp _ ih => simpa using Branch.whileLoop ht ho hd hp (ih hc)
  | forLoop ht ho hi hd hs hn hp _ ih => simpa using Branch.forLoop ht ho hi hd hs hn hp (ih hc)

/-- With its semicolon the statement can be read. -/
theorem Unended.ended {p : Phrase} {w : List Token} {i j : NodeId} {cause : Cause}
    {goesOn : Token.Kind → Bool} (h : Unended p w i j cause goesOn) {semicolon : Token}
    (hs : semicolon.kind = .semicolon) :
    ∃ s, Reads .declared (w ++ [semicolon]) i s j ∧ s.dangling = false := by
  cases h with
  | expression h => exact ⟨_, .statementDeclared (.statementPlain (.expressionStatement h hs)), rfl⟩
  | print ht h => exact ⟨_, .statementDeclared (.statementPrint ht (.printStatement h hs)), rfl⟩
  | ret ht h =>
      exact ⟨_, .statementDeclared (.statementReturn ht
        (.returnStatement (.someExpression h) hs)), rfl⟩
  | bareRet ht =>
      exact ⟨_, .statementDeclared (.statementReturn ht
        (Reads.returnStatement (w := []) .noExpression hs)), rfl⟩
  | var ht hname hequals h => exact ⟨_, .varDeclared ht (.varValue hname hequals h hs), rfl⟩
  | bareVar ht hname => exact ⟨_, .varDeclared ht (.varBare hname hs), rfl⟩

/-- `Broken b s i j cause goesOn` says that `s` is a statement less its semicolon, and `b` what
stands before it in its declaration. The other parameters are as in `Unended`. -/
inductive Broken : List Token → List Token → NodeId → NodeId → Cause → (Token.Kind → Bool) → Prop
  | inBranch {b s : List Token} {i j k : NodeId} {cause : Cause} {goesOn : Token.Kind → Bool}
      (hb : Branch b i j) (hs : Unended .statement s j k cause goesOn) : Broken b s i k cause goesOn
  | var {s : List Token} {i j : NodeId} {cause : Cause} {goesOn : Token.Kind → Bool}
      (hs : Unended .declared s i j cause goesOn) : Broken [] s i j cause goesOn

/-- What remains of a list of declarations behind one that lacks its semicolon: either it is
followed by an `else`, or by more declarations. -/
def Remains (r : List Token) : Prop :=
  Ahead (· = .kwElse) r = true ∨ Found (.declarations true) r

/-! ## Cutting in a statement -/

/-- Where the semicolon that ends a statement is in another statement. -/
inductive StatementCut : List Token → List Token → NodeId → Prop
  | own {b s v : List Token} {i j k : NodeId} {cause : Cause} {goesOn : Token.Kind → Bool}
      (hb : Branch b i j) (hs : Unended .statement s j k cause goesOn)
      (hv : v = [] ∨ Ahead (· = .kwElse) v = true) : StatementCut (b ++ s) v i
  | inner {inner : Bool} {c u b s r z : List Token} {brace : Token} {i j k l : NodeId}
      {cause : Cause} {goesOn : Token.Kind → Bool} (hc : Branch c i j)
      (ht : brace.kind = .leftBrace) (hu : Way true inner u j k)
      (hs : Broken b s k l cause goesOn) (hr : Remains r)
      (hz : Ahead (· = .rightBrace) z = true)
      (hfound : ∀ y, Found (.declarations true) y →
        Found .statement (c ++ brace :: (u ++ (y ++ z)))) :
      StatementCut (c ++ brace :: (u ++ (b ++ s))) (r ++ z) i

/-- The statement is part of another one, of which a branch is before it, and behind it nothing or
another branch. -/
theorem StatementCut.within {b x v r : List Token} {i j : NodeId} (h : StatementCut x v j)
    (hb : Branch b i j) (hr : r = [] ∨ Ahead (· = .kwElse) r = true)
    (hfound : ∀ w, Found .statement w → Found .statement (b ++ (w ++ r))) :
    StatementCut (b ++ x) (v ++ r) i := by
  cases h with
  | own hc hs hv =>
      rw [← List.append_assoc]
      refine .own (hb.trans hc) hs ?_
      rcases hv with rfl | hv
      · exact hr
      · exact .inr (ahead_append hv r)
  | inner hc ht hu hs hremains hz hfill =>
      rw [← List.append_assoc, List.append_assoc _ _ r]
      refine .inner (hb.trans hc) ht hu hs hremains (ahead_append hz r) fun y hy => ?_
      have hy := hfound _ (hfill y hy)
      simpa only [List.append_assoc, List.cons_append] using hy

theorem StatementCut.under {b x v : List Token} {i j : NodeId} (h : StatementCut x v j)
    (hb : Branch b i j) : StatementCut (b ++ x) v i := by
  have hcut := h.within (r := []) hb (.inl rfl) fun w hw => hb.found (by rwa [List.append_nil])
  rwa [List.append_nil] at hcut

/-- The statement is the first branch of a conditional with two. -/
theorem StatementCut.inThen {t opening closing keyword : Token} {u w x v : List Token}
    {condition : Expr} {i j : NodeId} (h : StatementCut x v j) (ht : t.kind = .kwIf)
    (ho : opening.kind = .leftParen) (hd : Reads .expression u i condition j)
    (hc : closing.kind = .rightParen) (hk : keyword.kind = .kwElse) (hw : Found .statement w) :
    StatementCut (t :: opening :: (u ++ closing :: x)) (v ++ keyword :: w) i := by
  have hbranch : Branch (t :: opening :: (u ++ [closing])) i j := .ifThen ht ho hd hc .here
  have hcut := h.within hbranch (r := keyword :: w) (.inr (ahead_kind hk rfl)) fun v hv i' => by
    obtain ⟨s, k, hif⟩ := found_ifElse ho hd.found hc hv hk hw i'
    exact ⟨s, k, (Reads.statementIf ht hif).of_eq (by simp)⟩
  simpa using hcut

/-! ## Cutting in a declaration -/

/-- Where the semicolon that ends a statement is in a declaration. -/
inductive DeclaredCut : List Token → List Token → NodeId → Prop
  | own {b s v : List Token} {i j : NodeId} {cause : Cause} {goesOn : Token.Kind → Bool}
      (hs : Broken b s i j cause goesOn) (hv : v = [] ∨ Ahead (· = .kwElse) v = true) :
      DeclaredCut (b ++ s) v i
  | inner {inner : Bool} {u b s r z : List Token} {i j k : NodeId} {cause : Cause}
      {goesOn : Token.Kind → Bool} (hu : ∀ inBlock, Way inBlock inner u i j)
      (hs : Broken b s j k cause goesOn) (hr : Remains r)
      (hz : Ahead (· = .rightBrace) z = true)
      (hfound : ∀ y, Found (.declarations true) y → Found .declared (u ++ (y ++ z))) :
      DeclaredCut (u ++ (b ++ s)) (r ++ z) i

theorem StatementCut.declared {x v : List Token} {i : NodeId} (h : StatementCut x v i) :
    DeclaredCut x v i := by
  cases h with
  | own hb hs hv => exact .own (.inBranch hb hs) hv
  | inner hc ht hu hs hr hz hfound =>
      rw [← List.cons_append, ← List.append_assoc]
      refine .inner (fun inBlock => .block hc ht hu) hs hr hz fun y hy => ?_
      intro i'
      obtain ⟨a, m, ha⟩ := hfound y hy i'
      exact ⟨a, m, (Reads.statementDeclared ha).of_eq (by simp)⟩

/-! ## Cutting in a list of declarations -/

/-- Where the semicolon that ends a statement is in a list of declarations. -/
inductive Cut (inBlock : Bool) : List Token → List Token → NodeId → Prop
  | intro {inner : Bool} {u b s r z : List Token} {i j k : NodeId} {cause : Cause}
      {goesOn : Token.Kind → Bool} (hu : Way inBlock inner u i j)
      (hs : Broken b s j k cause goesOn) (hr : Remains r)
      (hz : z = [] ∨ Ahead (· = .rightBrace) z = true)
      (hfound : ∀ y, Found (.declarations true) y → Found (.declarations inBlock) (u ++ (y ++ z))) :
      Cut inBlock (u ++ (b ++ s)) (r ++ z) i

/-- The same declarations are read in a block and outside. -/
theorem Reads.inAnyBlock {inBlock : Bool} {w : List Token} {i j : NodeId} {body : List Stmt}
    (h : Reads (.declarations inBlock) w i body j) (inBlock' : Bool) :
    Reads (.declarations inBlock') w i body j := by
  induction body generalizing w i with
  | nil =>
      cases h with
      | declarationsEnd => exact .declarationsEnd
  | cons s body ih =>
      cases h with
      | declarationsMore hs hr => exact .declarationsMore hs (ih hr)

theorem found_declarations_any {inBlock : Bool} (inBlock' : Bool) {w : List Token}
    (h : Found (.declarations inBlock) w) : Found (.declarations inBlock') w := fun i =>
  let ⟨body, j, hbody⟩ := h i
  ⟨body, j, hbody.inAnyBlock inBlock'⟩

theorem found_declarations_cons {inBlock : Bool} {u w : List Token} (hu : Found .declared u)
    (hw : Found (.declarations inBlock) w) : Found (.declarations inBlock) (u ++ w) := by
  intro i
  obtain ⟨s, j, hs⟩ := hu i
  obtain ⟨body, k, hbody⟩ := hw j
  exact ⟨s :: body, k, .declarationsMore (.declaration hs) hbody⟩

/-- The declaration is one of a list. -/
theorem DeclaredCut.among {x v w : List Token} {i : NodeId} (inBlock : Bool)
    (h : DeclaredCut x v i) (hw : Found (.declarations true) w) : Cut inBlock x (v ++ w) i := by
  cases h with
  | own hs hv =>
      have hr : Remains (v ++ w) := by
        rcases hv with rfl | hv
        · exact .inr hw
        · exact .inl (ahead_append hv w)
      have hhere : Way inBlock inBlock [] i i := .here
      have hcut := Cut.intro (z := []) hhere hs hr (.inl rfl) fun y hy => by
        rw [List.append_nil]
        exact found_declarations_any inBlock hy
      rwa [List.append_nil] at hcut
  | inner hu hs hr hz hfound =>
      rw [List.append_assoc]
      refine .intro (hu inBlock) hs hr (.inr (ahead_append hz w)) fun y hy => ?_
      have hcons := found_declarations_cons (hfound y hy) (found_declarations_any inBlock hw)
      simpa only [List.append_assoc] using hcons

/-- The declaration comes after another one. -/
theorem Cut.after {inBlock : Bool} {x v w : List Token} {s : Stmt} {i j : NodeId}
    (h : Cut inBlock x v j) (hs : Reads .declaration w i (some s) j) :
    Cut inBlock (w ++ x) v i := by
  cases h with
  | intro hu hb hr hz hfound =>
      rw [← List.append_assoc]
      refine .intro (.after hs hu) hb hr hz fun y hy => ?_
      rw [List.append_assoc]
      cases hs with
      | declaration hs => exact found_declarations_cons hs.found (hfound y hy)

/-- The declarations are those of a block. -/
theorem Cut.inBraces {opening closing : Token} {x v : List Token} {i : NodeId}
    (h : Cut true x v i) (ho : opening.kind = .leftBrace) (hc : closing.kind = .rightBrace) :
    StatementCut (opening :: x) (v ++ [closing]) i := by
  cases h with
  | intro hu hs hr hz hfound =>
      rw [List.append_assoc]
      refine .inner .here ho hu hs hr ?_ fun y hy i' => ?_
      · rcases hz with rfl | hz
        · exact ahead_kind hc rfl
        · exact ahead_append hz _
      · obtain ⟨body, k, hbody⟩ := hfound y hy i'
        exact ⟨_, k, (Reads.statementBlock ho (.block hbody hc)).of_eq (by simp)⟩

theorem found_function {name opening closing brace : Token} {u v : List Token} {i j : NodeId}
    (hn : name.kind = .identifier) (ho : opening.kind = .leftParen) (hp : Params u i j)
    (hc : closing.kind = .rightParen) (hb : brace.kind = .leftBrace) (hv : Found .block v) :
    Found .function (name :: opening :: (u ++ closing :: brace :: v)) := by
  intro i'
  rcases hp with ⟨rfl, -⟩ | ⟨params, hp⟩
  · obtain ⟨body, k, hv⟩ := hv i'
    exact ⟨_, k, .functionBare hn ho hc hb hv⟩
  · obtain ⟨params, k, hp⟩ := hp.found i'
    obtain ⟨body, l, hv⟩ := hv k
    exact ⟨_, l, .functionParams hn ho hp hc hb hv⟩

/-- The declarations are the body of a function. -/
theorem Cut.inFunction {t name opening closing brace last : Token} {w x v : List Token}
    {i j : NodeId} (h : Cut true x v j) (ht : t.kind = .kwFun) (hn : name.kind = .identifier)
    (ho : opening.kind = .leftParen) (hp : Params w i j) (hc : closing.kind = .rightParen)
    (hb : brace.kind = .leftBrace) (hl : last.kind = .rightBrace) :
    DeclaredCut (t :: name :: opening :: (w ++ closing :: brace :: x)) (v ++ [last]) i := by
  cases h with
  | @intro inner u b s r z _ k l cause goesOn hu hs hr hz hfound =>
      have hcut : DeclaredCut ((t :: name :: opening :: (w ++ closing :: brace :: u)) ++ (b ++ s))
          (r ++ (z ++ [last])) i := by
        refine .inner (fun _ => .function ht hn ho hp hc hb hu) hs hr ?_ fun y hy i' => ?_
        · rcases hz with rfl | hz
          · exact ahead_kind hl rfl
          · exact ahead_append hz _
        · have hbody : Found .block ((u ++ (y ++ z)) ++ [last]) := fun i' =>
            let ⟨body, k, hbody⟩ := hfound y hy i'
            ⟨body, k, .block hbody hl⟩
          obtain ⟨a, m, ha⟩ := found_function hn ho hp hc hb hbody i'
          exact ⟨a, m, (Reads.functionDeclared ht ha).of_eq (by simp)⟩
      simpa only [List.cons_append, List.append_assoc] using hcut

/-! ## Cutting anywhere -/

/-- Where the semicolon that ends a statement is in a phrase, whose first word is put in front of
it. -/
def Phrase.CutAt : Phrase → List Token → List Token → NodeId → Prop
  | .expressionStatement, x, v, i | .statement, x, v, i => StatementCut x v i
  | .printStatement, x, v, i => ∀ t : Token, t.kind = .kwPrint → StatementCut (t :: x) v i
  | .returnStatement t, x, v, i => t.kind = .kwReturn → StatementCut (t :: x) v i
  | .ifStatement, x, v, i => ∀ t : Token, t.kind = .kwIf → StatementCut (t :: x) v i
  | .whileStatement, x, v, i => ∀ t : Token, t.kind = .kwWhile → StatementCut (t :: x) v i
  | .forStatement, x, v, i => ∀ t : Token, t.kind = .kwFor → StatementCut (t :: x) v i
  | .block, x, v, i =>
      ∃ r closing, v = r ++ [closing] ∧ closing.kind = .rightBrace ∧ Cut true x r i
  | .varDeclaration, x, v, i => ∀ t : Token, t.kind = .kwVar → DeclaredCut (t :: x) v i
  | .function, x, v, i => ∀ t : Token, t.kind = .kwFun → DeclaredCut (t :: x) v i
  | .declared, x, v, i | .declaration, x, v, i => DeclaredCut x v i
  | .declarations inBlock, x, v, i => Cut inBlock x v i
  | _, _, _, _ => True

section Heads

variable {opening closing semicolon : Token} {u w x r : List Token} {i j : NodeId}
  (ho : opening.kind = .leftParen) (hc : closing.kind = .rightParen)
  (hs : semicolon.kind = .semicolon)
include ho hc hs

/-- The cut is behind the condition. -/
theorem cut_condition {condition : Expr} (hd : Reads .expression u i condition j)
    (h : opening :: (u ++ closing :: w) = x ++ semicolon :: r) (hx : openParens x = 0) :
    ∃ y, x = opening :: (u ++ closing :: y) ∧ w = y ++ semicolon :: r ∧ openParens y = 0 := by
  obtain ⟨y, rfl, h₁⟩ := cut_cons (by rw [ho]; nofun) hs h
  obtain ⟨y, rfl, h₂⟩ := cut_behind (no_semicolon_of_expression hd) hs h₁
  obtain ⟨y, rfl, h₃⟩ := cut_cons (by rw [hc]; nofun) hs h₂
  refine ⟨y, rfl, h₃, ?_⟩
  simp only [openParens_cons, openParens_append, ho, hc, opens, hd.openParens_eq_zero] at hx
  omega

omit ho hc in
/-- In the first clause of a loop the only semicolon is the last token. -/
theorem cut_forInitializer {initializer : Option Stmt}
    (hi : Reads .forInitializer u i initializer j) (h : u = x ++ semicolon :: r) : r = [] := by
  cases hi with
  | noInitializer => exact (cut_last (w := []) (List.forall_mem_nil _) hs h).2
  | varInitializer ht hi =>
      cases hi with
      | @varBare name _ _ hname =>
          have hall : ∀ t ∈ [_, name], t.kind ≠ .semicolon :=
            List.forall_mem_cons.mpr ⟨by rw [ht]; nofun,
              List.forall_mem_singleton.mpr (by rw [hname]; nofun)⟩
          exact (cut_last hall hs h).2
      | @varValue name equals _ w _ _ _ hname hequals hv =>
          have hall : ∀ t ∈ _ :: name :: equals :: w, t.kind ≠ .semicolon :=
            List.forall_mem_cons.mpr ⟨by rw [ht]; nofun, List.forall_mem_cons.mpr
              ⟨by rw [hname]; nofun, List.forall_mem_cons.mpr ⟨by rw [hequals]; nofun,
                no_semicolon_of_expression hv⟩⟩⟩
          exact (cut_last hall hs h).2
  | valueInitializer hi =>
      cases hi with
      | expressionStatement hv => exact (cut_last (no_semicolon_of_expression hv) hs h).2

/-- The cut is behind the clauses: before the semicolons in them a parenthesis is open. -/
theorem cut_clauses {v z : List Token} {semicolon' : Token} {initializer : Option Stmt}
    {condition increment : Option Expr} {k l : NodeId}
    (hi : Reads .forInitializer u i initializer j)
    (hd : Reads (.expressionUnless .semicolon) v j condition k)
    (hs' : semicolon'.kind = .semicolon)
    (hn : Reads (.expressionUnless .rightParen) w k increment l)
    (h : opening :: (u ++ (v ++ semicolon' :: (w ++ closing :: z))) = x ++ semicolon :: r)
    (hx : openParens x = 0) :
    ∃ y, x = opening :: (u ++ (v ++ semicolon' :: (w ++ closing :: y))) ∧
      z = y ++ semicolon :: r ∧ openParens y = 0 := by
  obtain ⟨y, rfl, h₁⟩ := cut_cons (by rw [ho]; nofun) hs h
  rcases cut_append h₁ with ⟨r', rfl, -⟩ | ⟨y, rfl, h₂⟩
  · obtain rfl := cut_forInitializer hs hi rfl
    have hu := hi.openParens_eq_zero
    simp [ho, hs, opens] at hx hu
    omega
  · obtain ⟨y, rfl, h₃⟩ := cut_behind (no_semicolon_of_expressionUnless hd) hs h₂
    cases y with
    | nil => simp [ho, opens, hi.openParens_eq_zero, hd.openParens_eq_zero] at hx
    | cons t y =>
        obtain ⟨rfl, h₄⟩ := List.cons.inj h₃
        obtain ⟨y, rfl, h₅⟩ := cut_behind (no_semicolon_of_expressionUnless hn) hs h₄
        obtain ⟨y, rfl, h₆⟩ := cut_cons (by rw [hc]; nofun) hs h₅
        refine ⟨y, rfl, h₆, ?_⟩
        simp only [openParens_cons, openParens_append, ho, hc, hs', opens, hi.openParens_eq_zero,
          hd.openParens_eq_zero, hn.openParens_eq_zero] at hx
        omega

/-- The cut is in the body of a function. -/
theorem cut_function {name brace : Token} (hname : name.kind = .identifier)
    (hb : brace.kind = .leftBrace) (hp : Params u i j)
    (h : name :: opening :: (u ++ closing :: brace :: w) = x ++ semicolon :: r)
    (hx : openParens x = 0) :
    ∃ y, x = name :: opening :: (u ++ closing :: brace :: y) ∧ w = y ++ semicolon :: r ∧
      openParens y = 0 := by
  obtain ⟨y, rfl, h₁⟩ := cut_cons (by rw [hname]; nofun) hs h
  obtain ⟨y, rfl, h₂⟩ := cut_cons (by rw [ho]; nofun) hs h₁
  obtain ⟨y, rfl, h₃⟩ := cut_behind hp.no_semicolon hs h₂
  obtain ⟨y, rfl, h₄⟩ := cut_cons (by rw [hc]; nofun) hs h₃
  obtain ⟨y, rfl, h₅⟩ := cut_cons (by rw [hb]; nofun) hs h₄
  refine ⟨y, rfl, h₅, ?_⟩
  simp only [openParens_cons, openParens_append, hname, ho, hc, hb, opens,
    hp.openParens_eq_zero] at hx
  omega

end Heads

/-- A semicolon with all parentheses closed before it ends a statement. -/
theorem Reads.cut {semicolon : Token} (hs : semicolon.kind = .semicolon) {p : Phrase}
    {w : List Token} {i j : NodeId} {a : p.Tree} (h : Reads p w i a j) :
    ∀ {x v}, w = x ++ semicolon :: v → openParens x = 0 → p.CutAt x v i := by
  induction h with
  | expressionStatement h =>
      intro x v hw _
      obtain ⟨rfl, rfl⟩ := cut_last (no_semicolon_of_expression h) hs hw
      exact .own .here (.expression h) (.inl rfl)
  | printStatement h =>
      intro x v hw _ t ht
      obtain ⟨rfl, rfl⟩ := cut_last (no_semicolon_of_expression h) hs hw
      exact .own .here (.print ht h) (.inl rfl)
  | returnStatement h =>
      intro x v hw _ ht
      obtain ⟨rfl, rfl⟩ := cut_last (no_semicolon_of_expressionUnless h) hs hw
      cases h with
      | noExpression => exact .own .here (.bareRet ht) (.inl rfl)
      | someExpression h => exact .own .here (.ret ht h) (.inl rfl)
  | @varBare name _ _ hname =>
      intro x v hw _ t ht
      have hall : ∀ t ∈ [name], t.kind ≠ .semicolon :=
        List.forall_mem_singleton.mpr (by rw [hname]; nofun)
      obtain ⟨rfl, rfl⟩ := cut_last hall hs hw
      exact .own (.var (.bareVar ht hname)) (.inl rfl)
  | @varValue name equals _ w _ _ _ hname hequals h =>
      intro x v hw _ t ht
      have hall : ∀ t ∈ name :: equals :: w, t.kind ≠ .semicolon :=
        List.forall_mem_cons.mpr ⟨by rw [hname]; nofun, List.forall_mem_cons.mpr
          ⟨by rw [hequals]; nofun, no_semicolon_of_expression h⟩⟩
      obtain ⟨rfl, rfl⟩ := cut_last hall hs hw
      exact .own (.var (.var ht hname hequals h)) (.inl rfl)
  | statementPlain _ ih => exact ih
  | statementPrint ht _ ih | statementIf ht _ ih | statementWhile ht _ ih | statementFor ht _ ih
  | functionDeclared ht _ ih | varDeclared ht _ ih =>
      intro x v hw hx
      obtain ⟨y, rfl, hy⟩ := cut_cons (by rw [ht]; nofun) hs hw
      rw [openParens_cons, ht] at hx
      exact ih hy ((Int.zero_add _).symm.trans hx) _ ht
  | statementReturn ht _ ih =>
      intro x v hw hx
      obtain ⟨y, rfl, hy⟩ := cut_cons (by rw [ht]; nofun) hs hw
      rw [openParens_cons, ht] at hx
      exact ih hy ((Int.zero_add _).symm.trans hx) ht
  | statementBlock ht _ ih =>
      intro x v hw hx
      obtain ⟨y, rfl, hy⟩ := cut_cons (by rw [ht]; nofun) hs hw
      rw [openParens_cons, ht] at hx
      obtain ⟨r, closing, rfl, hc, hcut⟩ := ih hy ((Int.zero_add _).symm.trans hx)
      exact hcut.inBraces ht hc
  | statementDeclared _ ih =>
      intro x v hw hx
      exact (ih hw hx).declared
  | declaration _ ih => exact ih
  | whileStatement ho hd hc _ _ ih =>
      intro x v hw hx t ht
      obtain ⟨y, rfl, hy, hopen⟩ := cut_condition ho hc hs hd hw hx
      simpa using StatementCut.under (ih hy hopen) (.whileLoop ht ho hd hc .here)
  | forStatement ho hi hd hs' hn hc _ _ _ _ ih =>
      intro x v hw hx t ht
      obtain ⟨y, rfl, hy, hopen⟩ := cut_clauses ho hc hs hi hd hs' hn hw hx
      simpa using StatementCut.under (ih hy hopen) (.forLoop ht ho hi hd hs' hn hc .here)
  | ifBare ho hd hc _ _ ih =>
      intro x v hw hx t ht
      obtain ⟨y, rfl, hy, hopen⟩ := cut_condition ho hc hs hd hw hx
      simpa using StatementCut.under (ih hy hopen) (.ifThen ht ho hd hc .here)
  | ifElse ho hd hc hv hn hk helse _ ihv ihw =>
      intro x v hw hx t ht
      obtain ⟨y, rfl, hy, hopen⟩ := cut_condition ho hc hs hd hw hx
      rcases cut_append hy with ⟨r, hr, rfl⟩ | ⟨z, rfl, hz⟩
      · exact (ihv hr hopen).inThen ht ho hd hc hk helse.found
      · obtain ⟨y, rfl, hy'⟩ := cut_cons (by rw [hk]; nofun) hs hz
        have hopen : openParens y = 0 := by
          simpa [hk, opens, hv.openParens_eq_zero] using hopen
        simpa using StatementCut.under (ihw hy' hopen) (.ifElse ht ho hd hc hv hn hk .here)
  | block _ hb ih =>
      intro x v hw hx
      rcases cut_append hw with ⟨r, hr, rfl⟩ | ⟨y, -, hy⟩
      · exact ⟨r, _, rfl, hb, ih hr hx⟩
      · obtain ⟨z, -, hz⟩ := cut_cons (by rw [hb]; nofun) hs hy
        exact absurd hz (by simp)
  | @functionBare name opening closing brace w _ k _ hn ho hc hb _ ih =>
      intro x v hw hx t ht
      have hp : Params [] k k := .inl ⟨rfl, rfl⟩
      obtain ⟨y, rfl, hy, hopen⟩ := cut_function ho hc hs hn hb hp hw hx
      obtain ⟨r, last, rfl, hl, hcut⟩ := ih hy hopen
      exact hcut.inFunction ht hn ho hp hc hb hl
  | functionParams hn ho hp hc hb _ _ ih =>
      intro x v hw hx t ht
      obtain ⟨y, rfl, hy, hopen⟩ := cut_function ho hc hs hn hb (.inr ⟨_, hp⟩) hw hx
      obtain ⟨r, last, rfl, hl, hcut⟩ := ih hy hopen
      exact hcut.inFunction ht hn ho (.inr ⟨_, hp⟩) hc hb hl
  | declarationsEnd => exact fun hw => absurd hw (by simp)
  | declarationsMore hs hr ihs ihr =>
      intro x v hw hx
      rcases cut_append hw with ⟨r, hu, rfl⟩ | ⟨y, rfl, hw'⟩
      · exact (ihs hu hx).among _ (found_declarations_any _ hr.found)
      · refine Cut.after (ihr hw' ?_) hs
        rwa [openParens_append, hs.openParens_eq_zero, Int.zero_add] at hx
  | _ => exact fun _ _ => trivial

theorem Unended.openParens_eq_zero {p : Phrase} {s : List Token} {i j : NodeId} {cause : Cause}
    {goesOn : Token.Kind → Bool} (h : Unended p s i j cause goesOn) : openParens s = 0 := by
  cases h with
  | expression h => exact h.openParens_eq_zero
  | print ht h | ret ht h => simp [opens, ht, h.openParens_eq_zero]
  | bareRet ht => simp [opens, ht]
  | var ht hname hequals h => simp [opens, ht, hname, hequals, h.openParens_eq_zero]
  | bareVar ht hname => simp [opens, ht, hname]

theorem Branch.openParens_eq_zero {b : List Token} {i j : NodeId} (h : Branch b i j) :
    openParens b = 0 := by
  induction h with
  | here => rfl
  | ifThen ht ho hd hc _ ih | whileLoop ht ho hd hc _ ih =>
      simp [opens, ht, ho, hc, hd.openParens_eq_zero, ih]
  | ifElse ht ho hd hc hv _ hk _ ih =>
      simp [opens, ht, ho, hc, hk, hd.openParens_eq_zero, hv.openParens_eq_zero, ih]
  | forLoop ht ho hi hd hs hn hc _ ih =>
      simp [opens, ht, ho, hs, hc, hi.openParens_eq_zero, hd.openParens_eq_zero,
        hn.openParens_eq_zero, ih]

theorem Way.openParens_eq_zero {outer inner : Bool} {u : List Token} {i j : NodeId}
    (h : Way outer inner u i j) : openParens u = 0 := by
  induction h with
  | here => rfl
  | after hs _ ih => simp [hs.openParens_eq_zero, ih]
  | block hb ht _ ih => simp [opens, ht, hb.openParens_eq_zero, ih]
  | function ht hn ho hp hc hb _ ih =>
      simp [opens, ht, hn, ho, hc, hb, hp.openParens_eq_zero, ih]

theorem Broken.openParens_eq_zero {b s : List Token} {i j : NodeId} {cause : Cause}
    {goesOn : Token.Kind → Bool} (h : Broken b s i j cause goesOn) : openParens (b ++ s) = 0 := by
  cases h with
  | inBranch hb hs => simp [hb.openParens_eq_zero, hs.openParens_eq_zero]
  | var hs => exact hs.openParens_eq_zero

/-- In a list of declarations a semicolon ends an expression, a `print`, a `return` or a variable
declaration just if all parentheses are closed before it: all others are between the parentheses of
a loop. -/
theorem Reads.ends_statement_iff {semicolon : Token} (hs : semicolon.kind = .semicolon)
    {inBlock : Bool} {x v : List Token} {i j : NodeId} {body : List Stmt}
    (h : Reads (.declarations inBlock) (x ++ semicolon :: v) i body j) :
    openParens x = 0 ↔ ∃ inner u b s k l cause goesOn, x = u ++ (b ++ s) ∧
      Way inBlock inner u i k ∧ Broken b s k l cause goesOn := by
  constructor
  · intro hx
    have hcut : Cut inBlock x v i := h.cut hs rfl hx
    cases hcut with
    | intro hu hb => exact ⟨_, _, _, _, _, _, _, _, rfl, hu, hb⟩
  · rintro ⟨inner, u, b, s, k, l, cause, goesOn, rfl, hu, hb⟩
    rw [openParens_append, hu.openParens_eq_zero, hb.openParens_eq_zero, Int.zero_add]

end Lox.Parse
