import Lox.Proofs.Scoping.Places

/-!
# What a program says of names

Read from the front, a program says one thing after the other: it declares a name, reads
or writes a variable, returns. Each of these stands in a setting, the blocks and the
functions around it. A variable is declared before its initializer, a function before its
parameters and these before its body; the value of an assignment comes before the
variable that it is written to.

This order and these settings are all that lexical scoping is about. What a scope
declares at some point is what stands before it with that scope as the innermost one.
-/

namespace Lox

open Binding

/-- What is said of a name, or that a function is left. -/
inductive Mention
  | declare (name : Token)
  | read (id : NodeId) (name : Token)
  | write (id : NodeId) (name : Token)
  | ret (keyword : Token)

/-- The node that names a variable, with the name. -/
def Mention.use? : Mention → Option (NodeId × Token)
  | read id name | write id name => some (id, name)
  | declare _ | ret _ => none

/-- What stands around something in a program. -/
structure Setting where
  /-- The places of the blocks and functions around it, the innermost first. -/
  scopes : List Place
  inFunction : Bool
  /-- The name of the variable in whose initializer it stands. -/
  initializing : Option String

namespace Setting

/-- The top level is no scope. -/
def top : Setting := ⟨[], false, none⟩

/-- Inside a block. -/
def inBlock (a : Setting) (here : Place) : Setting := { a with scopes := here :: a.scopes }

/-- Inside a function, where its parameters stand with its body. -/
def inCall (a : Setting) (here : Place) : Setting :=
  { a with scopes := here :: a.scopes, inFunction := true }

/-- Inside the initializer of a variable. -/
def inInitializer (a : Setting) (name : Token) : Setting :=
  { a with initializing := some name.lexeme }

end Setting

structure Occurrence where
  mention : Mention
  setting : Setting

/-- Mentions in one setting. -/
def Setting.occurrences (a : Setting) (mentions : List Mention) : List Occurrence :=
  mentions.map (⟨·, a⟩)

/-! ## The occurrences in a tree -/

mutual

/-- What an expression says, in the order in which it is evaluated. -/
def Expr.mentions : Expr → List Mention
  | .literal _ => []
  | .group inner => inner.mentions
  | .unary _ operand => operand.mentions
  | .binary left _ right | .logical left _ right => left.mentions ++ right.mentions
  | .variable id name => [.read id name]
  | .assign id name value => value.mentions ++ [.write id name]
  | .call callee _ arguments => callee.mentions ++ Expr.mentionsAll arguments

def Expr.mentionsAll : List Expr → List Mention
  | [] => []
  | e :: rest => e.mentions ++ Expr.mentionsAll rest

end

def Expr.mentionsOptional : Option Expr → List Mention
  | none => []
  | some e => e.mentions

mutual

/-- What a statement that stands at a place in a setting says. -/
def Stmt.occurrences (here : Place) (a : Setting) : Stmt → List Occurrence
  | .expression value | .print value => a.occurrences value.mentions
  | .var name initializer =>
    ⟨.declare name, a⟩ :: (a.inInitializer name).occurrences (Expr.mentionsOptional initializer)
  | .block body => Stmt.occurrencesAll here 0 (a.inBlock here) body
  | .ifThen condition thenBranch elseBranch =>
    a.occurrences condition.mentions ++ (thenBranch.occurrences (0 :: here) a ++
      Stmt.occurrencesOptional (1 :: here) a elseBranch)
  | .whileLoop condition body =>
    a.occurrences condition.mentions ++ body.occurrences (0 :: here) a
  | .forLoop none condition increment body =>
    a.occurrences (Expr.mentionsOptional condition) ++ (body.occurrences (0 :: here) a ++
      a.occurrences (Expr.mentionsOptional increment))
  | .forLoop (some initializer) condition increment body =>
    initializer.occurrences (0 :: here) (a.inBlock here) ++
      ((a.inBlock here).occurrences (Expr.mentionsOptional condition) ++
        (body.occurrences (1 :: here) (a.inBlock here) ++
          (a.inBlock here).occurrences (Expr.mentionsOptional increment)))
  | .function name params body =>
    ⟨.declare name, a⟩ :: ((a.inCall here).occurrences (params.map .declare) ++
      Stmt.occurrencesAll here 0 (a.inCall here) body)
  | .ret keyword value =>
    ⟨.ret keyword, a⟩ :: a.occurrences (Expr.mentionsOptional value)

/-- What statements that stand one behind the other say, so many statements before them. -/
def Stmt.occurrencesAll (here : Place) (k : Nat) (a : Setting) : List Stmt → List Occurrence
  | [] => []
  | s :: rest => s.occurrences (k :: here) a ++ Stmt.occurrencesAll here (k + 1) a rest

def Stmt.occurrencesOptional (here : Place) (a : Setting) : Option Stmt → List Occurrence
  | none => []
  | some s => s.occurrences here a

end

/-- All that a program says, from the front. -/
def Stmt.chronology (program : List Stmt) : List Occurrence :=
  Stmt.occurrencesAll [] 0 .top program

/-! ## What is declared before an occurrence -/

/-- An occurrence declares a name in the scope at a place. -/
def Occurrence.declares (o : Occurrence) (place : Place) (name : String) : Bool :=
  match o.mention with
  | .declare token => token.lexeme == name && o.setting.scopes.head? == some place
  | _ => false

/-- The scope at a place has a declaration of the name among the occurrences. -/
def Occurrence.declared (before : List Occurrence) (place : Place) (name : String) : Bool :=
  before.any (·.declares place name)

/-- So many scopes out from a setting the name is declared before it. -/
def Setting.Finds (a : Setting) (before : List Occurrence) (name : String) (distance : Nat) :
    Prop :=
  ∃ place, a.scopes[distance]? = some place ∧ Occurrence.declared before place name = true

/-- What is wrong with an occurrence behind others: a name is declared again in the scope
around it, a local variable is read in its own initializer, or a return stands in no
function. -/
def Occurrence.fault? (before : List Occurrence) (o : Occurrence) : Option Fault :=
  match o.mention with
  | .declare name =>
    if ∃ place ∈ o.setting.scopes.head?, declared before place name.lexeme then
      some ⟨.alreadyDeclared, name⟩
    else
      none
  | .read _ name =>
    if o.setting.initializing = some name.lexeme ∧ o.setting.scopes ≠ [] then
      some ⟨.readInOwnInitializer, name⟩
    else
      none
  | .write _ _ => none
  | .ret keyword => if o.setting.inFunction then none else some ⟨.returnFromTopLevel, keyword⟩

/-- What there is to say of each of the occurrences, given those before it. -/
def Occurrence.inOrder {α : Type} (say : List Occurrence → Occurrence → Option α)
    (before : List Occurrence) : List Occurrence → List α
  | [] => []
  | o :: rest => (say before o).toList ++ inOrder say (before ++ [o]) rest

/-- The faults of a program, in the order in which it is read. -/
def Stmt.scopingFaults (program : List Stmt) : List Fault :=
  Occurrence.inOrder Occurrence.fault? [] (chronology program)

section Order

variable {α : Type} {say : List Occurrence → Occurrence → Option α} {before : List Occurrence}

theorem Occurrence.inOrder_append (os os' : List Occurrence) :
    inOrder say before (os ++ os') =
      inOrder say before os ++ inOrder say (before ++ os) os' := by
  induction os generalizing before with
  | nil => simp [inOrder]
  | cons o os ih => simp [inOrder, ih]

theorem Occurrence.inOrder_singleton (o : Occurrence) :
    inOrder say before [o] = (say before o).toList := by
  simp [inOrder]

end Order

/-! ## The scopes around the occurrences of a statement -/

/-- The innermost scope around each of the occurrences is one of these scopes, or it lies at
the place or further in. -/
def Occurrence.Inside (here : Place) (scopes : List Place) (os : List Occurrence) : Prop :=
  ∀ o ∈ os, ∀ place ∈ o.setting.scopes.head?, place ∈ scopes ∨ here <:+ place

namespace Occurrence.Inside

variable {here : Place} {scopes : List Place} {o : Occurrence} {os os' : List Occurrence}

theorem nil : Inside here scopes [] := fun _ h => by cases h

theorem cons (ho : o.setting.scopes = scopes) (h : Inside here scopes os) :
    Inside here scopes (o :: os) := by
  intro o' ho' place hp
  rcases List.mem_cons.mp ho' with rfl | ho'
  · exact .inl (ho ▸ List.mem_of_mem_head? hp)
  · exact h o' ho' place hp

theorem append (h : Inside here scopes os) (h' : Inside here scopes os') :
    Inside here scopes (os ++ os') :=
  fun o ho => (List.mem_append.mp ho).elim (h o) (h' o)

theorem mentions {a : Setting} (ha : a.scopes = scopes) (mentions : List Mention) :
    Inside here scopes (a.occurrences mentions) := by
  intro o ho place hp
  obtain ⟨mention, -, rfl⟩ := List.mem_map.mp ho
  exact .inl (ha ▸ List.mem_of_mem_head? hp)

/-- Out of a part of a statement. -/
theorem part {i : Nat} (h : Inside (i :: here) scopes os) : Inside here scopes os :=
  fun o ho place hp => (h o ho place hp).imp_right Place.step_back

/-- Out of a scope. -/
theorem leave (h : Inside here (here :: scopes) os) : Inside here scopes os := by
  intro o ho place hp
  rcases h o ho place hp with hmem | hin
  · rcases List.mem_cons.mp hmem with rfl | hmem
    · exact .inr (List.suffix_refl _)
    · exact .inl hmem
  · exact .inr hin

end Occurrence.Inside

mutual

theorem Stmt.occurrences_inside (s : Stmt) (here : Place) (a : Setting) :
    Occurrence.Inside here a.scopes (s.occurrences here a) := by
  match s with
  | .expression value | .print value => exact .mentions rfl _
  | .var name initializer => exact .cons rfl (.mentions rfl _)
  | .block body => exact (occurrencesAll_inside body here 0 (a.inBlock here)).leave
  | .ifThen condition thenBranch elseBranch =>
      exact .append (.mentions rfl _) (.append (occurrences_inside thenBranch _ a).part
        (occurrencesOptional_inside elseBranch _ a).part)
  | .whileLoop condition body =>
      exact .append (.mentions rfl _) (occurrences_inside body _ a).part
  | .forLoop none condition increment body =>
      exact .append (.mentions rfl _) (.append (occurrences_inside body _ a).part
        (.mentions rfl _))
  | .forLoop (some initializer) condition increment body =>
      exact (Occurrence.Inside.append (occurrences_inside initializer _ (a.inBlock here)).part
        (.append (.mentions rfl _) (.append (occurrences_inside body _ (a.inBlock here)).part
          (.mentions rfl _)))).leave
  | .function name params body =>
      exact .cons rfl (Occurrence.Inside.append (.mentions rfl _)
        (occurrencesAll_inside body here 0 (a.inCall here))).leave
  | .ret keyword value => exact .cons rfl (.mentions rfl _)

theorem Stmt.occurrencesAll_inside (body : List Stmt) (here : Place) (k : Nat) (a : Setting) :
    Occurrence.Inside here a.scopes (occurrencesAll here k a body) := by
  match body with
  | [] => exact .nil
  | s :: rest =>
      exact .append (occurrences_inside s _ a).part (occurrencesAll_inside rest here (k + 1) a)

theorem Stmt.occurrencesOptional_inside (o : Option Stmt) (here : Place) (a : Setting) :
    Occurrence.Inside here a.scopes (occurrencesOptional here a o) := by
  match o with
  | none => exact .nil
  | some s => exact occurrences_inside s here a

end

/-! ## The nodes that name variables -/

/-- The numbers of the nodes that name a variable. -/
def Mention.ids (mentions : List Mention) : List NodeId :=
  mentions.filterMap fun mention => mention.use?.map Prod.fst

def Occurrence.ids (os : List Occurrence) : List NodeId := Mention.ids (os.map mention)

theorem Mention.ids_append (mentions mentions' : List Mention) :
    ids (mentions ++ mentions') = ids mentions ++ ids mentions' :=
  List.filterMap_append ..

theorem Mention.ids_declare (names : List Token) : ids (names.map declare) = [] := by
  rw [ids, List.filterMap_map]
  exact List.filterMap_eq_nil_iff.mpr fun _ _ => rfl

theorem Occurrence.ids_append (os os' : List Occurrence) : ids (os ++ os') = ids os ++ ids os' := by
  rw [ids, List.map_append, Mention.ids_append]
  rfl

theorem Occurrence.ids_occurrences (a : Setting) (mentions : List Mention) :
    ids (a.occurrences mentions) = Mention.ids mentions := by
  rw [ids, Setting.occurrences, List.map_map]
  exact congrArg Mention.ids (List.map_id mentions)

mutual

theorem Expr.ids_mentions (e : Expr) : (Mention.ids e.mentions).Perm e.nodeIds := by
  match e with
  | .literal _ => exact .refl _
  | .group inner => exact ids_mentions inner
  | .unary _ operand => exact ids_mentions operand
  | .binary left _ right | .logical left _ right =>
      rw [mentions, Mention.ids_append]
      exact (ids_mentions left).append (ids_mentions right)
  | .variable id name => exact .refl _
  | .assign id name value =>
      rw [mentions, Mention.ids_append]
      exact ((ids_mentions value).append_right [id]).trans List.perm_append_comm
  | .call callee _ arguments =>
      rw [mentions, Mention.ids_append]
      exact (ids_mentions callee).append (ids_mentionsAll arguments)

theorem Expr.ids_mentionsAll (es : List Expr) :
    (Mention.ids (mentionsAll es)).Perm (nodeIdsAll es) := by
  match es with
  | [] => exact .refl _
  | e :: rest =>
      rw [mentionsAll, Mention.ids_append]
      exact (ids_mentions e).append (ids_mentionsAll rest)

end

/-- The nodes of an expression that stands in a setting. -/
theorem Expr.ids_occurrences (e : Expr) (a : Setting) :
    (Occurrence.ids (a.occurrences e.mentions)).Perm e.nodeIds :=
  Occurrence.ids_occurrences a _ ▸ e.ids_mentions

theorem Expr.ids_occurrencesOptional (o : Option Expr) (a : Setting) :
    (Occurrence.ids (a.occurrences (mentionsOptional o))).Perm (nodeIdsOptional o) := by
  cases o with
  | none => exact .refl _
  | some e => exact e.ids_occurrences a

mutual

/-- Each node that names a variable says so once. -/
theorem Stmt.ids_occurrences (s : Stmt) (here : Place) (a : Setting) :
    (Occurrence.ids (s.occurrences here a)).Perm s.nodeIds := by
  match s with
  | .expression value | .print value => exact value.ids_occurrences a
  | .var name initializer =>
      exact Expr.ids_occurrencesOptional initializer (a.inInitializer name)
  | .block body => exact ids_occurrencesAll body here 0 (a.inBlock here)
  | .ifThen condition thenBranch elseBranch =>
      rw [occurrences, Occurrence.ids_append, Occurrence.ids_append, ← List.append_assoc]
      exact ((condition.ids_occurrences a).append (ids_occurrences thenBranch _ a)).append
        (ids_occurrencesOptional elseBranch _ a)
  | .whileLoop condition body =>
      rw [occurrences, Occurrence.ids_append]
      exact (condition.ids_occurrences a).append (ids_occurrences body _ a)
  | .forLoop none condition increment body =>
      rw [occurrences, Occurrence.ids_append, Occurrence.ids_append, nodeIds, List.append_assoc]
      exact (Expr.ids_occurrencesOptional condition a).append
        (((ids_occurrences body _ a).append (Expr.ids_occurrencesOptional increment a)).trans
          List.perm_append_comm)
  | .forLoop (some initializer) condition increment body =>
      rw [occurrences, Occurrence.ids_append, Occurrence.ids_append, Occurrence.ids_append,
        nodeIds, List.append_assoc, List.append_assoc]
      exact (ids_occurrences initializer _ _).append
        ((Expr.ids_occurrencesOptional condition _).append
          (((ids_occurrences body _ _).append (Expr.ids_occurrencesOptional increment _)).trans
            List.perm_append_comm))
  | .function name params body =>
      show (Occurrence.ids (_ ++ _)).Perm _
      rw [Occurrence.ids_append, Occurrence.ids_occurrences, Mention.ids_declare]
      exact ids_occurrencesAll body here 0 (a.inCall here)
  | .ret keyword value => exact Expr.ids_occurrencesOptional value a

theorem Stmt.ids_occurrencesAll (body : List Stmt) (here : Place) (k : Nat) (a : Setting) :
    (Occurrence.ids (occurrencesAll here k a body)).Perm (nodeIdsAll body) := by
  match body with
  | [] => exact .refl _
  | s :: rest =>
      rw [occurrencesAll, Occurrence.ids_append]
      exact (ids_occurrences s _ a).append (ids_occurrencesAll rest here (k + 1) a)

theorem Stmt.ids_occurrencesOptional (o : Option Stmt) (here : Place) (a : Setting) :
    (Occurrence.ids (occurrencesOptional here a o)).Perm (nodeIdsOptional o) := by
  match o with
  | none => exact .refl _
  | some s => exact ids_occurrences s here a

end

theorem Stmt.ids_chronology (program : List Stmt) :
    (Occurrence.ids (chronology program)).Perm (nodeIdsAll program) :=
  ids_occurrencesAll program [] 0 .top

end Lox
