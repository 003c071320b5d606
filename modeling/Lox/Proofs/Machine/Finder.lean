import Lox.Machine.Exec
import Lox.Proofs.Machine.Run

/-!
# Running with another way to find variables

How the scope of a variable is found is the one thing in which an evaluator that looks
at recorded distances differs from one that walks the scopes by name. Here the rules of
evaluation are given once more with the way to find a scope as a parameter. With
`Machine.target?` they are the rules of the machine, as `programBy_target` says; with
`Machine.walk?` they are those of a machine that knows of no distances.
-/

namespace Lox

/-- A way to find the scope that holds the variable which a node names. -/
abbrev Finder := Machine → NodeId → Token → Option ScopeId

/-- The nearest scope that binds the name, from the current one outwards. -/
def Machine.walk? (m : Machine) (_ : NodeId) (name : Token) : Option ScopeId :=
  m.store.binder? m.current name.lexeme

namespace Run

variable (find : Finder)

def readBy (id : NodeId) (name : Token) : Run Value := do
  let m ← get
  match (find m id name).bind (m.store.lookup? · name.lexeme) with
  | some value => return value
  | none => fail (.undefinedVariable name.lexeme) name

def writeBy (id : NodeId) (name : Token) (value : Value) : Run Unit := do
  let m ← get
  match find m id name with
  | some scope => modify fun m => { m with store := m.store.define scope name.lexeme value }
  | none => fail (.undefinedVariable name.lexeme) name

mutual

def evaluateBy : Nat → Expr → Run Value
  | 0, _ => exhausted
  | _ + 1, .literal value => return value.value
  | n + 1, .group inner => evaluateBy n inner
  | n + 1, .unary operator operand => do
    let value ← evaluateBy n operand
    applyUnary operator value
  | n + 1, .binary left operator right => do
    let a ← evaluateBy n left
    let b ← evaluateBy n right
    applyBinary operator a b
  | n + 1, .logical left operator right => do
    let a ← evaluateBy n left
    if decidedBy operator a then return a
    else evaluateBy n right
  | _ + 1, .variable id name => readBy find id name
  | n + 1, .assign id name value => do
    let value ← evaluateBy n value
    writeBy find id name value
    return value
  | n + 1, .call callee paren arguments => do
    let callee ← evaluateBy n callee
    let arguments ← evaluateAllBy n arguments
    callBy n callee paren arguments

def evaluateAllBy : Nat → List Expr → Run (List Value)
  | 0, _ => exhausted
  | _ + 1, [] => return []
  | n + 1, first :: rest => do
    let value ← evaluateBy n first
    let values ← evaluateAllBy n rest
    return value :: values

def callBy : Nat → Value → Token → List Value → Run Value
  | 0, _, _, _ => exhausted
  | n + 1, .function _ declaration closure, paren, arguments => do
    checkArity declaration.params.length arguments.length paren
    let scope ← enterScope closure (declaration.params.zip arguments)
    let completion ← within scope (executeAllBy n declaration.body)
    return completion.value
  | _ + 1, .native serial _ arity, paren, arguments => do
    checkArity arity arguments.length paren
    applyNative serial arguments paren
  | _ + 1, _, paren, _ => fail .notCallable paren

def executeBy : Nat → Stmt → Run Completion
  | 0, _ => exhausted
  | n + 1, .expression value => do
    let _ ← evaluateBy n value
    return .normal
  | n + 1, .print value => do
    let value ← evaluateBy n value
    print value
    return .normal
  | _ + 1, .var name none => do
    define name .nil
    return .normal
  | n + 1, .var name (some initializer) => do
    let value ← evaluateBy n initializer
    define name value
    return .normal
  | n + 1, .block body => do
    let scope ← enterBlock
    within scope (executeAllBy n body)
  | n + 1, .ifThen condition thenBranch elseBranch => do
    let value ← evaluateBy n condition
    if value.truthy then executeBy n thenBranch
    else match elseBranch with
      | some elseBranch => executeBy n elseBranch
      | none => return .normal
  | n + 1, .whileLoop condition body => loopBy n condition body none
  | n + 1, .forLoop none condition increment body =>
    loopBy n (Stmt.loopCondition condition) body increment
  | n + 1, .forLoop (some initializer) condition increment body => do
    let scope ← enterBlock
    within scope do
      match ← executeBy n initializer with
      | .returned value => return .returned value
      | .normal => loopBy n (Stmt.loopCondition condition) body increment
  | _ + 1, .function name params body => do
    let value ← close ⟨name, params, body⟩
    define name value
    return .normal
  | _ + 1, .ret _ none => return .returned .nil
  | n + 1, .ret _ (some value) => do
    let value ← evaluateBy n value
    return .returned value

def executeAllBy : Nat → List Stmt → Run Completion
  | 0, _ => exhausted
  | _ + 1, [] => return .normal
  | n + 1, first :: rest => do
    match ← executeBy n first with
    | .returned value => return .returned value
    | .normal => executeAllBy n rest

def loopBy : Nat → Expr → Stmt → Option Expr → Run Completion
  | 0, _, _, _ => exhausted
  | n + 1, condition, body, increment => do
    let value ← evaluateBy n condition
    if value.truthy then
      match ← executeBy n body with
      | .returned value => return .returned value
      | .normal =>
        match increment with
        | none => loopBy n condition body increment
        | some step =>
          let _ ← evaluateBy n step
          loopBy n condition body increment
    else return .normal

end

def programBy (n : Nat) : List Stmt → Run Unit
  | [] => return ()
  | first :: rest => do
    match ← executeBy find n first with
    | .returned _ => return ()
    | .normal => programBy n rest

variable {find}

theorem run_readBy (id : NodeId) (name : Token) (m : Machine) :
    (readBy find id name).run m =
      match (find m id name).bind (m.store.lookup? · name.lexeme) with
      | some value => some (.ok value, m)
      | none => some (.error ⟨.undefinedVariable name.lexeme, name.line⟩, m) := by
  rw [readBy, run_bind, run_get]
  show (match (find m id name).bind (m.store.lookup? · name.lexeme) with
    | some value => _
    | none => _ : Run Value).run m = _
  cases (find m id name).bind (m.store.lookup? · name.lexeme) <;> rfl

theorem run_writeBy (id : NodeId) (name : Token) (value : Value) (m : Machine) :
    (writeBy find id name value).run m = match find m id name with
      | some scope => some (.ok (), { m with store := m.store.define scope name.lexeme value })
      | none => some (.error ⟨.undefinedVariable name.lexeme, name.line⟩, m) := by
  rw [writeBy, run_bind, run_get]
  show (match find m id name with
    | some scope => _
    | none => _ : Run Unit).run m = _
  cases find m id name <;> rfl

/-! ## The machine finds by distance -/

/-- What a read finds is the value in the scope that a write would change. -/
theorem bind_target? (m : Machine) (id : NodeId) (name : Token) :
    (m.target? id name).bind (m.store.lookup? · name.lexeme) = m.read? id name := by
  rw [Machine.target?, Machine.read?]
  cases m.distances.find? id with
  | none => rfl
  | some distance =>
      show ((m.store.ancestor? _ _).filter _).bind _ = (m.store.ancestor? _ _).bind _
      cases m.store.ancestor? m.current distance with
      | none => rfl
      | some scope =>
          rw [Option.filter_some, Option.bind_some]
          cases hv : m.store.lookup? scope name.lexeme with
          | none => rfl
          | some v => exact hv

theorem readBy_target (id : NodeId) (name : Token) :
    readBy Machine.target? id name = readVariable id name := by
  refine ExceptT.ext (StateT.ext fun m => ?_)
  show (readBy _ id name).run m = (readVariable id name).run m
  rw [run_readBy, bind_target?]
  exact (run_readVariable ..).symm

theorem writeBy_target (id : NodeId) (name : Token) (value : Value) :
    writeBy Machine.target? id name value = writeVariable id name value := by
  refine ExceptT.ext (StateT.ext fun m => ?_)
  show (writeBy _ id name value).run m = (writeVariable id name value).run m
  rw [run_writeBy]
  exact (run_writeVariable ..).symm

/-- With so much fuel the rules with distances are those of the machine. -/
structure ByDistance (n : Nat) : Prop where
  evaluate : ∀ e, evaluateBy Machine.target? n e = evaluate n e
  evaluateAll : ∀ es, evaluateAllBy Machine.target? n es = evaluateAll n es
  call : ∀ callee paren args,
    callBy Machine.target? n callee paren args = call n callee paren args
  execute : ∀ s, executeBy Machine.target? n s = execute n s
  executeAll : ∀ body, executeAllBy Machine.target? n body = executeAll n body
  loop : ∀ condition body increment,
    loopBy Machine.target? n condition body increment = loop n condition body increment

theorem byDistance (n : Nat) : ByDistance n := by
  induction n with
  | zero =>
      exact ⟨fun _ => rfl, fun _ => rfl, fun _ _ _ => rfl, fun _ => rfl, fun _ => rfl,
        fun _ _ _ => rfl⟩
  | succ n ih =>
      refine ⟨fun e => ?_, fun es => ?_, fun callee paren args => ?_, fun s => ?_, fun body => ?_,
        fun condition body increment => ?_⟩
      · cases e <;> simp only [evaluateBy, evaluate, ih.evaluate, ih.evaluateAll, ih.call,
          readBy_target, writeBy_target]
      · cases es <;> simp only [evaluateAllBy, evaluateAll, ih.evaluate, ih.evaluateAll]
      · cases callee <;> simp only [callBy, call, ih.executeAll]
      · cases s with
        | var name initializer =>
            cases initializer <;> simp only [executeBy, execute, ih.evaluate]
        | ifThen condition thenBranch elseBranch =>
            simp only [executeBy, ih.evaluate, ih.execute]
            rfl
        | forLoop initializer condition increment body =>
            cases initializer with
            | none => simp only [executeBy, execute, ih.loop]
            | some initializer =>
                simp only [executeBy, ih.execute, ih.loop]
                rfl
        | ret keyword value => cases value <;> simp only [executeBy, execute, ih.evaluate]
        | _ => simp only [executeBy, execute, ih.evaluate, ih.executeAll, ih.loop]
      · cases body with
        | nil => simp only [executeAllBy, executeAll]
        | cons first rest =>
            simp only [executeAllBy, ih.execute, ih.executeAll]
            rfl
      · simp only [loopBy, ih.evaluate, ih.execute, ih.loop]
        rfl

/-- Found by distance, the variables of a program are those that the machine finds. -/
theorem programBy_target (n : Nat) (body : List Stmt) :
    programBy Machine.target? n body = program n body := by
  induction body with
  | nil => rfl
  | cons s body ih =>
      rw [programBy, (byDistance n).execute, ih]
      rfl

end Run

end Lox
