import Lox.Session

/-!
# Runs that keep track of blocks and calls

Nothing in a machine tells for which block or call a scope was made. To say that a
variable is found in the right scope, the rules of evaluation are given once more,
with a frame for each block and call that lies around the place in the program. A
frame is the scope that was made when the block or the call was entered, and the
names that have been declared there, up to the place.

A function value is called from anywhere, but the frames around its body are those
at its declaration. They are kept under the number of the function. Besides, every
use of a variable is written down before it is made, with its frames and the machine
as it is then. What has been written down outlives faults and the end of the fuel,
so that runs that never end are spoken of as well.

None of this has an influence on the run: see `Lox.Proofs.Scoping.Erasure`.
-/

namespace Lox

/-- The scope that was made for a block or a call, and the names declared in it so
far, the newest first, each with whether its initializer is through. -/
structure Frame where
  scope : ScopeId
  names : Binding.Names

/-- The blocks and calls around a place in the program, the innermost first. The top
level is none. -/
abbrev Frames := List Frame

namespace Frames

/-- Puts a name into the innermost frame, if there is one. -/
def enter (frames : Frames) (name : String) (ready : Bool) : Frames :=
  match frames with
  | [] => []
  | frame :: outer => { frame with names := (name, ready) :: frame.names } :: outer

/-- The frames while an initializer is evaluated. -/
def declare (frames : Frames) (name : Token) : Frames := frames.enter name.lexeme false

/-- The frames behind a declaration. -/
def introduce (frames : Frames) (name : Token) : Frames :=
  (frames.declare name).enter name.lexeme true

/-- The frames behind a statement. -/
def behind (frames : Frames) : Stmt → Frames
  | .var name _ | .function name _ _ => frames.introduce name
  | _ => frames

/-- The frames in a new block. -/
def block (frames : Frames) (scope : ScopeId) : Frames := ⟨scope, []⟩ :: frames

/-- The frames in a new call. -/
def call (frames : Frames) (scope : ScopeId) (params : List Token) : Frames :=
  params.foldl introduce (frames.block scope)

end Frames

/-- What a use does with its variable. -/
inductive Access
  | read
  | write (value : Value)

/-- A use of a variable, and the frames and the machine just before it. -/
structure Use where
  access : Access
  id : NodeId
  name : Token
  frames : Frames
  machine : Machine

/-- A machine and what has been written down. -/
structure Chronicle where
  machine : Machine
  /-- The frames around the body of each function made so far, by its number. -/
  births : List Frames
  uses : List Use

/-- Goes to another scope. -/
def Chronicle.moved (c : Chronicle) (scope : ScopeId) : Chronicle :=
  { c with machine := { c.machine with current := scope } }

/-- Why a run has no result. -/
inductive Halt
  | exhausted
  | fault (fault : Machine.Fault)

/-- A run that keeps a chronicle. -/
abbrev Traced (α : Type) := ExceptT Halt (StateM Chronicle) α

namespace Traced

variable {α : Type}

def exhausted : Traced α := ExceptT.mk fun c => (.error .exhausted, c)

/-- Runs on the machine alone. -/
def lift (r : Run α) : Traced α :=
  ExceptT.mk fun c =>
    match r.run c.machine with
    | none => (.error .exhausted, c)
    | some (.error fault, machine) => (.error (.fault fault), { c with machine })
    | some (.ok a, machine) => (.ok a, { c with machine })

/-- Writes a use down. -/
def note (access : Access) (id : NodeId) (name : Token) (frames : Frames) : Traced Unit :=
  ExceptT.mk fun c =>
    (.ok (), { c with uses := c.uses ++ [⟨access, id, name, frames, c.machine⟩] })

/-- Makes a function value and keeps the frames around its body. -/
def close (declaration : Declaration) (frames : Frames) : Traced Value := do
  let value ← lift (Run.close declaration)
  modify fun c => { c with births := c.births ++ [frames] }
  return value

/-- The frames around the body of a function. -/
def framesOf (serial : Nat) : Traced Frames := do
  return (← get).births[serial]?.getD []

/-- Runs in another scope and comes back to the current one, whatever happens there. -/
def within (scope : ScopeId) (body : Traced α) : Traced α :=
  ExceptT.mk fun c =>
    let (result, after) := body.run (c.moved scope)
    (result, after.moved c.machine.current)

mutual

def evaluate : Nat → Frames → Expr → Traced Value
  | 0, _, _ => exhausted
  | _ + 1, _, .literal value => return value.value
  | n + 1, frames, .group inner => evaluate n frames inner
  | n + 1, frames, .unary operator operand => do
    let value ← evaluate n frames operand
    lift (Run.applyUnary operator value)
  | n + 1, frames, .binary left operator right => do
    let a ← evaluate n frames left
    let b ← evaluate n frames right
    lift (Run.applyBinary operator a b)
  | n + 1, frames, .logical left operator right => do
    let a ← evaluate n frames left
    if Run.decidedBy operator a then return a
    else evaluate n frames right
  | _ + 1, frames, .variable id name => do
    note .read id name frames
    lift (Run.readVariable id name)
  | n + 1, frames, .assign id name value => do
    let value ← evaluate n frames value
    note (.write value) id name frames
    lift (Run.writeVariable id name value)
    return value
  | n + 1, frames, .call callee paren arguments => do
    let callee ← evaluate n frames callee
    let arguments ← evaluateAll n frames arguments
    call n callee paren arguments

def evaluateAll : Nat → Frames → List Expr → Traced (List Value)
  | 0, _, _ => exhausted
  | _ + 1, _, [] => return []
  | n + 1, frames, first :: rest => do
    let value ← evaluate n frames first
    let values ← evaluateAll n frames rest
    return value :: values

/-- A declared function is run in the frames of its declaration and one for its call. -/
def call : Nat → Value → Token → List Value → Traced Value
  | 0, _, _, _ => exhausted
  | n + 1, .function serial declaration closure, paren, arguments => do
    lift (Run.checkArity declaration.params.length arguments.length paren)
    let frames ← framesOf serial
    let scope ← lift (Run.enterScope closure (declaration.params.zip arguments))
    let completion ← within scope
      (executeAll n (frames.call scope declaration.params) declaration.body)
    return completion.value
  | _ + 1, .native serial _ arity, paren, arguments => do
    lift (Run.checkArity arity arguments.length paren)
    lift (Run.applyNative serial arguments paren)
  | _ + 1, _, paren, _ => lift (Run.fail .notCallable paren)

def execute : Nat → Frames → Stmt → Traced Completion
  | 0, _, _ => exhausted
  | n + 1, frames, .expression value => do
    let _ ← evaluate n frames value
    return .normal
  | n + 1, frames, .print value => do
    let value ← evaluate n frames value
    lift (Run.print value)
    return .normal
  | _ + 1, _, .var name none => do
    lift (Run.define name .nil)
    return .normal
  | n + 1, frames, .var name (some initializer) => do
    let value ← evaluate n (frames.declare name) initializer
    lift (Run.define name value)
    return .normal
  | n + 1, frames, .block body => do
    let scope ← lift Run.enterBlock
    within scope (executeAll n (frames.block scope) body)
  | n + 1, frames, .ifThen condition thenBranch elseBranch => do
    let value ← evaluate n frames condition
    if value.truthy then execute n frames thenBranch
    else match elseBranch with
      | some elseBranch => execute n frames elseBranch
      | none => return .normal
  | n + 1, frames, .whileLoop condition body => loop n frames condition body none
  | n + 1, frames, .forLoop none condition increment body =>
    loop n frames (Stmt.loopCondition condition) body increment
  | n + 1, frames, .forLoop (some initializer) condition increment body => do
    let scope ← lift Run.enterBlock
    within scope do
      match ← execute n (frames.block scope) initializer with
      | .returned value => return .returned value
      | .normal =>
        loop n ((frames.block scope).behind initializer) (Stmt.loopCondition condition) body
          increment
  | _ + 1, frames, .function name params body => do
    let value ← close ⟨name, params, body⟩ (frames.introduce name)
    lift (Run.define name value)
    return .normal
  | _ + 1, _, .ret _ none => return .returned .nil
  | n + 1, frames, .ret _ (some value) => do
    let value ← evaluate n frames value
    return .returned value

def executeAll : Nat → Frames → List Stmt → Traced Completion
  | 0, _, _ => exhausted
  | _ + 1, _, [] => return .normal
  | n + 1, frames, first :: rest => do
    match ← execute n frames first with
    | .returned value => return .returned value
    | .normal => executeAll n (frames.behind first) rest

def loop : Nat → Frames → Expr → Stmt → Option Expr → Traced Completion
  | 0, _, _, _, _ => exhausted
  | n + 1, frames, condition, body, increment => do
    let value ← evaluate n frames condition
    if value.truthy then
      match ← execute n frames body with
      | .returned value => return .returned value
      | .normal =>
        match increment with
        | none => loop n frames condition body increment
        | some step =>
          let _ ← evaluate n frames step
          loop n frames condition body increment
    else return .normal

end

/-- Runs a program, which stands in no block and no call. -/
def program (n : Nat) : List Stmt → Traced Unit
  | [] => return ()
  | first :: rest => do
    match ← execute n [] first with
    | .returned _ => return ()
    | .normal => program n rest

end Traced

end Lox
