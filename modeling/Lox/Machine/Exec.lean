import Lox.Machine
import Lox.Tree.Desugar

/-!
# Running

The rules of evaluation, operands and arguments from left to right. Every rule that uses another
one hands on one unit of fuel less.
-/

namespace Lox.Run

mutual

def evaluate : Nat → Expr → Run Value
  | 0, _ => exhausted
  | _ + 1, .literal value => return value.value
  | n + 1, .group inner => evaluate n inner
  | n + 1, .unary operator operand => do
    let value ← evaluate n operand
    applyUnary operator value
  | n + 1, .binary left operator right => do
    let a ← evaluate n left
    let b ← evaluate n right
    applyBinary operator a b
  | n + 1, .logical left operator right => do
    let a ← evaluate n left
    if decidedBy operator a then return a
    else evaluate n right
  | _ + 1, .variable id name => readVariable id name
  | n + 1, .assign id name value => do
    let value ← evaluate n value
    writeVariable id name value
    return value
  | n + 1, .call callee paren arguments => do
    let callee ← evaluate n callee
    let arguments ← evaluateAll n arguments
    call n callee paren arguments

def evaluateAll : Nat → List Expr → Run (List Value)
  | 0, _ => exhausted
  | _ + 1, [] => return []
  | n + 1, first :: rest => do
    let value ← evaluate n first
    let values ← evaluateAll n rest
    return value :: values

/-- Calls a value. The body of a declared function runs in the scope of its parameters, which lies
within the scope of its declaration. -/
def call : Nat → Value → Token → List Value → Run Value
  | 0, _, _, _ => exhausted
  | n + 1, .function _ declaration closure, paren, arguments => do
    checkArity declaration.params.length arguments.length paren
    let scope ← enterScope closure (declaration.params.zip arguments)
    let completion ← within scope (executeAll n declaration.body)
    return completion.value
  | _ + 1, .native serial _ arity, paren, arguments => do
    checkArity arity arguments.length paren
    applyNative serial arguments paren
  | _ + 1, _, paren, _ => fail .notCallable paren

def execute : Nat → Stmt → Run Completion
  | 0, _ => exhausted
  | n + 1, .expression value => do
    let _ ← evaluate n value
    return .normal
  | n + 1, .print value => do
    let value ← evaluate n value
    print value
    return .normal
  | _ + 1, .var name none => do
    define name .nil
    return .normal
  | n + 1, .var name (some initializer) => do
    let value ← evaluate n initializer
    define name value
    return .normal
  | n + 1, .block body => do
    let scope ← enterBlock
    within scope (executeAll n body)
  | n + 1, .ifThen condition thenBranch elseBranch => do
    let value ← evaluate n condition
    if value.truthy then execute n thenBranch
    else match elseBranch with
      | some elseBranch => execute n elseBranch
      | none => return .normal
  | n + 1, .whileLoop condition body => loop n condition body none
  | n + 1, .forLoop none condition increment body =>
    loop n (Stmt.loopCondition condition) body increment
  | n + 1, .forLoop (some initializer) condition increment body => do
    let scope ← enterBlock
    within scope do
      match ← execute n initializer with
      | .returned value => return .returned value
      | .normal => loop n (Stmt.loopCondition condition) body increment
  | _ + 1, .function name params body => do
    let value ← close ⟨name, params, body⟩
    define name value
    return .normal
  | _ + 1, .ret _ none => return .returned .nil
  | n + 1, .ret _ (some value) => do
    let value ← evaluate n value
    return .returned value

/-- Runs statements one after the other, up to one that returns. -/
def executeAll : Nat → List Stmt → Run Completion
  | 0, _ => exhausted
  | _ + 1, [] => return .normal
  | n + 1, first :: rest => do
    match ← execute n first with
    | .returned value => return .returned value
    | .normal => executeAll n rest

/-- Runs the rounds of a loop: condition, body, and an increment if there is one. -/
def loop : Nat → Expr → Stmt → Option Expr → Run Completion
  | 0, _, _, _ => exhausted
  | n + 1, condition, body, increment => do
    let value ← evaluate n condition
    if value.truthy then
      match ← execute n body with
      | .returned value => return .returned value
      | .normal =>
        match increment with
        | none => loop n condition body increment
        | some step =>
          let _ ← evaluate n step
          loop n condition body increment
    else return .normal

end

/-- Runs a program. A return that belongs to no function ends it. -/
def program (n : Nat) : List Stmt → Run Unit
  | [] => return ()
  | first :: rest => do
    match ← execute n first with
    | .returned _ => return ()
    | .normal => program n rest

end Lox.Run
