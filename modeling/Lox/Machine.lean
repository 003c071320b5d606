import Lox.Binding
import Lox.Native
import Lox.Store

/-!
# The machine that runs a program

The machine holds the scopes, which of them is the global one and which one is current, the
recorded distances, the native functions and what has been printed. Running is a function of the
machine that may throw a fault; the machine outlives the fault.

The outer `Option` is for fuel: a run that uses it up has no answer. Fuel only bounds how deep the
rules of evaluation are nested, so a run that has an answer has the same one with more fuel.
-/

namespace Lox

structure Machine where
  store : Store
  globals : ScopeId
  current : ScopeId
  distances : Distances
  /-- The native functions, each at the number of its registration. -/
  natives : Array Native
  /-- The number of function declarations that have been run. -/
  functions : Nat
  output : String

namespace Machine

/-- What can go wrong in a run. -/
inductive Cause
  | operandNotNumber
  | operandsNotNumbers
  | operandsNotAddable
  | unknownUnaryOperator
  | unknownBinaryOperator
  | notCallable
  | wrongArity (expected given : Nat)
  | undefinedVariable (name : String)
  /-- The message of a native function. -/
  | native (message : String)
deriving DecidableEq, Repr

def Cause.message : Cause → String
  | operandNotNumber => "Operand must be a number."
  | operandsNotNumbers => "Operands must be numbers."
  | operandsNotAddable => "Operands must be two numbers or two strings."
  | unknownUnaryOperator => "Invalid unary operator."
  | unknownBinaryOperator => "Invalid binary operator."
  | notCallable => "Can only call functions and classes."
  | wrongArity expected given => s!"Expected {expected} arguments but got {given}."
  | undefinedVariable name => s!"Undefined variable '{name}'."
  | native message => message

/-- What went wrong, and the line of the token at which it did. -/
structure Fault where
  cause : Cause
  line : Nat
deriving DecidableEq, Repr

/-- Registers a native function as a global variable under its name. -/
def register (m : Machine) (native : Native) : Machine :=
  let value := Value.native m.natives.size native.name native.arity
  { m with
    natives := m.natives.push native
    store := m.store.define m.globals native.name value }

/-- A machine with an empty global scope. -/
def bare : Machine :=
  let (globals, store) := Store.empty.push none
  { store, globals, current := globals, distances := [], natives := #[], functions := 0,
    output := "" }

/-- A machine whose only global variable is the clock. -/
def new (clock : Native) : Machine := bare.register clock

/-- Records the distance of a node. -/
def recordDistance (m : Machine) (id : NodeId) (distance : Nat) : Machine :=
  { m with distances := m.distances.record id distance }

/-- Takes out what has been printed. -/
def takeOutput (m : Machine) : String × Machine := (m.output, { m with output := "" })

end Machine

/-- How a statement ends: it is through, or it returns from the function it stands in. -/
inductive Completion
  | normal
  | returned (value : Value)

/-- The value of a call whose body has ended. -/
def Completion.value : Completion → Value
  | normal => .nil
  | returned value => value

/-- A run: it may run out of fuel, throw a fault or give a result. -/
abbrev Run (α : Type) := ExceptT Machine.Fault (StateT Machine Option) α

namespace Run

variable {α : Type}

/-- The answer of a run that has no fuel left. -/
def exhausted : Run α := ExceptT.mk fun _ => none

/-- Throws a fault at a token. -/
def fail (cause : Machine.Cause) (token : Token) : Run α := throw ⟨cause, token.line⟩

/-- Prints a line. -/
def print (value : Value) : Run Unit :=
  ExceptT.mk fun m => some (.ok (), { m with output := m.output ++ value.text ++ "\n" })

/-- Binds a name in the current scope. -/
def define (name : Token) (value : Value) : Run Unit :=
  ExceptT.mk fun m =>
    some (.ok (), { m with store := m.store.define m.current name.lexeme value })

/-- Makes a function value for a declaration in the current scope. -/
def close (declaration : Declaration) : Run Value :=
  ExceptT.mk fun m =>
    some (.ok (.function m.functions declaration m.current),
      { m with functions := m.functions + 1 })

/-- Makes a scope around which lies the given one, and binds names in it, of two equal ones the
later. -/
def enterScope (parent : ScopeId) (bindings : List (Token × Value)) : Run ScopeId :=
  ExceptT.mk fun m =>
    let (scope, store) := m.store.push (some parent)
    let store := bindings.foldl (fun store b => store.define scope b.1.lexeme b.2) store
    some (.ok scope, { m with store })

/-- Makes a scope within the current one. -/
def enterBlock : Run ScopeId := do enterScope (← get).current []

/-- Runs in another scope and comes back to the current one, whatever happens there. -/
def within (scope : ScopeId) (body : Run α) : Run α :=
  ExceptT.mk fun m =>
    match body.run { m with current := scope } with
    | none => none
    | some (result, after) => some (result, { after with current := m.current })

/-- Reads a variable: at its recorded distance, or as a global one. -/
def readVariable (id : NodeId) (name : Token) : Run Value := do
  let m ← get
  let found := match m.distances.find? id with
    | some distance => m.store.getAt? m.current distance name.lexeme
    | none => m.store.get? m.globals name.lexeme
  match found with
  | some value => return value
  | none => fail (.undefinedVariable name.lexeme) name

/-- Changes a variable: at its recorded distance, or as a global one. -/
def writeVariable (id : NodeId) (name : Token) (value : Value) : Run Unit := do
  let m ← get
  let found := match m.distances.find? id with
    | some distance => m.store.binderAt? m.current distance name.lexeme
    | none => m.store.binder? m.globals name.lexeme
  match found with
  | some scope => modify fun m => { m with store := m.store.define scope name.lexeme value }
  | none => fail (.undefinedVariable name.lexeme) name

/-- Applies an operator with one operand. -/
def applyUnary (operator : Token) (operand : Value) : Run Value :=
  match operator.kind, operand with
  | .minus, .number value => return .number (-value)
  | .minus, _ => fail .operandNotNumber operator
  | .bang, _ => return .bool (!operand.truthy)
  | _, _ => fail .unknownUnaryOperator operator

/-- Applies an operator to two numbers. -/
def applyNumeric (operator : Token) (a b : Float) : Run Value :=
  match operator.kind with
  | .minus => return .number (a - b)
  | .star => return .number (a * b)
  | .slash => return .number (a / b)
  | .greater => return .bool (a > b)
  | .greaterEqual => return .bool (a ≥ b)
  | .less => return .bool (a < b)
  | .lessEqual => return .bool (a ≤ b)
  | _ => fail .unknownBinaryOperator operator

/-- Applies an operator with two operands. -/
def applyBinary (operator : Token) (left right : Value) : Run Value :=
  match operator.kind, left, right with
  | .plus, .number a, .number b => return .number (a + b)
  | .plus, .string a, .string b => return .string (a ++ b)
  | .plus, _, _ => fail .operandsNotAddable operator
  | .equalEqual, _, _ => return .bool (left.equals right)
  | .bangEqual, _, _ => return .bool (!left.equals right)
  | _, .number a, .number b => applyNumeric operator a b
  | _, _, _ => fail .operandsNotNumbers operator

/-- Does the left operand alone decide a logical operator? Of the two operators it is `or` that a
true operand decides. -/
def decidedBy (operator : Token) (left : Value) : Bool :=
  if operator.kind = .kwOr then left.truthy else !left.truthy

/-- Asks that a call gives as many arguments as are expected. -/
def checkArity (expected given : Nat) (paren : Token) : Run Unit :=
  if given = expected then return () else fail (.wrongArity expected given) paren

/-- Applies a native function by its number. -/
def applyNative (serial : Nat) (arguments : List Value) (paren : Token) : Run Value := do
  match (← get).natives[serial]? with
  | none => fail .notCallable paren
  | some native =>
    match native.apply arguments with
    | .ok value => return value
    | .error message => fail (.native message) paren

end Run

end Lox
