import Lox.Value

/-!
# Functions from outside

A native function is a name, a number of parameters and what it does with its arguments, which is
to give a value or a message. The clock is one; what it shows is fixed when it is made.
-/

namespace Lox

structure Native where
  name : String
  arity : Nat
  apply : List Value → Except String Value

/-- The clock: seconds since the beginning of 1970. -/
def Native.clock (seconds : Float) : Native where
  name := "clock"
  arity := 0
  apply := fun _ => .ok (.number seconds)

end Lox
