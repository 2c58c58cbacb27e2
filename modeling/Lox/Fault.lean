import Lox.Diagnostic
import Lox.Value

/-!
What can go wrong while a program runs.

A fault is a mistake of the program and is reported at a token.  The host's own mistakes are kept
apart from it, and so is what a program that passed its checks never does.
-/

namespace Lox

/-- A mistake of a running program. -/
inductive Fault where
  | undefinedVariable (name : String)
  | undefinedProperty (name : String)
  | propertyOfNonInstance
  | fieldOfNonInstance
  | operandNotNumber
  | operandsNotNumbers
  | operandsNotAddable
  | notCallable
  | wrongCount (expected actual : Nat)
  | stackOverflow
  | superclassNotClass
  | unknownUnary (op : String)
  | unknownBinary (op : String)
  /-- A mistake that a host function puts down to the program. -/
  | raised (message : String)
  deriving DecidableEq, Repr

def Fault.message : Fault → String
  | .undefinedVariable name => s!"Undefined variable '{name}'."
  | .undefinedProperty name => s!"Undefined property '{name}'."
  | .propertyOfNonInstance => "Only instances have properties."
  | .fieldOfNonInstance => "Only instances have fields."
  | .operandNotNumber => "Operand must be a number."
  | .operandsNotNumbers => "Operands must be numbers."
  | .operandsNotAddable => "Operands must be two numbers or two strings."
  | .notCallable => "Can only call functions and classes."
  | .wrongCount expected actual => s!"Expected {expected} arguments but got {actual}."
  | .stackOverflow => "Stack overflow."
  | .superclassNotClass => "Superclass must be a class."
  | .unknownUnary op => s!"Unknown unary operator '{op}'."
  | .unknownBinary op => s!"Unknown binary operator '{op}'."
  | .raised message => message

/-- A fault with the token that it is reported at. -/
structure RuntimeError where
  token : Token
  fault : Fault
  deriving DecidableEq

namespace RuntimeError

def message (e : RuntimeError) : String :=
  e.fault.message

def report (e : RuntimeError) : String :=
  reportLine e.token.line e.token.place e.message

end RuntimeError

/-- A mistake on the side of the host. -/
inductive HostError where
  /-- A thing of the host that no value of Lox stands for. -/
  | notConvertible (sort : String)
  | wrongCount (expected actual : Nat)
  | notCallable (sort : String)
  | integerTooLarge
  /-- A program to run that is no text. -/
  | notText (sort : String)
  /-- A limit on calls that no depth can be compared with. -/
  | blankLimit
  /-- Code that was refused, where an error stands for that. -/
  | rejected (problems : List Diagnostic)
  /-- An error that a host function raised. -/
  | raised (message : String)
  deriving DecidableEq, Repr

def HostError.message : HostError → String
  | .notConvertible sort => s!"cannot convert {sort} to a Lox value"
  | .wrongCount expected actual => s!"expected {expected} arguments but got {actual}"
  | .notCallable sort => s!"'{sort}' object is not callable"
  | .integerTooLarge => "int too large to convert to float"
  | .notText sort => s!"object of type '{sort}' has no len()"
  | .blankLimit => "'>' not supported between instances of 'int' and 'list'"
  | .rejected problems => "\n".intercalate (problems.map Diagnostic.text)
  | .raised message => message

/-- What a program that passed its checks never does. -/
inductive Stuck where
  /-- A variable that is not where it was resolved to. -/
  | access (error : AccessError)
  /-- `super` without a distance. -/
  | unresolvedSuper
  /-- `super` bound to something that has no methods. -/
  | superNotClass
  /-- A `return` that no call is waiting for. -/
  | strayReturn (value : Value)
  | unknownNative
  /-- A function body with more or fewer arguments than parameters. -/
  | unmatchedArguments
  | unevaluable (sort : String)
  | unexecutable (sort : String)

def Stuck.message : Stuck → String
  | .access .unbound => "no such variable"
  | .access .aboveRoot => "no such frame"
  | .unresolvedSuper => "super is not resolved"
  | .superNotClass => "super is not a class"
  | .strayReturn _ => "return outside of a call"
  | .unknownNative => "no such native"
  | .unmatchedArguments => "arguments do not match parameters"
  | .unevaluable sort => s!"cannot evaluate node: {sort}"
  | .unexecutable sort => s!"cannot execute statement: {sort}"

/-- What ends an evaluation before its result. -/
inductive Interrupt where
  | fault (error : RuntimeError)
  | host (error : HostError)
  | stuck (cause : Stuck)
  /-- The evaluation was given too few steps. -/
  | outOfFuel

/-- An error that a host function can raise, and be told of.  It is never told of what a program that
passed its checks never does. -/
inductive Raised where
  | fault (error : RuntimeError)
  | host (error : HostError)

def Raised.interrupt : Raised → Interrupt
  | .fault error => .fault error
  | .host error => .host error

end Lox
