import Lox.Environment
import Lox.Syntax

/-!
The values of Lox.

Functions, classes and instances have an identity: two of them are equal only if they are the same
one.  The fields of an instance and the code of a native are kept elsewhere, under its number.
-/

namespace Lox

/-- The identity of a function or class. -/
abbrev ObjectId := Nat

abbrev InstanceId := Nat

abbrev NativeId := Nat

/-- A function with the environment of its declaration. -/
structure Closure where
  id : ObjectId
  decl : FunDecl
  env : Environment
  role : Role

/-- A class with its superclass and its own methods. -/
inductive Class where
  | mk (id : ObjectId) (name : String) (superclass : Option Class) (methods : Bindings Closure)

namespace Class

def id : Class → ObjectId
  | .mk id _ _ _ => id

def name : Class → String
  | .mk _ name _ _ => name

def superclass : Class → Option Class
  | .mk _ _ superclass _ => superclass

def methods : Class → Bindings Closure
  | .mk _ _ _ methods => methods

/-- The method of a name in the nearest class that has one, starting from the class itself. -/
def findMethod? : Class → String → Option Closure
  | .mk _ _ none methods, name => methods.find? name
  | .mk _ _ (some superclass) methods, name =>
    match methods.find? name with
    | some method => some method
    | none => superclass.findMethod? name

/-- The method that sets up new instances. -/
def initializer? (c : Class) : Option Closure :=
  c.findMethod? initializerName

def arity (c : Class) : Nat :=
  match c.initializer? with
  | some method => method.decl.arity
  | none => 0

end Class

inductive Value where
  | nil
  | bool (value : Bool)
  | number (value : Float)
  | string (value : String)
  | native (id : NativeId) (arity : Nat)
  | closure (closure : Closure)
  | classObject (cls : Class)
  | object (id : InstanceId) (cls : Class)

namespace Value

def ofLiteral : Literal → Value
  | .nil => .nil
  | .bool b => .bool b
  | .number x => .number x
  | .string s => .string s

def isTruthy : Value → Bool
  | .nil => false
  | .bool b => b
  | _ => true

/-- Equality of values: a number equals no string, and `nan` not even itself. -/
def equals : Value → Value → Bool
  | .nil, .nil => true
  | .bool a, .bool b => a == b
  | .number a, .number b => a == b
  | .string a, .string b => a == b
  | .native a _, .native b _ => a == b
  | .closure a, .closure b => a.id == b.id
  | .classObject a, .classObject b => a.id == b.id
  | .object a _, .object b _ => a == b
  | _, _ => false

/-- The text that `print` shows. -/
def display : Value → String
  | .nil => "nil"
  | .bool b => if b then "true" else "false"
  | .number x => Number.display x
  | .string s => s
  | .native _ _ => "<native fn>"
  | .closure c => s!"<fn {c.decl.name.lexeme}>"
  | .classObject c => c.name
  | .object _ c => s!"{c.name} instance"

/-- How many arguments a value takes, if it can be called. -/
def arity? : Value → Option Nat
  | .native _ arity => some arity
  | .closure c => some c.decl.arity
  | .classObject c => some c.arity
  | _ => none

end Value

end Lox
