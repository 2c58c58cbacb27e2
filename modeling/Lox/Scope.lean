import Lox.Bindings
import Lox.Diagnostic
import Lox.Syntax

/-!
The scopes that are open at a place of a program.

A scope knows the names declared in it so far, and of each whether its initializer is behind it.
The global scope is not among the open scopes: global names are found when the program runs.
-/

namespace Lox

/-- The names declared in a scope; `false` marks the one that is being initialised. -/
abbrev Scope := Bindings Bool

/-- The open scopes, innermost first. -/
abbrev Scopes := List Scope

/-- Which class, if any, a statement is in. -/
inductive ClassContext where
  | outside
  | plain
  | subclass
  deriving DecidableEq, Repr

structure Context where
  /-- The role of the function, if any, that a statement is in. -/
  inFunction : Option Role := none
  inClass : ClassContext := .outside
  deriving DecidableEq, Repr

namespace Scopes

/-- Declares a name in the innermost scope, not yet initialised. -/
def declare (name : Token) : Scopes → Scopes
  | [] => []
  | scope :: outer => scope.set name.lexeme false :: outer

/-- Marks a name of the innermost scope as initialised. -/
def define (name : Token) : Scopes → Scopes
  | [] => []
  | scope :: outer => scope.set name.lexeme true :: outer

/-- What is wrong with declaring a name in the innermost scope. -/
def redeclaration (name : Token) : Scopes → List Diagnostic
  | [] => []
  | scope :: _ => if scope.binds name.lexeme then [.atToken name .redeclared] else []

/-- What is wrong with reading a name: it must not be the one that is being initialised. -/
def prematureRead (name : Token) : Scopes → List Diagnostic
  | [] => []
  | scope :: _ =>
    if scope.find? name.lexeme = some false then [.atToken name .ownInitializer] else []

/-- How many scopes lie inside the innermost one that declares a name. -/
def hops? (scopes : Scopes) (name : String) : Option Nat :=
  scopes.findIdx? fun scope => scope.binds name

end Scopes

end Lox
