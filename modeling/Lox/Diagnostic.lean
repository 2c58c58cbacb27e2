import Lox.Token

/-!
What can be wrong with a program before it runs, and the messages that say so.
-/

namespace Lox

/-- What the reader calls a declaration with parameters and a body. -/
inductive Callee where
  | function
  | method
  deriving DecidableEq, Repr

def Callee.word : Callee → String
  | .function => "function"
  | .method => "method"

/-- What the grammar asks for at a place where something else stands. -/
inductive Expectation where
  | expression
  | endOfExpression
  | className
  | superclassName
  | classBody
  | classEnd
  | calleeName (callee : Callee)
  | parameterList (callee : Callee)
  | parameterName
  | parameterEnd
  | calleeBody (callee : Callee)
  | variableName
  | variableEnd
  | forClauses
  | forConditionEnd
  | forClausesEnd
  | ifCondition
  | ifConditionEnd
  | whileCondition
  | whileConditionEnd
  | printEnd
  | returnEnd
  | blockEnd
  | expressionEnd
  | propertyName
  | argumentEnd
  | superDot
  | superMethod
  | groupEnd
  deriving DecidableEq, Repr

def Expectation.message : Expectation → String
  | .expression => "Expect expression."
  | .endOfExpression => "Expect end of expression."
  | .className => "Expect class name."
  | .superclassName => "Expect superclass name."
  | .classBody => "Expect '\x7b' before class body."
  | .classEnd => "Expect '\x7d' after class body."
  | .calleeName callee => s!"Expect {callee.word} name."
  | .parameterList callee => s!"Expect '(' after {callee.word} name."
  | .parameterName => "Expect parameter name."
  | .parameterEnd => "Expect ')' after parameters."
  | .calleeBody callee => s!"Expect '\x7b' before {callee.word} body."
  | .variableName => "Expect variable name."
  | .variableEnd => "Expect ';' after variable declaration."
  | .forClauses => "Expect '(' after 'for'."
  | .forConditionEnd => "Expect ';' after loop condition."
  | .forClausesEnd => "Expect ')' after for clauses."
  | .ifCondition => "Expect '(' after 'if'."
  | .ifConditionEnd => "Expect ')' after if condition."
  | .whileCondition => "Expect '(' after 'while'."
  | .whileConditionEnd => "Expect ')' after condition."
  | .printEnd => "Expect ';' after value."
  | .returnEnd => "Expect ';' after return value."
  | .blockEnd => "Expect '\x7d' after block."
  | .expressionEnd => "Expect ';' after expression."
  | .propertyName => "Expect property name after '.'."
  | .argumentEnd => "Expect ')' after arguments."
  | .superDot => "Expect '.' after 'super'."
  | .superMethod => "Expect superclass method name."
  | .groupEnd => "Expect ')' after expression."

/-- The most parameters of a function, and the most arguments of a call. -/
def maxArguments : Nat := 255

inductive Problem where
  | strayCharacter
  | unclosedString
  | expected (what : Expectation)
  | tooManyParameters
  | tooManyArguments
  | invalidTarget
  /-- A second declaration of a name in one scope. -/
  | redeclared
  /-- A local variable read while it is being initialised. -/
  | ownInitializer
  | returnOutsideFunction
  | valueFromInitializer
  | inheritsItself
  | thisOutsideClass
  | superOutsideClass
  | superWithoutSuperclass
  deriving DecidableEq, Repr

def Problem.message : Problem → String
  | .strayCharacter => "Unexpected character."
  | .unclosedString => "Unterminated string."
  | .expected what => what.message
  | .tooManyParameters => s!"Can't have more than {maxArguments} parameters."
  | .tooManyArguments => s!"Can't have more than {maxArguments} arguments."
  | .invalidTarget => "Invalid assignment target."
  | .redeclared => "Already a variable with this name in this scope."
  | .ownInitializer => "Can't read local variable in its own initializer."
  | .returnOutsideFunction => "Can't return from top-level code."
  | .valueFromInitializer => "Can't return a value from an initializer."
  | .inheritsItself => "A class can't inherit from itself."
  | .thisOutsideClass => "Can't use 'this' outside of a class."
  | .superOutsideClass => "Can't use 'super' outside of a class."
  | .superWithoutSuperclass => "Can't use 'super' in a class with no superclass."

/-- One line of a report: where and what. -/
def reportLine (line : Int) (place message : String) : String :=
  s!"[line {line}] Error{place}: {message}"

/-- A problem at a place of the source.  A problem with a character has no token to name. -/
structure Diagnostic where
  line : Int
  place : String
  problem : Problem
  deriving DecidableEq, Repr

namespace Diagnostic

def atToken (t : Token) (problem : Problem) : Diagnostic :=
  ⟨t.line, t.place, problem⟩

def message (d : Diagnostic) : String :=
  d.problem.message

def text (d : Diagnostic) : String :=
  reportLine d.line d.place d.message

end Diagnostic

end Lox
