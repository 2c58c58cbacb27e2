import Lox.Syntax

/-!
Trees as text: every node is a head and its parts between parentheses.
-/

namespace Lox

/-- A head and its parts.  Nothing follows the head if the parts come to nothing. -/
def parenthesize (head : String) (parts : List String) : String :=
  let inner := " ".intercalate parts
  if inner = "" then s!"({head})" else s!"({head} {inner})"

def Literal.render : Literal → String
  | .nil => "nil"
  | .bool b => if b then "true" else "false"
  | .number x => Number.literalText x
  | .string s => s!"\"{s}\""

def classHead (name : Token) : Option (NodeId × Token) → String
  | none => s!"class {name.lexeme}"
  | some (_, superclass) => s!"class {name.lexeme} < {superclass.lexeme}"

def functionHead (name : Token) (params : List Token) : String :=
  let names := " ".intercalate (params.map Token.lexeme)
  s!"fun {name.lexeme}({names})"

mutual

/-- The text of an expression.  A hole has no text. -/
def Expr.render : Expr → String
  | .literal _ value => value.render
  | .grouping _ inner => parenthesize "group" [inner.render]
  | .unary _ op right => parenthesize op.lexeme [right.render]
  | .binary _ left op right => parenthesize op.lexeme [left.render, right.render]
  | .logical _ left op right => parenthesize op.lexeme [left.render, right.render]
  | .read _ name => name.lexeme
  | .assign _ name value => parenthesize "=" [name.lexeme, value.render]
  | .call _ callee _ arguments => parenthesize "call" (callee.render :: renderArguments arguments)
  | .get _ object name => parenthesize "." [object.render, name.lexeme]
  | .set _ object name value => parenthesize "=" [object.render, name.lexeme, value.render]
  | .self _ _ => "this"
  | .super _ _ method => parenthesize "super" [method.lexeme]
  | .missing => ""
  | .misplaced stmt => stmt.render

def renderArguments : List Expr → List String
  | [] => []
  | argument :: arguments => argument.render :: renderArguments arguments

/-- The text of a statement.  A hole has no text. -/
def Stmt.render : Stmt → String
  | .expression value => parenthesize ";" [value.render]
  | .print value => parenthesize "print" [value.render]
  | .var name none => parenthesize "var" [name.lexeme]
  | .var name (some value) => parenthesize "var" [name.lexeme, "=", value.render]
  | .block body => parenthesize "block" (renderBody body)
  | .cond condition yes none => parenthesize "if" [condition.render, yes.render]
  | .cond condition yes (some no) =>
    parenthesize "if-else" [condition.render, yes.render, no.render]
  | .loop condition body => parenthesize "while" [condition.render, body.render]
  | .function decl => decl.render
  | .ret _ none => "(return)"
  | .ret _ (some value) => parenthesize "return" [value.render]
  | .classDecl name superclass methods =>
    parenthesize (classHead name superclass) (renderMethods methods)
  | .missing => ""
  | .misplaced expr => expr.render

def renderBody : List Stmt → List String
  | [] => []
  | stmt :: body => stmt.render :: renderBody body

def FunDecl.render : FunDecl → String
  | .mk name params body => parenthesize (functionHead name params) (renderBody body)

def renderMethods : List FunDecl → List String
  | [] => []
  | method :: methods => method.render :: renderMethods methods

end

mutual

/-- Whether no part of an expression is missing. -/
def Expr.isComplete : Expr → Bool
  | .literal _ _ => true
  | .grouping _ inner => inner.isComplete
  | .unary _ _ right => right.isComplete
  | .binary _ left _ right => left.isComplete && right.isComplete
  | .logical _ left _ right => left.isComplete && right.isComplete
  | .read _ _ => true
  | .assign _ _ value => value.isComplete
  | .call _ callee _ arguments => callee.isComplete && argumentsComplete arguments
  | .get _ object _ => object.isComplete
  | .set _ object _ value => object.isComplete && value.isComplete
  | .self _ _ => true
  | .super _ _ _ => true
  | .missing => false
  | .misplaced stmt => stmt.isComplete

def argumentsComplete : List Expr → Bool
  | [] => true
  | argument :: arguments => argument.isComplete && argumentsComplete arguments

/-- Whether no part of a statement is missing. -/
def Stmt.isComplete : Stmt → Bool
  | .expression value => value.isComplete
  | .print value => value.isComplete
  | .var _ none => true
  | .var _ (some value) => value.isComplete
  | .block body => bodyComplete body
  | .cond condition yes none => condition.isComplete && yes.isComplete
  | .cond condition yes (some no) => condition.isComplete && yes.isComplete && no.isComplete
  | .loop condition body => condition.isComplete && body.isComplete
  | .function decl => decl.isComplete
  | .ret _ none => true
  | .ret _ (some value) => value.isComplete
  | .classDecl _ _ methods => methodsComplete methods
  | .missing => false
  | .misplaced expr => expr.isComplete

def bodyComplete : List Stmt → Bool
  | [] => true
  | stmt :: body => stmt.isComplete && bodyComplete body

def FunDecl.isComplete : FunDecl → Bool
  | .mk _ _ body => bodyComplete body

def methodsComplete : List FunDecl → Bool
  | [] => true
  | method :: methods => method.isComplete && methodsComplete methods

end

/-- The text of an expression without holes. -/
def Expr.print (e : Expr) : Except Malformed String :=
  if e.isComplete then .ok e.render else .error .unprintable

/-- The texts of statements without holes. -/
def printProgram (program : List Stmt) : Except Malformed (List String) :=
  if bodyComplete program then .ok (renderBody program) else .error .unprintable

end Lox
