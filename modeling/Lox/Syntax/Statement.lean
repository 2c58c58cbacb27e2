import Lox.Syntax.Expression
import Lox.Token.Scan

/-!
The grammar of declarations and statements, and the way back into it after a problem.

As for expressions, `n` bounds the number of tokens ahead.  `stmt` and `decl` read a statement and a
declaration inside another one.  A declaration that breaks off is dropped, and reading goes on where
the next one seems to start.
-/

namespace Lox

def Token.Kind.startsStatement : Token.Kind → Bool
  | .kwClass => true
  | .kwFun => true
  | .kwVar => true
  | .kwFor => true
  | .kwIf => true
  | .kwWhile => true
  | .kwPrint => true
  | .kwReturn => true
  | _ => false

/-- The tokens ahead from the next start of a statement on, after the token `previous`. -/
def nextStart (previous : Token) : List Token → List Token
  | [] => []
  | t :: ts =>
    if previous.kind = .semicolon ∨ t.kind.startsStatement then t :: ts else nextStart t ts

/-- Where reading goes on after a problem at the first of the tokens ahead. -/
def recover : List Token → List Token
  | [] => []
  | t :: ts => nextStart t ts

/-- A `for` loop as a `while` loop: the initializer in a block around it, the increment behind the
body in a block inside it. -/
def Stmt.forLoop (initial : Option Stmt) (condition : Expr) (increment : Option Expr) (body : Stmt) :
    Stmt :=
  let step := match increment with
    | none => body
    | some e => .block [body, .expression e]
  let loop := .loop condition step
  match initial with
  | none => loop
  | some first => .block [first, loop]

namespace Parse

/-- A parameter after `count` others.  Each one too many is noted. -/
def parameter (count : Nat) : Parse Token := do
  if maxArguments ≤ count then report (← current) .tooManyParameters
  expect .name .parameterName

/-- Parameters with commas between them, after `count` others. -/
def parameters : Nat → Nat → Parse (List Token)
  | 0, count => return [← parameter count]
  | n + 1, count => do
    let first ← parameter count
    match ← accept? .comma with
    | some _ => return first :: (← parameters n (count + 1))
    | none => return [first]

/-- Declarations up to a token that closes them, or to the end. -/
def declarations (closes : Token → Bool) (decl : Parse (Option Stmt)) : Nat → Parse (List Stmt)
  | 0 => return []
  | n + 1 => do
    match (← get).tokens with
    | [] => return []
    | t :: _ =>
      if closes t then return []
      else
        let first ← decl
        return first.toList ++ (← declarations closes decl n)

/-- The rest of a block, after its opening brace. -/
def block (decl : Parse (Option Stmt)) (n : Nat) : Parse (List Stmt) := do
  let body ← declarations (fun t => decide (t.kind = .rightBrace)) decl n
  let _ ← expect .rightBrace .blockEnd
  return body

/-- A function or method from its name on. -/
def funDecl (callee : Callee) (decl : Parse (Option Stmt)) (n : Nat) : Parse FunDecl := do
  let name ← expect .name (.calleeName callee)
  let _ ← expect .leftParen (.parameterList callee)
  let params ← if ← check .rightParen then pure [] else parameters n 0
  let _ ← expect .rightParen .parameterEnd
  let _ ← expect .leftBrace (.calleeBody callee)
  let body ← block decl n
  return .mk name params body

/-- The methods up to the closing brace of a class, or to the end. -/
def methods (method : Parse FunDecl) : Nat → Parse (List FunDecl)
  | 0 => return []
  | n + 1 => do
    if ← atEnd then return []
    else if ← check .rightBrace then return []
    else
      let first ← method
      return first :: (← methods method n)

def superclass : Parse (Option (NodeId × Token)) := do
  match ← accept? .less with
  | none => return none
  | some _ =>
    let name ← expect .name .superclassName
    return some (← number (.read · name), name)

/-- The rest of a class, after its keyword. -/
def classDecl (decl : Parse (Option Stmt)) (n : Nat) : Parse Stmt := do
  let name ← expect .name .className
  let superclass ← superclass
  let _ ← expect .leftBrace .classBody
  let methods ← methods (funDecl .method decl n) n
  let _ ← expect .rightBrace .classEnd
  return .classDecl name superclass methods

/-- The rest of a variable declaration, after its keyword. -/
def varDecl (n : Nat) : Parse Stmt := do
  let name ← expect .name .variableName
  let initial ← match ← accept? .equal with
    | some _ => some <$> expression n
    | none => pure none
  let _ ← expect .semicolon .variableEnd
  return .var name initial

def expressionStmt (n : Nat) : Parse Stmt := do
  let value ← expression n
  let _ ← expect .semicolon .expressionEnd
  return .expression value

/-- An expression, unless the cursor stands on the token that would follow it. -/
def optionalExpression (n : Nat) (follower : Token.Kind) : Parse (Option Expr) := do
  if ← check follower then return none else some <$> expression n

def forInitial (n : Nat) : Parse (Option Stmt) := do
  match ← accept? .semicolon with
  | some _ => return none
  | none =>
    match ← accept? .kwVar with
    | some _ => some <$> varDecl n
    | none => some <$> expressionStmt n

/-- The condition of a `for` loop, which may be left out. -/
def forCondition : Option Expr → Parse Expr
  | some condition => return condition
  | none => build (.literal · (.bool true))

/-- The rest of a `for` loop, after its keyword. -/
def forStmt (stmt : Parse Stmt) (n : Nat) : Parse Stmt := do
  let _ ← expect .leftParen .forClauses
  let initial ← forInitial n
  let condition ← optionalExpression n .semicolon
  let _ ← expect .semicolon .forConditionEnd
  let increment ← optionalExpression n .rightParen
  let _ ← expect .rightParen .forClausesEnd
  let body ← stmt
  return .forLoop initial (← forCondition condition) increment body

/-- The rest of an `if`, after its keyword.  An `else` belongs to the nearest one. -/
def ifStmt (stmt : Parse Stmt) (n : Nat) : Parse Stmt := do
  let _ ← expect .leftParen .ifCondition
  let condition ← expression n
  let _ ← expect .rightParen .ifConditionEnd
  let yes ← stmt
  match ← accept? .kwElse with
  | some _ => return .cond condition yes (some (← stmt))
  | none => return .cond condition yes none

/-- The rest of a `while` loop, after its keyword. -/
def whileStmt (stmt : Parse Stmt) (n : Nat) : Parse Stmt := do
  let _ ← expect .leftParen .whileCondition
  let condition ← expression n
  let _ ← expect .rightParen .whileConditionEnd
  return .loop condition (← stmt)

def printStmt (n : Nat) : Parse Stmt := do
  let value ← expression n
  let _ ← expect .semicolon .printEnd
  return .print value

def returnStmt (keyword : Token) (n : Nat) : Parse Stmt := do
  let value ← optionalExpression n .semicolon
  let _ ← expect .semicolon .returnEnd
  return .ret keyword value

def statementForm (stmt : Parse Stmt) (decl : Parse (Option Stmt)) (n : Nat) : Parse Stmt := do
  let t ← current
  match t.kind with
  | .kwFor => let _ ← advance; forStmt stmt n
  | .kwIf => let _ ← advance; ifStmt stmt n
  | .kwPrint => let _ ← advance; printStmt n
  | .kwReturn => let _ ← advance; returnStmt t n
  | .kwWhile => let _ ← advance; whileStmt stmt n
  | .leftBrace => let _ ← advance; return .block (← block decl n)
  | _ => expressionStmt n

def declarationForm (stmt : Parse Stmt) (decl : Parse (Option Stmt)) (n : Nat) : Parse Stmt := do
  let t ← current
  match t.kind with
  | .kwClass => let _ ← advance; classDecl decl n
  | .kwFun => let _ ← advance; .function <$> funDecl .function decl n
  | .kwVar => let _ ← advance; varDecl n
  | _ => statementForm stmt decl n

/-- Drops what breaks off and moves on to where the next declaration seems to start. -/
def recovering (form : Parse Stmt) : Parse (Option Stmt) := fun c =>
  match form c with
  | (some stmt, c') => (some (some stmt), c')
  | (none, c') => (some none, { c' with tokens := recover c'.tokens })

mutual

/-- A statement, with at most `n` tokens ahead. -/
def statement : Nat → Parse Stmt
  | 0 => expressionStmt 0
  | n + 1 => statementForm (statement n) (declaration n) (n + 1)

/-- A declaration, with at most `n` tokens ahead; nothing if it broke off. -/
def declaration : Nat → Parse (Option Stmt)
  | 0 => recovering (expressionStmt 0)
  | n + 1 => recovering (declarationForm (statement n) (declaration n) (n + 1))

end

/-- The declarations of a whole program. -/
def program (n : Nat) : Parse (List Stmt) :=
  declarations (fun _ => false) (declaration n) n

/-- An expression that takes all tokens. -/
def wholeExpression (n : Nat) : Parse Expr := do
  let e ← expression n
  expectEnd .endOfExpression
  return e

end Parse

/-- What reading tokens gives: a tree, the problems found, and all nodes that were built, also those
that are in no tree in the end. -/
structure Reading (α : Type) where
  tree : α
  problems : List Diagnostic
  ledger : Ledger

/-- The number of the next node. -/
def Reading.nextId {α : Type} (reading : Reading α) : NodeId :=
  reading.ledger.nextId

def Scan.cursor (s : Scan) (nextId : NodeId) : Cursor :=
  ⟨s.tokens, s.ending, .start nextId, []⟩

/-- The statements that survive reading a program, whose nodes are numbered from `nextId`. -/
def Scan.readProgram (s : Scan) (nextId : NodeId) : Reading (List Stmt) :=
  let (statements, c) := Parse.program s.tokens.length (s.cursor nextId)
  ⟨statements.getD [], c.problems, c.ledger⟩

/-- The expression that a source is, if it can be read as one. -/
def Scan.readExpression (s : Scan) (nextId : NodeId) : Reading (Option Expr) :=
  let (e, c) := Parse.wholeExpression s.tokens.length (s.cursor nextId)
  ⟨e, c.problems, c.ledger⟩

end Lox
