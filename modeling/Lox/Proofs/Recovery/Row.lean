import Lox.Syntax.Statement

/-!
# Reading a row of tokens by index

The same grammar, read from a row of tokens that ends with its closing token.  The place in the row
is an index, and every look at the row may fall outside it.  Nothing bounds the recursion: reading
that never ends gives no outcome.
-/

namespace Lox

/-- A place in a row, with the state of a reading that has come to it. -/
structure Place where
  index : Nat
  ledger : Ledger
  /-- The problems found so far, in order. -/
  problems : List Diagnostic

def Place.next (place : Place) : Place :=
  { place with index := place.index + 1 }

def Place.build (place : Place) (node : NodeId → Expr) : Place :=
  { place with ledger := place.ledger.build node }

/-- Why a reading stops without a result. -/
inductive Stop where
  /-- It found a problem that it cannot go on after. -/
  | aborted
  /-- It looked at the row where the row has no token. -/
  | outside
  deriving DecidableEq, Repr

namespace Row

/-- A step that reads from a row. -/
abbrev Reader (α : Type) : Type := ReaderT (List Token) (ExceptT Stop (StateT Place Option)) α

/-! ## Single steps -/

def look (index : Nat) : Reader Token := do
  match (← read)[index]? with
  | some t => return t
  | none => throw .outside

def current : Reader Token := do
  look (← get).index

def previous : Reader Token := do
  match (← get).index with
  | 0 => throw .outside
  | index + 1 => look index

def check (kind : Token.Kind) : Reader Bool := do
  return decide ((← current).kind = kind)

def atEnd : Reader Bool :=
  check .ending

/-- Takes the token at the place.  The closing token is never used up. -/
def advance : Reader Token := do
  let t ← current
  if t.kind ≠ .ending then modify Place.next
  return t

/-- Takes the next token if it is of a kind. -/
def accept? (kind : Token.Kind) : Reader (Option Token) := do
  if ← check kind then return some (← advance) else return none

def report (t : Token) (problem : Problem) : Reader Unit :=
  modify fun place => { place with problems := place.problems ++ [.atToken t problem] }

/-- Notes what should stand at the place, and gives up. -/
def refuse {α : Type} (what : Expectation) : Reader α := do
  report (← current) (.expected what)
  throw .aborted

/-- Takes the next token, which must be of a kind. -/
def expect (kind : Token.Kind) (what : Expectation) : Reader Token := do
  match ← accept? kind with
  | some t => return t
  | none => refuse what

/-- Enters a node and gives its number. -/
def number (node : NodeId → Expr) : Reader NodeId :=
  modifyGet fun place => (place.ledger.nextId, place.build node)

def build (node : NodeId → Expr) : Reader Expr :=
  return node (← number node)

/-! ## Expressions -/

/-- What statements are made of, and what is skipped between them, each with what reading it gives. -/
inductive Part : Type → Type where
  /-- An assignment, or an expression that nothing is assigned to. -/
  | expression : Part Expr
  /-- Operands joined by operators that bind at least as tightly as `least`. -/
  | binary (least : Nat) : Part Expr
  /-- Operators that bind at least as tightly as `least`, after a left operand. -/
  | climb (least : Nat) (left : Expr) : Part Expr
  /-- Operators before an operand. -/
  | unary : Part Expr
  | call : Part Expr
  /-- The calls and property names that follow an expression. -/
  | trailers (e : Expr) : Part Expr
  /-- The rest of a call, after its opening parenthesis. -/
  | finishCall (callee : Expr) : Part Expr
  /-- Arguments with commas between them, after `count` others. -/
  | arguments (count : Nat) : Part (List Expr)
  /-- An argument after `count` others.  Each one too many is noted. -/
  | argument (count : Nat) : Part Expr
  | primary : Part Expr
  /-- Parameters with commas between them, after `count` others. -/
  | parameters (count : Nat) : Part (List Token)
  /-- What is before a token that is behind a semicolon, starts a statement or closes the row. -/
  | skipped : Part Unit

/-- A parameter after `count` others.  Each one too many is noted. -/
def parameter (count : Nat) : Reader Token := do
  if maxArguments ≤ count then report (← current) .tooManyParameters
  expect .name .parameterName

def Part.read {α : Type} : Part α → Reader α
  | .expression => do
    let target ← Part.binary 1 |>.read
    match ← accept? .equal with
    | none => return target
    | some equals =>
      let value ← Part.expression |>.read
      match target with
      | .read _ name => build (.assign · name value)
      | .get _ object name => build (.set · object name value)
      | _ =>
        report equals .invalidTarget
        return target
  | .binary least => do
    let left ← Part.unary |>.read
    Part.climb least left |>.read
  | .climb least left => do
    let op ← current
    match op.kind.precedence? with
    | none => return left
    | some precedence =>
      if precedence < least then return left
      else
        let _ ← advance
        let right ← Part.binary (precedence + 1) |>.read
        let joined ← build (left.join op right)
        Part.climb least joined |>.read
  | .unary => do
    let op ← current
    match op.kind with
    | .bang | .minus =>
      let _ ← advance
      let right ← Part.unary |>.read
      build (.unary · op right)
    | _ => Part.call |>.read
  | .call => do
    let e ← Part.primary |>.read
    Part.trailers e |>.read
  | .trailers e => do
    match ← accept? .leftParen with
    | some _ =>
      let call ← Part.finishCall e |>.read
      Part.trailers call |>.read
    | none =>
      match ← accept? .dot with
      | some _ =>
        let name ← expect .name .propertyName
        let property ← build (.get · e name)
        Part.trailers property |>.read
      | none => return e
  | .finishCall callee => do
    let args ← if ← check .rightParen then pure [] else Part.arguments 0 |>.read
    let paren ← expect .rightParen .argumentEnd
    build (.call · callee paren args)
  | .arguments count => do
    let first ← Part.argument count |>.read
    match ← accept? .comma with
    | some _ => return first :: (← Part.arguments (count + 1) |>.read)
    | none => return [first]
  | .argument count => do
    if maxArguments ≤ count then report (← current) .tooManyArguments
    Part.expression |>.read
  | .primary => do
    let t ← current
    match t.kind with
    | .kwFalse => let _ ← advance; build (.literal · (.bool false))
    | .kwTrue => let _ ← advance; build (.literal · (.bool true))
    | .kwNil => let _ ← advance; build (.literal · .nil)
    | .number => let _ ← advance; build (.literal · t.literal)
    | .string => let _ ← advance; build (.literal · t.literal)
    | .kwSuper =>
      let _ ← advance
      let _ ← expect .dot .superDot
      let method ← expect .name .superMethod
      build (.super · t method)
    | .kwThis => let _ ← advance; build (.self · t)
    | .name => let _ ← advance; build (.read · t)
    | .leftParen =>
      let _ ← advance
      let inner ← Part.expression |>.read
      let _ ← expect .rightParen .groupEnd
      build (.grouping · inner)
    | _ => refuse .expression
  | .parameters count => do
    let first ← parameter count
    match ← accept? .comma with
    | some _ => return first :: (← Part.parameters (count + 1) |>.read)
    | none => return [first]
  | .skipped => do
    if ← atEnd then return ()
    else if (← previous).kind = .semicolon then return ()
    else if (← current).kind.startsStatement then return ()
    else
      let _ ← advance
      Part.skipped |>.read
partial_fixpoint

def expression : Reader Expr := Part.expression.read

def binary (least : Nat) : Reader Expr := (Part.binary least).read

def climb (least : Nat) (left : Expr) : Reader Expr := (Part.climb least left).read

def unary : Reader Expr := Part.unary.read

def call : Reader Expr := Part.call.read

def trailers (e : Expr) : Reader Expr := (Part.trailers e).read

def finishCall (callee : Expr) : Reader Expr := (Part.finishCall callee).read

def arguments (count : Nat) : Reader (List Expr) := (Part.arguments count).read

def argument (count : Nat) : Reader Expr := (Part.argument count).read

def primary : Reader Expr := Part.primary.read

/-! ## Statements -/

def parameters (count : Nat) : Reader (List Token) := (Part.parameters count).read

def superclass : Reader (Option (NodeId × Token)) := do
  match ← accept? .less with
  | none => return none
  | some _ =>
    let name ← expect .name .superclassName
    return some (← number (.read · name), name)

def varDecl : Reader Stmt := do
  let name ← expect .name .variableName
  let initial ← match ← accept? .equal with
    | some _ => some <$> expression
    | none => pure none
  let _ ← expect .semicolon .variableEnd
  return .var name initial

def expressionStmt : Reader Stmt := do
  let value ← expression
  let _ ← expect .semicolon .expressionEnd
  return .expression value

/-- An expression, unless the place holds the token that would follow it. -/
def optionalExpression (follower : Token.Kind) : Reader (Option Expr) := do
  if ← check follower then return none else some <$> expression

def forInitial : Reader (Option Stmt) := do
  match ← accept? .semicolon with
  | some _ => return none
  | none =>
    match ← accept? .kwVar with
    | some _ => some <$> varDecl
    | none => some <$> expressionStmt

def printStmt : Reader Stmt := do
  let value ← expression
  let _ ← expect .semicolon .printEnd
  return .print value

def returnStmt : Reader Stmt := do
  let keyword ← previous
  let value ← optionalExpression .semicolon
  let _ ← expect .semicolon .returnEnd
  return .ret keyword value

/-- Moves on to a token that is behind a semicolon, starts a statement or closes the row. -/
def seek : Reader Unit := Part.skipped.read

/-- Skips the token of a problem and what follows it up to the next start of a statement. -/
def synchronize : Reader Unit := do
  let _ ← advance
  seek

/-- The condition of a `for` loop.  One that is left out is built behind the body. -/
def forCondition : Option Expr → Reader Expr
  | some condition => return condition
  | none => build (.literal · (.bool true))

/-- The rules of statements and declarations, each with what reading it gives. -/
inductive Form : Type → Type where
  | statement : Form Stmt
  /-- The rest of a `for` loop, after its keyword. -/
  | forStmt : Form Stmt
  /-- The rest of an `if`, after its keyword. -/
  | ifStmt : Form Stmt
  /-- The rest of a `while` loop, after its keyword. -/
  | whileStmt : Form Stmt
  /-- The rest of a block, after its opening brace. -/
  | block : Form (List Stmt)
  /-- Declarations up to a token that closes them, or to the end. -/
  | declarations (closes : Token → Bool) : Form (List Stmt)
  /-- A function or method from its name on. -/
  | funDecl (callee : Callee) : Form FunDecl
  /-- The methods up to the closing brace of a class, or to the end. -/
  | methods : Form (List FunDecl)
  /-- The rest of a class, after its keyword. -/
  | classDecl : Form Stmt
  /-- A declaration, if nothing is wrong with it. -/
  | declarationForm : Form Stmt
  /-- A declaration.  One that breaks off is dropped, and the place moves on to where the next one
  seems to start. -/
  | declaration : Form (Option Stmt)

def Form.read {α : Type} : Form α → Reader α
  | .statement => do
    let t ← current
    match t.kind with
    | .kwFor => let _ ← advance; Form.forStmt |>.read
    | .kwIf => let _ ← advance; Form.ifStmt |>.read
    | .kwPrint => let _ ← advance; printStmt
    | .kwReturn => let _ ← advance; returnStmt
    | .kwWhile => let _ ← advance; Form.whileStmt |>.read
    | .leftBrace => let _ ← advance; return .block (← Form.block |>.read)
    | _ => expressionStmt
  | .forStmt => do
    let _ ← expect .leftParen .forClauses
    let initial ← forInitial
    let condition ← optionalExpression .semicolon
    let _ ← expect .semicolon .forConditionEnd
    let increment ← optionalExpression .rightParen
    let _ ← expect .rightParen .forClausesEnd
    let body ← Form.statement |>.read
    return .forLoop initial (← forCondition condition) increment body
  | .ifStmt => do
    let _ ← expect .leftParen .ifCondition
    let condition ← expression
    let _ ← expect .rightParen .ifConditionEnd
    let yes ← Form.statement |>.read
    match ← accept? .kwElse with
    | some _ => return .cond condition yes (some (← Form.statement |>.read))
    | none => return .cond condition yes none
  | .whileStmt => do
    let _ ← expect .leftParen .whileCondition
    let condition ← expression
    let _ ← expect .rightParen .whileConditionEnd
    return .loop condition (← Form.statement |>.read)
  | .block => do
    let body ← Form.declarations (fun t => decide (t.kind = .rightBrace)) |>.read
    let _ ← expect .rightBrace .blockEnd
    return body
  | .declarations closes => do
    if ← atEnd then return []
    else if closes (← current) then return []
    else
      let first ← Form.declaration |>.read
      return first.toList ++ (← Form.declarations closes |>.read)
  | .funDecl callee => do
    let name ← expect .name (.calleeName callee)
    let _ ← expect .leftParen (.parameterList callee)
    let params ← if ← check .rightParen then pure [] else parameters 0
    let _ ← expect .rightParen .parameterEnd
    let _ ← expect .leftBrace (.calleeBody callee)
    let body ← Form.block |>.read
    return .mk name params body
  | .methods => do
    if ← atEnd then return []
    else if ← check .rightBrace then return []
    else
      let first ← Form.funDecl .method |>.read
      return first :: (← Form.methods |>.read)
  | .classDecl => do
    let name ← expect .name .className
    let superclass ← superclass
    let _ ← expect .leftBrace .classBody
    let methods ← Form.methods |>.read
    let _ ← expect .rightBrace .classEnd
    return .classDecl name superclass methods
  | .declarationForm => do
    let t ← current
    match t.kind with
    | .kwClass => let _ ← advance; Form.classDecl |>.read
    | .kwFun => let _ ← advance; .function <$> (Form.funDecl .function |>.read)
    | .kwVar => let _ ← advance; varDecl
    | _ => Form.statement |>.read
  | .declaration => fun row place => do
    match ← Form.declarationForm |>.read row place with
    | (.ok stmt, place) => return (.ok (some stmt), place)
    | (.error .aborted, place) => (do synchronize; return none : Reader (Option Stmt)) row place
    | (.error .outside, place) => return (.error .outside, place)
partial_fixpoint

def statement : Reader Stmt := Form.statement.read

def forStmt : Reader Stmt := Form.forStmt.read

def ifStmt : Reader Stmt := Form.ifStmt.read

def whileStmt : Reader Stmt := Form.whileStmt.read

def block : Reader (List Stmt) := Form.block.read

def declarations (closes : Token → Bool) : Reader (List Stmt) := (Form.declarations closes).read

def funDecl (callee : Callee) : Reader FunDecl := (Form.funDecl callee).read

def methods : Reader (List FunDecl) := Form.methods.read

def classDecl : Reader Stmt := Form.classDecl.read

def declarationForm : Reader Stmt := Form.declarationForm.read

def declaration : Reader (Option Stmt) := Form.declaration.read

-- Proved together, so that the equations of both kinds of rules are derived here and only once.
mutual

theorem binary_eq (least : Nat) : binary least = unary >>= climb least := by
  rw [binary, Part.read]
  rfl

theorem declarations_eq (closes : Token → Bool) :
    declarations closes = do
      if ← atEnd then return []
      else if closes (← current) then return []
      else
        let first ← declaration
        return first.toList ++ (← declarations closes) := by
  conv => lhs; rw [declarations, Form.read]
  rfl

end

def program : Reader (List Stmt) :=
  declarations fun _ => false

/-- The expression that the whole row is. -/
def expressionForm : Reader Expr := do
  let e ← expression
  let _ ← expect .ending .endOfExpression
  return e

/-- The expression that the whole row is, if it can be read as one. -/
def wholeExpression : Reader (Option Expr) :=
  tryCatch (some <$> expressionForm) fun
    | .aborted => return none
    | .outside => throw .outside

end Row

end Lox
