import Lox.Syntax.Cursor

/-!
The grammar of expressions.

The functions take a bound `n` on the number of tokens ahead; it bounds their recursion, and they do
not depend on it otherwise.  `nested` reads an expression inside another one, behind at least one
token of it.
-/

namespace Lox

/-- How tightly an operator between two operands binds; all of them group to the left. -/
def Token.Kind.precedence? : Token.Kind → Option Nat
  | .kwOr => some 1
  | .kwAnd => some 2
  | .equalEqual => some 3
  | .bangEqual => some 3
  | .greater => some 4
  | .greaterEqual => some 4
  | .less => some 4
  | .lessEqual => some 4
  | .plus => some 5
  | .minus => some 5
  | .star => some 6
  | .slash => some 6
  | _ => none

/-- An operator with its operands: `and` and `or` may leave the right one alone. -/
def Expr.join (left : Expr) (op : Token) (right : Expr) (id : NodeId) : Expr :=
  if op.kind = .kwAnd ∨ op.kind = .kwOr then .logical id left op right else .binary id left op right

namespace Parse

/-- An argument after `count` others.  Each one too many is noted. -/
def argument (nested : Parse Expr) (count : Nat) : Parse Expr := do
  if maxArguments ≤ count then report (← current) .tooManyArguments
  nested

/-- Arguments with commas between them, after `count` others. -/
def arguments (nested : Parse Expr) : Nat → Nat → Parse (List Expr)
  | 0, count => return [← argument nested count]
  | n + 1, count => do
    let first ← argument nested count
    match ← accept? .comma with
    | some _ => return first :: (← arguments nested n (count + 1))
    | none => return [first]

/-- The rest of a call, after its opening parenthesis. -/
def finishCall (nested : Parse Expr) (n : Nat) (callee : Expr) : Parse Expr := do
  let args ← if ← check .rightParen then pure [] else arguments nested n 0
  let paren ← expect .rightParen .argumentEnd
  build (.call · callee paren args)

def primary (nested : Parse Expr) : Parse Expr := do
  let t ← current
  match t.kind with
  | .kwFalse => let _ ← advance; build (.literal · (.bool false))
  | .kwTrue => let _ ← advance; build (.literal · (.bool true))
  | .kwNil => let _ ← advance; build (.literal · .nil)
  | .number => let _ ← advance; build (.literal · t.literal)
  | .string => let _ ← advance; build (.literal · t.literal)
  | .kwSuper =>
    let _ ← advance
    let _ ← expect .dot .superDot
    let method ← expect .name .superMethod
    build (.super · t method)
  | .kwThis => let _ ← advance; build (.self · t)
  | .name => let _ ← advance; build (.read · t)
  | .leftParen =>
    let _ ← advance
    let inner ← nested
    let _ ← expect .rightParen .groupEnd
    build (.grouping · inner)
  | _ => refuse .expression

/-- The calls and property names that follow an expression. -/
def trailers (nested : Parse Expr) : Nat → Expr → Parse Expr
  | 0, e => return e
  | n + 1, e => do
    match ← accept? .leftParen with
    | some _ => trailers nested n (← finishCall nested n e)
    | none =>
      match ← accept? .dot with
      | some _ =>
        let name ← expect .name .propertyName
        trailers nested n (← build (.get · e name))
      | none => return e

def call (nested : Parse Expr) (n : Nat) : Parse Expr := do
  trailers nested n (← primary nested)

/-- Operators before an operand. -/
def unary (operand : Parse Expr) : Nat → Parse Expr
  | 0 => operand
  | n + 1 => do
    let op ← current
    match op.kind with
    | .bang =>
      let _ ← advance
      let right ← unary operand n
      build (.unary · op right)
    | .minus =>
      let _ ← advance
      let right ← unary operand n
      build (.unary · op right)
    | _ => operand

mutual

/-- Operands joined by operators that bind at least as tightly as `least`. -/
def binary (operand : Parse Expr) : Nat → Nat → Parse Expr
  | 0, _ => operand
  | n + 1, least => do climb operand n least (← operand)

/-- Takes operators that bind at least as tightly as `least` after a left operand. -/
def climb (operand : Parse Expr) : Nat → Nat → Expr → Parse Expr
  | 0, _, left => return left
  | n + 1, least, left => do
    let op ← current
    match op.kind.precedence? with
    | none => return left
    | some precedence =>
      if precedence < least then return left
      else
        let _ ← advance
        let right ← binary operand n (precedence + 1)
        climb operand n least (← build (left.join op right))

end

/-- An assignment, or an expression that nothing is assigned to. -/
def assignment (nested : Parse Expr) (n : Nat) : Parse Expr := do
  let target ← binary (unary (call nested n) n) n 1
  match ← accept? .equal with
  | none => return target
  | some equals =>
    let value ← nested
    match target with
    | .read _ name => build (.assign · name value)
    | .get _ object name => build (.set · object name value)
    | _ =>
      report equals .invalidTarget
      return target

/-- An expression, with at most `n` tokens ahead. -/
def expression : Nat → Parse Expr
  | 0 => refuse .expression
  | n + 1 => assignment (expression n) (n + 1)

end Parse

end Lox
