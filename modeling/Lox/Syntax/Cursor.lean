import Lox.Diagnostic
import Lox.Syntax

/-!
A place in a row of tokens, and the steps that move it.

A step either gives a result or is aborted; in both cases the tokens it took stay taken and the
problems it found stay found.
-/

namespace Lox

/-- What reading has built so far: the nodes, the latest first, and the number of the next one. -/
structure Ledger where
  nextId : NodeId
  built : List Expr

namespace Ledger

/-- The ledger of a source, whose nodes are numbered from `nextId`. -/
def start (nextId : NodeId) : Ledger :=
  ⟨nextId, []⟩

/-- Enters a node under the next number. -/
def build (ledger : Ledger) (node : NodeId → Expr) : Ledger :=
  ⟨ledger.nextId + 1, node ledger.nextId :: ledger.built⟩

end Ledger

structure Cursor where
  /-- The tokens ahead, without the closing one. -/
  tokens : List Token
  /-- The token that closes the source. -/
  ending : Token
  ledger : Ledger
  /-- The problems found so far, in order. -/
  problems : List Diagnostic

/-- The token that the cursor stands on. -/
def Cursor.current (c : Cursor) : Token :=
  c.tokens.headD c.ending

/-- A step over tokens that gives an `α` or is aborted. -/
abbrev Parse (α : Type) : Type := OptionT (StateM Cursor) α

namespace Parse

def current : Parse Token := do
  return (← get).current

def atEnd : Parse Bool := do
  return (← get).tokens.isEmpty

/-- Whether the cursor stands on a token of a kind. -/
def check (kind : Token.Kind) : Parse Bool := do
  match (← get).tokens with
  | [] => return false
  | t :: _ => return decide (t.kind = kind)

/-- Takes the token that the cursor stands on.  The closing token is never used up. -/
def advance : Parse Token := do
  let t ← current
  modify fun ⟨tokens, ending, ledger, problems⟩ => ⟨tokens.tail, ending, ledger, problems⟩
  return t

/-- Takes the next token if it is of a kind. -/
def accept? (kind : Token.Kind) : Parse (Option Token) := do
  if ← check kind then return some (← advance) else return none

/-- Notes a problem and goes on. -/
def report (t : Token) (problem : Problem) : Parse Unit :=
  modify fun c => { c with problems := c.problems ++ [.atToken t problem] }

def abort {α : Type} : Parse α :=
  failure

/-- Notes what should stand at the cursor, and gives up. -/
def refuse {α : Type} (what : Expectation) : Parse α := do
  report (← current) (.expected what)
  abort

/-- Takes the next token, which must be of a kind. -/
def expect (kind : Token.Kind) (what : Expectation) : Parse Token := do
  match ← accept? kind with
  | some t => return t
  | none => refuse what

/-- Insists that no token is left. -/
def expectEnd (what : Expectation) : Parse Unit := do
  if ← atEnd then return () else refuse what

/-- The number of a new node. -/
def number (node : NodeId → Expr) : Parse NodeId :=
  modifyGet fun ⟨tokens, ending, ⟨nextId, built⟩, problems⟩ =>
    (nextId, ⟨tokens, ending, ⟨nextId + 1, node nextId :: built⟩, problems⟩)

/-- A new node. -/
def build (node : NodeId → Expr) : Parse Expr := do
  return node (← number node)

end Parse

end Lox
