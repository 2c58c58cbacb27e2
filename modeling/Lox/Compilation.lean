import Lox.Scope.Resolution
import Lox.Syntax.Statement

/-!
Programs and expressions made ready to run, or refused.
-/

namespace Lox

/-- What becomes of a source before it runs. -/
structure Compilation where
  scan : Scan
  /-- The statements that could be read, even from a source with problems. -/
  statements : List Stmt
  /-- How far out the names of a program are declared, if its grammar has no problem. -/
  references : List Reference
  /-- The problems of its words and grammar; if there are none, those of its scopes. -/
  problems : List Diagnostic
  /-- Whether the words and the grammar have no problem, so that scopes were looked at. -/
  resolved : Bool
  /-- The number of the next node. -/
  nextId : NodeId

/-- Reads a program, whose nodes are numbered from `nextId`. -/
def compile (source : String) (nextId : NodeId) : Compilation :=
  let scan := Scan.ofSource source
  let reading := scan.readProgram nextId
  let problems := scan.problems ++ reading.problems
  if problems.isEmpty then
    let found := resolveProgram reading.tree
    ⟨scan, reading.tree, found.references, found.problems, true, reading.nextId⟩
  else ⟨scan, reading.tree, [], problems, false, reading.nextId⟩

/-- Reads an expression; its problems, if there are any, are those that a program would have. -/
def compileExpression (source : String) (nextId : NodeId) :
    Reading (Except (List Diagnostic) Expr) :=
  let scan := Scan.ofSource source
  let reading := scan.readExpression nextId
  let problems := scan.problems ++ reading.problems
  match reading.tree with
  | some e =>
    let problems := if problems.isEmpty then (e.resolve {} []).problems else problems
    ⟨if problems.isEmpty then .ok e else .error problems, problems, reading.ledger⟩
  | none => ⟨.error problems, problems, reading.ledger⟩

end Lox
