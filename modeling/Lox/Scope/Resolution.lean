import Lox.Scope

/-!
The distance from every reference to the scope of its declaration, and the rules of scoping that a
program breaks.

A reference that no open scope declares has no distance: it is global.
-/

namespace Lox

inductive ReferenceKind where
  | read
  | assign
  | self
  | super
  deriving DecidableEq, Repr

/-- The word for the sort of a reference. -/
def ReferenceKind.sort : ReferenceKind → String
  | .read => "Variable"
  | .assign => "Assign"
  | .self => "This"
  | .super => "Super"

/-- A reference to a name that is declared `hops` scopes out. -/
structure Reference where
  id : NodeId
  kind : ReferenceKind
  name : Token
  hops : Nat
  deriving DecidableEq

/-- What a walk over a tree finds, in the order of the walk. -/
structure Findings where
  references : List Reference := []
  problems : List Diagnostic := []
  /-- The first node that is not where it belongs. -/
  flaw : Option Malformed := none

namespace Findings

protected def append (a b : Findings) : Findings :=
  ⟨a.references ++ b.references, a.problems ++ b.problems, a.flaw.or b.flaw⟩

instance : Append Findings := ⟨Findings.append⟩

def ofProblems (problems : List Diagnostic) : Findings :=
  { problems := problems }

def ofFlaw (flaw : Malformed) : Findings :=
  { flaw := some flaw }

/-- A reference, if an open scope declares its name. -/
def refer (scopes : Scopes) (id : NodeId) (kind : ReferenceKind) (name : Token) : Findings :=
  match scopes.hops? name.lexeme with
  | some hops => { references := [⟨id, kind, name, hops⟩] }
  | none => {}

end Findings

open Findings

/-- What is wrong with `super` in a class context. -/
def superProblems (keyword : Token) : ClassContext → List Diagnostic
  | .outside => [.atToken keyword .superOutsideClass]
  | .plain => [.atToken keyword .superWithoutSuperclass]
  | .subclass => []

/-- What is wrong with a `return`, with or without a value, in a function or outside of any. -/
def returnProblems (keyword : Token) (hasValue : Bool) : Option Role → List Diagnostic
  | none => [.atToken keyword .returnOutsideFunction]
  | some .initializer => if hasValue then [.atToken keyword .valueFromInitializer] else []
  | some _ => []

/-- Finds a read of a name. -/
def resolveRead (scopes : Scopes) (id : NodeId) (name : Token) : Findings :=
  ofProblems (scopes.prematureRead name) ++ refer scopes id .read name

/-- Declares the parameters of a function in its scope. -/
def resolveParams (scopes : Scopes) : List Token → Findings × Scopes
  | [] => ({}, scopes)
  | param :: params =>
    let (later, final) := resolveParams ((scopes.declare param).define param) params
    (ofProblems (scopes.redeclaration param) ++ later, final)

/-- What is wrong with the superclass of a class. -/
def superclassProblems (name superclass : Token) : List Diagnostic :=
  if superclass.lexeme = name.lexeme then [.atToken superclass .inheritsItself] else []

/-- The scope of `super`, around the scope of `this` in a class with a superclass. -/
def superScope : Scope := [("super", true)]

/-- The scope of `this`, around the methods of a class. -/
def thisScope : Scope := [("this", true)]

mutual

/-- Finds the references of an expression.  No expression declares anything. -/
def Expr.resolve (context : Context) (scopes : Scopes) : Expr → Findings
  | .literal _ _ => {}
  | .grouping _ inner => inner.resolve context scopes
  | .unary _ _ right => right.resolve context scopes
  | .binary _ left _ right => left.resolve context scopes ++ right.resolve context scopes
  | .logical _ left _ right => left.resolve context scopes ++ right.resolve context scopes
  | .read id name => resolveRead scopes id name
  | .assign id name value => value.resolve context scopes ++ refer scopes id .assign name
  | .call _ callee _ arguments =>
    callee.resolve context scopes ++ resolveArguments context scopes arguments
  | .get _ object _ => object.resolve context scopes
  | .set _ object _ value => value.resolve context scopes ++ object.resolve context scopes
  | .self id keyword =>
    if context.inClass = .outside then ofProblems [.atToken keyword .thisOutsideClass]
    else refer scopes id .self keyword
  | .super id keyword _ =>
    ofProblems (superProblems keyword context.inClass) ++ refer scopes id .super keyword
  | .missing => ofFlaw (.unresolvableExpr missingSort)
  | .misplaced stmt => ofFlaw (.unresolvableExpr stmt.sort)

def resolveArguments (context : Context) (scopes : Scopes) : List Expr → Findings
  | [] => {}
  | argument :: arguments =>
    argument.resolve context scopes ++ resolveArguments context scopes arguments

/-- Finds the references of a statement, and the scopes with the names that it declares. -/
def Stmt.resolve (context : Context) (scopes : Scopes) : Stmt → Findings × Scopes
  | .expression value => (value.resolve context scopes, scopes)
  | .print value => (value.resolve context scopes, scopes)
  | .var name none =>
    (ofProblems (scopes.redeclaration name), (scopes.declare name).define name)
  | .var name (some value) =>
    (ofProblems (scopes.redeclaration name) ++ value.resolve context (scopes.declare name),
      (scopes.declare name).define name)
  | .block body => ((resolveBody context ([] :: scopes) body).1, scopes)
  | .cond condition yes none =>
    let (found, after) := yes.resolve context scopes
    (condition.resolve context scopes ++ found, after)
  | .cond condition yes (some no) =>
    let (foundYes, afterYes) := yes.resolve context scopes
    let (foundNo, afterNo) := no.resolve context afterYes
    (condition.resolve context scopes ++ foundYes ++ foundNo, afterNo)
  | .loop condition body =>
    let (found, after) := body.resolve context scopes
    (condition.resolve context scopes ++ found, after)
  | .function decl =>
    let declared := (scopes.declare decl.name).define decl.name
    (ofProblems (scopes.redeclaration decl.name) ++
        decl.resolve { context with inFunction := some .function } declared,
      declared)
  | .ret keyword none => (ofProblems (returnProblems keyword false context.inFunction), scopes)
  | .ret keyword (some value) =>
    (ofProblems (returnProblems keyword true context.inFunction) ++ value.resolve context scopes,
      scopes)
  | .classDecl name none methods =>
    let declared := (scopes.declare name).define name
    (ofProblems (scopes.redeclaration name) ++
        resolveMethods { context with inClass := .plain } (thisScope :: declared) methods,
      declared)
  | .classDecl name (some (id, superclass)) methods =>
    let declared := (scopes.declare name).define name
    (ofProblems (scopes.redeclaration name ++ superclassProblems name superclass) ++
        resolveRead declared id superclass ++
        resolveMethods { context with inClass := .subclass }
          (thisScope :: superScope :: declared) methods,
      declared)
  | .missing => (ofFlaw (.unresolvableStmt missingSort), scopes)
  | .misplaced expr => (ofFlaw (.unresolvableStmt expr.sort), scopes)

/-- Finds the references of statements one after the other. -/
def resolveBody (context : Context) (scopes : Scopes) : List Stmt → Findings × Scopes
  | [] => ({}, scopes)
  | stmt :: body =>
    let (found, after) := stmt.resolve context scopes
    let (later, final) := resolveBody context after body
    (found ++ later, final)

/-- Parameters and body of a function share one scope. -/
def FunDecl.resolve (context : Context) (scopes : Scopes) : FunDecl → Findings
  | .mk _ params body =>
    let (found, inner) := resolveParams ([] :: scopes) params
    found ++ (resolveBody context inner body).1

def resolveMethods (context : Context) (scopes : Scopes) : List FunDecl → Findings
  | [] => {}
  | method :: methods =>
    method.resolve { context with inFunction := some (.ofMethod method) } scopes ++
      resolveMethods context scopes methods

end

/-- What a program finds at the top level. -/
def resolveProgram (program : List Stmt) : Findings :=
  (resolveBody {} [] program).1

/-- The findings of a program whose nodes are all where they belong. -/
def Findings.sound? (found : Findings) : Except Malformed Findings :=
  match found.flaw with
  | some flaw => .error flaw
  | none => .ok found

end Lox
