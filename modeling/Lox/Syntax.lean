import Lox.Token

/-!
The trees of Lox programs.

Every expression carries a number of its own.  Under the number of one that refers to a variable, the
distance of its declaration is kept.  The grammar never leaves a hole in a tree nor puts a statement in the
place of an expression; trees put together by hand can, and `missing` and `misplaced` stand for
what is there then.
-/

namespace Lox

/-- The number of an expression in the programs of a session. -/
abbrev NodeId := Nat

mutual

inductive Expr where
  | literal (id : NodeId) (value : Literal)
  | grouping (id : NodeId) (inner : Expr)
  | unary (id : NodeId) (op : Token) (right : Expr)
  | binary (id : NodeId) (left : Expr) (op : Token) (right : Expr)
  | logical (id : NodeId) (left : Expr) (op : Token) (right : Expr)
  | read (id : NodeId) (name : Token)
  | assign (id : NodeId) (name : Token) (value : Expr)
  | call (id : NodeId) (callee : Expr) (paren : Token) (arguments : List Expr)
  | get (id : NodeId) (object : Expr) (name : Token)
  | set (id : NodeId) (object : Expr) (name : Token) (value : Expr)
  | self (id : NodeId) (keyword : Token)
  | super (id : NodeId) (keyword method : Token)
  | missing
  | misplaced (stmt : Stmt)

inductive Stmt where
  | expression (value : Expr)
  | print (value : Expr)
  | var (name : Token) (initial : Option Expr)
  | block (body : List Stmt)
  | cond (condition : Expr) (yes : Stmt) (no : Option Stmt)
  | loop (condition : Expr) (body : Stmt)
  | function (decl : FunDecl)
  | ret (keyword : Token) (value : Option Expr)
  | classDecl (name : Token) (superclass : Option (NodeId × Token)) (methods : List FunDecl)
  | missing
  | misplaced (expr : Expr)

/-- A function or method: its name, its parameters and its body. -/
inductive FunDecl where
  | mk (name : Token) (params : List Token) (body : List Stmt)

end

instance : Inhabited Expr := ⟨.missing⟩

instance : Inhabited Stmt := ⟨.missing⟩

instance : Inhabited FunDecl := ⟨.mk (.atEnd 0) [] []⟩

namespace FunDecl

def name : FunDecl → Token
  | .mk name _ _ => name

def params : FunDecl → List Token
  | .mk _ params _ => params

def body : FunDecl → List Stmt
  | .mk _ _ body => body

def arity (f : FunDecl) : Nat :=
  f.params.length

end FunDecl

/-- The name that makes a method an initializer. -/
def initializerName : String := "init"

/-- What a declared function is for. -/
inductive Role where
  | function
  | method
  /-- The method that sets up new instances. -/
  | initializer
  deriving DecidableEq, Repr

/-- What a declaration among the methods of a class is for. -/
def Role.ofMethod (decl : FunDecl) : Role :=
  if decl.name.lexeme = initializerName then .initializer else .method

/-- The word for a place of a tree where nothing is. -/
def missingSort : String := "NoneType"

mutual

/-- The word for the sort of an expression. -/
def Expr.sort : Expr → String
  | .literal _ _ => "Literal"
  | .grouping _ _ => "Grouping"
  | .unary _ _ _ => "Unary"
  | .binary _ _ _ _ => "Binary"
  | .logical _ _ _ _ => "Logical"
  | .read _ _ => "Variable"
  | .assign _ _ _ => "Assign"
  | .call _ _ _ _ => "Call"
  | .get _ _ _ => "Get"
  | .set _ _ _ _ => "Set"
  | .self _ _ => "This"
  | .super _ _ _ => "Super"
  | .missing => missingSort
  | .misplaced stmt => stmt.sort

/-- The word for the sort of a statement. -/
def Stmt.sort : Stmt → String
  | .expression _ => "Expression"
  | .print _ => "Print"
  | .var _ _ => "Var"
  | .block _ => "Block"
  | .cond _ _ _ => "If"
  | .loop _ _ => "While"
  | .function _ => "Function"
  | .ret _ _ => "Return"
  | .classDecl _ _ _ => "Class"
  | .missing => missingSort
  | .misplaced expr => expr.sort

end

/-- What is wrong with a tree put together by hand. -/
inductive Malformed where
  /-- There is no text for a tree with a hole. -/
  | unprintable
  | unresolvableExpr (sort : String)
  | unresolvableStmt (sort : String)
  deriving DecidableEq, Repr

def Malformed.message : Malformed → String
  | .unprintable => s!"cannot print expression: {missingSort}"
  | .unresolvableExpr sort => s!"cannot resolve expression: {sort}"
  | .unresolvableStmt sort => s!"cannot resolve statement: {sort}"

end Lox
