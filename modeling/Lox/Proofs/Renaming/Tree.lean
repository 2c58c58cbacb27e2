import Lox.Proofs.Scoping.Walk

/-!
# Renamed variables

A variable that is declared in a block, or is a parameter of a function, may be given another name.
Then the declaration changes, and so does every reference that resolution leads to it.  References to
variables of the same name in other scopes stay as they are.
-/

namespace Lox

/-! ## Scopes of a program -/

/-- A block, or a function with its parameters. -/
structure ScopeText where
  params : List Token
  body : List Stmt

mutual

/-- The blocks and functions in a statement, in the order in which they begin. -/
def Stmt.scopeTexts : Stmt → List ScopeText
  | .block body => ⟨[], body⟩ :: bodyScopeTexts body
  | .cond _ yes none => yes.scopeTexts
  | .cond _ yes (some no) => yes.scopeTexts ++ no.scopeTexts
  | .loop _ body => body.scopeTexts
  | .function decl => decl.scopeTexts
  | .classDecl _ _ methods => methodScopeTexts methods
  | _ => []

def bodyScopeTexts : List Stmt → List ScopeText
  | [] => []
  | stmt :: body => stmt.scopeTexts ++ bodyScopeTexts body

def FunDecl.scopeTexts : FunDecl → List ScopeText
  | .mk _ params body => ⟨params, body⟩ :: bodyScopeTexts body

def methodScopeTexts : List FunDecl → List ScopeText
  | [] => []
  | method :: methods => method.scopeTexts ++ methodScopeTexts methods

end

/-- Whether a name is declared in a scope by `var` or as a parameter. -/
def ScopeText.HasVariable (text : ScopeText) (name : String) : Prop :=
  (∃ param ∈ text.params, param.lexeme = name) ∨
    ∃ t initial, Stmt.var t initial ∈ text.body ∧ t.lexeme = name

/-- The names of the functions and classes that a statement declares in the scope that it stands in. -/
def Stmt.titles : Stmt → List String
  | .function decl => [decl.name.lexeme]
  | .classDecl name _ _ => [name.lexeme]
  | _ => []

theorem Stmt.titles_of_declares {s : Stmt} (h : s.declares = false) : s.titles = [] := by
  cases s with
  | function _ => cases h
  | classDecl _ _ _ => cases h
  | _ => rfl

/-! ## Names of variables -/

mutual

def Expr.variables : Expr → List String
  | .literal _ _ => []
  | .grouping _ inner => inner.variables
  | .unary _ _ right => right.variables
  | .binary _ left _ right => left.variables ++ right.variables
  | .logical _ left _ right => left.variables ++ right.variables
  | .read _ name => [name.lexeme]
  | .assign _ name value => name.lexeme :: value.variables
  | .call _ callee _ arguments => callee.variables ++ argumentVariables arguments
  | .get _ object _ => object.variables
  | .set _ object _ value => object.variables ++ value.variables
  | .self _ _ => []
  | .super _ _ _ => []
  | .missing => []
  | .misplaced _ => []

def argumentVariables : List Expr → List String
  | [] => []
  | argument :: arguments => argument.variables ++ argumentVariables arguments

end

mutual

/-- The names that are declared or referred to in a statement. -/
def Stmt.variables : Stmt → List String
  | .expression value => value.variables
  | .print value => value.variables
  | .var name none => [name.lexeme]
  | .var name (some value) => name.lexeme :: value.variables
  | .block body => bodyVariables body
  | .cond condition yes none => condition.variables ++ yes.variables
  | .cond condition yes (some no) => condition.variables ++ yes.variables ++ no.variables
  | .loop condition body => condition.variables ++ body.variables
  | .function decl => decl.name.lexeme :: decl.variables
  | .ret _ none => []
  | .ret _ (some value) => value.variables
  | .classDecl name none methods => name.lexeme :: methodVariables methods
  | .classDecl name (some (_, superclass)) methods =>
      name.lexeme :: superclass.lexeme :: methodVariables methods
  | .missing => []
  | .misplaced _ => []

def bodyVariables : List Stmt → List String
  | [] => []
  | stmt :: body => stmt.variables ++ bodyVariables body

def FunDecl.variables : FunDecl → List String
  | .mk _ params body => params.map Token.lexeme ++ bodyVariables body

def methodVariables : List FunDecl → List String
  | [] => []
  | method :: methods => method.variables ++ methodVariables methods

end

/-! ## Renaming -/

/-- A new name for a variable, in a program with these distances of references. -/
structure Renaming where
  old : String
  new : String
  table : NodeId → Option Nat

namespace Renaming

variable (r : Renaming)

/-- The token of a name that may be one of the renamed variable. -/
def token (here : Bool) (t : Token) : Token :=
  if here = true ∧ t.lexeme = r.old then { t with lexeme := r.new } else t

/-- Whether the variable is renamed in the scope at a distance.  The open scopes are listed from the
innermost out. -/
def markAt (marks : List Bool) : Option Nat → Bool
  | some hops => marks[hops]?.getD false
  | none => false

/-- Whether a reference leads to a scope in which the variable is renamed. -/
def leads (marks : List Bool) (id : NodeId) : Bool :=
  markAt marks (r.table id)

mutual

def expr (marks : List Bool) : Expr → Expr
  | .literal id value => .literal id value
  | .grouping id inner => .grouping id (expr marks inner)
  | .unary id op right => .unary id op (expr marks right)
  | .binary id left op right => .binary id (expr marks left) op (expr marks right)
  | .logical id left op right => .logical id (expr marks left) op (expr marks right)
  | .read id name => .read id (r.token (r.leads marks id) name)
  | .assign id name value => .assign id (r.token (r.leads marks id) name) (expr marks value)
  | .call id callee paren arguments => .call id (expr marks callee) paren (exprs marks arguments)
  | .get id object name => .get id (expr marks object) name
  | .set id object name value => .set id (expr marks object) name (expr marks value)
  | .self id keyword => .self id keyword
  | .super id keyword method => .super id keyword method
  | .missing => .missing
  | .misplaced stmt => .misplaced stmt

def exprs (marks : List Bool) : List Expr → List Expr
  | [] => []
  | argument :: arguments => expr marks argument :: exprs marks arguments

end

mutual

/-- The statement with the variable renamed in those of its scopes that are chosen by their place in
`scopeTexts`. -/
def stmt (chosen : Nat → Bool) (marks : List Bool) : Stmt → Stmt
  | .expression value => .expression (r.expr marks value)
  | .print value => .print (r.expr marks value)
  | .var name none => .var (r.token (marks.headD false) name) none
  | .var name (some value) => .var (r.token (marks.headD false) name) (some (r.expr marks value))
  | .block ss => .block (body (fun i => chosen (i + 1)) (chosen 0 :: marks) ss)
  | .cond condition yes none => .cond (r.expr marks condition) (stmt chosen marks yes) none
  | .cond condition yes (some no) =>
      .cond (r.expr marks condition) (stmt chosen marks yes)
        (some (stmt (fun i => chosen (i + yes.scopeTexts.length)) marks no))
  | .loop condition s => .loop (r.expr marks condition) (stmt chosen marks s)
  | .function decl => .function (function chosen marks decl)
  | .ret keyword none => .ret keyword none
  | .ret keyword (some value) => .ret keyword (some (r.expr marks value))
  | .classDecl name none decls => .classDecl name none (methods chosen (false :: marks) decls)
  | .classDecl name (some (id, superclass)) decls =>
      .classDecl name (some (id, r.token (r.leads marks id) superclass))
        (methods chosen (false :: false :: marks) decls)
  | .missing => .missing
  | .misplaced expr => .misplaced expr

def body (chosen : Nat → Bool) (marks : List Bool) : List Stmt → List Stmt
  | [] => []
  | s :: ss =>
      stmt chosen marks s :: body (fun i => chosen (i + s.scopeTexts.length)) marks ss

def function (chosen : Nat → Bool) (marks : List Bool) : FunDecl → FunDecl
  | .mk name params ss =>
      .mk name (params.map (r.token (chosen 0)))
        (body (fun i => chosen (i + 1)) (chosen 0 :: marks) ss)

def methods (chosen : Nat → Bool) (marks : List Bool) : List FunDecl → List FunDecl
  | [] => []
  | decl :: decls =>
      function chosen marks decl ::
        methods (fun i => chosen (i + decl.scopeTexts.length)) marks decls

end

end Renaming

end Lox
