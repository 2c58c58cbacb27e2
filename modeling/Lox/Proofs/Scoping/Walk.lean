import Lox.Compilation

/-!
# The walk over a program

Resolution walks over a program and knows at each of its parts which scopes are open there.
`Reaches root context scopes part` says that a walk over `root` comes to `part` with these scopes
open and in this context.
-/

namespace Lox

inductive Part where
  | expr (e : Expr)
  | exprs (es : List Expr)
  | stmt (s : Stmt)
  | body (ss : List Stmt)
  | function (decl : FunDecl)
  | methods (decls : List FunDecl)

def Part.resolve (context : Context) (scopes : Scopes) : Part → Findings
  | .expr e => e.resolve context scopes
  | .exprs es => resolveArguments context scopes es
  | .stmt s => (s.resolve context scopes).1
  | .body ss => (resolveBody context scopes ss).1
  | .function decl => decl.resolve context scopes
  | .methods decls => resolveMethods context scopes decls

/-- The scopes with a name declared and initialised in the innermost of them. -/
def Scopes.settle (scopes : Scopes) (name : Token) : Scopes :=
  (scopes.declare name).define name

/-- The context of the methods of a class, with or without a superclass. -/
def Context.ofClass (context : Context) (base : Option (NodeId × Token)) : Context :=
  { context with inClass := if base.isSome then .subclass else .plain }

/-- The scopes around the methods of a class, with or without a superclass. -/
def Scopes.ofClass (scopes : Scopes) : Option (NodeId × Token) → Scopes
  | none => thisScope :: scopes
  | some _ => thisScope :: superScope :: scopes

inductive Reaches (root : Part) : Context → Scopes → Part → Prop where
  | root : Reaches root {} [] root
  -- Expressions
  | grouping : Reaches root c σ (.expr (.grouping number e)) → Reaches root c σ (.expr e)
  | unary : Reaches root c σ (.expr (.unary number op e)) → Reaches root c σ (.expr e)
  | binaryLeft : Reaches root c σ (.expr (.binary number left op right)) → Reaches root c σ (.expr left)
  | binaryRight : Reaches root c σ (.expr (.binary number left op right)) →
      Reaches root c σ (.expr right)
  | logicalLeft : Reaches root c σ (.expr (.logical number left op right)) →
      Reaches root c σ (.expr left)
  | logicalRight : Reaches root c σ (.expr (.logical number left op right)) →
      Reaches root c σ (.expr right)
  | assigned : Reaches root c σ (.expr (.assign number name e)) → Reaches root c σ (.expr e)
  | callee : Reaches root c σ (.expr (.call number e paren es)) → Reaches root c σ (.expr e)
  | arguments : Reaches root c σ (.expr (.call number e paren es)) → Reaches root c σ (.exprs es)
  | getObject : Reaches root c σ (.expr (.get number e name)) → Reaches root c σ (.expr e)
  | setObject : Reaches root c σ (.expr (.set number e name value)) → Reaches root c σ (.expr e)
  | setValue : Reaches root c σ (.expr (.set number e name value)) → Reaches root c σ (.expr value)
  | firstArgument : Reaches root c σ (.exprs (e :: es)) → Reaches root c σ (.expr e)
  | moreArguments : Reaches root c σ (.exprs (e :: es)) → Reaches root c σ (.exprs es)
  -- Statements
  | expression : Reaches root c σ (.stmt (.expression e)) → Reaches root c σ (.expr e)
  | print : Reaches root c σ (.stmt (.print e)) → Reaches root c σ (.expr e)
  | initial : Reaches root c σ (.stmt (.var name (some e))) →
      Reaches root c (σ.declare name) (.expr e)
  | block : Reaches root c σ (.stmt (.block ss)) → Reaches root c ([] :: σ) (.body ss)
  | condition : Reaches root c σ (.stmt (.cond e yes no)) → Reaches root c σ (.expr e)
  | yes : Reaches root c σ (.stmt (.cond e yes no)) → Reaches root c σ (.stmt yes)
  | no : Reaches root c σ (.stmt (.cond e yes (some no))) →
      Reaches root c (yes.resolve c σ).2 (.stmt no)
  | loopCondition : Reaches root c σ (.stmt (.loop e s)) → Reaches root c σ (.expr e)
  | loopBody : Reaches root c σ (.stmt (.loop e s)) → Reaches root c σ (.stmt s)
  | returned : Reaches root c σ (.stmt (.ret keyword (some e))) → Reaches root c σ (.expr e)
  | firstStmt : Reaches root c σ (.body (s :: ss)) → Reaches root c σ (.stmt s)
  | moreStmts : Reaches root c σ (.body (s :: ss)) →
      Reaches root c (s.resolve c σ).2 (.body ss)
  -- Functions and classes
  | function : Reaches root c σ (.stmt (.function decl)) →
      Reaches root { c with inFunction := some .function } (σ.settle decl.name) (.function decl)
  | functionBody : Reaches root c σ (.function (.mk name params ss)) →
      Reaches root c (resolveParams ([] :: σ) params).2 (.body ss)
  | methods : Reaches root c σ (.stmt (.classDecl name base decls)) →
      Reaches root (c.ofClass base) ((σ.settle name).ofClass base) (.methods decls)
  | firstMethod : Reaches root c σ (.methods (decl :: decls)) →
      Reaches root { c with inFunction := some (.ofMethod decl) } σ (.function decl)
  | moreMethods : Reaches root c σ (.methods (decl :: decls)) → Reaches root c σ (.methods decls)

/-! ## The numbers of references -/

mutual

def Expr.ids : Expr → List NodeId
  | .literal _ _ => []
  | .grouping _ inner => inner.ids
  | .unary _ _ right => right.ids
  | .binary _ left _ right => left.ids ++ right.ids
  | .logical _ left _ right => left.ids ++ right.ids
  | .read id _ => [id]
  | .assign id _ value => value.ids ++ [id]
  | .call _ callee _ arguments => callee.ids ++ argumentIds arguments
  | .get _ object _ => object.ids
  | .set _ object _ value => object.ids ++ value.ids
  | .self id _ => [id]
  | .super id _ _ => [id]
  | .missing => []
  | .misplaced _ => []

def argumentIds : List Expr → List NodeId
  | [] => []
  | argument :: arguments => argument.ids ++ argumentIds arguments

end

mutual

def Stmt.ids : Stmt → List NodeId
  | .expression value => value.ids
  | .print value => value.ids
  | .var _ none => []
  | .var _ (some value) => value.ids
  | .block body => bodyIds body
  | .cond condition yes none => condition.ids ++ yes.ids
  | .cond condition yes (some no) => condition.ids ++ yes.ids ++ no.ids
  | .loop condition body => condition.ids ++ body.ids
  | .function decl => decl.ids
  | .ret _ none => []
  | .ret _ (some value) => value.ids
  | .classDecl _ none methods => methodIds methods
  | .classDecl _ (some (id, _)) methods => id :: methodIds methods
  | .missing => []
  | .misplaced _ => []

def bodyIds : List Stmt → List NodeId
  | [] => []
  | stmt :: body => stmt.ids ++ bodyIds body

def FunDecl.ids : FunDecl → List NodeId
  | .mk _ _ body => bodyIds body

def methodIds : List FunDecl → List NodeId
  | [] => []
  | method :: methods => method.ids ++ methodIds methods

end

def Part.ids : Part → List NodeId
  | .expr e => e.ids
  | .exprs es => argumentIds es
  | .stmt s => s.ids
  | .body ss => bodyIds ss
  | .function decl => decl.ids
  | .methods decls => methodIds decls

mutual

/-- The numbers of references, but for those in the methods of classes that are declared there. -/
def Stmt.ownIds : Stmt → List NodeId
  | .expression value => value.ids
  | .print value => value.ids
  | .var _ none => []
  | .var _ (some value) => value.ids
  | .block body => bodyOwnIds body
  | .cond condition yes none => condition.ids ++ yes.ownIds
  | .cond condition yes (some no) => condition.ids ++ yes.ownIds ++ no.ownIds
  | .loop condition body => condition.ids ++ body.ownIds
  | .function decl => decl.ownIds
  | .ret _ none => []
  | .ret _ (some value) => value.ids
  | .classDecl _ none _ => []
  | .classDecl _ (some (id, _)) _ => [id]
  | .missing => []
  | .misplaced _ => []

def bodyOwnIds : List Stmt → List NodeId
  | [] => []
  | stmt :: body => stmt.ownIds ++ bodyOwnIds body

def FunDecl.ownIds : FunDecl → List NodeId
  | .mk _ _ body => bodyOwnIds body

end

def Part.ownIds : Part → List NodeId
  | .expr e => e.ids
  | .exprs es => argumentIds es
  | .stmt s => s.ownIds
  | .body ss => bodyOwnIds ss
  | .function decl => decl.ownIds
  | .methods _ => []

theorem Reaches.id_mem {root part : Part} {c : Context} {σ : Scopes} (h : Reaches root c σ part)
    {id : NodeId} (hid : id ∈ part.ids) : id ∈ root.ids := by
  induction h with
  | root => exact hid
  | @condition _ _ _ _ no _ ih | @yes _ _ _ _ no _ ih =>
      apply ih
      cases no <;> simp_all [Part.ids, Stmt.ids]
  | @methods _ _ _ base _ _ ih =>
      apply ih
      cases base <;> simp_all [Part.ids, Stmt.ids]
  | _ => simp_all [Part.ids, Expr.ids, argumentIds, Stmt.ids, bodyIds, FunDecl.ids, methodIds]

/-! ## Trees that the grammar makes -/

/-- A name that is neither of the two that classes declare by themselves. -/
def Token.Plain (t : Token) : Prop :=
  t.lexeme ≠ "this" ∧ t.lexeme ≠ "super"

def Stmt.declares : Stmt → Bool
  | .var _ _ => true
  | .function _ => true
  | .classDecl _ _ _ => true
  | _ => false

mutual

/-- Operators that there are, plain names, and no holes. -/
def Expr.Formed : Expr → Prop
  | .literal _ _ => True
  | .grouping _ inner => inner.Formed
  | .unary _ op right => (op.kind = .bang ∨ op.kind = .minus) ∧ right.Formed
  | .binary _ left op right => (∃ level, 3 ≤ level ∧ op.kind.precedence? = some level) ∧
      left.Formed ∧ right.Formed
  | .logical _ left _ right => left.Formed ∧ right.Formed
  | .read _ name => name.Plain
  | .assign _ name value => name.Plain ∧ value.Formed
  | .call _ callee _ arguments => callee.Formed ∧ argumentsFormed arguments
  | .get _ object _ => object.Formed
  | .set _ object _ value => object.Formed ∧ value.Formed
  | .self _ keyword => keyword.lexeme = "this"
  | .super _ keyword _ => keyword.lexeme = "super"
  | .missing => False
  | .misplaced _ => False

def argumentsFormed : List Expr → Prop
  | [] => True
  | argument :: arguments => argument.Formed ∧ argumentsFormed arguments

end

mutual

/-- As for expressions; besides, branches and loop bodies declare nothing. -/
def Stmt.Formed : Stmt → Prop
  | .expression value => value.Formed
  | .print value => value.Formed
  | .var name none => name.Plain
  | .var name (some value) => name.Plain ∧ value.Formed
  | .block body => bodyFormed body
  | .cond condition yes none => condition.Formed ∧ yes.Formed ∧ yes.declares = false
  | .cond condition yes (some no) => condition.Formed ∧ (yes.Formed ∧ yes.declares = false) ∧
      no.Formed ∧ no.declares = false
  | .loop condition body => condition.Formed ∧ body.Formed ∧ body.declares = false
  | .function decl => decl.name.Plain ∧ decl.Formed
  | .ret _ none => True
  | .ret _ (some value) => value.Formed
  | .classDecl name none methods => name.Plain ∧ methodsFormed methods
  | .classDecl name (some (_, superclass)) methods =>
      name.Plain ∧ superclass.Plain ∧ methodsFormed methods
  | .missing => False
  | .misplaced _ => False

def bodyFormed : List Stmt → Prop
  | [] => True
  | stmt :: body => stmt.Formed ∧ bodyFormed body

def FunDecl.Formed : FunDecl → Prop
  | .mk _ params body => (∀ param ∈ params, param.Plain) ∧ bodyFormed body

def methodsFormed : List FunDecl → Prop
  | [] => True
  | method :: methods => method.Formed ∧ methodsFormed methods

end

def Part.Formed : Part → Prop
  | .expr e => e.Formed
  | .exprs es => argumentsFormed es
  | .stmt s => s.Formed
  | .body ss => bodyFormed ss
  | .function decl => decl.Formed
  | .methods decls => methodsFormed decls

end Lox
