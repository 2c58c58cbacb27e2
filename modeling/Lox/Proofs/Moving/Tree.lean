import Lox.Proofs.Scoping.Walk

/-!
# Trees moved elsewhere

The same program may stand further down in a longer text, and be read after other nodes were
numbered.  Its tokens are then on other lines and its nodes have other numbers, and nothing else
about its tree is different.  Resolution finds the same in it.
-/

namespace Lox

def Token.down (k : Int) (t : Token) : Token :=
  { t with line := t.line + k }

def Diagnostic.down (k : Int) (d : Diagnostic) : Diagnostic :=
  { d with line := d.line + k }

section

variable (k : Int) (ν : NodeId → NodeId)

@[simp] theorem Token.kind_down (t : Token) : (t.down k).kind = t.kind := rfl

@[simp] theorem Token.lexeme_down (t : Token) : (t.down k).lexeme = t.lexeme := rfl

theorem Token.down_zero (t : Token) : t.down 0 = t := by
  simp [Token.down]

theorem Diagnostic.down_zero (d : Diagnostic) : d.down 0 = d := by
  simp [Diagnostic.down]

@[simp] theorem Diagnostic.atToken_down (t : Token) (problem : Problem) :
    Diagnostic.atToken (t.down k) problem = (Diagnostic.atToken t problem).down k := rfl

/-! ## Trees -/

mutual

/-- The tree of the same expression elsewhere. -/
def Expr.moved : Expr → Expr
  | .literal id value => .literal (ν id) value
  | .grouping id inner => .grouping (ν id) inner.moved
  | .unary id op right => .unary (ν id) (op.down k) right.moved
  | .binary id left op right => .binary (ν id) left.moved (op.down k) right.moved
  | .logical id left op right => .logical (ν id) left.moved (op.down k) right.moved
  | .read id name => .read (ν id) (name.down k)
  | .assign id name value => .assign (ν id) (name.down k) value.moved
  | .call id callee paren arguments =>
      .call (ν id) callee.moved (paren.down k) (movedArguments arguments)
  | .get id object name => .get (ν id) object.moved (name.down k)
  | .set id object name value => .set (ν id) object.moved (name.down k) value.moved
  | .self id keyword => .self (ν id) (keyword.down k)
  | .super id keyword method => .super (ν id) (keyword.down k) (method.down k)
  | .missing => .missing
  | .misplaced stmt => .misplaced stmt

def movedArguments : List Expr → List Expr
  | [] => []
  | argument :: arguments => argument.moved :: movedArguments arguments

end

mutual

def Stmt.moved : Stmt → Stmt
  | .expression value => .expression (value.moved k ν)
  | .print value => .print (value.moved k ν)
  | .var name none => .var (name.down k) none
  | .var name (some value) => .var (name.down k) (some (value.moved k ν))
  | .block body => .block (movedBody body)
  | .cond condition yes none => .cond (condition.moved k ν) yes.moved none
  | .cond condition yes (some no) => .cond (condition.moved k ν) yes.moved (some no.moved)
  | .loop condition body => .loop (condition.moved k ν) body.moved
  | .function decl => .function decl.moved
  | .ret keyword none => .ret (keyword.down k) none
  | .ret keyword (some value) => .ret (keyword.down k) (some (value.moved k ν))
  | .classDecl name none methods => .classDecl (name.down k) none (movedMethods methods)
  | .classDecl name (some (id, base)) methods =>
      .classDecl (name.down k) (some (ν id, base.down k)) (movedMethods methods)
  | .missing => .missing
  | .misplaced expr => .misplaced expr

def movedBody : List Stmt → List Stmt
  | [] => []
  | stmt :: body => stmt.moved :: movedBody body

def FunDecl.moved : FunDecl → FunDecl
  | .mk name params body => .mk (name.down k) (params.map (Token.down k)) (movedBody body)

def movedMethods : List FunDecl → List FunDecl
  | [] => []
  | method :: methods => method.moved :: movedMethods methods

end

mutual

theorem Expr.moved_zero : ∀ e : Expr, e.moved 0 (fun id => id) = e
  | .literal _ _ => rfl
  | .grouping _ inner => by simp only [Expr.moved, inner.moved_zero]
  | .unary _ _ right => by simp only [Expr.moved, Token.down_zero, right.moved_zero]
  | .binary _ left _ right | .logical _ left _ right => by
      simp only [Expr.moved, Token.down_zero, left.moved_zero, right.moved_zero]
  | .read _ _ => by simp only [Expr.moved, Token.down_zero]
  | .assign _ _ value => by simp only [Expr.moved, Token.down_zero, value.moved_zero]
  | .call _ callee _ arguments => by
      simp only [Expr.moved, Token.down_zero, callee.moved_zero, movedArguments_zero arguments]
  | .get _ object _ => by simp only [Expr.moved, Token.down_zero, object.moved_zero]
  | .set _ object _ value => by
      simp only [Expr.moved, Token.down_zero, object.moved_zero, value.moved_zero]
  | .self _ _ => by simp only [Expr.moved, Token.down_zero]
  | .super _ _ _ => by simp only [Expr.moved, Token.down_zero]
  | .missing => rfl
  | .misplaced _ => rfl

theorem movedArguments_zero : ∀ es : List Expr, movedArguments 0 (fun id => id) es = es
  | [] => rfl
  | e :: es => by simp only [movedArguments, e.moved_zero, movedArguments_zero es]

end

mutual

theorem Stmt.moved_zero : ∀ s : Stmt, s.moved 0 (fun id => id) = s
  | .expression value => by simp only [Stmt.moved, value.moved_zero]
  | .print value => by simp only [Stmt.moved, value.moved_zero]
  | .var _ none => by simp only [Stmt.moved, Token.down_zero]
  | .var _ (some value) => by simp only [Stmt.moved, Token.down_zero, value.moved_zero]
  | .block body => by simp only [Stmt.moved, movedBody_zero body]
  | .cond condition yes none => by simp only [Stmt.moved, condition.moved_zero, yes.moved_zero]
  | .cond condition yes (some no) => by
      simp only [Stmt.moved, condition.moved_zero, yes.moved_zero, no.moved_zero]
  | .loop condition body => by simp only [Stmt.moved, condition.moved_zero, body.moved_zero]
  | .function decl => by simp only [Stmt.moved, decl.moved_zero]
  | .ret _ none => by simp only [Stmt.moved, Token.down_zero]
  | .ret _ (some value) => by simp only [Stmt.moved, Token.down_zero, value.moved_zero]
  | .classDecl _ none methods => by
      simp only [Stmt.moved, Token.down_zero, movedMethods_zero methods]
  | .classDecl _ (some _) methods => by
      simp only [Stmt.moved, Token.down_zero, movedMethods_zero methods]
  | .missing => rfl
  | .misplaced _ => rfl

theorem movedBody_zero : ∀ ss : List Stmt, movedBody 0 (fun id => id) ss = ss
  | [] => rfl
  | s :: ss => by simp only [movedBody, s.moved_zero, movedBody_zero ss]

theorem FunDecl.moved_zero : ∀ decl : FunDecl, decl.moved 0 (fun id => id) = decl
  | .mk _ params body => by
      have hdown : Token.down 0 = id := funext Token.down_zero
      simp only [FunDecl.moved, Token.down_zero, hdown, List.map_id, movedBody_zero body]

theorem movedMethods_zero : ∀ decls : List FunDecl, movedMethods 0 (fun id => id) decls = decls
  | [] => rfl
  | decl :: decls => by simp only [movedMethods, decl.moved_zero, movedMethods_zero decls]

end

/-! ## Resolution -/

def Reference.moved (r : Reference) : Reference :=
  { r with id := ν r.id, name := r.name.down k }

def Findings.moved (found : Findings) : Findings where
  references := found.references.map (Reference.moved k ν)
  problems := found.problems.map (Diagnostic.down k)
  flaw := found.flaw

theorem Findings.moved_append (a b : Findings) :
    (a ++ b).moved k ν = a.moved k ν ++ b.moved k ν := by
  change Findings.moved k ν (Findings.append a b) = Findings.append _ _
  simp only [Findings.moved, Findings.append, List.map_append]

theorem Findings.moved_ofProblems (problems : List Diagnostic) :
    (Findings.ofProblems problems).moved k ν =
      Findings.ofProblems (problems.map (Diagnostic.down k)) := rfl

theorem Findings.refer_moved (σ : Scopes) (id : NodeId) (kind : ReferenceKind) (name : Token) :
    Findings.refer σ (ν id) kind (name.down k) = (Findings.refer σ id kind name).moved k ν := by
  unfold Findings.refer
  rw [Token.lexeme_down]
  split <;> rfl

namespace Scopes

@[simp] theorem declare_down (σ : Scopes) (name : Token) :
    σ.declare (name.down k) = σ.declare name := by
  cases σ <;> rfl

@[simp] theorem define_down (σ : Scopes) (name : Token) :
    σ.define (name.down k) = σ.define name := by
  cases σ <;> rfl

theorem redeclaration_down (σ : Scopes) (name : Token) :
    σ.redeclaration (name.down k) = (σ.redeclaration name).map (Diagnostic.down k) := by
  cases σ with
  | nil => rfl
  | cons scope σ =>
      rw [redeclaration, redeclaration, apply_ite (List.map (Diagnostic.down k))]
      rfl

theorem prematureRead_down (σ : Scopes) (name : Token) :
    σ.prematureRead (name.down k) = (σ.prematureRead name).map (Diagnostic.down k) := by
  cases σ with
  | nil => rfl
  | cons scope σ =>
      rw [prematureRead, prematureRead, apply_ite (List.map (Diagnostic.down k))]
      rfl

end Scopes

theorem resolveRead_moved (σ : Scopes) (id : NodeId) (name : Token) :
    resolveRead σ (ν id) (name.down k) = (resolveRead σ id name).moved k ν := by
  simp only [resolveRead, Findings.moved_append, Findings.moved_ofProblems,
    Scopes.prematureRead_down, Findings.refer_moved]

theorem superProblems_down (keyword : Token) (c : ClassContext) :
    superProblems (keyword.down k) c = (superProblems keyword c).map (Diagnostic.down k) := by
  cases c <;> rfl

theorem returnProblems_down (keyword : Token) (hasValue : Bool) (role : Option Role) :
    returnProblems (keyword.down k) hasValue role =
      (returnProblems keyword hasValue role).map (Diagnostic.down k) := by
  rcases role with _ | role
  · rfl
  · cases role <;> cases hasValue <;> rfl

theorem superclassProblems_down (name base : Token) :
    superclassProblems (name.down k) (base.down k) =
      (superclassProblems name base).map (Diagnostic.down k) := by
  rw [superclassProblems, superclassProblems, apply_ite (List.map (Diagnostic.down k))]
  rfl

theorem resolveParams_moved (σ : Scopes) (params : List Token) :
    resolveParams σ (params.map (Token.down k)) =
      ((resolveParams σ params).1.moved k ν, (resolveParams σ params).2) := by
  induction params generalizing σ with
  | nil => rfl
  | cons param params ih =>
      simp only [List.map_cons, resolveParams, Scopes.declare_down, Scopes.define_down, ih,
        Scopes.redeclaration_down, Findings.moved_append, Findings.moved_ofProblems]

mutual

theorem Expr.resolve_moved (c : Context) (σ : Scopes) : ∀ e : Expr,
    (e.moved k ν).resolve c σ = (e.resolve c σ).moved k ν
  | .literal _ _ => rfl
  | .grouping _ inner => by simp only [Expr.moved, Expr.resolve, inner.resolve_moved]
  | .unary _ _ right => by simp only [Expr.moved, Expr.resolve, right.resolve_moved]
  | .binary _ left _ right => by
      simp only [Expr.moved, Expr.resolve, left.resolve_moved, right.resolve_moved,
        Findings.moved_append]
  | .logical _ left _ right => by
      simp only [Expr.moved, Expr.resolve, left.resolve_moved, right.resolve_moved,
        Findings.moved_append]
  | .read id name => by simp only [Expr.moved, Expr.resolve, resolveRead_moved]
  | .assign id name value => by
      simp only [Expr.moved, Expr.resolve, value.resolve_moved, Findings.refer_moved,
        Findings.moved_append]
  | .call _ callee _ arguments => by
      simp only [Expr.moved, Expr.resolve, callee.resolve_moved, resolveArguments_moved c σ arguments,
        Findings.moved_append]
  | .get _ object _ => by simp only [Expr.moved, Expr.resolve, object.resolve_moved]
  | .set _ object _ value => by
      simp only [Expr.moved, Expr.resolve, object.resolve_moved, value.resolve_moved,
        Findings.moved_append]
  | .self id keyword => by
      simp only [Expr.moved, Expr.resolve]
      split
      · rfl
      · exact Findings.refer_moved k ν σ id .self keyword
  | .super id keyword _ => by
      simp only [Expr.moved, Expr.resolve, superProblems_down, Findings.refer_moved,
        Findings.moved_append, Findings.moved_ofProblems]
  | .missing => rfl
  | .misplaced _ => rfl

theorem resolveArguments_moved (c : Context) (σ : Scopes) : ∀ es : List Expr,
    resolveArguments c σ (movedArguments k ν es) = (resolveArguments c σ es).moved k ν
  | [] => rfl
  | e :: es => by
      simp only [movedArguments, resolveArguments, e.resolve_moved, resolveArguments_moved c σ es,
        Findings.moved_append]

end

mutual

theorem Stmt.resolve_moved : ∀ (s : Stmt) (c : Context) (σ : Scopes),
    (s.moved k ν).resolve c σ = ((s.resolve c σ).1.moved k ν, (s.resolve c σ).2)
  | .expression value, c, σ => by simp only [Stmt.moved, Stmt.resolve, value.resolve_moved]
  | .print value, c, σ => by simp only [Stmt.moved, Stmt.resolve, value.resolve_moved]
  | .var name none, c, σ => by
      simp only [Stmt.moved, Stmt.resolve, Scopes.redeclaration_down, Scopes.declare_down,
        Scopes.define_down, Findings.moved_ofProblems]
  | .var name (some value), c, σ => by
      simp only [Stmt.moved, Stmt.resolve, Scopes.redeclaration_down, Scopes.declare_down,
        Scopes.define_down, Findings.moved_ofProblems, Findings.moved_append, value.resolve_moved]
  | .block body, c, σ => by
      simp only [Stmt.moved, Stmt.resolve, resolveBody_moved body]
  | .cond condition yes none, c, σ => by
      simp only [Stmt.moved, Stmt.resolve, condition.resolve_moved, yes.resolve_moved,
        Findings.moved_append]
  | .cond condition yes (some no), c, σ => by
      simp only [Stmt.moved, Stmt.resolve, condition.resolve_moved, yes.resolve_moved,
        no.resolve_moved, Findings.moved_append]
  | .loop condition body, c, σ => by
      simp only [Stmt.moved, Stmt.resolve, condition.resolve_moved, body.resolve_moved,
        Findings.moved_append]
  | .function (.mk name params body), c, σ => by
      simp only [Stmt.moved, Stmt.resolve, FunDecl.moved, FunDecl.name, FunDecl.resolve,
        Scopes.redeclaration_down, Scopes.declare_down, Scopes.define_down,
        Findings.moved_ofProblems, Findings.moved_append, resolveParams_moved k ν,
        resolveBody_moved body]
  | .ret keyword none, c, σ => by
      simp only [Stmt.moved, Stmt.resolve, returnProblems_down, Findings.moved_ofProblems]
  | .ret keyword (some value), c, σ => by
      simp only [Stmt.moved, Stmt.resolve, returnProblems_down, Findings.moved_ofProblems,
        Findings.moved_append, value.resolve_moved]
  | .classDecl name none methods, c, σ => by
      simp only [Stmt.moved, Stmt.resolve, Scopes.redeclaration_down, Scopes.declare_down,
        Scopes.define_down, Findings.moved_ofProblems, Findings.moved_append,
        resolveMethods_moved methods]
  | .classDecl name (some (id, base)) methods, c, σ => by
      simp only [Stmt.moved, Stmt.resolve, Scopes.redeclaration_down, Scopes.declare_down,
        Scopes.define_down, superclassProblems_down, ← List.map_append, Findings.moved_ofProblems,
        Findings.moved_append, resolveRead_moved, resolveMethods_moved methods]
  | .missing, _, _ => rfl
  | .misplaced _, _, _ => rfl

theorem resolveBody_moved : ∀ (ss : List Stmt) (c : Context) (σ : Scopes),
    resolveBody c σ (movedBody k ν ss) =
      ((resolveBody c σ ss).1.moved k ν, (resolveBody c σ ss).2)
  | [], _, _ => rfl
  | s :: ss, c, σ => by
      simp only [movedBody, resolveBody, s.resolve_moved, resolveBody_moved ss,
        Findings.moved_append]

theorem resolveMethods_moved : ∀ (decls : List FunDecl) (c : Context) (σ : Scopes),
    resolveMethods c σ (movedMethods k ν decls) = (resolveMethods c σ decls).moved k ν
  | [], _, _ => rfl
  | .mk name params body :: decls, c, σ => by
      have hrole : Role.ofMethod (.mk (name.down k) (params.map (Token.down k)) (movedBody k ν body))
          = Role.ofMethod (.mk name params body) := rfl
      simp only [movedMethods, FunDecl.moved, resolveMethods, FunDecl.resolve, hrole,
        resolveParams_moved k ν, resolveBody_moved body, resolveMethods_moved decls,
        Findings.moved_append]

end

theorem resolveProgram_moved (program : List Stmt) :
    resolveProgram (movedBody k ν program) = (resolveProgram program).moved k ν := by
  simp only [resolveProgram, resolveBody_moved]

end

end Lox
