import Lox.Proofs.Moving.Tree

/-!
# The tokens of a tree

A tree is put together from tokens of its source, and errors in its code are reported at them.
-/

namespace Lox

mutual

def Expr.tokens : Expr → List Token
  | .literal _ _ => []
  | .grouping _ inner => inner.tokens
  | .unary _ op right => op :: right.tokens
  | .binary _ left op right => left.tokens ++ op :: right.tokens
  | .logical _ left op right => left.tokens ++ op :: right.tokens
  | .read _ name => [name]
  | .assign _ name value => name :: value.tokens
  | .call _ callee paren arguments => callee.tokens ++ paren :: argumentTokens arguments
  | .get _ object name => object.tokens ++ [name]
  | .set _ object name value => object.tokens ++ name :: value.tokens
  | .self _ keyword => [keyword]
  | .super _ keyword method => [keyword, method]
  | .missing => []
  | .misplaced _ => []

def argumentTokens : List Expr → List Token
  | [] => []
  | argument :: arguments => argument.tokens ++ argumentTokens arguments

end

mutual

def Stmt.tokens : Stmt → List Token
  | .expression value => value.tokens
  | .print value => value.tokens
  | .var name none => [name]
  | .var name (some value) => name :: value.tokens
  | .block body => bodyTokens body
  | .cond condition yes none => condition.tokens ++ yes.tokens
  | .cond condition yes (some no) => condition.tokens ++ (yes.tokens ++ no.tokens)
  | .loop condition body => condition.tokens ++ body.tokens
  | .function decl => decl.tokens
  | .ret keyword none => [keyword]
  | .ret keyword (some value) => keyword :: value.tokens
  | .classDecl name none methods => name :: methodTokens methods
  | .classDecl name (some (_, base)) methods => name :: base :: methodTokens methods
  | .missing => []
  | .misplaced _ => []

def bodyTokens : List Stmt → List Token
  | [] => []
  | stmt :: body => stmt.tokens ++ bodyTokens body

def FunDecl.tokens : FunDecl → List Token
  | .mk name params body => name :: (params ++ bodyTokens body)

def methodTokens : List FunDecl → List Token
  | [] => []
  | method :: methods => method.tokens ++ methodTokens methods

end

def Part.tokens : Part → List Token
  | .expr e => e.tokens
  | .exprs es => argumentTokens es
  | .stmt s => s.tokens
  | .body ss => bodyTokens ss
  | .function decl => decl.tokens
  | .methods decls => methodTokens decls

/-! ## Trees moved elsewhere -/

section

variable (k : Int) (ν : NodeId → NodeId)

mutual

theorem Expr.tokens_moved : ∀ e : Expr, (e.moved k ν).tokens = e.tokens.map (Token.down k)
  | .literal _ _ => rfl
  | .grouping _ inner => inner.tokens_moved
  | .unary _ op right => congrArg (op.down k :: ·) right.tokens_moved
  | .binary _ left _ right | .logical _ left _ right => by
      simp only [Expr.moved, Expr.tokens, left.tokens_moved, right.tokens_moved, List.map_append,
        List.map_cons]
  | .read _ _ => rfl
  | .assign _ name value => congrArg (name.down k :: ·) value.tokens_moved
  | .call _ callee _ arguments => by
      simp only [Expr.moved, Expr.tokens, callee.tokens_moved, argumentTokens_moved arguments,
        List.map_append, List.map_cons]
  | .get _ object name => by
      simp only [Expr.moved, Expr.tokens, object.tokens_moved, List.map_append, List.map_cons,
        List.map_nil]
  | .set _ object _ value => by
      simp only [Expr.moved, Expr.tokens, object.tokens_moved, value.tokens_moved, List.map_append,
        List.map_cons]
  | .self _ _ => rfl
  | .super _ _ _ => rfl
  | .missing => rfl
  | .misplaced _ => rfl

theorem argumentTokens_moved : ∀ es : List Expr,
    argumentTokens (movedArguments k ν es) = (argumentTokens es).map (Token.down k)
  | [] => rfl
  | e :: es => by
      simp only [movedArguments, argumentTokens, e.tokens_moved, argumentTokens_moved es,
        List.map_append]

end

mutual

theorem Stmt.tokens_moved : ∀ s : Stmt, (s.moved k ν).tokens = s.tokens.map (Token.down k)
  | .expression value | .print value => value.tokens_moved k ν
  | .var _ none => rfl
  | .var name (some value) => congrArg (name.down k :: ·) (value.tokens_moved k ν)
  | .block body => bodyTokens_moved body
  | .cond condition yes none => by
      simp only [Stmt.moved, Stmt.tokens, condition.tokens_moved, yes.tokens_moved, List.map_append]
  | .cond condition yes (some no) => by
      simp only [Stmt.moved, Stmt.tokens, condition.tokens_moved, yes.tokens_moved, no.tokens_moved,
        List.map_append]
  | .loop condition body => by
      simp only [Stmt.moved, Stmt.tokens, condition.tokens_moved, body.tokens_moved, List.map_append]
  | .function decl => decl.tokens_moved
  | .ret _ none => rfl
  | .ret keyword (some value) => congrArg (keyword.down k :: ·) (value.tokens_moved k ν)
  | .classDecl name none methods => congrArg (name.down k :: ·) (methodTokens_moved methods)
  | .classDecl name (some (_, base)) methods =>
      congrArg (name.down k :: base.down k :: ·) (methodTokens_moved methods)
  | .missing => rfl
  | .misplaced _ => rfl

theorem bodyTokens_moved : ∀ ss : List Stmt,
    bodyTokens (movedBody k ν ss) = (bodyTokens ss).map (Token.down k)
  | [] => rfl
  | s :: ss => by
      simp only [movedBody, bodyTokens, s.tokens_moved, bodyTokens_moved ss, List.map_append]

theorem FunDecl.tokens_moved : ∀ decl : FunDecl,
    (decl.moved k ν).tokens = decl.tokens.map (Token.down k)
  | .mk name params body => by
      simp only [FunDecl.moved, FunDecl.tokens, bodyTokens_moved body, List.map_append,
        List.map_cons]

theorem methodTokens_moved : ∀ decls : List FunDecl,
    methodTokens (movedMethods k ν decls) = (methodTokens decls).map (Token.down k)
  | [] => rfl
  | decl :: decls => by
      simp only [movedMethods, methodTokens, decl.tokens_moved, methodTokens_moved decls,
        List.map_append]

end

/-- Trees with other numbers are put together from the same tokens. -/
theorem Expr.tokens_moved_zero (e : Expr) : (e.moved 0 ν).tokens = e.tokens := by
  rw [e.tokens_moved, List.map_congr_left fun t _ => t.down_zero, List.map_id']

theorem bodyTokens_moved_zero (ss : List Stmt) : bodyTokens (movedBody 0 ν ss) = bodyTokens ss := by
  rw [bodyTokens_moved, List.map_congr_left fun t _ => t.down_zero, List.map_id']

end

end Lox
