import Lox.Proofs.Scoping.Walk

/-!
# Programs without loops

A `for` loop is a `while` loop by the time a program is read, so one kind of statement is all there is
to look for, wherever statements stand inside of others.
-/

namespace Lox

mutual

def Stmt.loopFree : Stmt → Bool
  | .block body => bodyLoopFree body
  | .cond _ yes none => yes.loopFree
  | .cond _ yes (some no) => yes.loopFree && no.loopFree
  | .loop _ _ => false
  | .function decl => decl.loopFree
  | .classDecl _ _ decls => methodsLoopFree decls
  | _ => true

def bodyLoopFree : List Stmt → Bool
  | [] => true
  | s :: ss => s.loopFree && bodyLoopFree ss

def FunDecl.loopFree : FunDecl → Bool
  | .mk _ _ body => bodyLoopFree body

def methodsLoopFree : List FunDecl → Bool
  | [] => true
  | decl :: decls => decl.loopFree && methodsLoopFree decls

end

def Part.loopFree : Part → Bool
  | .expr _ | .exprs _ => true
  | .stmt s => s.loopFree
  | .body ss => bodyLoopFree ss
  | .function decl => decl.loopFree
  | .methods decls => methodsLoopFree decls

theorem Reaches.loopFree {root part : Part} {c : Context} {σ : Scopes} (h : Reaches root c σ part)
    (hroot : root.loopFree = true) : part.loopFree = true := by
  induction h with
  | root => exact hroot
  | block _ ih | function _ ih | functionBody _ ih | methods _ ih => exact ih
  | @yes c σ e yes no _ ih =>
      cases no with
      | none => exact ih
      | some no => exact (Bool.and_eq_true_iff.mp ih).1
  | no _ ih => exact (Bool.and_eq_true_iff.mp ih).2
  | loopBody _ ih => cases ih
  | firstStmt _ ih | firstMethod _ ih => exact (Bool.and_eq_true_iff.mp ih).1
  | moreStmts _ ih | moreMethods _ ih => exact (Bool.and_eq_true_iff.mp ih).2
  | _ => rfl

end Lox
