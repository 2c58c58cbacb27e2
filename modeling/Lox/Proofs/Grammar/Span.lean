import Lox.Proofs.Grammar.Acceptance

/-!
# How many nodes reading builds

Reading builds the nodes of a tree, and for every assignment one more: what turned out to be its target.
How many numbers it gives out can be told from the tree that it reads.
-/

namespace Lox

mutual

def Expr.span : Expr → Nat
  | .literal _ _ => 1
  | .grouping _ inner => inner.span + 1
  | .unary _ _ right => right.span + 1
  | .binary _ left _ right => left.span + right.span + 1
  | .logical _ left _ right => left.span + right.span + 1
  | .read _ _ => 1
  | .assign _ _ value => value.span + 2
  | .call _ callee _ arguments => callee.span + argumentSpan arguments + 1
  | .get _ object _ => object.span + 1
  | .set _ object _ value => object.span + value.span + 2
  | .self _ _ => 1
  | .super _ _ _ => 1
  | .missing => 0
  | .misplaced _ => 0

def argumentSpan : List Expr → Nat
  | [] => 0
  | argument :: arguments => argument.span + argumentSpan arguments

end

def optionalSpan : Option Expr → Nat
  | none => 0
  | some e => e.span

mutual

def Stmt.span : Stmt → Nat
  | .expression value => value.span
  | .print value => value.span
  | .var _ initial => optionalSpan initial
  | .block body => bodySpan body
  | .cond condition yes none => condition.span + yes.span
  | .cond condition yes (some no) => condition.span + yes.span + no.span
  | .loop condition body => condition.span + body.span
  | .function decl => decl.span
  | .ret _ value => optionalSpan value
  | .classDecl _ none methods => methodSpan methods
  | .classDecl _ (some _) methods => 1 + methodSpan methods
  | .missing => 0
  | .misplaced _ => 0

def bodySpan : List Stmt → Nat
  | [] => 0
  | stmt :: body => stmt.span + bodySpan body

def FunDecl.span : FunDecl → Nat
  | .mk _ _ body => bodySpan body

def methodSpan : List FunDecl → Nat
  | [] => 0
  | method :: methods => method.span + methodSpan methods

end

/-- A condition that is left out is built behind the body. -/
def ForCondition.late : ForCondition → Nat
  | .absent _ => 1
  | .given _ => 0

namespace Grammar

/-- The ledger `j` has this many nodes more than `i`. -/
def Grown (i : Ledger) (count : Nat) (j : Ledger) : Prop :=
  j.nextId = i.nextId + count

section

variable {i j k : Ledger} {count more : Nat}

theorem Grown.nil (i : Ledger) : Grown i 0 i :=
  rfl

theorem Grown.build (h : Grown i count j) (node : NodeId → Expr) :
    Grown i (count + 1) (j.build node) :=
  congrArg (· + 1) h

theorem grown_build (i : Ledger) (node : NodeId → Expr) : Grown i 1 (i.build node) :=
  rfl

theorem Grown.append (h : Grown i count j) (h' : Grown j more k) : Grown i (count + more) k := by
  unfold Grown at h h' ⊢
  rw [h', h, Nat.add_assoc]

theorem Grown.of_eq (h : Grown i count j) (heq : count = more) : Grown i more j :=
  heq ▸ h

end

mutual

theorem Expression.span_eq : ∀ {i ts e j rest}, Expression i ts e j rest → Grown i e.span j
  | _, _, _, _, _, .value h => h.span_eq
  | i, _, _, _, _, .assign _ _ h => by
      have hall := ((grown_build i _).append h.span_eq).build
      exact (hall _).of_eq (congrArg (· + 1) (Nat.add_comm _ _))
  | _, _, _, _, _, .set hobject _ _ _ hvalue => by
      have hall := ((hobject.span_eq.build _).append hvalue.span_eq).build
      exact (hall _).of_eq (congrArg (· + 1) (Nat.add_right_comm _ _ _))

theorem Operation.span_eq : ∀ {level i ts e j rest},
    Operation level i ts e j rest → Grown i e.span j
  | _, _, _, _, _, _, .operand h => h.span_eq
  | _, _, _, _, _, _, .tighter h => h.span_eq
  | _, _, _, _, _, _, .logical hleft _ _ hright => (hleft.span_eq.append hright.span_eq).build _
  | _, _, _, _, _, _, .binary hleft _ _ hright => (hleft.span_eq.append hright.span_eq).build _

theorem Unary.span_eq : ∀ {i ts e j rest}, Unary i ts e j rest → Grown i e.span j
  | _, _, _, _, _, .chain h => h.span_eq
  | _, _, _, _, _, .signed _ h => h.span_eq.build _

theorem Chain.span_eq : ∀ {i ts e j rest}, Chain i ts e j rest → Grown i e.span j
  | _, _, _, _, _, .primary h => h.span_eq
  | _, _, _, _, _, .bareCall h _ _ => h.span_eq.build _
  | _, _, _, _, _, .call hcallee _ harguments _ _ =>
      (hcallee.span_eq.append harguments.span_eq).build _
  | _, _, _, _, _, .get h _ _ => h.span_eq.build _

theorem Arguments.span_eq : ∀ {i ts es j rest}, Arguments i ts es j rest → Grown i (argumentSpan es) j
  | _, _, _, _, _, .one h => h.span_eq
  | _, _, _, _, _, .more hfirst _ hmore => hfirst.span_eq.append hmore.span_eq

theorem Primary.span_eq : ∀ {i ts e j rest}, Primary i ts e j rest → Grown i e.span j
  | _, _, _, _, _, .no _ | _, _, _, _, _, .yes _ | _, _, _, _, _, .nil _ => grown_build _ _
  | _, _, _, _, _, .number _ | _, _, _, _, _, .string _ => grown_build _ _
  | _, _, _, _, _, .self _ | _, _, _, _, _, .name _ | _, _, _, _, _, .super _ _ _ =>
      grown_build _ _
  | _, _, _, _, _, .group _ h _ => h.span_eq.build _

end

section

variable {i j : Ledger} {ts rest : List Token}

theorem Optionally.span_eq {e : Option Expr} (h : Optionally i ts e j rest) :
    Grown i (optionalSpan e) j := by
  cases h with
  | absent => exact .nil i
  | present h => exact h.span_eq

theorem ExpressionStmt.span_eq {phrase : Phrase} (h : ExpressionStmt i ts phrase j rest) :
    Grown i phrase.desugar.span j := by
  cases h with
  | mk h _ => exact h.span_eq

theorem VarDecl.span_eq {phrase : Phrase} (h : VarDecl i ts phrase j rest) :
    Grown i phrase.desugar.span j := by
  cases h with
  | plain _ _ _ => exact .nil i
  | initialised _ _ _ h _ => exact h.span_eq

def initialSpan : Option Phrase → Nat
  | none => 0
  | some phrase => phrase.desugar.span

theorem ForInitial.span_eq {phrase : Option Phrase} (h : ForInitial i ts phrase j rest) :
    Grown i (initialSpan phrase) j := by
  cases h with
  | absent _ => exact .nil i
  | var h => exact h.span_eq
  | expression h => exact h.span_eq

theorem Completed.span_eq {condition : Option Expr} {completed : ForCondition}
    (h : Completed condition i completed j) :
    Grown i completed.late j ∧
      completed.tree.span = optionalSpan condition + completed.late := by
  cases h <;> exact ⟨rfl, rfl⟩

theorem span_forLoop (initial : Option Phrase) (condition : ForCondition) (increment : Option Expr)
    (body : Phrase) :
    (Phrase.forLoop initial condition increment body).desugar.span =
      initialSpan initial + condition.tree.span + optionalSpan increment + body.desugar.span := by
  cases initial <;> cases increment <;>
    simp only [Phrase.desugar, forBody, Stmt.span, bodySpan, initialSpan, optionalSpan] <;>
    omega

end

mutual

theorem Declaration.span_eq : ∀ {i ts phrase j rest},
    Declaration i ts phrase j rest → Grown i phrase.desugar.span j
  | _, _, _, _, _, .classDecl _ _ hsuperclass _ hmethods _ => by
      have hlast := hmethods.span_eq
      cases hsuperclass with
      | none => exact hlast
      | some _ _ => exact (grown_build _ _).append hlast
  | _, _, _, _, _, .function _ h => h.span_eq
  | _, _, _, _, _, .var h => h.span_eq
  | _, _, _, _, _, .statement h => h.span_eq

theorem Statement.span_eq : ∀ {isOpen i ts phrase j rest},
    Statement isOpen i ts phrase j rest → Grown i phrase.desugar.span j
  | _, _, _, _, _, _, .expression h => h.span_eq
  | _, _, _, _, _, _, .print _ h _ => h.span_eq
  | _, _, _, _, _, _, .ret _ h _ => h.span_eq
  | _, _, _, _, _, _, .block _ h _ => h.span_eq
  | _, _, _, _, _, _, .ifOnly _ _ hcondition _ hyes => hcondition.span_eq.append hyes.span_eq
  | _, _, _, _, _, _, .ifElse _ _ hcondition _ hyes _ hno =>
      (hcondition.span_eq.append hyes.span_eq).append hno.span_eq
  | _, _, _, _, _, _, .loop _ _ hcondition _ hbody => hcondition.span_eq.append hbody.span_eq
  | _, _, _, _, _, _, .forLoop _ _ hinitial hcondition _ hincrement _ hbody hcompleted => by
      obtain ⟨hlate, htree⟩ := hcompleted.span_eq
      have hclauses := (hinitial.span_eq.append hcondition.span_eq).append hincrement.span_eq
      refine ((hclauses.append hbody.span_eq).append hlate).of_eq ?_
      rw [span_forLoop, htree]
      omega

theorem Declarations.span_eq : ∀ {i ts phrases j rest},
    Declarations i ts phrases j rest → Grown i (bodySpan (desugarAll phrases)) j
  | i, _, _, _, _, .nil => .nil i
  | _, _, _, _, _, .cons h hmore => h.span_eq.append hmore.span_eq

theorem Function.span_eq : ∀ {i ts f j rest}, Function i ts f j rest → Grown i f.desugar.span j
  | _, _, _, _, _, .mk _ _ _ hbody _ => hbody.span_eq

theorem Methods.span_eq : ∀ {i ts methods j rest},
    Methods i ts methods j rest → Grown i (methodSpan (desugarMethods methods)) j
  | i, _, _, _, _, .nil => .nil i
  | _, _, _, _, _, .cons h hmore => h.span_eq.append hmore.span_eq

end

end Grammar

end Lox
