import Lox.Syntax.Expression
import Mathlib.Data.List.Perm.Subperm

/-!
# The nodes that reading builds

Reading enters every node that it builds in a ledger, under the next number, and never takes one out
again.  So no two nodes of a ledger have one number, whether they are part of a tree in the end or
were dropped: with a statement that broke off, or as the target of an assignment.
-/

namespace Lox

/-- The number of an expression.  Where nothing or a statement is, there is none. -/
def Expr.number? : Expr → Option NodeId
  | .literal id _ | .grouping id _ | .unary id _ _ | .binary id _ _ _ | .logical id _ _ _ => some id
  | .read id _ | .assign id _ _ | .call id _ _ _ | .get id _ _ | .set id _ _ _ => some id
  | .self id _ | .super id _ _ => some id
  | .missing | .misplaced _ => none

/-- Nodes that have the number that they are given. -/
class Labelled (node : NodeId → Expr) : Prop where
  number : ∀ id, (node id).number? = some id

section

variable {t : Token} {e e' : Expr}

instance {value : Literal} : Labelled (.literal · value) := ⟨fun _ => rfl⟩
instance : Labelled (.grouping · e) := ⟨fun _ => rfl⟩
instance : Labelled (.unary · t e) := ⟨fun _ => rfl⟩
instance : Labelled (.read · t) := ⟨fun _ => rfl⟩
instance : Labelled (.assign · t e) := ⟨fun _ => rfl⟩
instance (left : Expr) (op : Token) (right : Expr) : Labelled (left.join op right) := by
  constructor
  intro id
  unfold Expr.join
  split <;> rfl

instance {arguments : List Expr} : Labelled (.call · e t arguments) := ⟨fun _ => rfl⟩
instance : Labelled (.get · e t) := ⟨fun _ => rfl⟩
instance : Labelled (.set · e t e') := ⟨fun _ => rfl⟩
instance : Labelled (.self · t) := ⟨fun _ => rfl⟩
instance {method : Token} : Labelled (.super · t method) := ⟨fun _ => rfl⟩

end

namespace Ledger

/-- A ledger that comes from another one by entering nodes. -/
inductive Extends (l : Ledger) : Ledger → Prop where
  | refl : Extends l l
  | build : Extends l l' → Labelled node → Extends l (l'.build node)

variable {l l' l'' : Ledger}

theorem Extends.trans (h : l.Extends l') (h' : l'.Extends l'') : l.Extends l'' := by
  induction h' with
  | refl => exact h
  | build _ hnode ih => exact .build ih hnode

theorem extends_build (l : Ledger) (node : NodeId → Expr) [hnode : Labelled node] :
    l.Extends (l.build node) :=
  .build .refl hnode

theorem Extends.le (h : l.Extends l') : l.nextId ≤ l'.nextId := by
  induction h with
  | refl => exact Nat.le_refl _
  | build _ _ ih => exact Nat.le_succ_of_le ih

/-- The nodes that were entered, each under its own number, from the next one of the first ledger on. -/
theorem Extends.entered (h : l.Extends l') : ∃ nodes, l'.built = nodes ++ l.built ∧
    nodes.map Expr.number? = ((List.range' l.nextId nodes.length).map some).reverse ∧
      l'.nextId = l.nextId + nodes.length := by
  induction h with
  | refl => exact ⟨[], rfl, rfl, rfl⟩
  | @build l' node _ hnode ih =>
      obtain ⟨nodes, hbuilt, hnumbers, hnext⟩ := ih
      refine ⟨node l'.nextId :: nodes, congrArg _ hbuilt, ?_, congrArg (· + 1) hnext⟩
      rw [List.map_cons, hnode.number, hnumbers, List.length_cons, List.range'_1_concat,
        List.map_append, List.reverse_append, hnext]
      rfl

/-- Nodes that were entered between two ledgers, no entry counted twice. -/
structure Holds (l : Ledger) (nodes : List Expr) (l' : Ledger) : Prop where
  grows : l.Extends l'
  among : (nodes ++ l.built).Subperm l'.built

namespace Holds

variable {nodes nodes' : List Expr}

theorem nil (l : Ledger) : l.Holds [] l :=
  ⟨.refl, .refl _⟩

theorem single (l : Ledger) (node : NodeId → Expr) [Labelled node] :
    l.Holds [node l.nextId] (l.build node) :=
  ⟨l.extends_build node, .refl _⟩

theorem append (h : l.Holds nodes l') (h' : l'.Holds nodes' l'') : l.Holds (nodes ++ nodes') l'' where
  grows := h.grows.trans h'.grows
  among := by
    refine .trans ?_ h'.among
    refine .trans ?_ ((List.subperm_append_left nodes').mpr h.among)
    rw [← List.append_assoc]
    exact (List.perm_append_comm.append_right l.built).subperm

theorem later (h : l.Holds nodes l') (hgrows : l'.Extends l'') : l.Holds nodes l'' := by
  obtain ⟨entered, hbuilt, -, -⟩ := hgrows.entered
  refine ⟨h.grows.trans hgrows, h.among.trans ?_⟩
  rw [hbuilt]
  exact (List.sublist_append_right entered _).subperm

theorem subperm (h : l.Holds nodes l') (hsub : nodes'.Subperm nodes) : l.Holds nodes' l' :=
  ⟨h.grows, ((List.subperm_append_right l.built).mpr hsub).trans h.among⟩

end Holds

end Ledger

/-! ## The nodes of a tree -/

mutual

/-- An expression and those that it is made of, each behind its parts. -/
def Expr.nodes : Expr → List Expr
  | .literal id value => [.literal id value]
  | .grouping id inner => inner.nodes ++ [.grouping id inner]
  | .unary id op right => right.nodes ++ [.unary id op right]
  | .binary id left op right => left.nodes ++ right.nodes ++ [.binary id left op right]
  | .logical id left op right => left.nodes ++ right.nodes ++ [.logical id left op right]
  | .read id name => [.read id name]
  | .assign id name value => value.nodes ++ [.assign id name value]
  | .call id callee paren arguments =>
      callee.nodes ++ argumentNodes arguments ++ [.call id callee paren arguments]
  | .get id object name => object.nodes ++ [.get id object name]
  | .set id object name value => object.nodes ++ value.nodes ++ [.set id object name value]
  | .self id keyword => [.self id keyword]
  | .super id keyword method => [.super id keyword method]
  | .missing => []
  | .misplaced _ => []

def argumentNodes : List Expr → List Expr
  | [] => []
  | argument :: arguments => argument.nodes ++ argumentNodes arguments

end

mutual

def Stmt.nodes : Stmt → List Expr
  | .expression value => value.nodes
  | .print value => value.nodes
  | .var _ none => []
  | .var _ (some value) => value.nodes
  | .block body => bodyNodes body
  | .cond condition yes none => condition.nodes ++ yes.nodes
  | .cond condition yes (some no) => condition.nodes ++ yes.nodes ++ no.nodes
  | .loop condition body => condition.nodes ++ body.nodes
  | .function decl => decl.nodes
  | .ret _ none => []
  | .ret _ (some value) => value.nodes
  | .classDecl _ none methods => methodNodes methods
  | .classDecl _ (some (id, name)) methods => .read id name :: methodNodes methods
  | .missing => []
  | .misplaced _ => []

def bodyNodes : List Stmt → List Expr
  | [] => []
  | stmt :: body => stmt.nodes ++ bodyNodes body

def FunDecl.nodes : FunDecl → List Expr
  | .mk _ _ body => bodyNodes body

def methodNodes : List FunDecl → List Expr
  | [] => []
  | method :: methods => method.nodes ++ methodNodes methods

end

end Lox
