import Lox.Proofs.Grammar.StatementSoundness
import Lox.Proofs.Scoping.Walk

/-!
# The nodes and numbers of what was read

Every node has a number of its own, and the numbers in a tree are those of nodes that reading built for
it.  This holds of whatever survives the reading of a source, also if the source is refused: what
breaks off is dropped with the numbers that it took.
-/

namespace Lox

/-- Different numbers from `i` on and below `j`. -/
structure Numbered (i : NodeId) (ids : List NodeId) (j : NodeId) : Prop where
  le : i ≤ j
  bounds : ∀ id ∈ ids, i ≤ id ∧ id < j
  distinct : ids.Nodup

namespace Numbered

variable {i j k : NodeId} {ids ids' : List NodeId}

theorem nil (i : NodeId) : Numbered i [] i :=
  ⟨Nat.le_refl i, nofun, .nil⟩

theorem append (h : Numbered i ids j) (h' : Numbered j ids' k) : Numbered i (ids ++ ids') k where
  le := Nat.le_trans h.le h'.le
  bounds id hid := by
    rcases List.mem_append.mp hid with hid | hid
    · exact ⟨(h.bounds id hid).1, Nat.lt_of_lt_of_le (h.bounds id hid).2 h'.le⟩
    · exact ⟨Nat.le_trans h.le (h'.bounds id hid).1, (h'.bounds id hid).2⟩
  distinct := by
    refine List.nodup_append.mpr ⟨h.distinct, h'.distinct, fun a ha b hb heq => ?_⟩
    subst heq
    exact Nat.lt_irrefl a (Nat.lt_of_lt_of_le (h.bounds a ha).2 (h'.bounds a hb).1)

theorem perm (h : Numbered i ids j) (hperm : ids.Perm ids') : Numbered i ids' j where
  le := h.le
  bounds id hid := h.bounds id (hperm.mem_iff.mpr hid)
  distinct := hperm.nodup_iff.mp h.distinct

theorem later (h : Numbered i ids j) (hle : j ≤ k) : Numbered i ids k where
  le := Nat.le_trans h.le hle
  bounds id hid := ⟨(h.bounds id hid).1, Nat.lt_of_lt_of_le (h.bounds id hid).2 hle⟩
  distinct := h.distinct

theorem sublist (h : Numbered i ids j) (hsub : ids'.Sublist ids) : Numbered i ids' j where
  le := h.le
  bounds id hid := h.bounds id (hsub.subset hid)
  distinct := h.distinct.sublist hsub

end Numbered

/-- The nodes of an expression that may be missing. -/
def optionalNodes (e : Option Expr) : List Expr :=
  e.elim [] Expr.nodes

/-- The nodes of a declaration that may have been dropped. -/
def survivingNodes (s : Option Stmt) : List Expr :=
  s.elim [] Stmt.nodes

def baseNodes (base : Option (NodeId × Token)) : List Expr :=
  base.elim [] fun b => [.read b.1 b.2]

namespace Parse

/-- A step after which the nodes `old` built so far have become the nodes `new`. -/
structure Extends {α : Type} (old : List Expr) (new : α → List Expr) (p : Parse α) : Prop where
  holds : ∀ {l : Ledger} {c c' : Cursor} {a : α}, l.Holds old c.ledger →
    @Eq (Option α × Cursor) (p c) (some a, c') → l.Holds (new a) c'.ledger

/-- A step that builds what it reads. -/
abbrev Builds {α : Type} (nodes : α → List Expr) (p : Parse α) : Prop :=
  Extends [] nodes p

section

variable {α β : Type} {old : List Expr} {mid : α → List Expr} {new : β → List Expr}

theorem Extends.bind {p : Parse α} {f : α → Parse β} (hp : Extends old mid p)
    (hf : ∀ a, Extends (mid a) new (f a)) : Extends old new (p >>= f) := by
  constructor
  intro l c c' b hold hstep
  rw [bind_apply] at hstep
  rcases hfirst : p c with ⟨_ | a, c₁⟩
  · rw [hfirst] at hstep
    cases hstep
  · rw [hfirst] at hstep
    exact (hf a).holds (hp.holds hold hfirst) hstep

theorem Extends.steady {p : Parse α} [Steady p] : Extends old (fun _ => old) p := by
  constructor
  intro l c c' a hold hstep
  have hgrows := Steady.builds (p := p) c
  rw [hstep] at hgrows
  exact hold.later hgrows

theorem Extends.skip {p : Parse α} [Steady p] {f : α → Parse β} (hf : ∀ a, Extends old new (f a)) :
    Extends old new (p >>= f) :=
  Extends.steady.bind hf

theorem Extends.read {p : Parse α} {f : α → Parse β} (hp : Builds mid p)
    (hf : ∀ a, Extends (old ++ mid a) new (f a)) : Extends old new (p >>= f) := by
  constructor
  intro l c c' b hold hstep
  rw [bind_apply] at hstep
  rcases hfirst : p c with ⟨_ | a, c₁⟩
  · rw [hfirst] at hstep
    cases hstep
  · rw [hfirst] at hstep
    exact (hf a).holds (hold.append (hp.holds (.nil c.ledger) hfirst)) hstep

theorem Extends.number {node : NodeId → Expr} [Labelled node] {f : NodeId → Parse β}
    (hf : ∀ id, Extends (old ++ [node id]) new (f id)) : Extends old new (number node >>= f) := by
  constructor
  intro l c c' b hold hstep
  rw [bind_apply, number_apply] at hstep
  exact (hf c.ledger.nextId).holds (hold.append (.single c.ledger node)) hstep

theorem Extends.build {node : NodeId → Expr} [Labelled node] {f : Expr → Parse β}
    (hf : ∀ id, Extends (old ++ [node id]) new (f (node id))) : Extends old new (build node >>= f) := by
  constructor
  intro l c c' b hold hstep
  rw [bind_apply, build_apply] at hstep
  exact (hf c.ledger.nextId).holds (hold.append (.single c.ledger node)) hstep

theorem Extends.pure {b : β} (h : (new b).Subperm old) : Extends old new (pure b) := by
  constructor
  intro l c c' b' hold hstep
  cases hstep
  exact hold.subperm h

theorem Extends.pure_eq {b : β} (h : new b = old) : Extends old new (Pure.pure b) :=
  .pure (h ▸ .refl _)

theorem Extends.drop {kept : List Expr} {p : Parse β} (hsub : kept.Sublist old)
    (hp : Extends kept new p) : Extends old new p :=
  ⟨fun hold hstep => hp.holds (hold.subperm hsub.subperm) hstep⟩

theorem Extends.finish {node : NodeId → Expr} [Labelled node] {new : Expr → List Expr}
    (h : ∀ id, new (node id) = old ++ [node id]) : Extends old new (Parse.build node) := by
  have hbuild : Extends old new (Parse.build node >>= Pure.pure) := .build fun id => .pure_eq (h id)
  rwa [bind_pure] at hbuild

theorem Extends.refuse (what : Expectation) : Extends old new (refuse what) := by
  constructor
  intro l c c' b _ hstep
  cases hstep

end

/-! ## Expressions -/

theorem Expr.nodes_join (left : Expr) (op : Token) (right : Expr) (id : NodeId) :
    (left.join op right id).nodes = left.nodes ++ right.nodes ++ [left.join op right id] := by
  unfold Expr.join
  split <;> rfl

section

variable {nested operand : Parse Expr}

theorem builds_argument [Steady nested] (hnested : Builds Expr.nodes nested) (count : Nat) :
    Builds Expr.nodes (argument nested count) := by
  unfold argument
  split
  · apply Extends.skip
    intro t
    exact .skip fun _ => hnested
  · exact hnested

theorem builds_arguments [Steady nested] (hnested : Builds Expr.nodes nested) (n count : Nat) :
    Builds argumentNodes (arguments nested n count) := by
  induction n generalizing count with
  | zero =>
      unfold arguments
      exact .read (builds_argument hnested count) fun first => .pure_eq (List.append_nil first.nodes)
  | succ n ih =>
      unfold arguments
      apply Extends.read (builds_argument hnested count)
      intro first
      apply Extends.skip
      intro comma
      cases comma with
      | none => exact .pure_eq (List.append_nil first.nodes)
      | some _ => exact .read (ih (count + 1)) fun more => .pure_eq rfl

/-- The arguments of a call add to the numbers of what is called. -/
theorem extends_finishCall [Steady nested] (hnested : Builds Expr.nodes nested) (n : Nat)
    (callee : Expr) : Extends callee.nodes Expr.nodes (finishCall nested n callee) := by
  have finished : ∀ args : List Expr, Extends (callee.nodes ++ argumentNodes args) Expr.nodes
      (do let paren ← expect .rightParen .argumentEnd; build (.call · callee paren args)) := by
    intro args
    exact .skip fun paren => .finish fun _ => rfl
  unfold finishCall
  apply Extends.skip
  intro bare
  cases bare with
  | true => exact .read (.pure_eq rfl) finished
  | false => exact .read (builds_arguments hnested n 0) finished

theorem builds_primary [Steady nested] (hnested : Builds Expr.nodes nested) :
    Builds Expr.nodes (primary nested) := by
  unfold primary
  apply Extends.skip
  intro t
  split
  · exact .skip fun _ => .finish fun _ => rfl
  · exact .skip fun _ => .finish fun _ => rfl
  · exact .skip fun _ => .finish fun _ => rfl
  · exact .skip fun _ => .finish fun _ => rfl
  · exact .skip fun _ => .finish fun _ => rfl
  · apply Extends.skip
    intro _
    apply Extends.skip
    intro _
    apply Extends.skip
    intro method
    exact .finish fun _ => rfl
  · apply Extends.skip
    intro _
    exact .finish fun _ => rfl
  · apply Extends.skip
    intro _
    exact .finish fun _ => rfl
  · apply Extends.skip
    intro _
    apply Extends.read hnested
    intro inner
    exact .skip fun _ => .finish fun _ => rfl
  · exact .refuse _

theorem extends_trailers [Steady nested] (hnested : Builds Expr.nodes nested) (n : Nat) (e : Expr) :
    Extends e.nodes Expr.nodes (trailers nested n e) := by
  induction n generalizing e with
  | zero =>
      unfold trailers
      exact .pure_eq rfl
  | succ n ih =>
      unfold trailers
      apply Extends.skip
      intro paren
      cases paren with
      | some _ => exact (extends_finishCall hnested n e).bind ih
      | none =>
          apply Extends.skip
          intro dot
          cases dot with
          | none => exact .pure_eq rfl
          | some _ =>
              apply Extends.skip
              intro name
              apply Extends.build
              intro id
              have hget := ih (.get id e name)
              rwa [Expr.nodes] at hget

theorem builds_call [Steady nested] (hnested : Builds Expr.nodes nested) (n : Nat) :
    Builds Expr.nodes (call nested n) :=
  (builds_primary hnested).bind fun e => extends_trailers hnested n e

theorem builds_unary [Steady operand] (hoperand : Builds Expr.nodes operand) (n : Nat) :
    Builds Expr.nodes (unary operand n) := by
  induction n with
  | zero => exact hoperand
  | succ n ih =>
      unfold unary
      apply Extends.skip
      intro op
      split
      · apply Extends.skip
        intro _
        exact ih.bind fun right => .finish fun _ => rfl
      · apply Extends.skip
        intro _
        exact ih.bind fun right => .finish fun _ => rfl
      · exact hoperand

mutual

theorem builds_binary [Steady operand] (hoperand : Builds Expr.nodes operand) : ∀ n least : Nat,
    Builds Expr.nodes (binary operand n least)
  | 0, _ => by
      unfold binary
      exact hoperand
  | n + 1, least => by
      unfold binary
      exact hoperand.bind fun left => extends_climb hoperand n least left

theorem extends_climb [Steady operand] (hoperand : Builds Expr.nodes operand) :
    ∀ (n least : Nat) (left : Expr), Extends left.nodes Expr.nodes (climb operand n least left)
  | 0, _, left => by
      unfold climb
      exact .pure_eq rfl
  | n + 1, least, left => by
      unfold climb
      apply Extends.skip
      intro op
      split
      · exact .pure_eq rfl
      · split
        · exact .pure_eq rfl
        · apply Extends.skip
          intro _
          apply Extends.read (builds_binary hoperand n _)
          intro right
          apply Extends.build
          intro id
          rw [← Expr.nodes_join left op right id]
          exact extends_climb hoperand n least _

end

/-- The target of an assignment is dropped with its node, or becomes part of the assignment. -/
theorem builds_assignment [Steady nested] (hnested : Builds Expr.nodes nested) (n : Nat) :
    Builds Expr.nodes (assignment nested n) := by
  unfold assignment
  apply Extends.read (builds_binary (builds_unary (builds_call hnested n) n) n 1)
  intro target
  apply Extends.skip
  intro equals
  cases equals with
  | none => exact .pure_eq rfl
  | some equals =>
      apply Extends.read hnested
      intro value
      rw [List.nil_append]
      cases target with
      | read id name =>
          apply Extends.drop (List.sublist_append_right _ value.nodes)
          exact .finish fun _ => rfl
      | get id object name =>
          rw [Expr.nodes]
          apply Extends.drop ((List.sublist_append_left object.nodes _).append_right value.nodes)
          exact .finish fun _ => rfl
      | _ => exact .skip fun _ => .pure (List.sublist_append_left _ _).subperm

theorem builds_expression (n : Nat) : Builds Expr.nodes (expression n) := by
  induction n with
  | zero =>
      unfold expression
      exact .refuse _
  | succ n ih =>
      unfold expression
      exact builds_assignment ih (n + 1)

instance (n : Nat) : Steady (wholeExpression n) := by
  unfold wholeExpression
  infer_instance

theorem builds_wholeExpression (n : Nat) : Builds Expr.nodes (wholeExpression n) := by
  unfold wholeExpression
  apply Extends.read (builds_expression n)
  intro e
  apply Extends.skip
  intro _
  exact .pure_eq rfl

end

/-! ## Statements -/

section

variable {stmt : Parse Stmt} {decl : Parse (Option Stmt)}

theorem builds_declarations (hdecl : Builds survivingNodes decl) (closes : Token → Bool) (n : Nat) :
    Builds bodyNodes (declarations closes decl n) := by
  induction n with
  | zero =>
      unfold declarations
      exact .pure_eq rfl
  | succ n ih =>
      unfold declarations
      apply Extends.skip
      intro c
      split
      · exact .pure_eq rfl
      · split
        · exact .pure_eq rfl
        · apply Extends.read hdecl
          intro first
          apply Extends.read ih
          intro more
          apply Extends.pure_eq
          cases first with
          | none => rfl
          | some s => rfl

theorem builds_block (hdecl : Builds survivingNodes decl) (n : Nat) :
    Builds bodyNodes (block decl n) := by
  unfold block
  apply Extends.read (builds_declarations hdecl _ n)
  intro body
  exact .skip fun _ => .pure_eq rfl

theorem builds_funDecl (callee : Callee) (hdecl : Builds survivingNodes decl) (n : Nat) :
    Builds FunDecl.nodes (funDecl callee decl n) := by
  unfold funDecl
  apply Extends.skip
  intro name
  apply Extends.skip
  intro _
  have finished : ∀ params : List Token, Builds FunDecl.nodes
      (do let _ ← expect .rightParen .parameterEnd
          let _ ← expect .leftBrace (.calleeBody callee)
          let body ← block decl n
          return .mk name params body) := by
    intro params
    apply Extends.skip
    intro _
    apply Extends.skip
    intro _
    exact (builds_block hdecl n).bind fun body => .pure_eq rfl
  apply Extends.skip
  intro bare
  cases bare with
  | true => exact .skip finished
  | false => exact .skip finished

theorem builds_methods {method : Parse FunDecl}
    (hmethod : Builds FunDecl.nodes method) (n : Nat) : Builds methodNodes (methods method n) := by
  induction n with
  | zero =>
      unfold methods
      exact .pure_eq rfl
  | succ n ih =>
      unfold methods
      apply Extends.skip
      intro done
      split
      · exact .pure_eq rfl
      · apply Extends.skip
        intro closed
        split
        · exact .pure_eq rfl
        · apply Extends.read hmethod
          intro first
          exact .read ih fun more => .pure_eq rfl

theorem builds_superclass : Builds baseNodes superclass := by
  unfold superclass
  apply Extends.skip
  intro less
  cases less with
  | none => exact .pure_eq rfl
  | some _ =>
      apply Extends.skip
      intro name
      exact .number fun id => .pure_eq rfl

theorem builds_classDecl (hdecl : Builds survivingNodes decl) (n : Nat) :
    Builds Stmt.nodes (classDecl decl n) := by
  unfold classDecl
  apply Extends.skip
  intro name
  apply Extends.read builds_superclass
  intro base
  apply Extends.skip
  intro _
  apply Extends.read (builds_methods (builds_funDecl .method hdecl n) n)
  intro methods
  apply Extends.skip
  intro _
  apply Extends.pure_eq
  cases base with
  | none => rfl
  | some base => rfl

theorem builds_varDecl (n : Nat) : Builds Stmt.nodes (varDecl n) := by
  unfold varDecl
  apply Extends.skip
  intro name
  have finished : ∀ initial : Option Expr, Extends (optionalNodes initial) Stmt.nodes
      (do let _ ← expect .semicolon .variableEnd; return Stmt.var name initial) := by
    intro initial
    apply Extends.skip
    intro _
    apply Extends.pure_eq
    cases initial with
    | none => rfl
    | some value => rfl
  apply Extends.skip
  intro equals
  cases equals with
  | none => exact Extends.bind (.pure_eq rfl) finished
  | some _ =>
      have hinitial : Builds optionalNodes (some <$> expression n) :=
        (builds_expression n).bind fun value => .pure_eq rfl
      exact hinitial.bind finished

theorem builds_expressionStmt (n : Nat) : Builds Stmt.nodes (expressionStmt n) := by
  unfold expressionStmt
  apply Extends.read (builds_expression n)
  intro value
  exact .skip fun _ => .pure_eq rfl

theorem builds_optionalExpression (n : Nat) (follower : Token.Kind) :
    Builds optionalNodes (optionalExpression n follower) := by
  unfold optionalExpression
  apply Extends.skip
  intro absent
  split
  · exact .pure_eq rfl
  · exact (builds_expression n).bind fun value => .pure_eq rfl

theorem builds_forInitial (n : Nat) : Builds survivingNodes (forInitial n) := by
  unfold forInitial
  apply Extends.skip
  intro semicolon
  cases semicolon with
  | some _ => exact .pure_eq rfl
  | none =>
      apply Extends.skip
      intro var
      cases var with
      | some _ => exact (builds_varDecl n).bind fun s => .pure_eq rfl
      | none => exact (builds_expressionStmt n).bind fun s => .pure_eq rfl

theorem nodes_forLoop (initial : Option Stmt) (condition : Expr) (increment : Option Expr)
    (body : Stmt) :
    (Stmt.forLoop initial condition increment body).nodes =
      survivingNodes initial ++ (condition.nodes ++ (body.nodes ++ optionalNodes increment)) := by
  cases initial <;> cases increment <;>
    simp [Stmt.forLoop, survivingNodes, optionalNodes, Stmt.nodes, bodyNodes]

theorem builds_forStmt (hstmt : Builds Stmt.nodes stmt) (n : Nat) :
    Builds Stmt.nodes (forStmt stmt n) := by
  unfold forStmt
  apply Extends.skip
  intro _
  apply Extends.read (builds_forInitial n)
  intro initial
  apply Extends.read (builds_optionalExpression n .semicolon)
  intro condition
  apply Extends.skip
  intro _
  apply Extends.read (builds_optionalExpression n .rightParen)
  intro increment
  apply Extends.skip
  intro _
  apply Extends.read hstmt
  intro body
  have hswap : (body.nodes ++ optionalNodes increment).Perm (optionalNodes increment ++ body.nodes) :=
    List.perm_append_comm
  cases condition with
  | none =>
      apply Extends.build
      intro id
      apply Extends.pure
      simp only [nodes_forLoop, List.nil_append, List.append_assoc, optionalNodes, Option.elim_none]
      refine (List.Perm.append_left _ ?_).subperm
      rw [← List.append_assoc (increment.elim _ _)]
      exact List.perm_append_comm.trans (hswap.append_right _)
  | some e =>
      change Extends _ _ (pure (Stmt.forLoop initial e increment body))
      apply Extends.pure
      simp only [nodes_forLoop, List.nil_append, List.append_assoc]
      exact ((hswap.append_left _).append_left _).subperm

theorem builds_ifStmt (hstmt : Builds Stmt.nodes stmt) (n : Nat) :
    Builds Stmt.nodes (ifStmt stmt n) := by
  unfold ifStmt
  apply Extends.skip
  intro _
  apply Extends.read (builds_expression n)
  intro condition
  apply Extends.skip
  intro _
  apply Extends.read hstmt
  intro yes
  apply Extends.skip
  intro otherwise
  cases otherwise with
  | none => exact .pure_eq rfl
  | some _ => exact .read hstmt fun no => .pure_eq rfl

theorem builds_whileStmt (hstmt : Builds Stmt.nodes stmt) (n : Nat) :
    Builds Stmt.nodes (whileStmt stmt n) := by
  unfold whileStmt
  apply Extends.skip
  intro _
  apply Extends.read (builds_expression n)
  intro condition
  apply Extends.skip
  intro _
  exact .read hstmt fun body => .pure_eq rfl

theorem builds_printStmt (n : Nat) : Builds Stmt.nodes (printStmt n) := by
  unfold printStmt
  apply Extends.read (builds_expression n)
  intro value
  exact .skip fun _ => .pure_eq rfl

theorem builds_returnStmt (keyword : Token) (n : Nat) :
    Builds Stmt.nodes (returnStmt keyword n) := by
  unfold returnStmt
  apply Extends.read (builds_optionalExpression n .semicolon)
  intro value
  apply Extends.skip
  intro _
  apply Extends.pure_eq
  cases value with
  | none => rfl
  | some value => rfl

theorem builds_statementForm (hstmt : Builds Stmt.nodes stmt) (hdecl : Builds survivingNodes decl)
    (n : Nat) : Builds Stmt.nodes (statementForm stmt decl n) := by
  unfold statementForm
  apply Extends.skip
  intro t
  split
  · exact .skip fun _ => builds_forStmt hstmt n
  · exact .skip fun _ => builds_ifStmt hstmt n
  · exact .skip fun _ => builds_printStmt n
  · exact .skip fun _ => builds_returnStmt t n
  · exact .skip fun _ => builds_whileStmt hstmt n
  · apply Extends.skip
    intro _
    exact (builds_block hdecl n).bind fun body => .pure_eq rfl
  · exact builds_expressionStmt n

theorem builds_declarationForm (hstmt : Builds Stmt.nodes stmt) (hdecl : Builds survivingNodes decl)
    (n : Nat) : Builds Stmt.nodes (declarationForm stmt decl n) := by
  unfold declarationForm
  apply Extends.skip
  intro t
  split
  · exact .skip fun _ => builds_classDecl hdecl n
  · apply Extends.skip
    intro _
    exact (builds_funDecl .function hdecl n).bind fun f => .pure_eq rfl
  · exact .skip fun _ => builds_varDecl n
  · exact builds_statementForm hstmt hdecl n

/-- What breaks off is dropped, and its nodes stay entered. -/
theorem builds_recovering {form : Parse Stmt} [Steady form] (hform : Builds Stmt.nodes form) :
    Builds survivingNodes (recovering form) := by
  constructor
  intro l c c' s hold hstep
  unfold recovering at hstep
  rcases hread : form c with ⟨_ | stmt, c₁⟩
  · have hgrows := Steady.builds (p := form) c
    rw [hread] at hgrows hstep
    cases hstep
    exact hold.later hgrows
  · rw [hread] at hstep
    cases hstep
    exact hform.holds hold hread

end

mutual

theorem builds_statement : ∀ n : Nat, Builds Stmt.nodes (statement n)
  | 0 => by
      unfold statement
      exact builds_expressionStmt 0
  | n + 1 => by
      unfold statement
      exact builds_statementForm (builds_statement n) (builds_declaration n) (n + 1)

theorem builds_declaration : ∀ n : Nat, Builds survivingNodes (declaration n)
  | 0 => by
      unfold declaration
      exact builds_recovering (builds_expressionStmt 0)
  | n + 1 => by
      unfold declaration
      exact builds_recovering
        (builds_declarationForm (builds_statement n) (builds_declaration n) (n + 1))

end

theorem builds_program (n : Nat) : Builds bodyNodes (program n) :=
  builds_declarations (builds_declaration n) _ n

end Parse

/-! ## The numbers of references are those of nodes -/

section

variable {ids ids' : List NodeId} {nodes nodes' : List Expr}

private theorem numbers_append (h : ids.Sublist (nodes.filterMap Expr.number?)) :
    ids.Sublist ((nodes ++ nodes').filterMap Expr.number?) := by
  rw [List.filterMap_append]
  exact h.trans (List.sublist_append_left _ _)

private theorem numbers_join (h : ids.Sublist (nodes.filterMap Expr.number?))
    (h' : ids'.Sublist (nodes'.filterMap Expr.number?)) :
    (ids ++ ids').Sublist ((nodes ++ nodes').filterMap Expr.number?) := by
  rw [List.filterMap_append]
  exact h.append h'

end

mutual

theorem Expr.ids_sublist : ∀ e : Expr, e.ids.Sublist (e.nodes.filterMap Expr.number?)
  | .literal _ _ => List.nil_sublist _
  | .grouping _ inner => numbers_append inner.ids_sublist
  | .unary _ _ right => numbers_append right.ids_sublist
  | .binary _ left _ right => numbers_append (numbers_join left.ids_sublist right.ids_sublist)
  | .logical _ left _ right => numbers_append (numbers_join left.ids_sublist right.ids_sublist)
  | .read _ _ => .refl _
  | .assign _ _ value => numbers_join value.ids_sublist (.refl _)
  | .call _ callee _ arguments =>
      numbers_append (numbers_join callee.ids_sublist (argumentIds_sublist arguments))
  | .get _ object _ => numbers_append object.ids_sublist
  | .set _ object _ value => numbers_append (numbers_join object.ids_sublist value.ids_sublist)
  | .self _ _ => .refl _
  | .super _ _ _ => .refl _
  | .missing => .refl _
  | .misplaced _ => .refl _

theorem argumentIds_sublist : ∀ es : List Expr,
    (argumentIds es).Sublist ((argumentNodes es).filterMap Expr.number?)
  | [] => .refl _
  | e :: es => numbers_join e.ids_sublist (argumentIds_sublist es)

end

mutual

theorem Stmt.ids_sublist : ∀ s : Stmt, s.ids.Sublist (s.nodes.filterMap Expr.number?)
  | .expression value => value.ids_sublist
  | .print value => value.ids_sublist
  | .var _ none => .refl _
  | .var _ (some value) => value.ids_sublist
  | .block body => bodyIds_sublist body
  | .cond condition yes none => numbers_join condition.ids_sublist yes.ids_sublist
  | .cond condition yes (some no) =>
      numbers_join (numbers_join condition.ids_sublist yes.ids_sublist) no.ids_sublist
  | .loop condition body => numbers_join condition.ids_sublist body.ids_sublist
  | .function decl => decl.ids_sublist
  | .ret _ none => .refl _
  | .ret _ (some value) => value.ids_sublist
  | .classDecl _ none methods => methodIds_sublist methods
  | .classDecl _ (some _) methods => (methodIds_sublist methods).cons_cons _
  | .missing => .refl _
  | .misplaced _ => .refl _

theorem bodyIds_sublist : ∀ ss : List Stmt,
    (bodyIds ss).Sublist ((bodyNodes ss).filterMap Expr.number?)
  | [] => .refl _
  | s :: ss => numbers_join s.ids_sublist (bodyIds_sublist ss)

theorem FunDecl.ids_sublist : ∀ decl : FunDecl, decl.ids.Sublist (decl.nodes.filterMap Expr.number?)
  | .mk _ _ body => bodyIds_sublist body

theorem methodIds_sublist : ∀ decls : List FunDecl,
    (methodIds decls).Sublist ((methodNodes decls).filterMap Expr.number?)
  | [] => .refl _
  | decl :: decls => numbers_join decl.ids_sublist (methodIds_sublist decls)

end

/-! ## Whole sources -/

namespace Ledger

variable {n : NodeId} {l : Ledger} {nodes : List Expr}

/-- The nodes of a source have numbers from its first one on. -/
theorem Extends.numbered (h : (Ledger.start n).Extends l) :
    ∃ ids, l.built.map Expr.number? = ids.map some ∧ Numbered n ids l.nextId := by
  obtain ⟨nodes, hbuilt, hnumbers, hnext⟩ := h.entered
  refine ⟨(List.range' n nodes.length).reverse, ?_, ?_⟩
  · rw [hbuilt, show (Ledger.start n).built = [] from rfl, List.append_nil, hnumbers,
      List.map_reverse]
    rfl
  · refine ⟨hnext ▸ Nat.le_add_right _ _, fun id hid => ?_,
      (List.reverse_perm _).nodup_iff.mpr List.nodup_range'⟩
    rw [List.mem_reverse, List.mem_range'_1] at hid
    rw [hnext]
    exact hid

theorem Holds.subperm_built (h : (Ledger.start n).Holds nodes l) : nodes.Subperm l.built := by
  have hall := h.among
  rwa [show (Ledger.start n).built = [] from rfl, List.append_nil] at hall

theorem Holds.numbered (h : (Ledger.start n).Holds nodes l) :
    Numbered n (nodes.filterMap Expr.number?) l.nextId := by
  obtain ⟨ids, hnumbers, hids⟩ := h.grows.numbered
  have hbuilt : l.built.filterMap Expr.number? = ids := by
    rw [← Function.id_comp Expr.number?, ← List.filterMap_map, hnumbers, List.filterMap_map,
      Function.id_comp, List.filterMap_some]
  obtain ⟨among, hperm, hsub⟩ := h.subperm_built
  rw [← hbuilt] at hids
  exact (hids.sublist (hsub.filterMap _)).perm (hperm.filterMap _)

end Ledger

/-- What reading gives was built by it, also if the source is refused. -/
theorem holds_readProgram (s : Scan) (n : NodeId) :
    (Ledger.start n).Holds (bodyNodes (s.readProgram n).tree) (s.readProgram n).ledger := by
  unfold Scan.readProgram
  have hgrows := Parse.Steady.builds (p := Parse.program s.tokens.length) (s.cursor n)
  rcases hstep : Parse.program s.tokens.length (s.cursor n) with ⟨_ | statements, c⟩
  · rw [hstep] at hgrows
    exact (Ledger.Holds.nil _).later hgrows
  · exact (Parse.builds_program _).holds (.nil _) hstep

theorem holds_readExpression (s : Scan) (n : NodeId) :
    (Ledger.start n).Holds (optionalNodes (s.readExpression n).tree)
      (s.readExpression n).ledger := by
  unfold Scan.readExpression
  have hgrows := Parse.Steady.builds (p := Parse.wholeExpression s.tokens.length) (s.cursor n)
  rcases hstep : Parse.wholeExpression s.tokens.length (s.cursor n) with ⟨_ | e, c⟩
  · rw [hstep] at hgrows
    exact (Ledger.Holds.nil _).later hgrows
  · exact (Parse.builds_wholeExpression _).holds (.nil _) hstep

theorem numbered_compile (source : String) (n : NodeId) :
    Numbered n (bodyIds (compile source n).statements) (compile source n).nextId := by
  have hread := (holds_readProgram (Scan.ofSource source) n).numbered.sublist (bodyIds_sublist _)
  unfold compile
  dsimp only
  split <;> exact hread

/-- The numbers of the references of an expression that may be missing. -/
def optionalIds (e : Option Expr) : List NodeId :=
  e.elim [] Expr.ids

theorem optionalIds_sublist (e : Option Expr) :
    (optionalIds e).Sublist ((optionalNodes e).filterMap Expr.number?) := by
  cases e with
  | none => exact .refl _
  | some e => exact e.ids_sublist

theorem numbered_readExpression (source : String) (n : NodeId) :
    Numbered n (optionalIds ((Scan.ofSource source).readExpression n).tree)
      ((Scan.ofSource source).readExpression n).nextId :=
  (holds_readExpression (Scan.ofSource source) n).numbered.sublist (optionalIds_sublist _)

end Lox
