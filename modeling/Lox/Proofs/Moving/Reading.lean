import Lox.Proofs.Grammar.Reading
import Lox.Proofs.Moving.Tree

/-!
# Reading elsewhere

Reading depends on the kinds and texts of tokens alone.  A step that reads the same tokens further
down, with other numbers for nodes, gives the same tree moved there, and finds the same problems
there, also in a source that is refused.
-/

namespace Lox

/-- The nodes of a source elsewhere: `k` lines further down, behind others and after `d` more. -/
def Ledger.moved (k : Int) (d : Nat) (behind : List Expr) (l : Ledger) : Ledger where
  nextId := l.nextId + d
  built := l.built.map (Expr.moved k (· + d)) ++ behind

/-- The same place in the same source elsewhere. -/
def Cursor.moved (k : Int) (d : Nat) (behind : List Expr) (c : Cursor) : Cursor where
  tokens := c.tokens.map (Token.down k)
  ending := c.ending.down k
  ledger := c.ledger.moved k d behind
  problems := c.problems.map (Diagnostic.down k)

namespace Parse

/-- What `q` does elsewhere is what `p` does, with a result that `f` moves there. -/
def Moves (k : Int) (d : Nat) {α β : Type} (f : α → β) (p : Parse α) (q : Parse β) : Prop :=
  ∀ (behind : List Expr) (c : Cursor), @Eq (Option β × Cursor) (q (c.moved k d behind))
    ((p c).1.map f, (p c).2.moved k d behind)

section

variable {k : Int} {d : Nat} {α β γ δ : Type} {f : α → β} {g : γ → δ}

/-! ## Single steps -/

theorem Moves.bind {p : Parse α} {q : Parse β} {P : α → Parse γ} {Q : β → Parse δ}
    (hp : Moves k d f p q) (hP : ∀ a, Moves k d g (P a) (Q (f a))) :
    Moves k d g (p >>= P) (q >>= Q) := by
  intro behind c
  rw [bind_apply, bind_apply, hp behind c]
  rcases p c with ⟨_ | a, c'⟩
  · rfl
  · exact hP a behind c'

theorem Moves.pure (a : α) : Moves k d f (pure a) (pure (f a)) :=
  fun _ _ => rfl

theorem Moves.map {p : Parse α} {q : Parse β} {F : α → γ} {G : β → δ} (hp : Moves k d f p q)
    (hFG : ∀ a, G (f a) = g (F a)) : Moves k d g (F <$> p) (G <$> q) := by
  apply hp.bind
  intro a
  change Moves k d g (Pure.pure (F a)) (Pure.pure (G (f a)))
  rw [hFG]
  exact .pure _

theorem moves_get_bind {P : Cursor → Parse γ} {Q : Cursor → Parse δ}
    (h : ∀ behind c, Moves k d g (P c) (Q (c.moved k d behind))) :
    Moves k d g (get >>= P) (get >>= Q) := by
  intro behind c
  rw [bind_apply, bind_apply, get_apply, get_apply]
  exact h behind c behind c

theorem Cursor.current_moved (behind : List Expr) (c : Cursor) :
    (c.moved k d behind).current = c.current.down k := by
  unfold Cursor.current Cursor.moved
  cases c.tokens <;> rfl

theorem moves_current : Moves k d (Token.down k) current current := by
  intro behind c
  rw [current_apply, current_apply, Cursor.current_moved]
  rfl

theorem moves_atEnd : Moves k d (fun b => b) atEnd atEnd := by
  intro behind c
  rw [atEnd_apply, atEnd_apply]
  simp [Cursor.moved]

theorem moves_advance : Moves k d (Token.down k) advance advance := by
  intro behind c
  rw [advance_apply, advance_apply, Cursor.current_moved]
  simp [Cursor.moved]

theorem Ledger.build_moved {node node' : NodeId → Expr}
    (h : ∀ id, node' (id + d) = (node id).moved k (· + d)) (behind : List Expr) (l : Ledger) :
    (l.build node).moved k d behind = (l.moved k d behind).build node' := by
  unfold Ledger.build Ledger.moved
  simp only [h, List.map_cons, List.cons_append, Nat.add_right_comm]

theorem moves_number {node node' : NodeId → Expr}
    (h : ∀ id, node' (id + d) = (node id).moved k (· + d)) :
    Moves k d (· + d) (number node) (number node') := by
  intro behind c
  rw [number_apply, number_apply]
  simp only [Cursor.moved, Ledger.build_moved h]
  rfl

theorem moves_build {node node' : NodeId → Expr}
    (h : ∀ id, node' (id + d) = (node id).moved k (· + d)) :
    Moves k d (Expr.moved k (· + d)) (build node) (build node') := by
  apply (moves_number h).bind
  intro id
  rw [h]
  exact .pure (node id)

theorem moves_report (t : Token) (problem : Problem) :
    Moves k d (fun u => u) (report t problem) (report (t.down k) problem) := by
  intro behind c
  rw [report_apply, report_apply]
  simp [Cursor.moved]

theorem moves_abort : Moves k d f abort abort :=
  fun _ _ => rfl

theorem moves_check (kind : Token.Kind) : Moves k d (fun b => b) (check kind) (check kind) := by
  apply moves_get_bind
  rintro behind ⟨_ | ⟨t, ts⟩, _, _, _⟩
  · exact .pure _
  · exact .pure _

theorem moves_accept? (kind : Token.Kind) :
    Moves k d (Option.map (Token.down k)) (accept? kind) (accept? kind) := by
  apply (moves_check kind).bind
  intro found
  cases found with
  | false => exact .pure none
  | true => exact moves_advance.bind fun t => .pure (some t)

theorem moves_refuse (what : Expectation) : Moves k d f (refuse what) (refuse what) := by
  apply moves_current.bind
  intro t
  exact (moves_report t _).bind fun _ => moves_abort

theorem moves_expect (kind : Token.Kind) (what : Expectation) :
    Moves k d (Token.down k) (expect kind what) (expect kind what) := by
  apply (moves_accept? kind).bind
  intro found
  cases found with
  | none => exact moves_refuse what
  | some t => exact .pure t

theorem moves_expectEnd (what : Expectation) :
    Moves k d (fun u => u) (expectEnd what) (expectEnd what) := by
  apply moves_atEnd.bind
  intro done
  cases done with
  | false => exact moves_refuse what
  | true => exact .pure ()

end

/-! ## Expressions -/

section

variable {k : Int} {d : Nat} {nested operand : Parse Expr}

theorem Expr.join_moved (left : Expr) (op : Token) (right : Expr) (id : NodeId) :
    (left.moved k (· + d)).join (op.down k) (right.moved k (· + d)) (id + d) =
      (left.join op right id).moved k (· + d) := by
  unfold Expr.join
  rw [Token.kind_down, apply_ite (Expr.moved k (· + d))]
  simp only [Expr.moved]

/-- A step that reads the same expression everywhere. -/
abbrev ReadsExpr (k : Int) (d : Nat) (p : Parse Expr) : Prop :=
  Moves k d (Expr.moved k (· + d)) p p

theorem moves_argument (hnested : ReadsExpr k d nested) (count : Nat) :
    ReadsExpr k d (argument nested count) := by
  unfold argument
  split
  · apply moves_current.bind
    intro t
    exact (moves_report t _).bind fun _ => hnested
  · exact hnested

theorem moves_arguments (hnested : ReadsExpr k d nested) (n count : Nat) :
    Moves k d (movedArguments k (· + d)) (arguments nested n count)
      (arguments nested n count) := by
  induction n generalizing count with
  | zero => exact (moves_argument hnested count).bind fun _ => .pure _
  | succ n ih =>
      apply (moves_argument hnested count).bind
      intro first
      apply (moves_accept? .comma).bind
      intro comma
      cases comma with
      | none => exact .pure [first]
      | some _ => exact (ih (count + 1)).bind fun _ => .pure _

theorem moves_finishCall (hnested : ReadsExpr k d nested) (n : Nat) (callee : Expr) :
    Moves k d (Expr.moved k (· + d)) (finishCall nested n callee)
      (finishCall nested n (callee.moved k (· + d))) := by
  have finished : ∀ args : List Expr, Moves k d (Expr.moved k (· + d))
      (do let paren ← expect .rightParen .argumentEnd; build (.call · callee paren args))
      (do let paren ← expect .rightParen .argumentEnd
          build (.call · (callee.moved k (· + d)) paren (movedArguments k (· + d) args))) := by
    intro args
    exact (moves_expect _ _).bind fun _ => moves_build fun _ => rfl
  unfold finishCall
  apply (moves_check .rightParen).bind
  intro bare
  cases bare with
  | true => exact (Moves.pure ([] : List Expr)).bind finished
  | false => exact (moves_arguments hnested n 0).bind finished

theorem moves_primary (hnested : ReadsExpr k d nested) : ReadsExpr k d (primary nested) := by
  apply moves_current.bind
  intro t
  rw [Token.kind_down]
  split
  · exact moves_advance.bind fun _ => moves_build fun _ => rfl
  · exact moves_advance.bind fun _ => moves_build fun _ => rfl
  · exact moves_advance.bind fun _ => moves_build fun _ => rfl
  · exact moves_advance.bind fun _ => moves_build fun _ => rfl
  · exact moves_advance.bind fun _ => moves_build fun _ => rfl
  · apply moves_advance.bind
    intro _
    apply (moves_expect _ _).bind
    intro _
    apply (moves_expect _ _).bind
    intro method
    exact moves_build fun _ => rfl
  · apply moves_advance.bind
    intro _
    exact moves_build fun _ => rfl
  · apply moves_advance.bind
    intro _
    exact moves_build fun _ => rfl
  · apply moves_advance.bind
    intro _
    apply hnested.bind
    intro inner
    exact (moves_expect _ _).bind fun _ => moves_build fun _ => rfl
  · exact moves_refuse _

theorem moves_trailers (hnested : ReadsExpr k d nested) (n : Nat) (e : Expr) :
    Moves k d (Expr.moved k (· + d)) (trailers nested n e)
      (trailers nested n (e.moved k (· + d))) := by
  induction n generalizing e with
  | zero => exact .pure e
  | succ n ih =>
      apply (moves_accept? .leftParen).bind
      intro paren
      cases paren with
      | some _ => exact (moves_finishCall hnested n e).bind ih
      | none =>
          apply (moves_accept? .dot).bind
          intro dot
          cases dot with
          | some _ =>
              apply (moves_expect _ _).bind
              intro name
              exact (moves_build fun _ => rfl).bind ih
          | none => exact .pure e

theorem moves_call (hnested : ReadsExpr k d nested) (n : Nat) : ReadsExpr k d (call nested n) :=
  (moves_primary hnested).bind fun e => moves_trailers hnested n e

theorem moves_unary (hoperand : ReadsExpr k d operand) (n : Nat) :
    ReadsExpr k d (unary operand n) := by
  induction n with
  | zero => exact hoperand
  | succ n ih =>
      apply moves_current.bind
      intro op
      rw [Token.kind_down]
      split
      · apply moves_advance.bind
        intro _
        exact ih.bind fun _ => moves_build fun _ => rfl
      · apply moves_advance.bind
        intro _
        exact ih.bind fun _ => moves_build fun _ => rfl
      · exact hoperand

mutual

theorem moves_binary (hoperand : ReadsExpr k d operand) : ∀ n least : Nat,
    ReadsExpr k d (binary operand n least)
  | 0, _ => hoperand
  | n + 1, least => hoperand.bind fun left => moves_climb hoperand n least left

theorem moves_climb (hoperand : ReadsExpr k d operand) : ∀ (n least : Nat) (left : Expr),
    Moves k d (Expr.moved k (· + d)) (climb operand n least left)
      (climb operand n least (left.moved k (· + d)))
  | 0, _, left => .pure left
  | n + 1, least, left => by
      unfold climb
      apply moves_current.bind
      intro op
      rw [Token.kind_down]
      split
      · exact .pure left
      · split
        · exact .pure left
        · apply moves_advance.bind
          intro _
          apply (moves_binary hoperand n _).bind
          intro right
          exact (moves_build fun id => Expr.join_moved left op right id).bind
            (moves_climb hoperand n least)

end

theorem moves_assignment (hnested : ReadsExpr k d nested) (n : Nat) :
    ReadsExpr k d (assignment nested n) := by
  apply (moves_binary (moves_unary (moves_call hnested n) n) n 1).bind
  intro target
  apply (moves_accept? .equal).bind
  intro equals
  cases equals with
  | none => exact .pure target
  | some equals =>
      apply hnested.bind
      intro value
      have refused : Moves k d (Expr.moved k (· + d))
          (do report equals .invalidTarget; return target)
          (do report (equals.down k) .invalidTarget; return target.moved k (· + d)) :=
        (moves_report equals _).bind fun _ => .pure target
      cases target with
      | read id name => exact moves_build fun _ => rfl
      | get id object name => exact moves_build fun _ => rfl
      | _ => exact refused

theorem moves_expression (n : Nat) : ReadsExpr k d (expression n) := by
  induction n with
  | zero => exact moves_refuse _
  | succ n ih => exact moves_assignment ih (n + 1)

end

/-! ## Statements -/

section

variable {k : Int} {d : Nat} {stmt : Parse Stmt} {decl : Parse (Option Stmt)}

theorem nextStart_down (previous : Token) (ts : List Token) :
    nextStart (previous.down k) (ts.map (Token.down k)) =
      (nextStart previous ts).map (Token.down k) := by
  induction ts generalizing previous with
  | nil => rfl
  | cons t ts ih =>
      rw [nextStart, apply_ite (List.map (Token.down k)), ← ih t]
      rfl

theorem recover_down (ts : List Token) :
    recover (ts.map (Token.down k)) = (recover ts).map (Token.down k) := by
  cases ts with
  | nil => rfl
  | cons t ts => exact nextStart_down t ts

theorem Stmt.forLoop_moved (initial : Option Stmt) (condition : Expr) (increment : Option Expr)
    (body : Stmt) :
    (Stmt.forLoop initial condition increment body).moved k (· + d) =
      .forLoop (initial.map (Stmt.moved k (· + d))) (condition.moved k (· + d))
        (increment.map (Expr.moved k (· + d))) (body.moved k (· + d)) := by
  cases initial <;> cases increment <;> rfl

abbrev ReadsStmt (k : Int) (d : Nat) (p : Parse Stmt) : Prop :=
  Moves k d (Stmt.moved k (· + d)) p p

/-- A step that reads the same declaration everywhere, if it reads one. -/
abbrev ReadsDecl (k : Int) (d : Nat) (p : Parse (Option Stmt)) : Prop :=
  Moves k d (Option.map (Stmt.moved k (· + d))) p p

theorem moves_parameter (count : Nat) : Moves k d (Token.down k) (parameter count)
    (parameter count) := by
  unfold parameter
  split
  · apply moves_current.bind
    intro t
    exact (moves_report t _).bind fun _ => moves_expect _ _
  · exact moves_expect _ _

theorem moves_parameters (n count : Nat) :
    Moves k d (List.map (Token.down k)) (parameters n count) (parameters n count) := by
  induction n generalizing count with
  | zero => exact (moves_parameter count).bind fun _ => .pure _
  | succ n ih =>
      apply (moves_parameter count).bind
      intro first
      apply (moves_accept? .comma).bind
      intro comma
      cases comma with
      | none => exact .pure [first]
      | some _ => exact (ih (count + 1)).bind fun _ => .pure _

theorem moves_declarations {closes : Token → Bool} (hcloses : ∀ t, closes (t.down k) = closes t)
    (hdecl : ReadsDecl k d decl) (n : Nat) :
    Moves k d (movedBody k (· + d)) (declarations closes decl n) (declarations closes decl n) := by
  induction n with
  | zero => exact .pure []
  | succ n ih =>
      apply moves_get_bind
      rintro behind ⟨_ | ⟨t, ts⟩, _, _, _⟩
      · exact .pure []
      · simp only [Cursor.moved, List.map_cons, hcloses]
        split
        · exact .pure []
        · apply hdecl.bind
          intro first
          apply ih.bind
          intro more
          cases first with
          | none => exact .pure more
          | some s => exact .pure (s :: more)

theorem moves_block (hdecl : ReadsDecl k d decl) (n : Nat) :
    Moves k d (movedBody k (· + d)) (block decl n) (block decl n) := by
  apply (moves_declarations (fun _ => rfl) hdecl n).bind
  intro body
  exact (moves_expect _ _).bind fun _ => .pure body

theorem moves_funDecl (callee : Callee) (hdecl : ReadsDecl k d decl) (n : Nat) :
    Moves k d (FunDecl.moved k (· + d)) (funDecl callee decl n) (funDecl callee decl n) := by
  apply (moves_expect _ _).bind
  intro name
  apply (moves_expect _ _).bind
  intro _
  have finished : ∀ params : List Token, Moves k d (FunDecl.moved k (· + d))
      (do let _ ← expect .rightParen .parameterEnd
          let _ ← expect .leftBrace (.calleeBody callee)
          let body ← block decl n
          return .mk name params body)
      (do let _ ← expect .rightParen .parameterEnd
          let _ ← expect .leftBrace (.calleeBody callee)
          let body ← block decl n
          return .mk (name.down k) (params.map (Token.down k)) body) := by
    intro params
    apply (moves_expect _ _).bind
    intro _
    apply (moves_expect _ _).bind
    intro _
    exact (moves_block hdecl n).bind fun _ => .pure _
  apply (moves_check .rightParen).bind
  intro bare
  cases bare with
  | true => exact (Moves.pure ([] : List Token)).bind finished
  | false => exact (moves_parameters n 0).bind finished

theorem moves_methods {method : Parse FunDecl}
    (hmethod : Moves k d (FunDecl.moved k (· + d)) method method) (n : Nat) :
    Moves k d (movedMethods k (· + d)) (methods method n) (methods method n) := by
  induction n with
  | zero => exact .pure []
  | succ n ih =>
      apply moves_atEnd.bind
      intro done
      cases done with
      | true => exact .pure []
      | false =>
          apply (moves_check .rightBrace).bind
          intro closed
          cases closed with
          | true => exact .pure []
          | false =>
              apply hmethod.bind
              intro first
              exact ih.bind fun _ => .pure _

def movedBase (k : Int) (d : Nat) : NodeId × Token → NodeId × Token :=
  fun base => (base.1 + d, base.2.down k)

theorem moves_superclass : Moves k d (Option.map (movedBase k d)) superclass superclass := by
  apply (moves_accept? .less).bind
  intro less
  cases less with
  | none => exact .pure none
  | some _ =>
      apply (moves_expect _ _).bind
      intro name
      exact (moves_number fun _ => rfl).bind fun _ => .pure _

theorem moves_forCondition (condition : Option Expr) :
    Moves k d (Expr.moved k (· + d)) (forCondition condition)
      (forCondition (condition.map (Expr.moved k (· + d)))) := by
  cases condition with
  | none => exact moves_build fun _ => rfl
  | some e => exact .pure e

theorem moves_classDecl (hdecl : ReadsDecl k d decl) (n : Nat) :
    ReadsStmt k d (classDecl decl n) := by
  apply (moves_expect _ _).bind
  intro name
  apply moves_superclass.bind
  intro base
  apply (moves_expect _ _).bind
  intro _
  apply (moves_methods (moves_funDecl .method hdecl n) n).bind
  intro methods
  apply (moves_expect _ _).bind
  intro _
  cases base with
  | none => exact .pure _
  | some base => exact .pure _

theorem moves_varDecl (n : Nat) : ReadsStmt k d (varDecl n) := by
  apply (moves_expect _ _).bind
  intro name
  have finished : ∀ initial : Option Expr, Moves k d (Stmt.moved k (· + d))
      (do let _ ← expect .semicolon .variableEnd; return Stmt.var name initial)
      (do let _ ← expect .semicolon .variableEnd
          return Stmt.var (name.down k) (initial.map (Expr.moved k (· + d)))) := by
    intro initial
    apply (moves_expect _ _).bind
    intro _
    cases initial with
    | none => exact .pure _
    | some value => exact .pure _
  apply (moves_accept? .equal).bind
  intro equals
  cases equals with
  | none => exact (Moves.pure (none : Option Expr)).bind finished
  | some _ =>
      have hinitial : Moves k d (Option.map (Expr.moved k (· + d))) (some <$> expression n)
          (some <$> expression n) :=
        (moves_expression n).map fun _ => rfl
      exact hinitial.bind finished

theorem moves_expressionStmt (n : Nat) : ReadsStmt k d (expressionStmt n) := by
  apply (moves_expression n).bind
  intro value
  exact (moves_expect _ _).bind fun _ => .pure _

theorem moves_optionalExpression (n : Nat) (follower : Token.Kind) :
    Moves k d (Option.map (Expr.moved k (· + d))) (optionalExpression n follower)
      (optionalExpression n follower) := by
  apply (moves_check follower).bind
  intro absent
  cases absent with
  | true => exact .pure none
  | false => exact (moves_expression n).map fun _ => rfl

theorem moves_forInitial (n : Nat) : ReadsDecl k d (forInitial n) := by
  apply (moves_accept? .semicolon).bind
  intro semicolon
  cases semicolon with
  | some _ => exact .pure none
  | none =>
      apply (moves_accept? .kwVar).bind
      intro var
      cases var with
      | some _ => exact (moves_varDecl n).map fun _ => rfl
      | none => exact (moves_expressionStmt n).map fun _ => rfl

theorem moves_forStmt (hstmt : ReadsStmt k d stmt) (n : Nat) : ReadsStmt k d (forStmt stmt n) := by
  apply (moves_expect _ _).bind
  intro _
  apply (moves_forInitial n).bind
  intro initial
  apply (moves_optionalExpression n .semicolon).bind
  intro condition
  apply (moves_expect _ _).bind
  intro _
  apply (moves_optionalExpression n .rightParen).bind
  intro increment
  apply (moves_expect _ _).bind
  intro _
  apply hstmt.bind
  intro body
  apply (moves_forCondition condition).bind
  intro completed
  rw [← Stmt.forLoop_moved]
  exact .pure _

theorem moves_ifStmt (hstmt : ReadsStmt k d stmt) (n : Nat) : ReadsStmt k d (ifStmt stmt n) := by
  apply (moves_expect _ _).bind
  intro _
  apply (moves_expression n).bind
  intro condition
  apply (moves_expect _ _).bind
  intro _
  apply hstmt.bind
  intro yes
  apply (moves_accept? .kwElse).bind
  intro otherwise
  cases otherwise with
  | none => exact .pure _
  | some _ => exact hstmt.bind fun _ => .pure _

theorem moves_whileStmt (hstmt : ReadsStmt k d stmt) (n : Nat) :
    ReadsStmt k d (whileStmt stmt n) := by
  apply (moves_expect _ _).bind
  intro _
  apply (moves_expression n).bind
  intro condition
  apply (moves_expect _ _).bind
  intro _
  exact hstmt.bind fun _ => .pure _

theorem moves_printStmt (n : Nat) : ReadsStmt k d (printStmt n) := by
  apply (moves_expression n).bind
  intro value
  exact (moves_expect _ _).bind fun _ => .pure _

theorem moves_returnStmt (keyword : Token) (n : Nat) :
    Moves k d (Stmt.moved k (· + d)) (returnStmt keyword n) (returnStmt (keyword.down k) n) := by
  apply (moves_optionalExpression n .semicolon).bind
  intro value
  apply (moves_expect _ _).bind
  intro _
  cases value with
  | none => exact .pure _
  | some value => exact .pure _

theorem moves_statementForm (hstmt : ReadsStmt k d stmt) (hdecl : ReadsDecl k d decl) (n : Nat) :
    ReadsStmt k d (statementForm stmt decl n) := by
  apply moves_current.bind
  intro t
  rw [Token.kind_down]
  split
  · exact moves_advance.bind fun _ => moves_forStmt hstmt n
  · exact moves_advance.bind fun _ => moves_ifStmt hstmt n
  · exact moves_advance.bind fun _ => moves_printStmt n
  · exact moves_advance.bind fun _ => moves_returnStmt t n
  · exact moves_advance.bind fun _ => moves_whileStmt hstmt n
  · apply moves_advance.bind
    intro _
    exact (moves_block hdecl n).bind fun _ => .pure _
  · exact moves_expressionStmt n

theorem moves_declarationForm (hstmt : ReadsStmt k d stmt) (hdecl : ReadsDecl k d decl) (n : Nat) :
    ReadsStmt k d (declarationForm stmt decl n) := by
  apply moves_current.bind
  intro t
  rw [Token.kind_down]
  split
  · exact moves_advance.bind fun _ => moves_classDecl hdecl n
  · exact moves_advance.bind fun _ => (moves_funDecl .function hdecl n).map fun _ => rfl
  · exact moves_advance.bind fun _ => moves_varDecl n
  · exact moves_statementForm hstmt hdecl n

theorem moves_recovering {form : Parse Stmt} (hform : ReadsStmt k d form) :
    ReadsDecl k d (recovering form) := by
  intro behind c
  unfold recovering
  rw [hform behind c]
  rcases form c with ⟨_ | s, c'⟩
  · simp only [Option.map_none, Cursor.moved, recover_down]
    rfl
  · rfl

mutual

theorem moves_statement : ∀ n : Nat, ReadsStmt k d (statement n)
  | 0 => moves_expressionStmt 0
  | n + 1 => moves_statementForm (moves_statement n) (moves_declaration n) (n + 1)

theorem moves_declaration : ∀ n : Nat, ReadsDecl k d (declaration n)
  | 0 => moves_recovering (moves_expressionStmt 0)
  | n + 1 =>
      moves_recovering (moves_declarationForm (moves_statement n) (moves_declaration n) (n + 1))

end

theorem moves_program (n : Nat) : Moves k d (movedBody k (· + d)) (program n) (program n) :=
  moves_declarations (fun _ => rfl) (moves_declaration n) n

theorem moves_wholeExpression (n : Nat) : ReadsExpr k d (wholeExpression n) := by
  apply (moves_expression n).bind
  intro e
  exact (moves_expectEnd _).bind fun _ => .pure e

end

end Parse

/-! ## Sources -/

section

variable (d : Nat)

theorem Cursor.moved_zero (behind : List Expr) (c : Cursor) :
    c.moved 0 d behind = { c with ledger := c.ledger.moved 0 d behind } := by
  have htoken : Token.down 0 = id := funext Token.down_zero
  have hproblem : Diagnostic.down 0 = id := funext Diagnostic.down_zero
  simp only [Cursor.moved, htoken, hproblem, List.map_id, id]

theorem Parse.Moves.later {α : Type} {f : α → α} {p : Parse α} (h : Parse.Moves 0 d f p p)
    (behind : List Expr) (c : Cursor) :
    @Eq (Option α × Cursor) (p { c with ledger := c.ledger.moved 0 d behind })
      ((p c).1.map f, { (p c).2 with ledger := (p c).2.ledger.moved 0 d behind }) := by
  have hc := h behind c
  rwa [Cursor.moved_zero, Cursor.moved_zero] at hc

theorem Scan.readProgram_later (s : Scan) (i : NodeId) :
    s.readProgram (i + d) =
      { tree := movedBody 0 (· + d) (s.readProgram i).tree
        problems := (s.readProgram i).problems
        ledger := (s.readProgram i).ledger.moved 0 d [] } := by
  have h := (Parse.moves_program s.tokens.length).later d [] (s.cursor i)
  unfold Scan.readProgram
  change Parse.program s.tokens.length (s.cursor (i + d)) = _ at h
  rw [h]
  rcases Parse.program s.tokens.length (s.cursor i) with ⟨_ | statements, c⟩ <;> rfl

theorem Scan.readExpression_later (s : Scan) (i : NodeId) :
    s.readExpression (i + d) =
      { tree := (s.readExpression i).tree.map (Expr.moved 0 (· + d))
        problems := (s.readExpression i).problems
        ledger := (s.readExpression i).ledger.moved 0 d [] } := by
  have h := (Parse.moves_wholeExpression s.tokens.length).later d [] (s.cursor i)
  unfold Scan.readExpression
  change Parse.wholeExpression s.tokens.length (s.cursor (i + d)) = _ at h
  rw [h]
  rfl

theorem Findings.problems_moved_zero (ν : NodeId → NodeId) (found : Findings) :
    (found.moved 0 ν).problems = found.problems := by
  have hproblem : Diagnostic.down 0 = id := funext Diagnostic.down_zero
  simp only [Findings.moved, hproblem, List.map_id]

/-- What becomes of a source does not depend on the nodes that were numbered before. -/
theorem compile_later (source : String) (i : NodeId) :
    compile source (i + d) =
      { compile source i with
        statements := movedBody 0 (· + d) (compile source i).statements
        references := (compile source i).references.map (Reference.moved 0 (· + d))
        nextId := (compile source i).nextId + d } := by
  simp only [compile, Scan.readProgram_later, resolveProgram_moved, Findings.problems_moved_zero]
  split
  · rfl
  · rfl

theorem problems_compile_later (source : String) (i : NodeId) :
    (compile source (i + d)).problems = (compile source i).problems := by
  rw [compile_later]

theorem statements_compile_later (source : String) (i : NodeId) :
    (compile source (i + d)).statements = movedBody 0 (· + d) (compile source i).statements := by
  rw [compile_later]

theorem references_compile_later (source : String) (i : NodeId) :
    (compile source (i + d)).references =
      (compile source i).references.map (Reference.moved 0 (· + d)) := by
  rw [compile_later]

theorem nextId_compile_later (source : String) (i : NodeId) :
    (compile source (i + d)).nextId = (compile source i).nextId + d := by
  rw [compile_later]

theorem compileExpression_later (source : String) (i : NodeId) :
    compileExpression source (i + d) =
      { tree := (compileExpression source i).tree.map (Expr.moved 0 (· + d))
        problems := (compileExpression source i).problems
        ledger := (compileExpression source i).ledger.moved 0 d [] } := by
  simp only [compileExpression, Scan.readExpression_later]
  cases ((Scan.ofSource source).readExpression i).tree with
  | none => rfl
  | some e =>
      simp only [Option.map_some, Expr.resolve_moved, Findings.problems_moved_zero]
      congr 1
      rw [apply_ite (Except.map (Expr.moved 0 (· + d)))]
      rfl

theorem nextId_compileExpression_later (source : String) (i : NodeId) :
    (compileExpression source (i + d)).nextId = (compileExpression source i).nextId + d := by
  rw [compileExpression_later]
  rfl

end

end Lox
