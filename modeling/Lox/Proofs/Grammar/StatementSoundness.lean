import Lox.Proofs.Grammar.ExpressionSoundness

/-!
# What reading a program takes is a program

A tree that is read is the tree of a phrase.  An open statement is read with an `else` behind it
only if that `else` belongs to it; so none follows the statements that reading gives.
-/

namespace Lox.Parse

open Grammar

/-! ## The functions are steady -/

instance (count : Nat) : Steady (parameter count) := by
  unfold parameter
  infer_instance

instance steady_parameters (n count : Nat) : Steady (parameters n count) := by
  induction n generalizing count with
  | zero =>
      unfold parameters
      infer_instance
  | succ n ih =>
      unfold parameters
      refine .bind fun first => .bind fun found => ?_
      split <;> infer_instance

instance : Steady superclass := by
  unfold superclass
  refine .bind fun found => ?_
  split <;> infer_instance

instance (n : Nat) : Steady (varDecl n) := by
  unfold varDecl
  refine .bind fun name => .bind fun found => ?_
  split <;> infer_instance

instance (n : Nat) : Steady (expressionStmt n) := by
  unfold expressionStmt
  infer_instance

instance (n : Nat) (follower : Token.Kind) : Steady (optionalExpression n follower) := by
  unfold optionalExpression
  infer_instance

instance (n : Nat) : Steady (forInitial n) := by
  unfold forInitial
  refine .bind fun found => ?_
  split
  · infer_instance
  · refine .bind fun found => ?_
    split <;> infer_instance

instance (n : Nat) : Steady (printStmt n) := by
  unfold printStmt
  infer_instance

instance (keyword : Token) (n : Nat) : Steady (returnStmt keyword n) := by
  unfold returnStmt
  infer_instance

section

variable (stmt : Parse Stmt) (decl : Parse (Option Stmt)) [Steady stmt] [Steady decl]

instance steady_declarations (closes : Token → Bool) (n : Nat) :
    Steady (declarations closes decl n) := by
  induction n with
  | zero =>
      unfold declarations
      infer_instance
  | succ n ih =>
      unfold declarations
      refine .bind fun c => ?_
      split <;> infer_instance

instance (n : Nat) : Steady (block decl n) := by
  unfold block
  infer_instance

instance (callee : Callee) (n : Nat) : Steady (funDecl callee decl n) := by
  unfold funDecl
  refine .bind fun name => .bind fun opening => .bind fun empty => ?_
  split <;> infer_instance

instance steady_methods (method : Parse FunDecl) [Steady method] (n : Nat) :
    Steady (methods method n) := by
  induction n with
  | zero =>
      unfold methods
      infer_instance
  | succ n ih =>
      unfold methods
      infer_instance

instance (n : Nat) : Steady (classDecl decl n) := by
  unfold classDecl
  infer_instance

instance (condition : Option Expr) : Steady (forCondition condition) := by
  unfold forCondition
  split <;> infer_instance

instance (n : Nat) : Steady (forStmt stmt n) := by
  unfold forStmt
  infer_instance

instance (n : Nat) : Steady (ifStmt stmt n) := by
  unfold ifStmt
  refine .bind fun _ => .bind fun _ => .bind fun _ => .bind fun _ => .bind fun found => ?_
  split <;> infer_instance

instance (n : Nat) : Steady (whileStmt stmt n) := by
  unfold whileStmt
  infer_instance

instance (n : Nat) : Steady (statementForm stmt decl n) := by
  unfold statementForm
  refine .bind fun t => ?_
  split <;> infer_instance

instance (n : Nat) : Steady (declarationForm stmt decl n) := by
  unfold declarationForm
  refine .bind fun t => ?_
  split <;> infer_instance

instance : Steady (recovering stmt) where
  ending c := by
    have h := Steady.ending (p := stmt) c
    unfold recovering
    rcases hstep : stmt c with ⟨a | a, c'⟩ <;> simpa only [hstep] using h
  builds c := by
    have h := Steady.builds (p := stmt) c
    unfold recovering
    rcases hstep : stmt c with ⟨a | a, c'⟩ <;> simpa only [hstep] using h
  problems c := by
    have h := Steady.problems (p := stmt) c
    unfold recovering
    rcases hstep : stmt c with ⟨a | a, c'⟩ <;> simpa only [hstep] using h
  blames c := by
    unfold recovering
    rcases hstep : stmt c with ⟨a | a, c'⟩ <;> exact nofun

end

private theorem steady_statement_declaration (n : Nat) :
    Steady (statement n) ∧ Steady (declaration n) := by
  induction n with
  | zero =>
      unfold statement declaration
      exact ⟨inferInstance, inferInstance⟩
  | succ n ih =>
      obtain ⟨_, _⟩ := ih
      constructor
      · unfold statement
        infer_instance
      · unfold declaration
        infer_instance

instance (n : Nat) : Steady (statement n) :=
  (steady_statement_declaration n).1

instance (n : Nat) : Steady (declaration n) :=
  (steady_statement_declaration n).2

instance (n : Nat) : Steady (program n) := by
  unfold program
  infer_instance

variable {ending : Token} {i j : Ledger} {ts rest : List Token}

theorem reads_recovering {form : Parse Stmt} [hform : Steady form] {found : Option Stmt} :
    Reads (recovering form) ending i ts found j rest ↔
      ∃ stmt, found = some stmt ∧ Reads form ending i ts stmt j rest := by
  have hblames := hform.blames ⟨ts, ending, i, []⟩
  unfold Reads recovering
  rcases hstep : form ⟨ts, ending, i, []⟩ with ⟨a | a, c⟩
  · rw [hstep] at hblames
    simp only [Prod.mk.injEq, Option.some.injEq]
    constructor
    · rintro ⟨-, h⟩
      exact absurd (congrArg Cursor.problems h) (hblames rfl)
    · rintro ⟨stmt, -, h, -⟩
      cases h
  · simp only [Prod.mk.injEq, Option.some.injEq]
    constructor
    · rintro ⟨rfl, rfl⟩
      exact ⟨a, rfl, rfl, rfl⟩
    · rintro ⟨stmt, rfl, rfl, rfl⟩
      exact ⟨rfl, rfl⟩

/-! ## Statements without statements inside -/

section

variable (hending : ending.kind = .ending) {n : Nat}
include hending

theorem expressionStmt_sound {stmt : Stmt} (hn : ts.length ≤ n)
    (h : Reads (expressionStmt n) ending i ts stmt j rest) :
    ∃ phrase, phrase.desugar = stmt ∧ ExpressionStmt i ts phrase j rest := by
  unfold expressionStmt at h
  obtain ⟨e, _, _, hread, h₁⟩ := h.of_bind
  simp only [reads_expect_bind, reads_pure] at h₁
  obtain ⟨semicolon, _, rfl, hsemicolon, rfl, rfl, rfl⟩ := h₁
  exact ⟨.expression e, rfl, .mk (expression_sound hending n hn hread) hsemicolon⟩

theorem varDecl_sound {keyword : Token} {stmt : Stmt} (hn : ts.length ≤ n)
    (hkeyword : keyword.kind = .kwVar) (h : Reads (varDecl n) ending i ts stmt j rest) :
    ∃ phrase, phrase.desugar = stmt ∧ VarDecl i (keyword :: ts) phrase j rest := by
  unfold varDecl at h
  obtain ⟨name, _, rfl, hname, h₁⟩ := reads_expect_bind.mp h
  simp only [List.length_cons] at hn
  rcases reads_accept?_bind.mp h₁ with ⟨equals, _, rfl, hequals, h₂⟩ | ⟨_, h₂⟩
  · simp only [List.length_cons] at hn
    obtain ⟨initial, _, _, hinitial, h₃⟩ := h₂.of_bind
    obtain ⟨e, hread, rfl⟩ := reads_map.mp hinitial
    simp only [reads_expect_bind, reads_pure] at h₃
    obtain ⟨semicolon, _, rfl, hsemicolon, rfl, rfl, rfl⟩ := h₃
    exact ⟨.var name (some e), rfl, .initialised hkeyword hname hequals
      (expression_sound hending n (by omega) hread) hsemicolon⟩
  · simp only [reads_pure_bind, reads_expect_bind, reads_pure] at h₂
    obtain ⟨semicolon, _, rfl, hsemicolon, rfl, rfl, rfl⟩ := h₂
    exact ⟨.var name none, rfl, .plain hkeyword hname hsemicolon⟩

theorem optionalExpression_sound {follower : Token.Kind} {e : Option Expr} (hn : ts.length ≤ n)
    (h : Reads (optionalExpression n follower) ending i ts e j rest) :
    Optionally i ts e j rest := by
  simp only [optionalExpression, reads_check_bind] at h
  split at h
  · obtain ⟨rfl, rfl, rfl⟩ := reads_pure.mp h
    exact .absent
  · obtain ⟨e, hread, rfl⟩ := reads_map.mp h
    exact .present (expression_sound hending n hn hread)

theorem forInitial_sound {initial : Option Stmt} (hn : ts.length ≤ n)
    (h : Reads (forInitial n) ending i ts initial j rest) :
    ∃ phrase, phrase.map Phrase.desugar = initial ∧ ForInitial i ts phrase j rest := by
  unfold forInitial at h
  rcases reads_accept?_bind.mp h with ⟨semicolon, _, rfl, hsemicolon, h₁⟩ | ⟨_, h₁⟩
  · obtain ⟨rfl, rfl, rfl⟩ := reads_pure.mp h₁
    exact ⟨none, rfl, .absent hsemicolon⟩
  · rcases reads_accept?_bind.mp h₁ with ⟨keyword, _, rfl, hkeyword, h₂⟩ | ⟨_, h₂⟩
    · obtain ⟨stmt, hread, rfl⟩ := reads_map.mp h₂
      simp only [List.length_cons] at hn
      obtain ⟨phrase, rfl, hphrase⟩ := varDecl_sound hending (by omega) hkeyword hread
      exact ⟨some phrase, rfl, .var hphrase⟩
    · obtain ⟨stmt, hread, rfl⟩ := reads_map.mp h₂
      obtain ⟨phrase, rfl, hphrase⟩ := expressionStmt_sound hending hn hread
      exact ⟨some phrase, rfl, .expression hphrase⟩

end

theorem superclass_sound {superclass : Option (NodeId × Token)}
    (h : Reads Parse.superclass ending i ts superclass j rest) :
    ∃ written, written.map Prod.snd = superclass ∧ Superclass i ts written j rest := by
  unfold Parse.superclass at h
  rcases reads_accept?_bind.mp h with ⟨sign, _, rfl, hsign, h₁⟩ | ⟨_, h₁⟩
  · simp only [reads_expect_bind, reads_number_bind, reads_pure] at h₁
    obtain ⟨name, _, rfl, hname, rfl, rfl, rfl⟩ := h₁
    exact ⟨some (sign, i.nextId, name), rfl, .some hsign hname⟩
  · obtain ⟨rfl, rfl, rfl⟩ := reads_pure.mp h₁
    exact ⟨none, rfl, .none⟩

theorem forCondition_sound {condition : Option Expr} {tree : Expr}
    (h : Reads (forCondition condition) ending i ts tree j rest) :
    ∃ completed, completed.tree = tree ∧ Completed condition i completed j ∧ ts = rest := by
  cases condition with
  | none =>
      obtain ⟨rfl, rfl, rfl⟩ := reads_build.mp h
      exact ⟨.absent i.nextId, rfl, .absent, rfl⟩
  | some e =>
      obtain ⟨rfl, rfl, rfl⟩ := reads_pure.mp h
      exact ⟨.given e, rfl, .given, rfl⟩

theorem reads_parameter {count : Nat} {name : Token}
    (h : Reads (parameter count) ending i ts name j rest) :
    count < maxArguments ∧ name.kind = .name ∧ ts = name :: rest ∧ i = j := by
  unfold parameter at h
  split at h
  · rw [reads_current_bind] at h
    exact absurd h not_reads_report_bind
  · have h' : Reads (expect .name .parameterName >>= pure) ending i ts name j rest := by
      rwa [bind_pure]
    simp only [reads_expect_bind, reads_pure] at h'
    obtain ⟨_, _, rfl, hname, rfl, rfl, rfl⟩ := h'
    exact ⟨by omega, hname, rfl, rfl⟩

theorem parameters_sound {n count : Nat} {names : List Token} (hn : ts.length ≤ n)
    (h : Reads (parameters n count) ending i ts names j rest) :
    Parameters ts names rest ∧ count + names.length ≤ maxArguments ∧ i = j := by
  induction n generalizing count i ts names with
  | zero =>
      unfold parameters at h
      obtain ⟨name, _, _, hread, h₁⟩ := h.of_bind
      obtain ⟨_, _, rfl, _⟩ := reads_parameter hread
      exact absurd hn (by simp)
  | succ n ih =>
      unfold parameters at h
      obtain ⟨name, _, _, hread, h₁⟩ :=
        h.of_bind_steady fun _ => .bind fun comma => by split <;> infer_instance
      obtain ⟨hcount, hname, rfl, rfl⟩ := reads_parameter hread
      simp only [List.length_cons] at hn
      rcases reads_accept?_bind.mp h₁ with ⟨comma, us, rfl, hcomma, h₂⟩ | ⟨_, h₂⟩
      · obtain ⟨names, _, _, hread, h₃⟩ := h₂.of_bind
        obtain ⟨rfl, rfl, rfl⟩ := reads_pure.mp h₃
        simp only [List.length_cons] at hn
        obtain ⟨hnames, hmore, rfl⟩ := ih (by omega) hread
        refine ⟨.more hname hcomma hnames, ?_, rfl⟩
        simp only [List.length_cons]
        omega
      · obtain ⟨rfl, rfl, rfl⟩ := reads_pure.mp h₂
        exact ⟨.one hname, hcount, rfl⟩

/-! ## Statements and declarations inside others -/

/-- The tree of a statement that no `else` follows which it could take. -/
def StatementTree (i : Ledger) (ts : List Token) (stmt : Stmt) (j : Ledger)
    (rest : List Token) : Prop :=
  ∃ phrase isOpen, phrase.desugar = stmt ∧ Statement isOpen i ts phrase j rest ∧
    (isOpen = true → headKind rest ≠ some .kwElse)

/-- The tree of a declaration that did not break off. -/
def DeclarationTree (i : Ledger) (ts : List Token) (found : Option Stmt) (j : Ledger)
    (rest : List Token) : Prop :=
  ∃ phrase, found = some phrase.desugar ∧ Declaration i ts phrase j rest

theorem desugar_forLoop (initial : Option Phrase) (condition : ForCondition)
    (increment : Option Expr) (body : Phrase) :
    (Phrase.forLoop initial condition increment body).desugar =
      Stmt.forLoop (initial.map Phrase.desugar) condition.tree increment body.desugar := by
  cases initial <;> cases increment <;> simp [Phrase.desugar, Stmt.forLoop, forBody]

section

variable {decl : Parse (Option Stmt)} [Steady decl] {m n : Nat}
  (hdecl : ReadsOnly decl ending m DeclarationTree)
include hdecl

theorem declarations_sound {closes : Token → Bool} {stmts : List Stmt} (hm : ts.length ≤ m)
    (hn : ts.length ≤ n) (h : Reads (declarations closes decl n) ending i ts stmts j rest) :
    ∃ phrases, desugarAll phrases = stmts ∧ Declarations i ts phrases j rest ∧
      ∀ t us, rest = t :: us → closes t = true := by
  induction n generalizing i ts stmts with
  | zero =>
      obtain rfl := List.length_eq_zero_iff.mp (Nat.le_zero.mp hn)
      unfold declarations at h
      obtain ⟨rfl, rfl, rfl⟩ := reads_pure.mp h
      exact ⟨[], rfl, .nil, nofun⟩
  | succ n ih =>
      simp only [declarations, reads_get_bind] at h
      cases ts with
      | nil =>
          obtain ⟨rfl, rfl, rfl⟩ := reads_pure.mp h
          exact ⟨[], rfl, .nil, nofun⟩
      | cons t ts =>
          simp only at h
          split at h
          · next hcloses =>
              obtain ⟨rfl, rfl, rfl⟩ := reads_pure.mp h
              refine ⟨[], rfl, .nil, fun u us heq => ?_⟩
              obtain ⟨rfl, -⟩ := List.cons.inj heq
              exact hcloses
          · obtain ⟨first, _, us, hfirst, h₁⟩ := h.of_bind
            obtain ⟨more, _, _, hmore, h₂⟩ := h₁.of_bind
            obtain ⟨rfl, rfl, rfl⟩ := reads_pure.mp h₂
            obtain ⟨phrase, rfl, hphrase⟩ := hdecl hm hfirst
            have hlength := hphrase.length_lt
            obtain ⟨phrases, rfl, hphrases, hrest⟩ := ih (by omega) (by omega) hmore
            exact ⟨phrase :: phrases, by simp [desugarAll], .cons hphrase hphrases, hrest⟩

theorem block_sound {stmts : List Stmt} (hm : ts.length ≤ m) (hn : ts.length ≤ n)
    (h : Reads (block decl n) ending i ts stmts j rest) :
    ∃ phrases closing, desugarAll phrases = stmts ∧
      Declarations i ts phrases j (closing :: rest) ∧ closing.kind = .rightBrace := by
  unfold block at h
  obtain ⟨body, _, _, hbody, h₁⟩ := h.of_bind
  simp only [reads_expect_bind, reads_pure] at h₁
  obtain ⟨closing, _, rfl, hclosing, rfl, rfl, rfl⟩ := h₁
  obtain ⟨phrases, rfl, hphrases, _⟩ := declarations_sound hdecl hm hn hbody
  exact ⟨phrases, closing, rfl, hphrases, hclosing⟩

theorem funDecl_sound {callee : Callee} {f : FunDecl} (hm : ts.length ≤ m) (hn : ts.length ≤ n)
    (h : Reads (funDecl callee decl n) ending i ts f j rest) :
    ∃ phrase, phrase.desugar = f ∧ Function i ts phrase j rest := by
  unfold funDecl at h
  obtain ⟨name, _, rfl, hname, h₁⟩ := reads_expect_bind.mp h
  obtain ⟨opening, us, rfl, hopening, h₂⟩ := reads_expect_bind.mp h₁
  rw [reads_check_bind] at h₂
  simp only [List.length_cons] at hm hn
  have finish : ∀ {params : List Token} {vs : List Token},
      ParameterList (opening :: us) params vs →
      Reads (do
        let _ ← expect .leftBrace (.calleeBody callee)
        let body ← block decl n
        return .mk name params body) ending i vs f j rest →
      ∃ phrase, phrase.desugar = f ∧ Function i (name :: opening :: us) phrase j rest := by
    intro params vs hparams h₃
    have hlength := hparams.length_lt
    obtain ⟨brace, _, rfl, hbrace, h₄⟩ := reads_expect_bind.mp h₃
    simp only [List.length_cons] at hlength
    obtain ⟨body, _, _, hbody, h₅⟩ := h₄.of_bind
    obtain ⟨rfl, rfl, rfl⟩ := reads_pure.mp h₅
    obtain ⟨phrases, closing, rfl, hphrases, hclosing⟩ :=
      block_sound hdecl (by omega) (by omega) hbody
    exact ⟨.mk name params phrases, by simp [FunPhrase.desugar],
      .mk hname hparams hbrace hphrases hclosing⟩
  split at h₂
  · rw [reads_pure_bind] at h₂
    obtain ⟨closing, _, rfl, hclosing, h₃⟩ := reads_expect_bind.mp h₂
    exact finish (.empty hopening hclosing) h₃
  · obtain ⟨params, _, _, hparams, h₃⟩ := h₂.of_bind
    obtain ⟨closing, _, rfl, hclosing, h₄⟩ := reads_expect_bind.mp h₃
    obtain ⟨hnames, hcount, rfl⟩ := parameters_sound (by omega) hparams
    exact finish (.names hopening hnames (by omega) hclosing) h₄

theorem methods_sound {fuel : Nat} {callee : Callee} {fs : List FunDecl} (hm : ts.length ≤ m)
    (hn : ts.length ≤ n) (hfuel : ts.length ≤ fuel)
    (h : Reads (methods (funDecl callee decl n) fuel) ending i ts fs j rest) :
    ∃ phrases, desugarMethods phrases = fs ∧ Methods i ts phrases j rest := by
  induction fuel generalizing i ts fs with
  | zero =>
      unfold methods at h
      obtain ⟨rfl, rfl, rfl⟩ := reads_pure.mp h
      exact ⟨[], rfl, .nil⟩
  | succ fuel ih =>
      simp only [methods, reads_atEnd_bind] at h
      split at h
      · obtain ⟨rfl, rfl, rfl⟩ := reads_pure.mp h
        exact ⟨[], rfl, .nil⟩
      · rw [reads_check_bind] at h
        split at h
        · obtain ⟨rfl, rfl, rfl⟩ := reads_pure.mp h
          exact ⟨[], rfl, .nil⟩
        · obtain ⟨first, _, _, hfirst, h₁⟩ := h.of_bind
          obtain ⟨more, _, _, hmore, h₂⟩ := h₁.of_bind
          obtain ⟨rfl, rfl, rfl⟩ := reads_pure.mp h₂
          obtain ⟨phrase, rfl, hphrase⟩ := funDecl_sound hdecl hm hn hfirst
          have hlength := hphrase.length_lt
          obtain ⟨phrases, rfl, hphrases⟩ := ih (by omega) (by omega) (by omega) hmore
          exact ⟨phrase :: phrases, by simp [desugarMethods], .cons hphrase hphrases⟩

theorem classDecl_sound {keyword : Token} {stmt : Stmt} (hkeyword : keyword.kind = .kwClass)
    (hm : ts.length ≤ m) (hn : ts.length ≤ n)
    (h : Reads (classDecl decl n) ending i ts stmt j rest) :
    ∃ phrase, phrase.desugar = stmt ∧ Declaration i (keyword :: ts) phrase j rest := by
  unfold classDecl at h
  obtain ⟨name, _, rfl, hname, h₁⟩ := reads_expect_bind.mp h
  obtain ⟨found, _, _, hfound, h₂⟩ := h₁.of_bind
  obtain ⟨superclass, rfl, hsuperclass⟩ := superclass_sound hfound
  have hlength := hsuperclass.length_le
  obtain ⟨opening, _, rfl, hopening, h₃⟩ := reads_expect_bind.mp h₂
  simp only [List.length_cons] at hm hn hlength
  obtain ⟨fs, _, _, hfs, h₄⟩ := h₃.of_bind
  obtain ⟨methods, rfl, hmethods⟩ :=
    methods_sound hdecl (by omega) (by omega) (by omega) hfs
  simp only [reads_expect_bind, reads_pure] at h₄
  obtain ⟨closing, _, rfl, hclosing, rfl, rfl, rfl⟩ := h₄
  exact ⟨.classDecl name superclass methods, by simp [Phrase.desugar],
    .classDecl hkeyword hname hsuperclass hopening hmethods hclosing⟩

end

section

variable {stmt : Parse Stmt} [Steady stmt] {m n : Nat} {keyword : Token} {tree : Stmt}
  (hending : ending.kind = .ending) (hstmt : ReadsOnly stmt ending m StatementTree)
include hending hstmt

theorem ifStmt_sound (hkeyword : keyword.kind = .kwIf) (hm : ts.length ≤ m)
    (hn : ts.length ≤ n) (h : Reads (ifStmt stmt n) ending i ts tree j rest) :
    StatementTree i (keyword :: ts) tree j rest := by
  unfold ifStmt at h
  obtain ⟨opening, _, rfl, hopening, h₁⟩ := reads_expect_bind.mp h
  simp only [List.length_cons] at hm hn
  obtain ⟨condition, _, _, hread, h₂⟩ := h₁.of_bind_steady fun _ =>
    .bind fun _ => .bind fun _ => .bind fun otherwise => by split <;> infer_instance
  have hcondition := expression_sound hending n (by omega) hread
  have hlength := hcondition.length_lt
  obtain ⟨closing, _, rfl, hclosing, h₃⟩ := reads_expect_bind.mp h₂
  simp only [List.length_cons] at hlength
  obtain ⟨yes, _, _, hread, h₄⟩ := h₃.of_bind_steady fun _ =>
    .bind fun otherwise => by split <;> infer_instance
  obtain ⟨yes, isOpen, rfl, hyes, hyesElse⟩ := hstmt (by omega) hread
  have hyesLength := hyes.length_lt
  rcases reads_accept?_bind.mp h₄ with ⟨otherwise, _, rfl, hotherwise, h₅⟩ | ⟨hnoElse, h₅⟩
  · -- The `else` that follows was left to this statement, so the inner one is closed.
    cases isOpen with
    | true => exact absurd (congrArg some hotherwise) (hyesElse rfl)
    | false =>
        simp only [List.length_cons] at hyesLength
        obtain ⟨no, _, _, hread, h₆⟩ := h₅.of_bind
        obtain ⟨rfl, rfl, rfl⟩ := reads_pure.mp h₆
        obtain ⟨no, isOpen, rfl, hno, hnoElse⟩ := hstmt (by omega) hread
        exact ⟨.cond condition yes (some no), isOpen, by simp [Phrase.desugar],
          .ifElse hkeyword hopening hcondition hclosing hyes hotherwise hno, hnoElse⟩
  · obtain ⟨rfl, rfl, rfl⟩ := reads_pure.mp h₅
    exact ⟨.cond condition yes none, true, by simp [Phrase.desugar],
      .ifOnly hkeyword hopening hcondition hclosing hyes, fun _ => hnoElse⟩

theorem whileStmt_sound (hkeyword : keyword.kind = .kwWhile) (hm : ts.length ≤ m)
    (hn : ts.length ≤ n) (h : Reads (whileStmt stmt n) ending i ts tree j rest) :
    StatementTree i (keyword :: ts) tree j rest := by
  unfold whileStmt at h
  obtain ⟨opening, _, rfl, hopening, h₁⟩ := reads_expect_bind.mp h
  simp only [List.length_cons] at hm hn
  obtain ⟨condition, _, _, hread, h₂⟩ := h₁.of_bind
  have hcondition := expression_sound hending n (by omega) hread
  have hlength := hcondition.length_lt
  obtain ⟨closing, _, rfl, hclosing, h₃⟩ := reads_expect_bind.mp h₂
  simp only [List.length_cons] at hlength
  obtain ⟨body, _, _, hread, h₄⟩ := h₃.of_bind
  obtain ⟨rfl, rfl, rfl⟩ := reads_pure.mp h₄
  obtain ⟨body, isOpen, rfl, hbody, hbodyElse⟩ := hstmt (by omega) hread
  exact ⟨.loop condition body, isOpen, by simp [Phrase.desugar],
    .loop hkeyword hopening hcondition hclosing hbody, hbodyElse⟩

theorem forStmt_sound (hkeyword : keyword.kind = .kwFor) (hm : ts.length ≤ m)
    (hn : ts.length ≤ n) (h : Reads (forStmt stmt n) ending i ts tree j rest) :
    StatementTree i (keyword :: ts) tree j rest := by
  unfold forStmt at h
  obtain ⟨opening, _, rfl, hopening, h₁⟩ := reads_expect_bind.mp h
  simp only [List.length_cons] at hm hn
  obtain ⟨initial, _, _, hread, h₂⟩ := h₁.of_bind
  obtain ⟨initial, rfl, hinitial⟩ := forInitial_sound hending (by omega) hread
  have hinitialLength := hinitial.length_lt
  obtain ⟨condition, _, _, hread, h₃⟩ := h₂.of_bind
  have hcondition := optionalExpression_sound hending (by omega) hread
  have hconditionLength := hcondition.length_le
  obtain ⟨semicolon, _, rfl, hsemicolon, h₄⟩ := reads_expect_bind.mp h₃
  simp only [List.length_cons] at hconditionLength
  obtain ⟨increment, _, _, hread, h₅⟩ := h₄.of_bind
  have hincrement := optionalExpression_sound hending (by omega) hread
  have hincrementLength := hincrement.length_le
  obtain ⟨closing, _, rfl, hclosing, h₆⟩ := reads_expect_bind.mp h₅
  simp only [List.length_cons] at hincrementLength
  obtain ⟨body, _, _, hread, h₇⟩ := h₆.of_bind
  obtain ⟨condition, _, _, hlast, h₈⟩ := h₇.of_bind
  obtain ⟨rfl, rfl, rfl⟩ := reads_pure.mp h₈
  obtain ⟨completed, rfl, hcompleted, rfl⟩ := forCondition_sound hlast
  obtain ⟨body, isOpen, rfl, hbody, hbodyElse⟩ := hstmt (by omega) hread
  exact ⟨.forLoop initial completed increment body, isOpen, desugar_forLoop _ _ _ _,
    .forLoop hkeyword hopening hinitial hcondition hsemicolon hincrement hclosing hbody hcompleted,
    hbodyElse⟩

variable {decl : Parse (Option Stmt)} [Steady decl]
  (hdecl : ReadsOnly decl ending m DeclarationTree)
include hdecl

theorem statementForm_sound :
    ReadsOnly (statementForm stmt decl (m + 1)) ending (m + 1) StatementTree := by
  intro i ts tree j rest hm h
  have expressionCase : Reads (expressionStmt (m + 1)) ending i ts tree j rest →
      StatementTree i ts tree j rest := by
    intro h
    obtain ⟨phrase, rfl, hphrase⟩ := expressionStmt_sound hending hm h
    exact ⟨phrase, false, rfl, .expression hphrase, nofun⟩
  simp only [statementForm, reads_current_bind] at h
  cases ts with
  | nil =>
      simp only [List.headD_nil, hending] at h
      exact expressionCase h
  | cons keyword ts =>
      simp only [List.headD_cons] at h
      have hts : ts.length ≤ m := Nat.le_of_succ_le_succ hm
      split at h
      · next hkeyword =>
          rw [reads_advance_bind, List.tail_cons] at h
          exact forStmt_sound hending hstmt hkeyword hts (Nat.le_succ_of_le hts) h
      · next hkeyword =>
          rw [reads_advance_bind, List.tail_cons] at h
          exact ifStmt_sound hending hstmt hkeyword hts (Nat.le_succ_of_le hts) h
      · next hkeyword =>
          simp only [reads_advance_bind, List.tail_cons, printStmt] at h
          obtain ⟨value, _, _, hread, h₁⟩ := h.of_bind
          simp only [reads_expect_bind, reads_pure] at h₁
          obtain ⟨semicolon, _, rfl, hsemicolon, rfl, rfl, rfl⟩ := h₁
          have hvalue := expression_sound hending (m + 1) (Nat.le_succ_of_le hts) hread
          exact ⟨.print value, false, rfl, .print hkeyword hvalue hsemicolon, nofun⟩
      · next hkeyword =>
          simp only [reads_advance_bind, List.tail_cons, returnStmt] at h
          obtain ⟨value, _, _, hread, h₁⟩ := h.of_bind
          simp only [reads_expect_bind, reads_pure] at h₁
          obtain ⟨semicolon, _, rfl, hsemicolon, rfl, rfl, rfl⟩ := h₁
          have hvalue := optionalExpression_sound hending (Nat.le_succ_of_le hts) hread
          exact ⟨.ret keyword value, false, rfl, .ret hkeyword hvalue hsemicolon, nofun⟩
      · next hkeyword =>
          rw [reads_advance_bind, List.tail_cons] at h
          exact whileStmt_sound hending hstmt hkeyword hts (Nat.le_succ_of_le hts) h
      · next hkeyword =>
          rw [reads_advance_bind, List.tail_cons] at h
          obtain ⟨body, _, _, hread, h₁⟩ := h.of_bind
          obtain ⟨rfl, rfl, rfl⟩ := reads_pure.mp h₁
          obtain ⟨phrases, closing, rfl, hphrases, hclosing⟩ :=
            block_sound hdecl hts (Nat.le_succ_of_le hts) hread
          exact ⟨.block phrases, false, by simp [Phrase.desugar],
            .block hkeyword hphrases hclosing, nofun⟩
      · exact expressionCase h

theorem declarationForm_sound (hm : ts.length ≤ m + 1)
    (h : Reads (declarationForm stmt decl (m + 1)) ending i ts tree j rest) :
    ∃ phrase, phrase.desugar = tree ∧ Declaration i ts phrase j rest := by
  have statementCase : Reads (statementForm stmt decl (m + 1)) ending i ts tree j rest →
      ∃ phrase, phrase.desugar = tree ∧ Declaration i ts phrase j rest := by
    intro h
    obtain ⟨phrase, isOpen, htree, hphrase, _⟩ :=
      statementForm_sound hending hstmt hdecl hm h
    exact ⟨phrase, htree, .statement hphrase⟩
  simp only [declarationForm, reads_current_bind] at h
  cases ts with
  | nil =>
      simp only [List.headD_nil, hending] at h
      exact statementCase h
  | cons keyword ts =>
      simp only [List.headD_cons] at h
      have hts : ts.length ≤ m := Nat.le_of_succ_le_succ hm
      split at h
      · next hkeyword =>
          rw [reads_advance_bind, List.tail_cons] at h
          exact classDecl_sound hdecl hkeyword hts (Nat.le_succ_of_le hts) h
      · next hkeyword =>
          rw [reads_advance_bind, List.tail_cons] at h
          obtain ⟨f, hread, rfl⟩ := reads_map.mp h
          obtain ⟨phrase, rfl, hphrase⟩ :=
            funDecl_sound hdecl hts (Nat.le_succ_of_le hts) hread
          exact ⟨.function phrase, by simp [Phrase.desugar], .function hkeyword hphrase⟩
      · next hkeyword =>
          rw [reads_advance_bind, List.tail_cons] at h
          obtain ⟨phrase, htree, hphrase⟩ :=
            varDecl_sound hending (Nat.le_succ_of_le hts) hkeyword h
          exact ⟨phrase, htree, .var hphrase⟩
      · exact statementCase h

end

/-! ## Whole programs -/

private theorem statement_declaration_sound (hending : ending.kind = .ending) (n : Nat) :
    ReadsOnly (statement n) ending n StatementTree ∧
      ReadsOnly (declaration n) ending n DeclarationTree := by
  induction n with
  | zero =>
      constructor
      · intro i ts tree j rest hn h
        unfold statement at h
        obtain ⟨phrase, rfl, hphrase⟩ := expressionStmt_sound hending hn h
        exact ⟨phrase, false, rfl, .expression hphrase, nofun⟩
      · intro i ts tree j rest hn h
        unfold declaration at h
        obtain ⟨stmt, rfl, hread⟩ := reads_recovering.mp h
        obtain ⟨phrase, rfl, hphrase⟩ := expressionStmt_sound hending hn hread
        exact ⟨phrase, rfl, .statement (.expression hphrase)⟩
  | succ n ih =>
      obtain ⟨hstmt, hdecl⟩ := ih
      constructor
      · intro i ts tree j rest hn h
        unfold statement at h
        exact statementForm_sound hending hstmt hdecl hn h
      · intro i ts tree j rest hn h
        unfold declaration at h
        obtain ⟨stmt, rfl, hread⟩ := reads_recovering.mp h
        obtain ⟨phrase, rfl, hphrase⟩ := declarationForm_sound hending hstmt hdecl hn hread
        exact ⟨phrase, rfl, hphrase⟩

theorem program_sound (hending : ending.kind = .ending) {stmts : List Stmt}
    (h : Reads (program ts.length) ending i ts stmts j rest) :
    ∃ phrases, desugarAll phrases = stmts ∧ Program i ts phrases j ∧ rest = [] := by
  obtain ⟨phrases, hstmts, hphrases, hrest⟩ :=
    declarations_sound (statement_declaration_sound hending ts.length).2 (Nat.le_refl _)
      (Nat.le_refl _) h
  cases rest with
  | nil => exact ⟨phrases, hstmts, hphrases, rfl⟩
  | cons t us => exact absurd (hrest t us rfl) Bool.false_ne_true

end Lox.Parse
