import Lox.Proofs.Grammar.ExpressionCompleteness
import Lox.Proofs.Grammar.StatementSoundness

/-!
# Every program is read

A statement that ends in an `if` without an `else` is read as such only if no `else` follows it.
No declaration starts with an `else`, so in a row of declarations none does.
-/

namespace Lox.Grammar

open Parse

/-! ## How declarations start -/

def startsStatement : Token.Kind → Bool
  | .kwPrint | .kwReturn | .leftBrace | .kwIf | .kwWhile | .kwFor => true
  | kind => startsExpression kind

def startsDeclaration : Token.Kind → Bool
  | .kwClass | .kwFun | .kwVar => true
  | kind => startsStatement kind

theorem startsStatement_of_expression {kind : Token.Kind} (h : startsExpression kind = true) :
    startsStatement kind = true := by
  cases kind <;> first | rfl | exact h

theorem startsDeclaration_of_statement {kind : Token.Kind} (h : startsStatement kind = true) :
    startsDeclaration kind = true := by
  cases kind <;> first | rfl | exact h

variable {i j : Ledger} {ts rest : List Token} {phrase : Phrase}

theorem ExpressionStmt.starts (h : ExpressionStmt i ts phrase j rest) :
    ∃ t us, ts = t :: us ∧ startsExpression t.kind = true := by
  cases h with
  | mk h _ => exact h.starts

theorem Statement.starts {isOpen : Bool} (h : Statement isOpen i ts phrase j rest) :
    ∃ t us, ts = t :: us ∧ startsStatement t.kind = true := by
  cases h with
  | expression h =>
      obtain ⟨t, us, hts, ht⟩ := h.starts
      exact ⟨t, us, hts, startsStatement_of_expression ht⟩
  | print h _ _ | ret h _ _ | block h _ _ | ifOnly h _ _ _ _ | ifElse h _ _ _ _ _ _
  | loop h _ _ _ _ | forLoop h _ _ _ _ _ _ _ _ => exact ⟨_, _, rfl, by rw [h]; rfl⟩

theorem VarDecl.starts (h : VarDecl i ts phrase j rest) :
    ∃ t us, ts = t :: us ∧ t.kind = .kwVar := by
  cases h with
  | plain h _ _ | initialised h _ _ _ _ => exact ⟨_, _, rfl, h⟩

theorem Declaration.starts (h : Declaration i ts phrase j rest) :
    ∃ t us, ts = t :: us ∧ startsDeclaration t.kind = true := by
  cases h with
  | classDecl h _ _ _ _ _ | function h _ => exact ⟨_, _, rfl, by rw [h]; rfl⟩
  | var h =>
      obtain ⟨t, us, hts, ht⟩ := h.starts
      exact ⟨t, us, hts, by rw [ht]; rfl⟩
  | statement h =>
      obtain ⟨t, us, hts, ht⟩ := h.starts
      exact ⟨t, us, hts, startsDeclaration_of_statement ht⟩

theorem Function.starts {f : FunPhrase} (h : Function i ts f j rest) :
    ∃ t us, ts = t :: us ∧ t.kind = .name := by
  cases h with
  | mk h _ _ _ _ => exact ⟨_, _, rfl, h⟩

theorem Declarations.headKind_ne_else {phrases : List Phrase}
    (h : Declarations i ts phrases j rest) (hrest : headKind rest ≠ some .kwElse) :
    headKind ts ≠ some .kwElse := by
  cases h with
  | nil => exact hrest
  | cons h _ =>
      obtain ⟨t, us, rfl, ht⟩ := h.starts
      rintro heq
      rw [headKind_cons, Option.some.injEq] at heq
      simp [heq, startsDeclaration, startsStatement, startsExpression, startsPrimary] at ht

/-! ## Phrases without phrases inside -/

section

variable {ending : Token} {n : Nat}

theorem Parameters.reads {names : List Token} (h : Parameters ts names rest) {count : Nat}
    (hn : ts.length ≤ n) (hcount : count + names.length ≤ maxArguments)
    (hrest : headKind rest ≠ some .comma) :
    Reads (parameters n count) ending i ts names i rest := by
  have reads_parameter : ∀ {count : Nat} {name : Token} {us : List Token},
      count < maxArguments → name.kind = .name →
      Reads (parameter count) ending i (name :: us) name i us := by
    intro count name us hcount hname
    unfold parameter
    rw [if_neg (by omega), ← bind_pure (expect .name .parameterName)]
    exact .expect hname (.pure name)
  induction h generalizing n count with
  | one hname =>
      simp only [List.length_cons] at hn hcount
      obtain ⟨n, rfl⟩ : ∃ n', n = n' + 1 := ⟨n - 1, by omega⟩
      unfold parameters
      exact .bind (reads_parameter hcount hname) (.decline hrest (.pure _))
  | more hname hcomma _ ih =>
      simp only [List.length_cons] at hn hcount
      obtain ⟨n, rfl⟩ : ∃ n', n = n' + 1 := ⟨n - 1, by omega⟩
      unfold parameters
      refine .bind (reads_parameter (by omega) hname) (.accept hcomma ?_)
      exact .bind (ih (by omega) (by omega) hrest) (.pure _)

theorem Parameters.headKind_ne {names : List Token} (h : Parameters ts names rest) :
    headKind ts ≠ some .rightParen := by
  cases h with
  | one hname | more hname _ _ => simp [hname]

theorem Completed.reads {condition : Option Expr} {completed : ForCondition}
    (h : Completed condition i completed j) :
    Reads (forCondition condition) ending i ts completed.tree j ts := by
  cases h with
  | absent => exact .build _
  | given => exact .pure _

theorem Superclass.reads {superclass : Option (Token × NodeId × Token)}
    (h : Superclass i ts superclass j rest) (hrest : headKind rest = Option.some .leftBrace) :
    Reads Parse.superclass ending i ts (superclass.map Prod.snd) j rest := by
  unfold Parse.superclass
  cases h with
  | none => exact .decline (by simp [hrest]) (.pure Option.none)
  | some hsign hname =>
      exact .accept hsign (.expect hname (reads_number_bind.mpr (.pure _)))

variable (hending : ending.kind = .ending)
include hending

theorem ExpressionStmt.reads (h : ExpressionStmt i ts phrase j rest) (hn : ts.length ≤ n) :
    Reads (expressionStmt n) ending i ts phrase.desugar j rest := by
  cases h with
  | mk h hsemicolon =>
      unfold expressionStmt Phrase.desugar
      exact .bind (h.reads hending hn (expressionEnds_semicolon _ hsemicolon))
        (.expect hsemicolon (.pure _))

theorem VarDecl.reads (h : VarDecl i ts phrase j rest) (hn : ts.length ≤ n) :
    Reads (varDecl n) ending i ts.tail phrase.desugar j rest := by
  unfold varDecl
  cases h with
  | plain _ hname hsemicolon =>
      unfold Phrase.desugar
      exact .expect hname (.decline (by simp [hsemicolon])
        (reads_pure_bind.mpr (.expect hsemicolon (.pure _))))
  | initialised _ hname hequals h hsemicolon =>
      simp only [List.length_cons] at hn
      unfold Phrase.desugar
      have hread := h.reads hending (n := n) (by omega) (expressionEnds_semicolon _ hsemicolon)
      exact .expect hname (.accept hequals
        (.bind (reads_map.mpr ⟨_, hread, rfl⟩) (.expect hsemicolon (.pure _))))

theorem Optionally.reads {e : Option Expr} {follower : Token.Kind} (h : Optionally i ts e j rest)
    (hn : ts.length ≤ n) (hrest : headKind rest = some follower)
    (hfollower : follower = .semicolon ∨ follower = .rightParen) :
    Reads (optionalExpression n follower) ending i ts e j rest := by
  simp only [optionalExpression, reads_check_bind]
  cases h with
  | absent =>
      simp only [hrest, decide_true, if_true]
      exact .pure none
  | present h =>
      have hstart : headKind ts ≠ some follower := by
        rcases hfollower with rfl | rfl <;> exact h.headKind_ne rfl
      simp only [hstart, decide_false]
      refine reads_map.mpr ⟨_, h.reads hending hn (.of_headKind hrest ?_), rfl⟩
      rcases hfollower with rfl | rfl
      · exact .inl rfl
      · exact .inr (.inl rfl)

theorem ForInitial.reads {initial : Option Phrase} (h : ForInitial i ts initial j rest)
    (hn : ts.length ≤ n) :
    Reads (forInitial n) ending i ts (initial.map Phrase.desugar) j rest := by
  unfold forInitial
  cases h with
  | absent hsemicolon => exact .accept hsemicolon (.pure none)
  | var h =>
      have hread := h.reads hending hn
      obtain ⟨t, us, rfl, ht⟩ := h.starts
      exact .decline (by simp [ht]) (.accept ht (reads_map.mpr ⟨_, hread, rfl⟩))
  | expression h =>
      have hread := h.reads hending hn
      obtain ⟨t, us, rfl, ht⟩ := h.starts
      refine .decline ?_ (.decline ?_ (reads_map.mpr ⟨_, hread, rfl⟩))
      · rintro heq
        simp [Option.some.inj heq, startsExpression, startsPrimary] at ht
      · rintro heq
        simp [Option.some.inj heq, startsExpression, startsPrimary] at ht

end

/-! ## Phrases with phrases inside -/

private theorem reads_expressionCase {ending : Token} {stmt : Parse Stmt}
    {decl : Parse (Option Stmt)} {n : Nat} {tree : Stmt}
    (hstarts : ∃ t us, ts = t :: us ∧ startsExpression t.kind = true)
    (h : Reads (expressionStmt n) ending i ts tree j rest) :
    Reads (statementForm stmt decl n) ending i ts tree j rest := by
  obtain ⟨t, us, rfl, ht⟩ := hstarts
  simp only [statementForm, reads_current_bind, List.headD_cons]
  split
  all_goals first
    | exact h
    | next hkind => simp [hkind, startsExpression, startsPrimary] at ht

private theorem reads_statementCase {ending : Token} {stmt : Parse Stmt}
    {decl : Parse (Option Stmt)} {n : Nat} {tree : Stmt}
    (hstarts : ∃ t us, ts = t :: us ∧ startsStatement t.kind = true)
    (h : Reads (statementForm stmt decl n) ending i ts tree j rest) :
    Reads (declarationForm stmt decl n) ending i ts tree j rest := by
  obtain ⟨t, us, rfl, ht⟩ := hstarts
  simp only [declarationForm, reads_current_bind, List.headD_cons]
  split
  all_goals first
    | exact h
    | next hkind => simp [hkind, startsStatement, startsExpression, startsPrimary] at ht

private theorem closes_rightBrace (t : Token)
    (h : decide (t.kind = .rightBrace) = true) : t.kind = .rightBrace :=
  of_decide_eq_true h

private theorem headKind_ne_else_of_closes {closes : Token → Bool}
    (hcloses : ∀ t, closes t = true → t.kind = .rightBrace)
    (hrest : ∀ t us, rest = t :: us → closes t = true) : headKind rest ≠ some .kwElse := by
  cases rest with
  | nil => exact nofun
  | cons t us => simp [hcloses t (hrest t us rfl)]

private theorem reads_block {ending closing : Token} {decl : Parse (Option Stmt)} {n : Nat}
    {stmts : List Stmt} (hclosing : closing.kind = .rightBrace)
    (h : Reads (declarations (fun t => decide (t.kind = .rightBrace)) decl n) ending i ts stmts j
      (closing :: rest)) :
    Reads (block decl n) ending i ts stmts j rest := by
  unfold block
  exact .bind h (.expect hclosing (.pure _))

/-- The part of a function from its parameters on. -/
private theorem reads_parameterList {β : Type} {ending : Token} {callee : Callee} {n : Nat}
    {names us : List Token} {f : List Token → Parse β} {b : β}
    (h : ParameterList ts names us) (hn : ts.length ≤ n) (hf : Reads (f names) ending i us b j rest) :
    Reads (do
      let _ ← expect .leftParen (.parameterList callee)
      let params ← if ← check .rightParen then pure [] else parameters n 0
      let _ ← expect .rightParen .parameterEnd
      f params) ending i ts b j rest := by
  cases h with
  | empty hopening hclosing =>
      refine .expect hopening ?_
      simp only [reads_check_bind, headKind_cons, hclosing, decide_true, if_true, reads_pure_bind]
      exact .expect hclosing hf
  | names hopening hnames hcount hclosing =>
      have hstart : headKind _ ≠ some .rightParen := hnames.headKind_ne
      refine .expect hopening ?_
      simp only [List.length_cons] at hn
      simp only [reads_check_bind, hstart, decide_false]
      exact .bind (hnames.reads (by omega) (by omega) (by simp [hclosing])) (.expect hclosing hf)

mutual

theorem Declaration.reads {ending : Token} (hending : ending.kind = .ending) :
    ∀ {i ts phrase j rest}, Declaration i ts phrase j rest → ∀ {n}, ts.length ≤ n →
      headKind rest ≠ some .kwElse →
      Reads (declaration n) ending i ts (some phrase.desugar) j rest
  | _, _, _, _, _, .classDecl hkeyword hname hsuperclass hopening hmethods hclosing, n, hn, _ => by
      have hlength := hsuperclass.length_le
      simp only [List.length_cons] at hn hlength
      obtain ⟨n, rfl⟩ : ∃ n', n = n' + 1 := ⟨n - 1, by omega⟩
      unfold declaration
      refine reads_recovering.mpr ⟨_, rfl, ?_⟩
      simp only [declarationForm, reads_current_bind, List.headD_cons, hkeyword,
        reads_advance_bind, List.tail_cons, classDecl, Phrase.desugar]
      refine .expect hname (.bind (hsuperclass.reads (by simp [hopening])) (.expect hopening ?_))
      exact .bind (hmethods.reads hending (by omega) (by omega) (by omega) (by simp [hclosing]))
        (.expect hclosing (.pure _))
  | _, _, _, _, _, .function hkeyword h, n, hn, _ => by
      simp only [List.length_cons] at hn
      obtain ⟨n, rfl⟩ : ∃ n', n = n' + 1 := ⟨n - 1, by omega⟩
      unfold declaration
      refine reads_recovering.mpr ⟨_, rfl, ?_⟩
      simp only [declarationForm, reads_current_bind, List.headD_cons, hkeyword,
        reads_advance_bind, List.tail_cons, Phrase.desugar]
      exact reads_map.mpr ⟨_, h.reads hending (by omega) (by omega), rfl⟩
  | _, _, _, _, _, .var h, n, hn, _ => by
      have hread := h.reads hending hn
      obtain ⟨t, us, rfl, ht⟩ := h.starts
      simp only [List.length_cons] at hn
      obtain ⟨n, rfl⟩ : ∃ n', n = n' + 1 := ⟨n - 1, by omega⟩
      unfold declaration
      refine reads_recovering.mpr ⟨_, rfl, ?_⟩
      simp only [declarationForm, reads_current_bind, List.headD_cons, ht]
      exact reads_advance_bind.mpr hread
  | _, _, _, _, _, .statement h, n, hn, hrest => by
      have hlength := h.length_lt
      obtain ⟨n, rfl⟩ : ∃ n', n = n' + 1 := ⟨n - 1, by omega⟩
      have hread := h.reads hending hn fun _ => hrest
      unfold statement at hread
      unfold declaration
      exact reads_recovering.mpr ⟨_, rfl, reads_statementCase h.starts hread⟩

theorem Statement.reads {ending : Token} (hending : ending.kind = .ending) :
    ∀ {isOpen i ts phrase j rest}, Statement isOpen i ts phrase j rest → ∀ {n}, ts.length ≤ n →
      (isOpen = true → headKind rest ≠ some .kwElse) →
      Reads (statement n) ending i ts phrase.desugar j rest
  | _, _, _, _, _, _, .expression h, n, hn, _ => by
      have hlength := h.length_lt
      obtain ⟨n, rfl⟩ : ∃ n', n = n' + 1 := ⟨n - 1, by omega⟩
      unfold statement
      exact reads_expressionCase h.starts (h.reads hending hn)
  | _, _, _, _, _, _, .print hkeyword h hsemicolon, n, hn, _ => by
      simp only [List.length_cons] at hn
      obtain ⟨n, rfl⟩ : ∃ n', n = n' + 1 := ⟨n - 1, by omega⟩
      simp only [statement, statementForm, reads_current_bind, List.headD_cons, hkeyword,
        reads_advance_bind, List.tail_cons, printStmt, Phrase.desugar]
      exact .bind (h.reads hending (by omega) (expressionEnds_semicolon _ hsemicolon))
        (.expect hsemicolon (.pure _))
  | _, _, _, _, _, _, .ret hkeyword h hsemicolon, n, hn, _ => by
      simp only [List.length_cons] at hn
      obtain ⟨n, rfl⟩ : ∃ n', n = n' + 1 := ⟨n - 1, by omega⟩
      simp only [statement, statementForm, reads_current_bind, List.headD_cons, hkeyword,
        reads_advance_bind, List.tail_cons, returnStmt, Phrase.desugar]
      exact .bind (h.reads hending (by omega) (congrArg some hsemicolon) (.inl rfl))
        (.expect hsemicolon (.pure _))
  | _, _, _, _, _, _, .block hopening h hclosing, n, hn, _ => by
      simp only [List.length_cons] at hn
      obtain ⟨n, rfl⟩ : ∃ n', n = n' + 1 := ⟨n - 1, by omega⟩
      simp only [statement, statementForm, reads_current_bind, List.headD_cons, hopening,
        reads_advance_bind, List.tail_cons, Phrase.desugar]
      exact .bind (reads_block hclosing (h.reads hending (by omega) (by omega) closes_rightBrace
        (by simp [hclosing]))) (.pure _)
  | _, _, _, _, _, _, .ifOnly hkeyword hopening hcondition hclosing hyes, n, hn, hrest => by
      have hlength := hcondition.length_lt
      simp only [List.length_cons] at hn hlength
      obtain ⟨n, rfl⟩ : ∃ n', n = n' + 1 := ⟨n - 1, by omega⟩
      simp only [statement, statementForm, reads_current_bind, List.headD_cons, hkeyword,
        reads_advance_bind, List.tail_cons, ifStmt, Phrase.desugar]
      refine .expect hopening (.bind (hcondition.reads hending (by omega)
        (expressionEnds_rightParen _ hclosing)) (.expect hclosing ?_))
      exact .bind (hyes.reads hending (by omega) fun _ => hrest rfl)
        (.decline (hrest rfl) (.pure _))
  | _, _, _, _, _, _, .ifElse hkeyword hopening hcondition hclosing hyes hotherwise hno, n, hn,
      hrest => by
      have hlength := hcondition.length_lt
      have hyesLength := hyes.length_lt
      simp only [List.length_cons] at hn hlength hyesLength
      obtain ⟨n, rfl⟩ : ∃ n', n = n' + 1 := ⟨n - 1, by omega⟩
      simp only [statement, statementForm, reads_current_bind, List.headD_cons, hkeyword,
        reads_advance_bind, List.tail_cons, ifStmt, Phrase.desugar]
      refine .expect hopening (.bind (hcondition.reads hending (by omega)
        (expressionEnds_rightParen _ hclosing)) (.expect hclosing ?_))
      refine .bind (hyes.reads hending (by omega) nofun) (.accept hotherwise ?_)
      exact .bind (hno.reads hending (by omega) hrest) (.pure _)
  | _, _, _, _, _, _, .loop hkeyword hopening hcondition hclosing hbody, n, hn, hrest => by
      have hlength := hcondition.length_lt
      simp only [List.length_cons] at hn hlength
      obtain ⟨n, rfl⟩ : ∃ n', n = n' + 1 := ⟨n - 1, by omega⟩
      simp only [statement, statementForm, reads_current_bind, List.headD_cons, hkeyword,
        reads_advance_bind, List.tail_cons, whileStmt, Phrase.desugar]
      refine .expect hopening (.bind (hcondition.reads hending (by omega)
        (expressionEnds_rightParen _ hclosing)) (.expect hclosing ?_))
      exact .bind (hbody.reads hending (by omega) hrest) (.pure _)
  | _, _, _, _, _, _, .forLoop hkeyword hopening hinitial hcondition hsemicolon hincrement
      hclosing hbody hcompleted, n, hn, hrest => by
      have hinitialLength := hinitial.length_lt
      have hconditionLength := hcondition.length_le
      have hincrementLength := hincrement.length_le
      simp only [List.length_cons] at hn hconditionLength hincrementLength
      obtain ⟨n, rfl⟩ : ∃ n', n = n' + 1 := ⟨n - 1, by omega⟩
      simp only [statement, statementForm, reads_current_bind, List.headD_cons, hkeyword,
        reads_advance_bind, List.tail_cons, forStmt, desugar_forLoop]
      refine .expect hopening (.bind (hinitial.reads hending (by omega)) ?_)
      refine .bind (hcondition.reads hending (by omega) (congrArg some hsemicolon) (.inl rfl))
        (.expect hsemicolon ?_)
      refine .bind (hincrement.reads hending (by omega) (congrArg some hclosing) (.inr rfl))
        (.expect hclosing ?_)
      exact .bind (hbody.reads hending (by omega) hrest) (.bind hcompleted.reads (.pure _))

theorem Declarations.reads {ending : Token} (hending : ending.kind = .ending) :
    ∀ {i ts phrases j rest}, Declarations i ts phrases j rest → ∀ {closes m n},
      ts.length ≤ m → ts.length ≤ n → (∀ t, closes t = true → t.kind = .rightBrace) →
      (∀ t us, rest = t :: us → closes t = true) →
      Reads (declarations closes (declaration m) n) ending i ts (desugarAll phrases) j rest
  | _, ts, _, _, _, .nil, closes, m, n, _, _, _, hrest => by
      cases n with
      | zero => exact .pure []
      | succ n =>
          simp only [declarations, reads_get_bind]
          cases ts with
          | nil => exact .pure []
          | cons t us =>
              simp only [hrest t us rfl, if_true]
              exact .pure []
  | _, _, _, _, _, .cons h hmore, closes, m, n, hm, hn, hcloses, hrest => by
      have hlength := h.length_lt
      obtain ⟨n, rfl⟩ : ∃ n', n = n' + 1 := ⟨n - 1, by omega⟩
      have hfirst := h.reads hending hm
        (hmore.headKind_ne_else (headKind_ne_else_of_closes hcloses hrest))
      have hothers := hmore.reads hending (m := m) (n := n) (by omega) (by omega) hcloses hrest
      obtain ⟨t, us, rfl, ht⟩ := h.starts
      have hstays : ¬ closes t = true := fun heq => by
        simp [hcloses t heq, startsDeclaration, startsStatement, startsExpression,
          startsPrimary] at ht
      simp only [declarations, reads_get_bind, hstays, desugarAll]
      exact .bind hfirst (.bind hothers (.pure _))

theorem Function.reads {ending : Token} (hending : ending.kind = .ending) :
    ∀ {i ts f j rest}, Function i ts f j rest → ∀ {callee m n}, ts.length ≤ m → ts.length ≤ n →
      Reads (funDecl callee (declaration m) n) ending i ts f.desugar j rest
  | _, _, _, _, _, .mk hname hparams hopening hbody hclosing, callee, m, n, hm, hn => by
      have hlength := hparams.length_lt
      simp only [List.length_cons] at hm hn hlength
      have hblock := reads_block hclosing (hbody.reads hending (m := m) (n := n) (by omega)
        (by omega) closes_rightBrace (by simp [hclosing]))
      unfold FunPhrase.desugar
      refine .expect hname (reads_parameterList hparams (by omega) ?_)
      exact .expect hopening (.bind hblock (.pure _))

theorem Methods.reads {ending : Token} (hending : ending.kind = .ending) :
    ∀ {i ts methods j rest}, Methods i ts methods j rest → ∀ {callee m n fuel},
      ts.length ≤ m → ts.length ≤ n → ts.length ≤ fuel → headKind rest = some .rightBrace →
      Reads (Parse.methods (funDecl callee (declaration m) n) fuel) ending i ts
        (desugarMethods methods) j rest
  | _, ts, _, _, _, .nil, callee, m, n, fuel, _, _, _, hrest => by
      cases fuel with
      | zero => exact .pure []
      | succ fuel =>
          simp only [Parse.methods, reads_atEnd_bind]
          split
          · exact .pure []
          · simp only [reads_check_bind, hrest, decide_true, if_true]
            exact .pure []
  | _, _, _, _, _, .cons h hmore, callee, m, n, fuel, hm, hn, hfuel, hrest => by
      have hlength := h.length_lt
      obtain ⟨fuel, rfl⟩ : ∃ n', fuel = n' + 1 := ⟨fuel - 1, by omega⟩
      have hfirst : Reads (funDecl callee (declaration m) n) ending _ _ _ _ _ :=
        h.reads hending hm hn
      have hothers : Reads (Parse.methods (funDecl callee (declaration m) n) fuel) ending _ _ _ _ _ :=
        hmore.reads hending (by omega) (by omega) (by omega) hrest
      obtain ⟨t, us, rfl, ht⟩ := h.starts
      simp only [Parse.methods, reads_atEnd_bind, List.isEmpty_cons, Bool.false_eq_true, if_false,
        reads_check_bind, headKind_cons, ht, desugarMethods]
      exact .bind hfirst (.bind hothers (.pure _))

end

end Lox.Grammar
