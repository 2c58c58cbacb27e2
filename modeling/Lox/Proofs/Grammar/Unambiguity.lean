import Lox.Proofs.Grammar.StatementCompleteness

/-!
# The grammar is unambiguous

Since every phrase is read, and reading gives one result, two derivations from the same tokens agree
on the tree, the next number and the tokens left over.  They agree on the phrase too: the first
token decides its form.
-/

namespace Lox.Parse

theorem Reads.unique {α : Type} {p : Parse α} {ending : Token} {i j j' : Ledger}
    {ts rest rest' : List Token} {a a' : α} (h : Reads p ending i ts a j rest)
    (h' : Reads p ending i ts a' j' rest') : a = a' ∧ j = j' ∧ rest = rest' := by
  unfold Reads at h h'
  rw [h] at h'
  simp only [Prod.mk.injEq, Option.some.injEq, Cursor.mk.injEq] at h'
  exact ⟨h'.1, h'.2.2.2.1, h'.2.1⟩

end Lox.Parse

namespace Lox.Grammar

open Parse

private theorem kind_atEnd : (Token.atEnd 0).kind = .ending := rfl

variable {i j j' : Ledger} {ts rest rest' : List Token}

theorem Expression.unique {e e' : Expr} (h : Expression i ts e j rest)
    (h' : Expression i ts e' j' rest') (hends : ExpressionEnds rest)
    (hends' : ExpressionEnds rest') : e = e' ∧ j = j' ∧ rest = rest' :=
  (h.reads kind_atEnd (Nat.le_refl _) hends).unique (h'.reads kind_atEnd (Nat.le_refl _) hends')

theorem Optionally.unique {e e' : Option Expr} {follower : Token.Kind}
    (h : Optionally i ts e j rest) (h' : Optionally i ts e' j' rest')
    (hrest : headKind rest = some follower) (hrest' : headKind rest' = some follower)
    (hfollower : follower = .semicolon ∨ follower = .rightParen) :
    e = e' ∧ j = j' ∧ rest = rest' :=
  (h.reads kind_atEnd (Nat.le_refl _) hrest hfollower).unique
    (h'.reads kind_atEnd (Nat.le_refl _) hrest' hfollower)

theorem ExpressionStmt.unique {phrase phrase' : Phrase} (h : ExpressionStmt i ts phrase j rest)
    (h' : ExpressionStmt i ts phrase' j' rest') : phrase = phrase' ∧ j = j' ∧ rest = rest' := by
  cases h with
  | mk h hsemicolon =>
      cases h' with
      | mk h' hsemicolon' =>
          obtain ⟨rfl, rfl, heq⟩ := h.unique h' (expressionEnds_semicolon _ hsemicolon)
            (expressionEnds_semicolon _ hsemicolon')
          exact ⟨rfl, rfl, (List.cons.inj heq).2⟩

theorem VarDecl.unique {phrase phrase' : Phrase} (h : VarDecl i ts phrase j rest)
    (h' : VarDecl i ts phrase' j' rest') : phrase = phrase' ∧ j = j' ∧ rest = rest' := by
  cases h with
  | plain _ _ hsemicolon =>
      cases h' with
      | plain _ _ _ => exact ⟨rfl, rfl, rfl⟩
      | initialised _ _ hequals _ _ => exact absurd (hsemicolon.symm.trans hequals) nofun
  | initialised _ _ hequals h hsemicolon =>
      cases h' with
      | plain _ _ hsemicolon' => exact absurd (hsemicolon'.symm.trans hequals) nofun
      | initialised _ _ _ h' hsemicolon' =>
          obtain ⟨rfl, rfl, heq⟩ := h.unique h' (expressionEnds_semicolon _ hsemicolon)
            (expressionEnds_semicolon _ hsemicolon')
          exact ⟨rfl, rfl, (List.cons.inj heq).2⟩

theorem ExpressionStmt.not_starts {phrase : Phrase} {t : Token} {us : List Token}
    (h : ExpressionStmt i (t :: us) phrase j rest) {kind : Token.Kind}
    (hkind : startsExpression kind = false) : t.kind ≠ kind := by
  obtain ⟨u, vs, heq, hu⟩ := h.starts
  obtain ⟨rfl, -⟩ := List.cons.inj heq
  rintro rfl
  rw [hkind] at hu
  cases hu

theorem ForInitial.unique {initial initial' : Option Phrase} (h : ForInitial i ts initial j rest)
    (h' : ForInitial i ts initial' j' rest') : initial = initial' ∧ j = j' ∧ rest = rest' := by
  cases h with
  | absent hsemicolon =>
      cases h' with
      | absent _ => exact ⟨rfl, rfl, rfl⟩
      | var h' =>
          obtain ⟨t, us, heq, ht⟩ := h'.starts
          obtain ⟨rfl, -⟩ := List.cons.inj heq
          exact absurd (hsemicolon.symm.trans ht) nofun
      | expression h' => exact absurd hsemicolon (h'.not_starts rfl)
  | var h =>
      cases h' with
      | absent hsemicolon =>
          obtain ⟨t, us, heq, ht⟩ := h.starts
          obtain ⟨rfl, -⟩ := List.cons.inj heq
          exact absurd (hsemicolon.symm.trans ht) nofun
      | var h' =>
          obtain ⟨rfl, hj, hrest⟩ := h.unique h'
          exact ⟨rfl, hj, hrest⟩
      | expression h' =>
          obtain ⟨t, us, rfl, ht⟩ := h.starts
          exact absurd ht (h'.not_starts rfl)
  | expression h =>
      cases h' with
      | absent hsemicolon => exact absurd hsemicolon (h.not_starts rfl)
      | var h' =>
          obtain ⟨t, us, rfl, ht⟩ := h'.starts
          exact absurd ht (h.not_starts rfl)
      | expression h' =>
          obtain ⟨rfl, hj, hrest⟩ := h.unique h'
          exact ⟨rfl, hj, hrest⟩

theorem Parameters.unique {names names' : List Token} (h : Parameters ts names rest)
    (h' : Parameters ts names' rest') (hrest : headKind rest ≠ some .comma)
    (hrest' : headKind rest' ≠ some .comma) : names = names' ∧ rest = rest' := by
  induction h generalizing names' with
  | one _ =>
      cases h' with
      | one _ => exact ⟨rfl, rfl⟩
      | more _ hcomma _ => exact absurd (congrArg some hcomma) hrest
  | more _ hcomma _ ih =>
      cases h' with
      | one _ => exact absurd (congrArg some hcomma) hrest'
      | more _ _ h' =>
          obtain ⟨rfl, rfl⟩ := ih h' hrest
          exact ⟨rfl, rfl⟩

theorem ParameterList.unique {names names' : List Token} (h : ParameterList ts names rest)
    (h' : ParameterList ts names' rest') : names = names' ∧ rest = rest' := by
  cases h with
  | empty _ hclosing =>
      cases h' with
      | empty _ _ => exact ⟨rfl, rfl⟩
      | names _ h' _ _ => exact absurd (congrArg some hclosing) h'.headKind_ne
  | names _ h _ hclosing =>
      cases h' with
      | empty _ hclosing' => exact absurd (congrArg some hclosing') h.headKind_ne
      | names _ h' _ hclosing' =>
          obtain ⟨rfl, heq⟩ := h.unique h' (by simp [hclosing]) (by simp [hclosing'])
          exact ⟨rfl, (List.cons.inj heq).2⟩

theorem Superclass.unique {superclass superclass' : Option (Token × NodeId × Token)}
    (h : Superclass i ts superclass j rest) (h' : Superclass i ts superclass' j' rest')
    (hrest : headKind rest ≠ Option.some .less) (hrest' : headKind rest' ≠ Option.some .less) :
    superclass = superclass' ∧ j = j' ∧ rest = rest' := by
  cases h with
  | none =>
      cases h' with
      | none => exact ⟨rfl, rfl, rfl⟩
      | some hsign _ => exact absurd (congrArg Option.some hsign) hrest
  | some hsign _ =>
      cases h' with
      | none => exact absurd (congrArg Option.some hsign) hrest'
      | some _ _ => exact ⟨rfl, rfl, rfl⟩

theorem Completed.unique {condition : Option Expr} {completed completed' : ForCondition}
    (h : Completed condition i completed j) (h' : Completed condition i completed' j') :
    completed = completed' ∧ j = j' := by
  cases h <;> cases h' <;> exact ⟨rfl, rfl⟩

private theorem condition_unique {condition condition' : Expr} {closing closing' : Token}
    (h : Expression i ts condition j (closing :: rest))
    (h' : Expression i ts condition' j' (closing' :: rest'))
    (hclosing : closing.kind = .rightParen) (hclosing' : closing'.kind = .rightParen) :
    condition = condition' ∧ j = j' ∧ rest = rest' := by
  obtain ⟨rfl, rfl, heq⟩ := h.unique h' (expressionEnds_rightParen _ hclosing)
    (expressionEnds_rightParen _ hclosing')
  exact ⟨rfl, rfl, (List.cons.inj heq).2⟩

/-- The end of a row of declarations. -/
def RowEnds (ts : List Token) : Prop :=
  headKind ts = none ∨ headKind ts = some .rightBrace

theorem RowEnds.headKind_ne_else (h : RowEnds ts) : headKind ts ≠ some .kwElse := by
  rcases h with h | h <;> simp [h]

theorem rowEnds_cons {t : Token} (us : List Token) (h : t.kind = .rightBrace) :
    RowEnds (t :: us) :=
  .inr (congrArg some h)

theorem Declaration.not_rowEnds {phrase : Phrase} (h : Declaration i ts phrase j rest) :
    ¬ RowEnds ts := by
  obtain ⟨t, us, rfl, ht⟩ := h.starts
  rintro (hends | hends)
  · cases hends
  · simp [Option.some.inj hends, startsDeclaration, startsStatement, startsExpression,
      startsPrimary] at ht

theorem Statement.not_starts {isOpen : Bool} {phrase : Phrase} {t : Token} {us : List Token}
    (h : Statement isOpen i (t :: us) phrase j rest) {kind : Token.Kind}
    (hkind : startsStatement kind = false) : t.kind ≠ kind := by
  obtain ⟨u, vs, heq, hu⟩ := h.starts
  obtain ⟨rfl, -⟩ := List.cons.inj heq
  rintro rfl
  rw [hkind] at hu
  cases hu

theorem VarDecl.kind {phrase : Phrase} {t : Token} {us : List Token}
    (h : VarDecl i (t :: us) phrase j rest) : t.kind = .kwVar := by
  obtain ⟨u, vs, heq, hu⟩ := h.starts
  obtain ⟨rfl, -⟩ := List.cons.inj heq
  exact hu

mutual

theorem Declaration.unique : ∀ {i ts phrase j rest}, Declaration i ts phrase j rest →
    ∀ {phrase' j' rest'}, Declaration i ts phrase' j' rest' → headKind rest ≠ some .kwElse →
      headKind rest' ≠ some .kwElse → phrase = phrase' ∧ j = j' ∧ rest = rest'
  | _, _, _, _, _, .classDecl hkeyword _ hsuperclass hopening hmethods hclosing, _, _, _, h', _,
      _ => by
      cases h' with
      | classDecl _ _ hsuperclass' hopening' hmethods' hclosing' =>
          obtain ⟨rfl, rfl, heq⟩ := hsuperclass.unique hsuperclass' (by simp [hopening])
            (by simp [hopening'])
          obtain ⟨rfl, rfl⟩ := List.cons.inj heq
          obtain ⟨rfl, rfl, heq⟩ := hmethods.unique hmethods' (congrArg some hclosing)
            (congrArg some hclosing')
          exact ⟨rfl, rfl, (List.cons.inj heq).2⟩
      | function hkeyword' _ => exact absurd (hkeyword.symm.trans hkeyword') nofun
      | var h' => exact absurd (hkeyword.symm.trans h'.kind) nofun
      | statement h' => exact absurd hkeyword (h'.not_starts rfl)
  | _, _, _, _, _, .function hkeyword h, _, _, _, h', _, _ => by
      cases h' with
      | function _ h' =>
          obtain ⟨rfl, hj, hrest⟩ := h.unique h'
          exact ⟨rfl, hj, hrest⟩
      | classDecl hkeyword' _ _ _ _ _ => exact absurd (hkeyword.symm.trans hkeyword') nofun
      | var h' => exact absurd (hkeyword.symm.trans h'.kind) nofun
      | statement h' => exact absurd hkeyword (h'.not_starts rfl)
  | _, _, _, _, _, .var h, _, _, _, h', _, _ => by
      cases h' with
      | var h' => exact h.unique h'
      | classDecl hkeyword' _ _ _ _ _ => exact absurd (hkeyword'.symm.trans h.kind) nofun
      | function hkeyword' _ => exact absurd (hkeyword'.symm.trans h.kind) nofun
      | statement h' =>
          obtain ⟨t, us, rfl, ht⟩ := h.starts
          exact absurd ht (h'.not_starts rfl)
  | _, _, _, _, _, .statement h, _, _, _, h', hrest, hrest' => by
      cases h' with
      | statement h' => exact h.unique h' (fun _ => hrest) fun _ => hrest'
      | classDecl hkeyword' _ _ _ _ _ => exact absurd hkeyword' (h.not_starts rfl)
      | function hkeyword' _ => exact absurd hkeyword' (h.not_starts rfl)
      | var h' =>
          obtain ⟨t, us, rfl, ht⟩ := h'.starts
          exact absurd ht (h.not_starts rfl)
termination_by structural _ _ _ _ _ h => h

theorem Statement.unique : ∀ {isOpen i ts phrase j rest}, Statement isOpen i ts phrase j rest →
    ∀ {isOpen' phrase' j' rest'}, Statement isOpen' i ts phrase' j' rest' →
      (isOpen = true → headKind rest ≠ some .kwElse) →
      (isOpen' = true → headKind rest' ≠ some .kwElse) →
      phrase = phrase' ∧ j = j' ∧ rest = rest'
  | _, _, _, _, _, _, .expression h, _, _, _, _, h', _, _ => by
      cases h' with
      | expression h' => exact h.unique h'
      | print hkeyword _ _ | ret hkeyword _ _ | block hkeyword _ _ | ifOnly hkeyword _ _ _ _
      | ifElse hkeyword _ _ _ _ _ _ | loop hkeyword _ _ _ _ | forLoop hkeyword _ _ _ _ _ _ _ _ =>
          exact absurd hkeyword (h.not_starts rfl)
  | _, _, _, _, _, _, .print hkeyword h hsemicolon, _, _, _, _, h', _, _ => by
      cases h' with
      | print _ h' hsemicolon' =>
          obtain ⟨rfl, rfl, heq⟩ := h.unique h' (expressionEnds_semicolon _ hsemicolon)
            (expressionEnds_semicolon _ hsemicolon')
          exact ⟨rfl, rfl, (List.cons.inj heq).2⟩
      | expression h' => exact absurd hkeyword (h'.not_starts rfl)
      | ret hkeyword' _ _ | block hkeyword' _ _ | ifOnly hkeyword' _ _ _ _
      | ifElse hkeyword' _ _ _ _ _ _ | loop hkeyword' _ _ _ _
      | forLoop hkeyword' _ _ _ _ _ _ _ _ => exact absurd (hkeyword.symm.trans hkeyword') nofun
  | _, _, _, _, _, _, .ret hkeyword h hsemicolon, _, _, _, _, h', _, _ => by
      cases h' with
      | ret _ h' hsemicolon' =>
          obtain ⟨rfl, rfl, heq⟩ := h.unique h' (congrArg some hsemicolon)
            (congrArg some hsemicolon') (.inl rfl)
          exact ⟨rfl, rfl, (List.cons.inj heq).2⟩
      | expression h' => exact absurd hkeyword (h'.not_starts rfl)
      | print hkeyword' _ _ | block hkeyword' _ _ | ifOnly hkeyword' _ _ _ _
      | ifElse hkeyword' _ _ _ _ _ _ | loop hkeyword' _ _ _ _
      | forLoop hkeyword' _ _ _ _ _ _ _ _ => exact absurd (hkeyword.symm.trans hkeyword') nofun
  | _, _, _, _, _, _, .block hopening h hclosing, _, _, _, _, h', _, _ => by
      cases h' with
      | block _ h' hclosing' =>
          obtain ⟨rfl, rfl, heq⟩ := h.unique h' (rowEnds_cons _ hclosing)
            (rowEnds_cons _ hclosing')
          exact ⟨rfl, rfl, (List.cons.inj heq).2⟩
      | expression h' => exact absurd hopening (h'.not_starts rfl)
      | print hkeyword' _ _ | ret hkeyword' _ _ | ifOnly hkeyword' _ _ _ _
      | ifElse hkeyword' _ _ _ _ _ _ | loop hkeyword' _ _ _ _
      | forLoop hkeyword' _ _ _ _ _ _ _ _ => exact absurd (hopening.symm.trans hkeyword') nofun
  | _, _, _, _, _, _, .ifOnly hkeyword _ hcondition hclosing hyes, _, _, _, _, h', hrest,
      hrest' => by
      cases h' with
      | ifOnly _ _ hcondition' hclosing' hyes' =>
          obtain ⟨rfl, rfl, rfl⟩ := condition_unique hcondition hcondition' hclosing hclosing'
          obtain ⟨rfl, hj, heq⟩ := hyes.unique hyes' (fun _ => hrest rfl) fun _ => hrest' rfl
          exact ⟨rfl, hj, heq⟩
      | ifElse _ _ hcondition' hclosing' hyes' hotherwise _ =>
          obtain ⟨rfl, rfl, rfl⟩ := condition_unique hcondition hcondition' hclosing hclosing'
          obtain ⟨-, -, rfl⟩ := hyes.unique hyes' (fun _ => hrest rfl) nofun
          exact absurd (congrArg some hotherwise) (hrest rfl)
      | expression h' => exact absurd hkeyword (h'.not_starts rfl)
      | print hkeyword' _ _ | ret hkeyword' _ _ | block hkeyword' _ _ | loop hkeyword' _ _ _ _
      | forLoop hkeyword' _ _ _ _ _ _ _ _ => exact absurd (hkeyword.symm.trans hkeyword') nofun
  | _, _, _, _, _, _, .ifElse hkeyword _ hcondition hclosing hyes hotherwise hno, _, _, _, _, h',
      hrest, hrest' => by
      cases h' with
      | ifOnly _ _ hcondition' hclosing' hyes' =>
          obtain ⟨rfl, rfl, rfl⟩ := condition_unique hcondition hcondition' hclosing hclosing'
          obtain ⟨-, -, rfl⟩ := hyes.unique hyes' nofun fun _ => hrest' rfl
          exact absurd (congrArg some hotherwise) (hrest' rfl)
      | ifElse _ _ hcondition' hclosing' hyes' _ hno' =>
          obtain ⟨rfl, rfl, rfl⟩ := condition_unique hcondition hcondition' hclosing hclosing'
          obtain ⟨rfl, rfl, heq⟩ := hyes.unique hyes' nofun nofun
          obtain ⟨-, rfl⟩ := List.cons.inj heq
          obtain ⟨rfl, hj, heq⟩ := hno.unique hno' hrest hrest'
          exact ⟨rfl, hj, heq⟩
      | expression h' => exact absurd hkeyword (h'.not_starts rfl)
      | print hkeyword' _ _ | ret hkeyword' _ _ | block hkeyword' _ _ | loop hkeyword' _ _ _ _
      | forLoop hkeyword' _ _ _ _ _ _ _ _ => exact absurd (hkeyword.symm.trans hkeyword') nofun
  | _, _, _, _, _, _, .loop hkeyword _ hcondition hclosing hbody, _, _, _, _, h', hrest,
      hrest' => by
      cases h' with
      | loop _ _ hcondition' hclosing' hbody' =>
          obtain ⟨rfl, rfl, rfl⟩ := condition_unique hcondition hcondition' hclosing hclosing'
          obtain ⟨rfl, hj, heq⟩ := hbody.unique hbody' hrest hrest'
          exact ⟨rfl, hj, heq⟩
      | expression h' => exact absurd hkeyword (h'.not_starts rfl)
      | print hkeyword' _ _ | ret hkeyword' _ _ | block hkeyword' _ _ | ifOnly hkeyword' _ _ _ _
      | ifElse hkeyword' _ _ _ _ _ _
      | forLoop hkeyword' _ _ _ _ _ _ _ _ => exact absurd (hkeyword.symm.trans hkeyword') nofun
  | _, _, _, _, _, _, .forLoop hkeyword _ hinitial hcondition hsemicolon hincrement hclosing hbody
      hcompleted, _, _, _, _, h', hrest, hrest' => by
      cases h' with
      | forLoop _ _ hinitial' hcondition' hsemicolon' hincrement' hclosing' hbody' hcompleted' =>
          obtain ⟨rfl, rfl, rfl⟩ := hinitial.unique hinitial'
          obtain ⟨rfl, rfl, heq⟩ := hcondition.unique hcondition' (congrArg some hsemicolon)
            (congrArg some hsemicolon') (.inl rfl)
          obtain ⟨-, rfl⟩ := List.cons.inj heq
          obtain ⟨rfl, rfl, heq⟩ := hincrement.unique hincrement' (congrArg some hclosing)
            (congrArg some hclosing') (.inr rfl)
          obtain ⟨-, rfl⟩ := List.cons.inj heq
          obtain ⟨rfl, rfl, heq⟩ := hbody.unique hbody' hrest hrest'
          obtain ⟨rfl, hj⟩ := hcompleted.unique hcompleted'
          exact ⟨rfl, hj, heq⟩
      | expression h' => exact absurd hkeyword (h'.not_starts rfl)
      | print hkeyword' _ _ | ret hkeyword' _ _ | block hkeyword' _ _ | ifOnly hkeyword' _ _ _ _
      | ifElse hkeyword' _ _ _ _ _ _
      | loop hkeyword' _ _ _ _ => exact absurd (hkeyword.symm.trans hkeyword') nofun
termination_by structural _ _ _ _ _ _ h => h

theorem Declarations.unique : ∀ {i ts phrases j rest}, Declarations i ts phrases j rest →
    ∀ {phrases' j' rest'}, Declarations i ts phrases' j' rest' → RowEnds rest → RowEnds rest' →
      phrases = phrases' ∧ j = j' ∧ rest = rest'
  | _, _, _, _, _, .nil, _, _, _, h', hrest, _ => by
      cases h' with
      | nil => exact ⟨rfl, rfl, rfl⟩
      | cons h' _ => exact absurd hrest h'.not_rowEnds
  | _, _, _, _, _, .cons h hmore, _, _, _, h', hrest, hrest' => by
      cases h' with
      | nil => exact absurd hrest' h.not_rowEnds
      | cons h' hmore' =>
          obtain ⟨rfl, rfl, rfl⟩ := h.unique h' (hmore.headKind_ne_else hrest.headKind_ne_else)
            (hmore'.headKind_ne_else hrest'.headKind_ne_else)
          obtain ⟨rfl, hj, heq⟩ := hmore.unique hmore' hrest hrest'
          exact ⟨rfl, hj, heq⟩
termination_by structural _ _ _ _ _ h => h

theorem Function.unique : ∀ {i ts f j rest}, Function i ts f j rest →
    ∀ {f' j' rest'}, Function i ts f' j' rest' → f = f' ∧ j = j' ∧ rest = rest'
  | _, _, _, _, _, .mk _ hparams _ hbody hclosing, _, _, _, h' => by
      cases h' with
      | mk _ hparams' _ hbody' hclosing' =>
          obtain ⟨rfl, heq⟩ := hparams.unique hparams'
          obtain ⟨-, rfl⟩ := List.cons.inj heq
          obtain ⟨rfl, rfl, heq⟩ := hbody.unique hbody' (rowEnds_cons _ hclosing)
            (rowEnds_cons _ hclosing')
          exact ⟨rfl, rfl, (List.cons.inj heq).2⟩
termination_by structural _ _ _ _ _ h => h

theorem Methods.unique : ∀ {i ts methods j rest}, Methods i ts methods j rest →
    ∀ {methods' j' rest'}, Methods i ts methods' j' rest' →
      headKind rest = some .rightBrace → headKind rest' = some .rightBrace →
      methods = methods' ∧ j = j' ∧ rest = rest'
  | _, _, _, _, _, .nil, _, _, _, h', hrest, _ => by
      cases h' with
      | nil => exact ⟨rfl, rfl, rfl⟩
      | cons h' _ =>
          obtain ⟨t, us, rfl, ht⟩ := h'.starts
          exact absurd (ht.symm.trans (Option.some.inj hrest)) nofun
  | _, _, _, _, _, .cons h hmore, _, _, _, h', hrest, hrest' => by
      cases h' with
      | nil =>
          obtain ⟨t, us, rfl, ht⟩ := h.starts
          exact absurd (ht.symm.trans (Option.some.inj hrest')) nofun
      | cons h' hmore' =>
          obtain ⟨rfl, rfl, rfl⟩ := h.unique h'
          obtain ⟨rfl, hj, heq⟩ := hmore.unique hmore' hrest hrest'
          exact ⟨rfl, hj, heq⟩
termination_by structural _ _ _ _ _ h => h

end

theorem Program.unique {phrases phrases' : List Phrase} (h : Program i ts phrases j)
    (h' : Program i ts phrases' j') : phrases = phrases' ∧ j = j' := by
  obtain ⟨hphrases, hj, -⟩ := Declarations.unique h h' (.inl rfl) (.inl rfl)
  exact ⟨hphrases, hj⟩

end Lox.Grammar
