import Lox.Proofs.Grammar.Derivation

/-!
# Phrases keep their tokens

The marks of a phrase are spelled by the tokens that it is derived from: none is lost, none is used
twice, and their order stays.
-/

namespace Lox

theorem spells_append {marks marks' : List Mark} {ts rest : List Token} :
    Spells (marks ++ marks') ts rest ↔ ∃ us, Spells marks ts us ∧ Spells marks' us rest := by
  induction marks generalizing ts with
  | nil => simp [Spells]
  | cons mark marks ih =>
      simp only [List.cons_append, Spells, ih]
      constructor
      · rintro ⟨t, us, hts, ht, vs, hus, hvs⟩
        exact ⟨vs, ⟨t, us, hts, ht, hus⟩, hvs⟩
      · rintro ⟨vs, ⟨t, us, hts, ht, hus⟩, hvs⟩
        exact ⟨t, us, hts, ht, vs, hus, hvs⟩

variable {marks marks' : List Mark} {t : Token} {ts us rest : List Token}

theorem Spells.append (h : Spells marks ts us) (h' : Spells marks' us rest) :
    Spells (marks ++ marks') ts rest :=
  spells_append.mpr ⟨us, h, h'⟩

theorem Spells.word (h : Spells marks ts rest) : Spells (.word t :: marks) (t :: ts) rest :=
  ⟨t, ts, rfl, rfl, h⟩

theorem Spells.sign {kind : Token.Kind} (ht : t.kind = kind) (h : Spells marks ts rest)
    (hkind : kind.isSign = true) : Spells (.sign kind :: marks) (t :: ts) rest :=
  ⟨t, ts, rfl, ⟨ht, hkind⟩, h⟩

theorem Spells.nil : Spells [] ts ts :=
  rfl

theorem spells_literal {value : Literal} (h : t.value? = some value) :
    Spells [.literal value] (t :: rest) rest :=
  ⟨t, rest, rfl, h, rfl⟩

namespace Grammar

mutual

theorem Expression.spells : ∀ {i ts e j rest},
    Expression i ts e j rest → Spells e.marks ts rest
  | _, _, _, _, _, .value h => h.spells
  | _, _, _, _, _, .assign _ hequals h => by
      unfold Expr.marks
      exact .word (.sign hequals h.spells rfl)
  | _, _, _, _, _, .set hobject hdot _ hequals hvalue => by
      unfold Expr.marks
      exact hobject.spells.append (.sign hdot (.word (.sign hequals hvalue.spells rfl)) rfl)

theorem Operation.spells : ∀ {level i ts e j rest},
    Operation level i ts e j rest → Spells e.marks ts rest
  | _, _, _, _, _, _, .operand h => h.spells
  | _, _, _, _, _, _, .tighter h => h.spells
  | _, _, _, _, _, _, .logical hleft _ _ hright => by
      unfold Expr.marks
      exact hleft.spells.append (.word hright.spells)
  | _, _, _, _, _, _, .binary hleft _ _ hright => by
      unfold Expr.marks
      exact hleft.spells.append (.word hright.spells)

theorem Unary.spells : ∀ {i ts e j rest}, Unary i ts e j rest → Spells e.marks ts rest
  | _, _, _, _, _, .chain h => h.spells
  | _, _, _, _, _, .signed _ h => by
      unfold Expr.marks
      exact .word h.spells

theorem Chain.spells : ∀ {i ts e j rest}, Chain i ts e j rest → Spells e.marks ts rest
  | _, _, _, _, _, .primary h => h.spells
  | _, _, _, _, _, .bareCall h hopening _ => by
      unfold Expr.marks
      exact (h.spells.append (.sign hopening .nil rfl)).append (.word .nil)
  | _, _, _, _, _, .call hcallee hopening harguments _ _ => by
      unfold Expr.marks
      exact (hcallee.spells.append (.sign hopening harguments.spells rfl)).append (.word .nil)
  | _, _, _, _, _, .get h hdot _ => by
      unfold Expr.marks
      exact h.spells.append (.sign hdot (.word .nil) rfl)

theorem Arguments.spells : ∀ {i ts es j rest},
    Arguments i ts es j rest → Spells (commaSeparated (argumentMarks es)) ts rest
  | _, _, _, _, _, .one h => by
      simp only [argumentMarks, commaSeparated]
      exact h.spells
  | _, _, _, _, _, .more h hcomma hmore => by
      have hothers := hmore.spells
      cases hmore with
      | one _ | more _ _ _ =>
          simp only [argumentMarks, commaSeparated] at hothers ⊢
          exact h.spells.append (.sign hcomma hothers rfl)

theorem Primary.spells : ∀ {i ts e j rest}, Primary i ts e j rest → Spells e.marks ts rest
  | _, _, _, _, _, .no h => spells_literal (by simp [Token.value?, h])
  | _, _, _, _, _, .yes h => spells_literal (by simp [Token.value?, h])
  | _, _, _, _, _, .nil h => spells_literal (by simp [Token.value?, h])
  | _, _, _, _, _, .number h => spells_literal (by simp [Token.value?, h])
  | _, _, _, _, _, .string h => spells_literal (by simp [Token.value?, h])
  | _, _, _, _, _, .self _ => .word .nil
  | _, _, _, _, _, .name _ => .word .nil
  | _, _, _, _, _, .super _ hdot _ => .word (.sign hdot (.word .nil) rfl)
  | _, _, _, _, _, .group hopening h hclosing => by
      unfold Expr.marks
      exact .sign hopening (h.spells.append (.sign hclosing .nil rfl)) rfl

end

variable {i j : Ledger}

theorem Optionally.spells {e : Option Expr} (h : Optionally i ts e j rest) :
    Spells (optionalMarks e) ts rest := by
  cases h with
  | absent => exact .nil
  | present h => exact h.spells

theorem ExpressionStmt.spells {phrase : Phrase} (h : ExpressionStmt i ts phrase j rest) :
    Spells phrase.marks ts rest := by
  cases h with
  | mk h hsemicolon =>
      unfold Phrase.marks
      exact h.spells.append (.sign hsemicolon .nil rfl)

theorem VarDecl.spells {phrase : Phrase} (h : VarDecl i ts phrase j rest) :
    Spells phrase.marks ts rest := by
  cases h with
  | plain hkeyword _ hsemicolon =>
      unfold Phrase.marks
      exact .sign hkeyword (.word (.sign hsemicolon .nil rfl)) rfl
  | initialised hkeyword _ hequals h hsemicolon =>
      unfold Phrase.marks
      have hvalue := h.spells.append (.sign hsemicolon .nil rfl)
      exact .sign hkeyword (.word (.sign hequals hvalue rfl)) rfl

theorem Parameters.spells {names : List Token} (h : Parameters ts names rest) :
    Spells (commaSeparated (names.map fun p => [.word p])) ts rest := by
  induction h with
  | one _ => exact .word .nil
  | more _ hcomma hmore ih =>
      cases hmore with
      | one _ | more _ _ _ => exact .word (.sign hcomma ih rfl)

theorem ParameterList.spells {names : List Token} (h : ParameterList ts names rest) :
    Spells (.sign .leftParen :: commaSeparated (names.map fun p => [.word p]) ++
      [.sign .rightParen]) ts rest := by
  cases h with
  | empty hopening hclosing => exact .sign hopening (.sign hclosing .nil rfl) rfl
  | names hopening hnames _ hclosing =>
      exact .sign hopening (hnames.spells.append (.sign hclosing .nil rfl)) rfl

theorem Completed.marks_eq {condition : Option Expr} {completed : ForCondition}
    (h : Completed condition i completed j) : optionalMarks condition = completed.marks := by
  cases h <;> rfl

theorem Superclass.spells {superclass : Option (Token × NodeId × Token)}
    (h : Superclass i ts superclass j rest) : Spells (superclassMarks superclass) ts rest := by
  cases h with
  | none => exact .nil
  | some _ _ => exact .word (.word .nil)

mutual

theorem Declaration.spells : ∀ {i ts phrase j rest},
    Declaration i ts phrase j rest → Spells phrase.marks ts rest
  | _, _, _, _, _, .classDecl hkeyword _ hsuperclass hopening hmethods hclosing => by
      unfold Phrase.marks
      exact ((Spells.sign hkeyword (.word hsuperclass.spells) rfl).append
        (.sign hopening hmethods.spells rfl)).append (.sign hclosing .nil rfl)
  | _, _, _, _, _, .function hkeyword h => by
      unfold Phrase.marks
      exact .sign hkeyword h.spells rfl
  | _, _, _, _, _, .var h => h.spells
  | _, _, _, _, _, .statement h => h.spells

theorem Statement.spells : ∀ {isOpen i ts phrase j rest},
    Statement isOpen i ts phrase j rest → Spells phrase.marks ts rest
  | _, _, _, _, _, _, .expression h => h.spells
  | _, _, _, _, _, _, .print hkeyword h hsemicolon => by
      unfold Phrase.marks
      exact (Spells.sign hkeyword h.spells rfl).append (.sign hsemicolon .nil rfl)
  | _, _, _, _, _, _, .ret _ h hsemicolon => by
      unfold Phrase.marks
      exact (Spells.word h.spells).append (.sign hsemicolon .nil rfl)
  | _, _, _, _, _, _, .block hopening h hclosing => by
      unfold Phrase.marks
      exact (Spells.sign hopening h.spells rfl).append (.sign hclosing .nil rfl)
  | _, _, _, _, _, _, .ifOnly hkeyword hopening hcondition hclosing hyes => by
      unfold Phrase.marks
      exact (Spells.sign hkeyword (.sign hopening hcondition.spells rfl) rfl).append
        (.sign hclosing hyes.spells rfl)
  | _, _, _, _, _, _, .ifElse hkeyword hopening hcondition hclosing hyes hotherwise hno => by
      unfold Phrase.marks
      exact ((Spells.sign hkeyword (.sign hopening hcondition.spells rfl) rfl).append
        (.sign hclosing hyes.spells rfl)).append (.sign hotherwise hno.spells rfl)
  | _, _, _, _, _, _, .loop hkeyword hopening hcondition hclosing hbody => by
      unfold Phrase.marks
      exact (Spells.sign hkeyword (.sign hopening hcondition.spells rfl) rfl).append
        (.sign hclosing hbody.spells rfl)
  | _, _, _, _, _, _, .forLoop hkeyword hopening hinitial hcondition hsemicolon hincrement
      hclosing hbody hcompleted => by
      have hclauses := ((hcompleted.marks_eq ▸ hcondition.spells).append (.sign hsemicolon hincrement.spells rfl)).append
        (.sign hclosing hbody.spells rfl)
      cases hinitial with
      | absent hfirst =>
          unfold Phrase.marks
          exact .sign hkeyword (.sign hopening (.sign hfirst hclauses rfl) rfl) rfl
      | var hinitial =>
          unfold Phrase.marks
          have hheader := hinitial.spells.append hclauses
          simpa using Spells.sign hkeyword (.sign hopening hheader rfl) rfl
      | expression hinitial =>
          unfold Phrase.marks
          have hheader := hinitial.spells.append hclauses
          simpa using Spells.sign hkeyword (.sign hopening hheader rfl) rfl

theorem Declarations.spells : ∀ {i ts phrases j rest},
    Declarations i ts phrases j rest → Spells (marksOfAll phrases) ts rest
  | _, _, _, _, _, .nil => .nil
  | _, _, _, _, _, .cons h hmore => by
      unfold marksOfAll
      exact h.spells.append hmore.spells

theorem Function.spells : ∀ {i ts f j rest}, Function i ts f j rest → Spells f.marks ts rest
  | _, _, _, _, _, .mk _ hparams hopening hbody hclosing => by
      unfold FunPhrase.marks
      simpa using Spells.word (hparams.spells.append
        ((Spells.sign hopening hbody.spells rfl).append (.sign hclosing .nil rfl)))

theorem Methods.spells : ∀ {i ts methods j rest},
    Methods i ts methods j rest → Spells (marksOfMethods methods) ts rest
  | _, _, _, _, _, .nil => .nil
  | _, _, _, _, _, .cons h hmore => by
      unfold marksOfMethods
      exact h.spells.append hmore.spells

end

end Grammar

end Lox
