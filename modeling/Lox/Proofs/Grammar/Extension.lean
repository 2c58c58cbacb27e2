import Lox.Proofs.Grammar.Derivation

/-!
# What comes after a phrase

Whether tokens start with a phrase does not depend on the tokens after the phrase.  So programs can be
put together: the tokens of one behind those of another make up a program with the phrases of both.
-/

namespace Lox.Grammar

variable (more : List Token)

mutual

theorem Expression.extend : ∀ {i ts e j rest}, Expression i ts e j rest →
    Expression i (ts ++ more) e j (rest ++ more)
  | _, _, _, _, _, .value h => .value h.extend
  | _, _, _, _, _, .assign hname hequals h => .assign hname hequals h.extend
  | _, _, _, _, _, .set hobject hdot hname hequals hvalue =>
      .set hobject.extend hdot hname hequals hvalue.extend

theorem Operation.extend : ∀ {level i ts e j rest}, Operation level i ts e j rest →
    Operation level i (ts ++ more) e j (rest ++ more)
  | _, _, _, _, _, _, .operand h => .operand h.extend
  | _, _, _, _, _, _, .tighter h => .tighter h.extend
  | _, _, _, _, _, _, .logical hleft hop hlevel hright =>
      .logical hleft.extend hop hlevel hright.extend
  | _, _, _, _, _, _, .binary hleft hop hlevel hright =>
      .binary hleft.extend hop hlevel hright.extend

theorem Unary.extend : ∀ {i ts e j rest}, Unary i ts e j rest →
    Unary i (ts ++ more) e j (rest ++ more)
  | _, _, _, _, _, .chain h => .chain h.extend
  | _, _, _, _, _, .signed hop h => .signed hop h.extend

theorem Chain.extend : ∀ {i ts e j rest}, Chain i ts e j rest →
    Chain i (ts ++ more) e j (rest ++ more)
  | _, _, _, _, _, .primary h => .primary h.extend
  | _, _, _, _, _, .bareCall h hopening hparen => .bareCall h.extend hopening hparen
  | _, _, _, _, _, .call hcallee hopening harguments hcount hparen =>
      .call hcallee.extend hopening harguments.extend hcount hparen
  | _, _, _, _, _, .get h hdot hname => .get h.extend hdot hname

theorem Arguments.extend : ∀ {i ts es j rest}, Arguments i ts es j rest →
    Arguments i (ts ++ more) es j (rest ++ more)
  | _, _, _, _, _, .one h => .one h.extend
  | _, _, _, _, _, .more hfirst hcomma hothers => .more hfirst.extend hcomma hothers.extend

theorem Primary.extend : ∀ {i ts e j rest}, Primary i ts e j rest →
    Primary i (ts ++ more) e j (rest ++ more)
  | _, _, _, _, _, .no h => .no h
  | _, _, _, _, _, .yes h => .yes h
  | _, _, _, _, _, .nil h => .nil h
  | _, _, _, _, _, .number h => .number h
  | _, _, _, _, _, .string h => .string h
  | _, _, _, _, _, .self h => .self h
  | _, _, _, _, _, .name h => .name h
  | _, _, _, _, _, .super h hdot hmethod => .super h hdot hmethod
  | _, _, _, _, _, .group hopening h hclosing => .group hopening h.extend hclosing

end

section

variable {i j : Ledger} {ts rest : List Token}

theorem Optionally.extend {e : Option Expr} (h : Optionally i ts e j rest) :
    Optionally i (ts ++ more) e j (rest ++ more) := by
  cases h with
  | absent => exact .absent
  | present h => exact .present (h.extend more)

theorem ExpressionStmt.extend {phrase : Phrase} (h : ExpressionStmt i ts phrase j rest) :
    ExpressionStmt i (ts ++ more) phrase j (rest ++ more) := by
  cases h with
  | mk h hsemicolon => exact .mk (h.extend more) hsemicolon

theorem VarDecl.extend {phrase : Phrase} (h : VarDecl i ts phrase j rest) :
    VarDecl i (ts ++ more) phrase j (rest ++ more) := by
  cases h with
  | plain hkeyword hname hsemicolon => exact .plain hkeyword hname hsemicolon
  | initialised hkeyword hname hequals h hsemicolon =>
      exact .initialised hkeyword hname hequals (h.extend more) hsemicolon

theorem ForInitial.extend {phrase : Option Phrase} (h : ForInitial i ts phrase j rest) :
    ForInitial i (ts ++ more) phrase j (rest ++ more) := by
  cases h with
  | absent hsemicolon => exact .absent hsemicolon
  | var h => exact .var (h.extend more)
  | expression h => exact .expression (h.extend more)

theorem Parameters.extend {names : List Token} (h : Parameters ts names rest) :
    Parameters (ts ++ more) names (rest ++ more) := by
  induction h with
  | one hname => exact .one hname
  | more hname hcomma _ ih => exact .more hname hcomma ih

theorem ParameterList.extend {names : List Token} (h : ParameterList ts names rest) :
    ParameterList (ts ++ more) names (rest ++ more) := by
  cases h with
  | empty hopening hclosing => exact .empty hopening hclosing
  | names hopening h hcount hclosing => exact .names hopening (h.extend more) hcount hclosing

theorem Superclass.extend {superclass : Option (Token × NodeId × Token)}
    (h : Superclass i ts superclass j rest) :
    Superclass i (ts ++ more) superclass j (rest ++ more) := by
  cases h with
  | none => exact .none
  | some hsign hname => exact .some hsign hname

end

mutual

theorem Declaration.extend : ∀ {i ts phrase j rest}, Declaration i ts phrase j rest →
    Declaration i (ts ++ more) phrase j (rest ++ more)
  | _, _, _, _, _, .classDecl hkeyword hname hsuperclass hopening hmethods hclosing =>
      .classDecl hkeyword hname (hsuperclass.extend more) hopening hmethods.extend hclosing
  | _, _, _, _, _, .function hkeyword h => .function hkeyword h.extend
  | _, _, _, _, _, .var h => .var (h.extend more)
  | _, _, _, _, _, .statement h => .statement h.extend

theorem Statement.extend : ∀ {isOpen i ts phrase j rest}, Statement isOpen i ts phrase j rest →
    Statement isOpen i (ts ++ more) phrase j (rest ++ more)
  | _, _, _, _, _, _, .expression h => .expression (h.extend more)
  | _, _, _, _, _, _, .print hkeyword h hsemicolon => .print hkeyword (h.extend more) hsemicolon
  | _, _, _, _, _, _, .ret hkeyword h hsemicolon => .ret hkeyword (h.extend more) hsemicolon
  | _, _, _, _, _, _, .block hopening h hclosing => .block hopening h.extend hclosing
  | _, _, _, _, _, _, .ifOnly hkeyword hopening hcondition hclosing hyes =>
      .ifOnly hkeyword hopening (hcondition.extend more) hclosing hyes.extend
  | _, _, _, _, _, _, .ifElse hkeyword hopening hcondition hclosing hyes hotherwise hno =>
      .ifElse hkeyword hopening (hcondition.extend more) hclosing hyes.extend hotherwise hno.extend
  | _, _, _, _, _, _, .loop hkeyword hopening hcondition hclosing hbody =>
      .loop hkeyword hopening (hcondition.extend more) hclosing hbody.extend
  | _, _, _, _, _, _, .forLoop hkeyword hopening hinitial hcondition hsemicolon hincrement hclosing
      hbody hcompleted =>
      .forLoop hkeyword hopening (hinitial.extend more) (hcondition.extend more) hsemicolon
        (hincrement.extend more) hclosing hbody.extend hcompleted

theorem Declarations.extend : ∀ {i ts phrases j rest}, Declarations i ts phrases j rest →
    Declarations i (ts ++ more) phrases j (rest ++ more)
  | _, _, _, _, _, .nil => .nil
  | _, _, _, _, _, .cons h hmore => .cons h.extend hmore.extend

theorem Function.extend : ∀ {i ts f j rest}, Function i ts f j rest →
    Function i (ts ++ more) f j (rest ++ more)
  | _, _, _, _, _, .mk hname hparams hopening hbody hclosing =>
      .mk hname (hparams.extend more) hopening hbody.extend hclosing

theorem Methods.extend : ∀ {i ts methods j rest}, Methods i ts methods j rest →
    Methods i (ts ++ more) methods j (rest ++ more)
  | _, _, _, _, _, .nil => .nil
  | _, _, _, _, _, .cons h hmore => .cons h.extend hmore.extend

end

theorem Declarations.append : ∀ {i ts phrases j rest phrases' k rest'},
    Declarations i ts phrases j rest → Declarations j rest phrases' k rest' →
      Declarations i ts (phrases ++ phrases') k rest'
  | _, _, _, _, _, _, _, _, .nil, h' => h'
  | _, _, _, _, _, _, _, _, .cons h hmore, h' => .cons h (hmore.append h')

theorem Program.append {i j k : Ledger} {ts us : List Token} {phrases phrases' : List Phrase}
    (h : Program i ts phrases j) (h' : Program j us phrases' k) :
    Program i (ts ++ us) (phrases ++ phrases') k :=
  (Declarations.extend us h).append h'

end Lox.Grammar
