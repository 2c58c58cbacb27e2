import Lox.Proofs.Grammar.Acceptance
import Lox.Proofs.Scoping.Acceptance
import Lox.Proofs.Token.Division

/-!
# Trees as they are written

Every token of a tree that is read from a source is spelled as tokens of its kind are: names are words
that are no keywords, operators are the signs that they are, and strings have no quote in them.
-/

namespace Lox

/-- A token of one of the kinds, spelled as such tokens are. -/
structure Token.Written (kinds : List Token.Kind) (t : Token) : Prop where
  kind : t.kind ∈ kinds
  lexeme : Lexeme t.kind t.lexeme.toList t.literal

/-- All tokens of a text are spelled as they are scanned. -/
def AllWritten (ts : List Token) : Prop :=
  ∀ t ∈ ts, Lexeme t.kind t.lexeme.toList t.literal

theorem Divides.written {source : List Char} {tokens : List Token} {problems : List Diagnostic}
    (h : Divides source tokens problems) : AllWritten tokens := by
  induction h with
  | nil => exact nofun
  | blank _ _ ih => exact ih
  | comment _ _ _ ih => exact ih
  | token hlexeme htext _ _ ih =>
      intro t ht
      rcases List.mem_cons.mp ht with rfl | ht
      · rw [htext, String.toList_ofList]
        exact hlexeme.lexeme
      · exact ih t ht
  | stray _ _ _ _ ih => exact ih
  | unclosed _ _ => exact nofun

/-- The values that literals of a source have. -/
def Literal.Written : Literal → Prop
  | .nil => True
  | .bool _ => True
  | .number x => ∃ text, x = Decimal.readPositional text
  | .string s => '"' ∉ s.toList

namespace Grammar

/-- The kinds of operators before an operand. -/
def prefixes : List Token.Kind := [.bang, .minus]

/-- The kinds of operators between two values. -/
def infixes : List Token.Kind :=
  [.equalEqual, .bangEqual, .greater, .greaterEqual, .less, .lessEqual, .plus, .minus, .star, .slash]

/-- The kinds of operators that may leave the right operand alone. -/
def connectives : List Token.Kind := [.kwAnd, .kwOr]

end Grammar

open Grammar

mutual

/-- Every token is of a kind that belongs to its place and is spelled as it should be. -/
def Expr.Written : Expr → Prop
  | .literal _ value => value.Written
  | .grouping _ inner => inner.Written
  | .unary _ op right => op.Written prefixes ∧ right.Written
  | .binary _ left op right => left.Written ∧ op.Written infixes ∧ right.Written
  | .logical _ left op right => left.Written ∧ op.Written connectives ∧ right.Written
  | .read _ name => name.Written [.name]
  | .assign _ name value => name.Written [.name] ∧ value.Written
  | .call _ callee paren arguments =>
      callee.Written ∧ paren.Written [.rightParen] ∧ argumentsWritten arguments
  | .get _ object name => object.Written ∧ name.Written [.name]
  | .set _ object name value => object.Written ∧ name.Written [.name] ∧ value.Written
  | .self _ keyword => keyword.Written [.kwThis]
  | .super _ keyword method => keyword.Written [.kwSuper] ∧ method.Written [.name]
  | .missing => False
  | .misplaced _ => False

def argumentsWritten : List Expr → Prop
  | [] => True
  | argument :: arguments => argument.Written ∧ argumentsWritten arguments

end

mutual

def Stmt.Written : Stmt → Prop
  | .expression value => value.Written
  | .print value => value.Written
  | .var name none => name.Written [.name]
  | .var name (some value) => name.Written [.name] ∧ value.Written
  | .block body => bodyWritten body
  | .cond condition yes none => condition.Written ∧ yes.Written
  | .cond condition yes (some no) => condition.Written ∧ yes.Written ∧ no.Written
  | .loop condition body => condition.Written ∧ body.Written
  | .function decl => decl.Written
  | .ret keyword none => keyword.Written [.kwReturn]
  | .ret keyword (some value) => keyword.Written [.kwReturn] ∧ value.Written
  | .classDecl name none methods => name.Written [.name] ∧ methodsWritten methods
  | .classDecl name (some (_, superclass)) methods =>
      name.Written [.name] ∧ superclass.Written [.name] ∧ methodsWritten methods
  | .missing => False
  | .misplaced _ => False

def bodyWritten : List Stmt → Prop
  | [] => True
  | stmt :: body => stmt.Written ∧ bodyWritten body

def FunDecl.Written : FunDecl → Prop
  | .mk name params body =>
      name.Written [.name] ∧ (∀ param ∈ params, param.Written [.name]) ∧ bodyWritten body

def methodsWritten : List FunDecl → Prop
  | [] => True
  | method :: methods => method.Written ∧ methodsWritten methods

end

/-! ## Expressions -/

section

variable {ts rest : List Token} {t : Token}

theorem AllWritten.head (h : AllWritten (t :: ts)) {kinds : List Token.Kind} (hkind : t.kind ∈ kinds) :
    t.Written kinds :=
  ⟨hkind, h t List.mem_cons_self⟩

theorem AllWritten.tail (h : AllWritten (t :: ts)) : AllWritten ts :=
  fun u hu => h u (List.mem_cons_of_mem t hu)

theorem AllWritten.name (h : AllWritten (t :: ts)) {kind : Token.Kind} (hkind : t.kind = kind) :
    t.Written [kind] :=
  h.head (hkind ▸ List.mem_cons_self)

theorem Lexeme.written {kind : Token.Kind} {text : List Char} {value : Literal}
    (h : Lexeme kind text value) (hkind : kind = .number ∨ kind = .string) : value.Written := by
  cases h with
  | number _ => exact ⟨_, rfl⟩
  | keyword _ hmem =>
      have hall : ∀ entry ∈ Token.keywords, ¬ (entry.2 = .number ∨ entry.2 = .string) := by decide
      exact absurd hkind (hall _ hmem)
  | name _ _ => rcases hkind with hkind | hkind <;> cases hkind
  | string hinner => rwa [Literal.Written, String.toList_ofList]
  | sign hmem =>
      have hall : ∀ entry ∈ signs, ¬ (entry.2 = .number ∨ entry.2 = .string) := by decide
      exact absurd hkind (hall _ hmem)

theorem AllWritten.literal (h : AllWritten (t :: ts)) (hkind : t.kind = .number ∨ t.kind = .string) :
    t.literal.Written :=
  (h t List.mem_cons_self).written hkind

end

namespace Grammar

theorem connective_of_level {kind : Token.Kind} {level : Nat} (h : kind ∈ operators level)
    (hlevel : level ≤ 2) : kind ∈ connectives := by
  have hall : ∀ level ≤ 2, ∀ kind ∈ operators level, kind ∈ connectives := by decide
  exact hall level hlevel kind h

theorem infix_of_level {kind : Token.Kind} {level : Nat} (h : kind ∈ operators level)
    (hlevel : 3 ≤ level) : kind ∈ infixes := by
  have hbound : level < operandLevel := precedence_lt (mem_operators_iff.mp h)
  have hall : ∀ level < operandLevel, 3 ≤ level → ∀ kind ∈ operators level, kind ∈ infixes := by
    decide
  exact hall level hbound hlevel kind h

mutual

theorem Expression.written : ∀ {i ts e j rest}, Expression i ts e j rest → AllWritten ts →
    e.Written ∧ AllWritten rest
  | _, _, _, _, _, .value h, hts => h.written hts
  | _, _, _, _, _, .assign hname _ h, hts => by
      obtain ⟨hvalue, hrest⟩ := h.written hts.tail.tail
      exact ⟨⟨hts.name hname, hvalue⟩, hrest⟩
  | _, _, _, _, _, .set hobject _ hname _ hvalue, hts => by
      obtain ⟨hobject, hus⟩ := hobject.written hts
      obtain ⟨hvalue, hrest⟩ := hvalue.written hus.tail.tail.tail
      exact ⟨⟨hobject, hus.tail.name hname, hvalue⟩, hrest⟩

theorem Operation.written : ∀ {level i ts e j rest}, Operation level i ts e j rest → AllWritten ts →
    e.Written ∧ AllWritten rest
  | _, _, _, _, _, _, .operand h, hts => h.written hts
  | _, _, _, _, _, _, .tighter h, hts => h.written hts
  | _, _, _, _, _, _, .logical hleft hop hlevel hright, hts => by
      obtain ⟨hleft, hus⟩ := hleft.written hts
      obtain ⟨hright, hrest⟩ := hright.written hus.tail
      exact ⟨⟨hleft, hus.head (connective_of_level hop hlevel), hright⟩, hrest⟩
  | _, _, _, _, _, _, .binary hleft hop hlevel hright, hts => by
      obtain ⟨hleft, hus⟩ := hleft.written hts
      obtain ⟨hright, hrest⟩ := hright.written hus.tail
      exact ⟨⟨hleft, hus.head (infix_of_level hop hlevel), hright⟩, hrest⟩

theorem Unary.written : ∀ {i ts e j rest}, Unary i ts e j rest → AllWritten ts →
    e.Written ∧ AllWritten rest
  | _, _, _, _, _, .chain h, hts => h.written hts
  | _, _, _, _, _, .signed hop h, hts => by
      obtain ⟨hright, hrest⟩ := h.written hts.tail
      exact ⟨⟨hts.head (by rcases hop with hop | hop <;> rw [hop] <;> decide), hright⟩, hrest⟩

theorem Chain.written : ∀ {i ts e j rest}, Chain i ts e j rest → AllWritten ts →
    e.Written ∧ AllWritten rest
  | _, _, _, _, _, .primary h, hts => h.written hts
  | _, _, _, _, _, .bareCall h _ hparen, hts => by
      obtain ⟨hcallee, hus⟩ := h.written hts
      exact ⟨⟨hcallee, hus.tail.name hparen, trivial⟩, hus.tail.tail⟩
  | _, _, _, _, _, .call hcallee _ harguments _ hparen, hts => by
      obtain ⟨hcallee, hus⟩ := hcallee.written hts
      obtain ⟨harguments, hvs⟩ := harguments.written hus.tail
      exact ⟨⟨hcallee, hvs.name hparen, harguments⟩, hvs.tail⟩
  | _, _, _, _, _, .get h _ hname, hts => by
      obtain ⟨hobject, hus⟩ := h.written hts
      exact ⟨⟨hobject, hus.tail.name hname⟩, hus.tail.tail⟩

theorem Arguments.written : ∀ {i ts es j rest}, Arguments i ts es j rest → AllWritten ts →
    argumentsWritten es ∧ AllWritten rest
  | _, _, _, _, _, .one h, hts => by
      obtain ⟨hfirst, hrest⟩ := h.written hts
      exact ⟨⟨hfirst, trivial⟩, hrest⟩
  | _, _, _, _, _, .more hfirst _ hmore, hts => by
      obtain ⟨hfirst, hus⟩ := hfirst.written hts
      obtain ⟨hmore, hrest⟩ := hmore.written hus.tail
      exact ⟨⟨hfirst, hmore⟩, hrest⟩

theorem Primary.written : ∀ {i ts e j rest}, Primary i ts e j rest → AllWritten ts →
    e.Written ∧ AllWritten rest
  | _, _, _, _, _, .no _, hts => ⟨trivial, hts.tail⟩
  | _, _, _, _, _, .yes _, hts => ⟨trivial, hts.tail⟩
  | _, _, _, _, _, .nil _, hts => ⟨trivial, hts.tail⟩
  | _, _, _, _, _, .number hkind, hts => ⟨hts.literal (.inl hkind), hts.tail⟩
  | _, _, _, _, _, .string hkind, hts => ⟨hts.literal (.inr hkind), hts.tail⟩
  | _, _, _, _, _, .self hkind, hts => ⟨hts.name hkind, hts.tail⟩
  | _, _, _, _, _, .name hkind, hts => ⟨hts.name hkind, hts.tail⟩
  | _, _, _, _, _, .super hkind _ hname, hts =>
      ⟨⟨hts.name hkind, hts.tail.tail.name hname⟩, hts.tail.tail.tail⟩
  | _, _, _, _, _, .group _ h _, hts => by
      obtain ⟨hinner, hus⟩ := h.written hts.tail
      exact ⟨hinner, hus.tail⟩

end

end Grammar

/-! ## Statements -/

def optionalWritten : Option Expr → Prop
  | none => True
  | some e => e.Written

def initialWritten : Option Phrase → Prop
  | none => True
  | some phrase => phrase.desugar.Written

def superclassWritten : Option (Token × NodeId × Token) → Prop
  | none => True
  | some (_, _, name) => name.Written [.name]

theorem written_ret {keyword : Token} {value : Option Expr} (hkeyword : keyword.Written [.kwReturn])
    (hvalue : optionalWritten value) : (Stmt.ret keyword value).Written := by
  cases value with
  | none => exact hkeyword
  | some value => exact ⟨hkeyword, hvalue⟩

theorem written_classDecl {name : Token} {superclass : Option (Token × NodeId × Token)}
    {methods : List FunPhrase} (hname : name.Written [.name])
    (hsuperclass : superclassWritten superclass) (hmethods : methodsWritten (desugarMethods methods)) :
    (Phrase.classDecl name superclass methods).desugar.Written := by
  cases superclass with
  | none => exact ⟨hname, hmethods⟩
  | some superclass => exact ⟨hname, hsuperclass, hmethods⟩

theorem Grammar.Completed.written {i j : Ledger} {condition : Option Expr} {completed : ForCondition}
    (hcompleted : Completed condition i completed j) (h : optionalWritten condition) :
    completed.tree.Written := by
  cases hcompleted with
  | absent => trivial
  | given => exact h

theorem written_forBody {body : Stmt} {increment : Option Expr} (hbody : body.Written)
    (hincrement : optionalWritten increment) : (forBody body increment).Written := by
  cases increment with
  | none => exact hbody
  | some increment => exact ⟨hbody, hincrement, trivial⟩

theorem written_forLoop {initial : Option Phrase} {condition : ForCondition}
    {increment : Option Expr} {body : Phrase}
    (hinitial : initialWritten initial) (hcondition : condition.tree.Written)
    (hincrement : optionalWritten increment) (hbody : body.desugar.Written) :
    (Phrase.forLoop initial condition increment body).desugar.Written := by
  have hloop : (Stmt.loop condition.tree (forBody body.desugar increment)).Written :=
    ⟨hcondition, written_forBody hbody hincrement⟩
  cases initial with
  | none => exact hloop
  | some initial => exact ⟨hinitial, hloop, trivial⟩

namespace Grammar

section

variable {i j : Ledger} {ts us rest : List Token} {phrase : Phrase}

theorem Optionally.written {e : Option Expr} (h : Optionally i ts e j rest) (hts : AllWritten ts) :
    optionalWritten e ∧ AllWritten rest := by
  cases h with
  | absent => exact ⟨trivial, hts⟩
  | present h => exact h.written hts

theorem ExpressionStmt.written (h : ExpressionStmt i ts phrase j rest) (hts : AllWritten ts) :
    phrase.desugar.Written ∧ AllWritten rest := by
  cases h with
  | mk h _ =>
      obtain ⟨hvalue, hus⟩ := h.written hts
      exact ⟨hvalue, hus.tail⟩

theorem VarDecl.written (h : VarDecl i ts phrase j rest) (hts : AllWritten ts) :
    phrase.desugar.Written ∧ AllWritten rest := by
  cases h with
  | plain _ hname _ => exact ⟨hts.tail.name hname, hts.tail.tail.tail⟩
  | initialised _ hname _ h _ =>
      obtain ⟨hvalue, hus⟩ := h.written hts.tail.tail.tail
      exact ⟨⟨hts.tail.name hname, hvalue⟩, hus.tail⟩

theorem ForInitial.written {phrase : Option Phrase} (h : ForInitial i ts phrase j rest)
    (hts : AllWritten ts) : initialWritten phrase ∧ AllWritten rest := by
  cases h with
  | absent _ => exact ⟨trivial, hts.tail⟩
  | var h => exact h.written hts
  | expression h => exact h.written hts

theorem Parameters.written {names : List Token} (h : Parameters ts names rest) (hts : AllWritten ts) :
    (∀ name ∈ names, name.Written [.name]) ∧ AllWritten rest := by
  induction h with
  | one hname => exact ⟨by simpa using hts.name hname, hts.tail⟩
  | more hname _ _ ih =>
      obtain ⟨hmore, hrest⟩ := ih hts.tail.tail
      exact ⟨List.forall_mem_cons.mpr ⟨hts.name hname, hmore⟩, hrest⟩

theorem ParameterList.written {names : List Token} (h : ParameterList ts names rest)
    (hts : AllWritten ts) : (∀ name ∈ names, name.Written [.name]) ∧ AllWritten rest := by
  cases h with
  | empty _ _ => exact ⟨nofun, hts.tail.tail⟩
  | names _ h _ _ =>
      obtain ⟨hnames, hus⟩ := h.written hts.tail
      exact ⟨hnames, hus.tail⟩

theorem Superclass.written {superclass : Option (Token × NodeId × Token)}
    (h : Superclass i ts superclass j rest) (hts : AllWritten ts) :
    superclassWritten superclass ∧ AllWritten rest := by
  cases h with
  | none => exact ⟨trivial, hts⟩
  | some _ hname => exact ⟨hts.tail.name hname, hts.tail.tail⟩

end

mutual

theorem Declaration.written : ∀ {i ts phrase j rest}, Declaration i ts phrase j rest → AllWritten ts →
    phrase.desugar.Written ∧ AllWritten rest
  | _, _, _, _, _, .classDecl _ hname hsuperclass _ hmethods _, hts => by
      obtain ⟨hsuperclass, hus⟩ := hsuperclass.written hts.tail.tail
      obtain ⟨hmethods, hvs⟩ := hmethods.written hus.tail
      exact ⟨written_classDecl (hts.tail.name hname) hsuperclass hmethods, hvs.tail⟩
  | _, _, _, _, _, .function _ h, hts => h.written hts.tail
  | _, _, _, _, _, .var h, hts => h.written hts
  | _, _, _, _, _, .statement h, hts => h.written hts

theorem Statement.written : ∀ {isOpen i ts phrase j rest}, Statement isOpen i ts phrase j rest →
    AllWritten ts → phrase.desugar.Written ∧ AllWritten rest
  | _, _, _, _, _, _, .expression h, hts => h.written hts
  | _, _, _, _, _, _, .print _ h _, hts => by
      obtain ⟨hvalue, hus⟩ := h.written hts.tail
      exact ⟨hvalue, hus.tail⟩
  | _, _, _, _, _, _, .ret hkeyword h _, hts => by
      obtain ⟨hvalue, hus⟩ := h.written hts.tail
      exact ⟨written_ret (hts.name hkeyword) hvalue, hus.tail⟩
  | _, _, _, _, _, _, .block _ h _, hts => by
      obtain ⟨hbody, hus⟩ := h.written hts.tail
      exact ⟨hbody, hus.tail⟩
  | _, _, _, _, _, _, .ifOnly _ _ hcondition _ hyes, hts => by
      obtain ⟨hcondition, hus⟩ := hcondition.written hts.tail.tail
      obtain ⟨hyes, hrest⟩ := hyes.written hus.tail
      exact ⟨⟨hcondition, hyes⟩, hrest⟩
  | _, _, _, _, _, _, .ifElse _ _ hcondition _ hyes _ hno, hts => by
      obtain ⟨hcondition, hus⟩ := hcondition.written hts.tail.tail
      obtain ⟨hyes, hvs⟩ := hyes.written hus.tail
      obtain ⟨hno, hrest⟩ := hno.written hvs.tail
      exact ⟨⟨hcondition, hyes, hno⟩, hrest⟩
  | _, _, _, _, _, _, .loop _ _ hcondition _ hbody, hts => by
      obtain ⟨hcondition, hus⟩ := hcondition.written hts.tail.tail
      obtain ⟨hbody, hrest⟩ := hbody.written hus.tail
      exact ⟨⟨hcondition, hbody⟩, hrest⟩
  | _, _, _, _, _, _, .forLoop _ _ hinitial hcondition _ hincrement _ hbody hcompleted, hts => by
      obtain ⟨hinitial, hus⟩ := hinitial.written hts.tail.tail
      obtain ⟨hcondition, hvs⟩ := hcondition.written hus
      obtain ⟨hincrement, hws⟩ := hincrement.written hvs.tail
      obtain ⟨hbody, hrest⟩ := hbody.written hws.tail
      exact ⟨written_forLoop hinitial (hcompleted.written hcondition) hincrement hbody, hrest⟩

theorem Declarations.written : ∀ {i ts phrases j rest}, Declarations i ts phrases j rest →
    AllWritten ts → bodyWritten (desugarAll phrases) ∧ AllWritten rest
  | _, _, _, _, _, .nil, hts => ⟨trivial, hts⟩
  | _, _, _, _, _, .cons h hmore, hts => by
      obtain ⟨hfirst, hus⟩ := h.written hts
      obtain ⟨hmore, hrest⟩ := hmore.written hus
      exact ⟨⟨hfirst, hmore⟩, hrest⟩

theorem Function.written : ∀ {i ts f j rest}, Function i ts f j rest → AllWritten ts →
    f.desugar.Written ∧ AllWritten rest
  | _, _, _, _, _, .mk hname hparams _ hbody _, hts => by
      obtain ⟨hparams, hus⟩ := hparams.written hts.tail
      obtain ⟨hbody, hvs⟩ := hbody.written hus.tail
      exact ⟨⟨hts.name hname, hparams, hbody⟩, hvs.tail⟩

theorem Methods.written : ∀ {i ts methods j rest}, Methods i ts methods j rest → AllWritten ts →
    methodsWritten (desugarMethods methods) ∧ AllWritten rest
  | _, _, _, _, _, .nil, hts => ⟨trivial, hts⟩
  | _, _, _, _, _, .cons h hmore, hts => by
      obtain ⟨hfirst, hus⟩ := h.written hts
      obtain ⟨hmore, hrest⟩ := hmore.written hus
      exact ⟨⟨hfirst, hmore⟩, hrest⟩

end

end Grammar

/-- Whatever is read from a source without a problem is written as sources are. -/
theorem readProgram_written {source : String} {i : NodeId}
    (h : ((Scan.ofSource source).readProgram i).problems = []) :
    bodyWritten ((Scan.ofSource source).readProgram i).tree := by
  have hending := Scan.ending_ofSource source
  obtain ⟨phrases, j, hprogram⟩ := (Grammar.readProgram_problems_eq_nil_iff hending).mp h
  rw [Grammar.readProgram_eq_of_reads (hprogram.reads hending)]
  exact (hprogram.written (Scan.ofSource_divides source).1.written).1

end Lox
