import Lox.Proofs.Grammar.Phrase

/-!
# The grammar

Every relation of this file has the form `R i ts tree j rest`: the tokens `ts` start with a phrase of
the sort `R` that has the given tree, and go on with `rest`.  The nodes of the phrase are entered in the
ledger `i`, which becomes `j`, each behind those that it is made of.  What turns out to be the target of
an assignment has been entered, too.

An `else` belongs to the nearest `if` that can take it.  The grammar says so by telling open
statements, which end in an `if` without an `else`, from closed ones: what stands between an `if` and
its `else` is closed.
-/

namespace Lox.Grammar

/-- The operators between two operands, from those that bind least tightly to those that bind most
tightly.  All of them group to the left. -/
def operators : Nat → List Token.Kind
  | 1 => [.kwOr]
  | 2 => [.kwAnd]
  | 3 => [.equalEqual, .bangEqual]
  | 4 => [.greater, .greaterEqual, .less, .lessEqual]
  | 5 => [.plus, .minus]
  | 6 => [.star, .slash]
  | _ => []

/-- The level of operands that have no operator between them. -/
def operandLevel : Nat := 7

theorem mem_operators_iff {kind : Token.Kind} {level : Nat} :
    kind ∈ operators level ↔ kind.precedence? = some level := by
  rcases level with _ | _ | _ | _ | _ | _ | _ | level <;> cases kind <;>
    simp [operators, Token.Kind.precedence?]

theorem precedence_lt {kind : Token.Kind} {precedence : Nat}
    (h : kind.precedence? = some precedence) : precedence < operandLevel := by
  cases kind <;> cases h <;> decide

/-! ## Expressions -/

mutual

inductive Expression : Ledger → List Token → Expr → Ledger → List Token → Prop where
  | value : Operation 1 i ts e j rest → Expression i ts e j rest
  | assign : name.kind = .name → equals.kind = .equal →
      Expression (i.build (.read · name)) ts value j rest →
      Expression i (name :: equals :: ts) (.assign j.nextId name value)
        (j.build (.assign · name value)) rest
  | set : Chain i ts object j (dot :: name :: equals :: us) → dot.kind = .dot →
      name.kind = .name → equals.kind = .equal →
      Expression (j.build (.get · object name)) us value k rest →
      Expression i ts (.set k.nextId object name value) (k.build (.set · object name value)) rest

/-- Operands joined by operators of a level or of the levels above it. -/
inductive Operation : Nat → Ledger → List Token → Expr → Ledger → List Token → Prop where
  | operand : Unary i ts e j rest → Operation operandLevel i ts e j rest
  | tighter : Operation (level + 1) i ts e j rest → Operation level i ts e j rest
  | logical : Operation level i ts left j (op :: us) → op.kind ∈ operators level → level ≤ 2 →
      Operation (level + 1) j us right k rest →
      Operation level i ts (.logical k.nextId left op right) (k.build (.logical · left op right)) rest
  | binary : Operation level i ts left j (op :: us) → op.kind ∈ operators level → 3 ≤ level →
      Operation (level + 1) j us right k rest →
      Operation level i ts (.binary k.nextId left op right) (k.build (.binary · left op right)) rest

inductive Unary : Ledger → List Token → Expr → Ledger → List Token → Prop where
  | chain : Chain i ts e j rest → Unary i ts e j rest
  | signed : op.kind = .bang ∨ op.kind = .minus → Unary i ts right j rest →
      Unary i (op :: ts) (.unary j.nextId op right) (j.build (.unary · op right)) rest

/-- A primary expression with calls and property names behind it. -/
inductive Chain : Ledger → List Token → Expr → Ledger → List Token → Prop where
  | primary : Primary i ts e j rest → Chain i ts e j rest
  | bareCall : Chain i ts callee j (opening :: paren :: rest) → opening.kind = .leftParen →
      paren.kind = .rightParen →
      Chain i ts (.call j.nextId callee paren []) (j.build (.call · callee paren [])) rest
  | call : Chain i ts callee j (opening :: us) → opening.kind = .leftParen →
      Arguments j us arguments k (paren :: rest) → arguments.length ≤ maxArguments →
      paren.kind = .rightParen →
      Chain i ts (.call k.nextId callee paren arguments) (k.build (.call · callee paren arguments)) rest
  | get : Chain i ts object j (dot :: name :: rest) → dot.kind = .dot → name.kind = .name →
      Chain i ts (.get j.nextId object name) (j.build (.get · object name)) rest

/-- At least one argument, with commas between the arguments. -/
inductive Arguments : Ledger → List Token → List Expr → Ledger → List Token → Prop where
  | one : Expression i ts e j rest → Arguments i ts [e] j rest
  | more : Expression i ts e j (comma :: us) → comma.kind = .comma →
      Arguments j us es k rest → Arguments i ts (e :: es) k rest

inductive Primary : Ledger → List Token → Expr → Ledger → List Token → Prop where
  | no : t.kind = .kwFalse →
      Primary i (t :: rest) (.literal i.nextId (.bool false)) (i.build (.literal · (.bool false))) rest
  | yes : t.kind = .kwTrue →
      Primary i (t :: rest) (.literal i.nextId (.bool true)) (i.build (.literal · (.bool true))) rest
  | nil : t.kind = .kwNil →
      Primary i (t :: rest) (.literal i.nextId .nil) (i.build (.literal · .nil)) rest
  | number : t.kind = .number →
      Primary i (t :: rest) (.literal i.nextId t.literal) (i.build (.literal · t.literal)) rest
  | string : t.kind = .string →
      Primary i (t :: rest) (.literal i.nextId t.literal) (i.build (.literal · t.literal)) rest
  | self : t.kind = .kwThis → Primary i (t :: rest) (.self i.nextId t) (i.build (.self · t)) rest
  | name : t.kind = .name → Primary i (t :: rest) (.read i.nextId t) (i.build (.read · t)) rest
  | super : t.kind = .kwSuper → dot.kind = .dot → method.kind = .name →
      Primary i (t :: dot :: method :: rest) (.super i.nextId t method)
        (i.build (.super · t method)) rest
  | group : opening.kind = .leftParen → Expression i ts e j (closing :: rest) →
      closing.kind = .rightParen →
      Primary i (opening :: ts) (.grouping j.nextId e) (j.build (.grouping · e)) rest

end

/-! ## Every expression takes tokens -/

mutual

theorem Expression.length_lt : ∀ {i ts e j rest},
    Expression i ts e j rest → rest.length < ts.length
  | _, _, _, _, _, .value h => h.length_lt
  | _, _, _, _, _, .assign _ _ h => by
      have := h.length_lt
      simp only [List.length_cons]
      omega
  | _, _, _, _, _, .set hobject _ _ _ hvalue => by
      have := hobject.length_lt
      have := hvalue.length_lt
      simp only [List.length_cons] at *
      omega

theorem Operation.length_lt : ∀ {level i ts e j rest},
    Operation level i ts e j rest → rest.length < ts.length
  | _, _, _, _, _, _, .operand h => h.length_lt
  | _, _, _, _, _, _, .tighter h => h.length_lt
  | _, _, _, _, _, _, .logical hleft _ _ hright => by
      have := hleft.length_lt
      have := hright.length_lt
      simp only [List.length_cons] at *
      omega
  | _, _, _, _, _, _, .binary hleft _ _ hright => by
      have := hleft.length_lt
      have := hright.length_lt
      simp only [List.length_cons] at *
      omega

theorem Unary.length_lt : ∀ {i ts e j rest}, Unary i ts e j rest → rest.length < ts.length
  | _, _, _, _, _, .chain h => h.length_lt
  | _, _, _, _, _, .signed _ h => Nat.lt_succ_of_lt h.length_lt

theorem Chain.length_lt : ∀ {i ts e j rest}, Chain i ts e j rest → rest.length < ts.length
  | _, _, _, _, _, .primary h => h.length_lt
  | _, _, _, _, _, .bareCall h _ _ => by
      have := h.length_lt
      simp only [List.length_cons] at *
      omega
  | _, _, _, _, _, .call hcallee _ harguments _ _ => by
      have := hcallee.length_lt
      have := harguments.length_lt
      simp only [List.length_cons] at *
      omega
  | _, _, _, _, _, .get h _ _ => by
      have := h.length_lt
      simp only [List.length_cons] at *
      omega

theorem Arguments.length_lt : ∀ {i ts es j rest},
    Arguments i ts es j rest → rest.length < ts.length
  | _, _, _, _, _, .one h => h.length_lt
  | _, _, _, _, _, .more hfirst _ hmore => by
      have := hfirst.length_lt
      have := hmore.length_lt
      simp only [List.length_cons] at *
      omega

theorem Primary.length_lt : ∀ {i ts e j rest}, Primary i ts e j rest → rest.length < ts.length
  | _, _, _, _, _, .no _ => by simp
  | _, _, _, _, _, .yes _ => by simp
  | _, _, _, _, _, .nil _ => by simp
  | _, _, _, _, _, .number _ => by simp
  | _, _, _, _, _, .string _ => by simp
  | _, _, _, _, _, .self _ => by simp
  | _, _, _, _, _, .name _ => by simp
  | _, _, _, _, _, .super _ _ _ => by simp only [List.length_cons]; omega
  | _, _, _, _, _, .group _ h _ => by
      have := h.length_lt
      simp only [List.length_cons] at *
      omega

end

/-! ## Levels of operators -/

theorem Operation.lower {level level' : Nat} {i j : Ledger} {ts rest : List Token}
    {e : Expr} (hle : level ≤ level')
    (h : Operation level' i ts e j rest) : Operation level i ts e j rest := by
  obtain ⟨difference, rfl⟩ := Nat.exists_eq_add_of_le hle
  clear hle
  induction difference with
  | zero => exact h
  | succ difference ih => exact ih (.tighter h)

theorem join_logical {left right : Expr} {op : Token} {level : Nat}
    (hop : op.kind ∈ operators level) (hlevel : level ≤ 2) :
    left.join op right = (.logical · left op right) := by
  rw [mem_operators_iff] at hop
  funext id
  unfold Expr.join
  revert hop
  cases op.kind <;> simp [Token.Kind.precedence?] <;> omega

theorem join_binary {left right : Expr} {op : Token} {level : Nat}
    (hop : op.kind ∈ operators level) (hlevel : 3 ≤ level) :
    left.join op right = (.binary · left op right) := by
  rw [mem_operators_iff] at hop
  funext id
  unfold Expr.join
  revert hop
  cases op.kind <;> simp [Token.Kind.precedence?] <;> omega

theorem Operation.join {level : Nat} {i j k : Ledger} {ts us rest : List Token}
    {left right : Expr} {op : Token}
    (hleft : Operation level i ts left j (op :: us)) (hop : op.kind ∈ operators level)
    (hright : Operation (level + 1) j us right k rest) :
    Operation level i ts (left.join op right k.nextId) (k.build (left.join op right)) rest := by
  by_cases hlevel : level ≤ 2
  · rw [join_logical hop hlevel]
    exact .logical hleft hop hlevel hright
  · rw [join_binary hop (by omega)]
    exact .binary hleft hop (by omega) hright

/-- The expressions that something can be assigned to. -/
def isTarget : Expr → Bool
  | .read _ _ => true
  | .get _ _ _ => true
  | _ => false

theorem Operation.chain : ∀ {level i ts e j rest},
    Operation level i ts e j rest → isTarget e = true → Chain i ts e j rest
  | _, _, _, _, _, _, .operand h, htarget => by
      cases h with
      | chain h => exact h
      | signed _ _ => cases htarget
  | _, _, _, _, _, _, .tighter h, htarget => h.chain htarget
  | _, _, _, _, _, _, .logical _ _ _ _, htarget => by cases htarget
  | _, _, _, _, _, _, .binary _ _ _ _, htarget => by cases htarget

/-! ## Statements and declarations -/

inductive Optionally : Ledger → List Token → Option Expr → Ledger → List Token → Prop where
  | absent : Optionally i ts none i ts
  | present : Expression i ts e j rest → Optionally i ts (some e) j rest

inductive ExpressionStmt : Ledger → List Token → Phrase → Ledger → List Token → Prop where
  | mk : Expression i ts e j (semicolon :: rest) → semicolon.kind = .semicolon →
      ExpressionStmt i ts (.expression e) j rest

inductive VarDecl : Ledger → List Token → Phrase → Ledger → List Token → Prop where
  | plain : keyword.kind = .kwVar → name.kind = .name → semicolon.kind = .semicolon →
      VarDecl i (keyword :: name :: semicolon :: rest) (.var name none) i rest
  | initialised : keyword.kind = .kwVar → name.kind = .name → equals.kind = .equal →
      Expression i ts e j (semicolon :: rest) → semicolon.kind = .semicolon →
      VarDecl i (keyword :: name :: equals :: ts) (.var name (some e)) j rest

/-- What stands first between the parentheses of a `for` loop. -/
inductive ForInitial : Ledger → List Token → Option Phrase → Ledger → List Token → Prop where
  | absent : semicolon.kind = .semicolon → ForInitial i (semicolon :: rest) none i rest
  | var : VarDecl i ts phrase j rest → ForInitial i ts (some phrase) j rest
  | expression : ExpressionStmt i ts phrase j rest → ForInitial i ts (some phrase) j rest

inductive Parameters : List Token → List Token → List Token → Prop where
  | one : name.kind = .name → Parameters (name :: rest) [name] rest
  | more : name.kind = .name → comma.kind = .comma → Parameters ts names rest →
      Parameters (name :: comma :: ts) (name :: names) rest

inductive ParameterList : List Token → List Token → List Token → Prop where
  | empty : opening.kind = .leftParen → closing.kind = .rightParen →
      ParameterList (opening :: closing :: rest) [] rest
  | names : opening.kind = .leftParen → Parameters ts names (closing :: rest) →
      names.length ≤ maxArguments → closing.kind = .rightParen →
      ParameterList (opening :: ts) names rest

/-- The condition of a `for` loop, entered behind the body if it is left out. -/
inductive Completed : Option Expr → Ledger → ForCondition → Ledger → Prop where
  | absent : Completed none i (.absent i.nextId) (i.build (.literal · (.bool true)))
  | given : Completed (some e) i (.given e) i

/-- The superclass of a class, behind the sign that announces it. -/
inductive Superclass :
    Ledger → List Token → Option (Token × NodeId × Token) → Ledger → List Token → Prop where
  | none : Superclass i ts none i ts
  | some : sign.kind = .less → name.kind = .name →
      Superclass i (sign :: name :: rest) (some (sign, i.nextId, name)) (i.build (.read · name)) rest

mutual

inductive Declaration : Ledger → List Token → Phrase → Ledger → List Token → Prop where
  | classDecl : keyword.kind = .kwClass → name.kind = .name →
      Superclass i ts superclass j (opening :: us) → opening.kind = .leftBrace →
      Methods j us methods k (closing :: rest) → closing.kind = .rightBrace →
      Declaration i (keyword :: name :: ts) (.classDecl name superclass methods) k rest
  | function : keyword.kind = .kwFun → Function i ts f j rest →
      Declaration i (keyword :: ts) (.function f) j rest
  | var : VarDecl i ts phrase j rest → Declaration i ts phrase j rest
  | statement : Statement isOpen i ts phrase j rest → Declaration i ts phrase j rest

inductive Statement : Bool → Ledger → List Token → Phrase → Ledger → List Token → Prop where
  | expression : ExpressionStmt i ts phrase j rest → Statement false i ts phrase j rest
  | print : keyword.kind = .kwPrint → Expression i ts e j (semicolon :: rest) →
      semicolon.kind = .semicolon → Statement false i (keyword :: ts) (.print e) j rest
  | ret : keyword.kind = .kwReturn → Optionally i ts value j (semicolon :: rest) →
      semicolon.kind = .semicolon → Statement false i (keyword :: ts) (.ret keyword value) j rest
  | block : opening.kind = .leftBrace → Declarations i ts body j (closing :: rest) →
      closing.kind = .rightBrace → Statement false i (opening :: ts) (.block body) j rest
  | ifOnly : keyword.kind = .kwIf → opening.kind = .leftParen →
      Expression i ts condition j (closing :: us) → closing.kind = .rightParen →
      Statement isOpen j us yes k rest →
      Statement true i (keyword :: opening :: ts) (.cond condition yes none) k rest
  | ifElse : keyword.kind = .kwIf → opening.kind = .leftParen →
      Expression i ts condition j (closing :: us) → closing.kind = .rightParen →
      Statement false j us yes k (otherwise :: vs) → otherwise.kind = .kwElse →
      Statement isOpen k vs no l rest →
      Statement isOpen i (keyword :: opening :: ts) (.cond condition yes (some no)) l rest
  | loop : keyword.kind = .kwWhile → opening.kind = .leftParen →
      Expression i ts condition j (closing :: us) → closing.kind = .rightParen →
      Statement isOpen j us body k rest →
      Statement isOpen i (keyword :: opening :: ts) (.loop condition body) k rest
  | forLoop : keyword.kind = .kwFor → opening.kind = .leftParen →
      ForInitial i ts initial j us → Optionally j us condition k (semicolon :: vs) →
      semicolon.kind = .semicolon → Optionally k vs increment l (closing :: ws) →
      closing.kind = .rightParen → Statement isOpen l ws body m rest →
      Completed condition m completed n →
      Statement isOpen i (keyword :: opening :: ts)
        (.forLoop initial completed increment body) n rest

inductive Declarations : Ledger → List Token → List Phrase → Ledger → List Token → Prop where
  | nil : Declarations i ts [] i ts
  | cons : Declaration i ts phrase j us → Declarations j us phrases k rest →
      Declarations i ts (phrase :: phrases) k rest

/-- A function or method from its name on. -/
inductive Function : Ledger → List Token → FunPhrase → Ledger → List Token → Prop where
  | mk : name.kind = .name → ParameterList ts params (opening :: us) →
      opening.kind = .leftBrace → Declarations i us body j (closing :: rest) →
      closing.kind = .rightBrace → Function i (name :: ts) (.mk name params body) j rest

inductive Methods : Ledger → List Token → List FunPhrase → Ledger → List Token → Prop where
  | nil : Methods i ts [] i ts
  | cons : Function i ts method j us → Methods j us methods k rest →
      Methods i ts (method :: methods) k rest

end

/-- A whole program: declarations up to the end. -/
def Program (i : Ledger) (ts : List Token) (phrases : List Phrase) (j : Ledger) : Prop :=
  Declarations i ts phrases j []

/-! ## Every declaration takes tokens -/

theorem Optionally.length_le {i j : Ledger} {ts rest : List Token} {e : Option Expr}
    (h : Optionally i ts e j rest) : rest.length ≤ ts.length := by
  cases h with
  | absent => exact Nat.le_refl _
  | present h => exact Nat.le_of_lt h.length_lt

theorem ExpressionStmt.length_lt {i j : Ledger} {ts rest : List Token} {phrase : Phrase}
    (h : ExpressionStmt i ts phrase j rest) : rest.length < ts.length := by
  cases h with
  | mk h _ => exact Nat.lt_of_succ_lt h.length_lt

theorem VarDecl.length_lt {i j : Ledger} {ts rest : List Token} {phrase : Phrase}
    (h : VarDecl i ts phrase j rest) : rest.length < ts.length := by
  cases h with
  | plain _ _ _ =>
      simp only [List.length_cons]
      omega
  | initialised _ _ _ h _ =>
      have := h.length_lt
      simp only [List.length_cons] at *
      omega

theorem ForInitial.length_lt {i j : Ledger} {ts rest : List Token} {phrase : Option Phrase}
    (h : ForInitial i ts phrase j rest) : rest.length < ts.length := by
  cases h with
  | absent _ => exact Nat.lt_succ_self _
  | var h => exact h.length_lt
  | expression h => exact h.length_lt

theorem Parameters.length_lt {ts rest names : List Token} (h : Parameters ts names rest) :
    rest.length < ts.length := by
  induction h with
  | one _ => exact Nat.lt_succ_self _
  | more _ _ _ ih =>
      simp only [List.length_cons]
      omega

theorem ParameterList.length_lt {ts rest names : List Token} (h : ParameterList ts names rest) :
    rest.length < ts.length := by
  cases h with
  | empty _ _ =>
      simp only [List.length_cons]
      omega
  | names _ h _ _ =>
      have := h.length_lt
      simp only [List.length_cons] at *
      omega

theorem Superclass.length_le {i j : Ledger} {ts rest : List Token}
    {superclass : Option (Token × NodeId × Token)} (h : Superclass i ts superclass j rest) :
    rest.length ≤ ts.length := by
  cases h with
  | none => exact Nat.le_refl _
  | some _ _ =>
      simp only [List.length_cons]
      omega

mutual

theorem Declaration.length_lt : ∀ {i ts phrase j rest},
    Declaration i ts phrase j rest → rest.length < ts.length
  | _, _, _, _, _, .classDecl _ _ hsuperclass _ hmethods _ => by
      have := hsuperclass.length_le
      have := hmethods.length_le
      simp only [List.length_cons] at *
      omega
  | _, _, _, _, _, .function _ h => Nat.lt_succ_of_lt h.length_lt
  | _, _, _, _, _, .var h => h.length_lt
  | _, _, _, _, _, .statement h => h.length_lt

theorem Statement.length_lt : ∀ {isOpen i ts phrase j rest},
    Statement isOpen i ts phrase j rest → rest.length < ts.length
  | _, _, _, _, _, _, .expression h => h.length_lt
  | _, _, _, _, _, _, .print _ h _ => by
      have := h.length_lt
      simp only [List.length_cons] at *
      omega
  | _, _, _, _, _, _, .ret _ h _ => by
      have := h.length_le
      simp only [List.length_cons] at *
      omega
  | _, _, _, _, _, _, .block _ h _ => by
      have := h.length_le
      simp only [List.length_cons] at *
      omega
  | _, _, _, _, _, _, .ifOnly _ _ hcondition _ hyes => by
      have := hcondition.length_lt
      have := hyes.length_lt
      simp only [List.length_cons] at *
      omega
  | _, _, _, _, _, _, .ifElse _ _ hcondition _ hyes _ hno => by
      have := hcondition.length_lt
      have := hyes.length_lt
      have := hno.length_lt
      simp only [List.length_cons] at *
      omega
  | _, _, _, _, _, _, .loop _ _ hcondition _ hbody => by
      have := hcondition.length_lt
      have := hbody.length_lt
      simp only [List.length_cons] at *
      omega
  | _, _, _, _, _, _, .forLoop _ _ hinitial hcondition _ hincrement _ hbody _ => by
      have := hinitial.length_lt
      have := hcondition.length_le
      have := hincrement.length_le
      have := hbody.length_lt
      simp only [List.length_cons] at *
      omega

theorem Declarations.length_le : ∀ {i ts phrases j rest},
    Declarations i ts phrases j rest → rest.length ≤ ts.length
  | _, _, _, _, _, .nil => Nat.le_refl _
  | _, _, _, _, _, .cons h hmore => Nat.le_trans hmore.length_le (Nat.le_of_lt h.length_lt)

theorem Function.length_lt : ∀ {i ts f j rest}, Function i ts f j rest → rest.length < ts.length
  | _, _, _, _, _, .mk _ hparams _ hbody _ => by
      have := hparams.length_lt
      have := hbody.length_le
      simp only [List.length_cons] at *
      omega

theorem Methods.length_le : ∀ {i ts methods j rest},
    Methods i ts methods j rest → rest.length ≤ ts.length
  | _, _, _, _, _, .nil => Nat.le_refl _
  | _, _, _, _, _, .cons h hmore => Nat.le_trans hmore.length_le (Nat.le_of_lt h.length_lt)

end

end Lox.Grammar
