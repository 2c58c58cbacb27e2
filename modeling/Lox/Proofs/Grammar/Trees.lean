import Lox.Proofs.Grammar.Reading
import Lox.Proofs.Scoping.Walk

/-!
# The trees that are read

If tokens were scanned, whatever is read of them has the form that resolution relies on, also if there
are problems: what breaks off leaves nothing behind.
-/

namespace Lox

/-- A token whose kind and text belong together as scanning puts them together. -/
structure Token.Genuine (t : Token) : Prop where
  name : t.kind = .name → t.Plain
  this : t.kind = .kwThis → t.lexeme = "this"
  super : t.kind = .kwSuper → t.lexeme = "super"

def AllGenuine (ts : List Token) : Prop :=
  ∀ t ∈ ts, t.Genuine

theorem AllGenuine.tail {ts : List Token} (h : AllGenuine ts) : AllGenuine ts.tail :=
  fun t ht => h t (List.mem_of_mem_tail ht)

theorem nextStart_suffix (t : Token) (ts : List Token) : nextStart t ts <:+ ts := by
  induction ts generalizing t with
  | nil => exact List.suffix_refl []
  | cons u us ih =>
      unfold nextStart
      split
      · exact List.suffix_refl _
      · exact (ih u).trans (List.suffix_cons u us)

theorem recover_suffix : ∀ ts : List Token, recover ts <:+ ts
  | [] => List.suffix_refl []
  | t :: ts => (nextStart_suffix t ts).trans (List.suffix_cons t ts)

structure Cursor.Genuine (c : Cursor) : Prop where
  ending : c.ending.Genuine
  tokens : AllGenuine c.tokens

theorem Cursor.Genuine.current {c : Cursor} (h : c.Genuine) : c.current.Genuine := by
  unfold Cursor.current
  cases htokens : c.tokens with
  | nil => exact h.ending
  | cons t ts => exact h.tokens t (htokens ▸ List.mem_cons_self)

namespace Parse

variable {α β : Type}

/-- A step that stays among genuine tokens and gives results of a form. -/
structure Forms (P : α → Prop) (p : Parse α) : Prop where
  genuine : ∀ {c : Cursor}, c.Genuine → (p c).2.Genuine
  forms : ∀ {c c' : Cursor} {a : α}, c.Genuine → @Eq (Option α × Cursor) (p c) (some a, c') → P a

section

variable {P : α → Prop} {Q : β → Prop}

theorem Forms.bind {p : Parse α} {f : α → Parse β} (hp : Forms P p)
    (hf : ∀ a, P a → Forms Q (f a)) : Forms Q (p >>= f) where
  genuine {c} hc := by
    have hgenuine := hp.genuine hc
    rw [bind_apply]
    rcases hstep : p c with ⟨_ | a, c₁⟩
    · rw [hstep] at hgenuine
      exact hgenuine
    · rw [hstep] at hgenuine
      exact (hf a (hp.forms hc hstep)).genuine hgenuine
  forms {c c' b} hc hrow := by
    have hgenuine := hp.genuine hc
    rw [bind_apply] at hrow
    rcases hstep : p c with ⟨_ | a, c₁⟩
    · rw [hstep] at hrow
      cases hrow
    · rw [hstep] at hrow hgenuine
      exact (hf a (hp.forms hc hstep)).forms hgenuine hrow

theorem Forms.pure {a : α} (h : P a) : Forms P (pure a) where
  genuine hc := hc
  forms _ hstep := by
    cases hstep
    exact h

theorem Forms.map {f : α → β} {p : Parse α} (hp : Forms P p) (hf : ∀ a, P a → Q (f a)) :
    Forms Q (f <$> p) :=
  hp.bind fun a ha => .pure (hf a ha)

theorem Forms.mono {P' : α → Prop} {p : Parse α} (hp : Forms P p) (h : ∀ a, P a → P' a) :
    Forms P' p :=
  ⟨hp.genuine, fun hc hstep => h _ (hp.forms hc hstep)⟩

end

theorem forms_current : Forms Token.Genuine current where
  genuine hc := hc
  forms hc hstep := by
    cases hstep
    exact hc.current

theorem forms_advance : Forms (fun _ => True) advance where
  genuine hc := ⟨hc.ending, hc.tokens.tail⟩
  forms _ _ := trivial

theorem forms_get : Forms (fun _ => True) (get : Parse Cursor) :=
  ⟨fun hc => hc, fun _ _ => trivial⟩

theorem forms_atEnd : Forms (fun _ => True) atEnd :=
  ⟨fun hc => hc, fun _ _ => trivial⟩

theorem forms_number (node : NodeId → Expr) : Forms (fun _ => True) (number node) :=
  ⟨fun hc => ⟨hc.ending, hc.tokens⟩, fun _ _ => trivial⟩

theorem forms_build {P : Expr → Prop} {node : NodeId → Expr} (h : ∀ id, P (node id)) :
    Forms P (build node) where
  genuine hc := ⟨hc.ending, hc.tokens⟩
  forms {c c' e} _ hstep := by
    cases hstep
    exact h c.ledger.nextId

theorem forms_report (t : Token) (problem : Problem) : Forms (fun _ => True) (report t problem) :=
  ⟨fun hc => ⟨hc.ending, hc.tokens⟩, fun _ _ => trivial⟩

theorem forms_check (kind : Token.Kind) : Forms (fun _ => True) (check kind) where
  genuine {c} hc := by
    rw [check_apply]
    exact hc
  forms _ _ := trivial

theorem forms_refuse {P : α → Prop} (what : Expectation) : Forms P (refuse what) where
  genuine hc := ⟨hc.ending, hc.tokens⟩
  forms _ hstep := by cases hstep

def Kinded (kind : Token.Kind) (t : Token) : Prop :=
  t.kind = kind ∧ t.Genuine

theorem forms_accept? (kind : Token.Kind) :
    Forms (fun found => ∀ t, found = some t → Kinded kind t) (accept? kind) where
  genuine {c} hc := by
    rw [accept?_apply]
    split
    · exact ⟨hc.ending, hc.tokens.tail⟩
    · exact hc
  forms {c c' found} hc hstep := by
    rw [accept?_apply] at hstep
    split at hstep
    · next hhead =>
        cases hstep
        rintro _ ⟨⟩
        refine ⟨?_, hc.current⟩
        unfold Cursor.current
        cases htokens : c.tokens with
        | nil =>
            rw [htokens] at hhead
            cases hhead
        | cons t ts =>
            rw [htokens] at hhead
            exact Option.some.inj hhead
    · cases hstep
      exact nofun

theorem forms_expect (kind : Token.Kind) (what : Expectation) :
    Forms (Kinded kind) (expect kind what) := by
  unfold expect
  apply (forms_accept? kind).bind
  intro found hfound
  cases found with
  | none => exact forms_refuse what
  | some t => exact .pure (hfound t rfl)

theorem Kinded.plain {t : Token} (h : Kinded .name t) : t.Plain :=
  h.2.name h.1

/-! ## Expressions -/

theorem Expr.formed_join {left right : Expr} {op : Token} {level : Nat} {id : NodeId}
    (hop : op.kind.precedence? = some level) (hleft : left.Formed) (hright : right.Formed) :
    (left.join op right id).Formed := by
  unfold Expr.join
  split
  · exact ⟨hleft, hright⟩
  · next hkind =>
      refine ⟨⟨level, ?_, hop⟩, hleft, hright⟩
      revert hop hkind
      cases op.kind <;> simp [Token.Kind.precedence?] <;> omega

section

variable {nested operand : Parse Expr}

theorem forms_argument (hnested : Forms Expr.Formed nested) (count : Nat) :
    Forms Expr.Formed (argument nested count) := by
  unfold argument
  split
  · exact forms_current.bind fun t _ => (forms_report t _).bind fun _ _ => hnested
  · exact hnested

theorem forms_arguments (hnested : Forms Expr.Formed nested) (n count : Nat) :
    Forms argumentsFormed (arguments nested n count) := by
  induction n generalizing count with
  | zero =>
      unfold arguments
      exact (forms_argument hnested count).bind fun first hfirst => .pure ⟨hfirst, trivial⟩
  | succ n ih =>
      unfold arguments
      apply (forms_argument hnested count).bind
      intro first hfirst
      apply (forms_accept? .comma).bind
      intro comma _
      cases comma with
      | none => exact .pure ⟨hfirst, trivial⟩
      | some _ => exact (ih (count + 1)).bind fun more hmore => .pure ⟨hfirst, hmore⟩

theorem forms_finishCall (hnested : Forms Expr.Formed nested) (n : Nat) {callee : Expr}
    (hcallee : callee.Formed) : Forms Expr.Formed (finishCall nested n callee) := by
  have finished : ∀ args : List Expr, argumentsFormed args → Forms Expr.Formed
      (do let paren ← expect .rightParen .argumentEnd; build (.call · callee paren args)) :=
    fun args hargs => (forms_expect .rightParen _).bind fun paren _ =>
      forms_build fun _ => ⟨hcallee, hargs⟩
  unfold finishCall
  apply (forms_check .rightParen).bind
  intro bare _
  cases bare with
  | true => exact Forms.bind (.pure trivial) finished
  | false => exact (forms_arguments hnested n 0).bind finished

theorem forms_primary (hnested : Forms Expr.Formed nested) :
    Forms Expr.Formed (primary nested) := by
  unfold primary
  apply forms_current.bind
  intro t ht
  split
  · exact forms_advance.bind fun _ _ => forms_build fun _ => trivial
  · exact forms_advance.bind fun _ _ => forms_build fun _ => trivial
  · exact forms_advance.bind fun _ _ => forms_build fun _ => trivial
  · exact forms_advance.bind fun _ _ => forms_build fun _ => trivial
  · exact forms_advance.bind fun _ _ => forms_build fun _ => trivial
  · next hkind =>
      apply forms_advance.bind
      intro _ _
      apply (forms_expect .dot .superDot).bind
      intro _ _
      apply (forms_expect .name .superMethod).bind
      intro method _
      exact forms_build fun _ => ht.super hkind
  · next hkind =>
      exact forms_advance.bind fun _ _ => forms_build fun _ => ht.this hkind
  · next hkind =>
      exact forms_advance.bind fun _ _ => forms_build fun _ => ht.name hkind
  · apply forms_advance.bind
    intro _ _
    apply hnested.bind
    intro inner hinner
    exact (forms_expect .rightParen .groupEnd).bind fun _ _ => forms_build fun _ => hinner
  · exact forms_refuse .expression

theorem forms_trailers (hnested : Forms Expr.Formed nested) (n : Nat) {e : Expr} (he : e.Formed) :
    Forms Expr.Formed (trailers nested n e) := by
  induction n generalizing e with
  | zero =>
      unfold trailers
      exact .pure he
  | succ n ih =>
      unfold trailers
      apply (forms_accept? .leftParen).bind
      intro paren _
      cases paren with
      | some _ => exact (forms_finishCall hnested n he).bind fun called hcalled => ih hcalled
      | none =>
          apply (forms_accept? .dot).bind
          intro dot _
          cases dot with
          | none => exact .pure he
          | some _ =>
              apply (forms_expect .name .propertyName).bind
              intro name _
              have hget : ∀ id, (Expr.get id e name).Formed := fun _ => he
              exact (forms_build hget).bind fun _ h => ih h

theorem forms_call (hnested : Forms Expr.Formed nested) (n : Nat) :
    Forms Expr.Formed (call nested n) :=
  (forms_primary hnested).bind fun _ he => forms_trailers hnested n he

theorem forms_unary (hoperand : Forms Expr.Formed operand) (n : Nat) :
    Forms Expr.Formed (unary operand n) := by
  induction n with
  | zero => exact hoperand
  | succ n ih =>
      unfold unary
      apply forms_current.bind
      intro op _
      split
      · next hop =>
          apply forms_advance.bind
          intro _ _
          exact ih.bind fun right hright => forms_build fun _ => ⟨.inl hop, hright⟩
      · next hop =>
          apply forms_advance.bind
          intro _ _
          exact ih.bind fun right hright => forms_build fun _ => ⟨.inr hop, hright⟩
      · exact hoperand

mutual

theorem forms_binary (hoperand : Forms Expr.Formed operand) : ∀ n least : Nat,
    Forms Expr.Formed (binary operand n least)
  | 0, _ => by
      unfold binary
      exact hoperand
  | n + 1, least => by
      unfold binary
      exact hoperand.bind fun left hleft => forms_climb hoperand n least hleft

theorem forms_climb (hoperand : Forms Expr.Formed operand) : ∀ (n least : Nat) {left : Expr},
    left.Formed → Forms Expr.Formed (climb operand n least left)
  | 0, _, left, hleft => by
      unfold climb
      exact .pure hleft
  | n + 1, least, left, hleft => by
      unfold climb
      apply forms_current.bind
      intro op _
      split
      · exact .pure hleft
      · next precedence hop =>
          split
          · exact .pure hleft
          · apply forms_advance.bind
            intro _ _
            apply (forms_binary hoperand n _).bind
            intro right hright
            apply (forms_build fun _ => Expr.formed_join hop hleft hright).bind
            intro joined hjoined
            exact forms_climb hoperand n least hjoined

end

theorem forms_assignment (hnested : Forms Expr.Formed nested) (n : Nat) :
    Forms Expr.Formed (assignment nested n) := by
  unfold assignment
  apply (forms_binary (forms_unary (forms_call hnested n) n) n 1).bind
  intro target htarget
  apply (forms_accept? .equal).bind
  intro equals _
  cases equals with
  | none => exact .pure htarget
  | some equals =>
      apply hnested.bind
      intro value hvalue
      cases target with
      | read id name => exact forms_build fun _ => ⟨htarget, hvalue⟩
      | get id object name => exact forms_build fun _ => ⟨htarget, hvalue⟩
      | _ => exact (forms_report equals _).bind fun _ _ => .pure htarget

theorem forms_expression (n : Nat) : Forms Expr.Formed (expression n) := by
  induction n with
  | zero =>
      unfold expression
      exact forms_refuse _
  | succ n ih =>
      unfold expression
      exact forms_assignment ih (n + 1)

end

/-! ## Statements -/

/-- A statement that is no declaration. -/
def Undeclaring (s : Stmt) : Prop :=
  s.Formed ∧ s.declares = false

def SurvivorFormed (s : Option Stmt) : Prop :=
  ∀ stmt, s = some stmt → stmt.Formed

/-- A function with its name.  The name matters where the function is declared, not where it is a
method. -/
def CalleeFormed (f : FunDecl) : Prop :=
  f.name.Plain ∧ f.Formed

def OptionalFormed (e : Option Expr) : Prop :=
  ∀ value, e = some value → value.Formed

section

variable {stmt : Parse Stmt} {decl : Parse (Option Stmt)}

theorem forms_parameter (count : Nat) : Forms Token.Plain (parameter count) := by
  have hname : Forms Token.Plain (expect .name .parameterName) :=
    (forms_expect .name _).mono fun _ => Kinded.plain
  unfold parameter
  split
  · exact forms_current.bind fun t _ => (forms_report t _).bind fun _ _ => hname
  · exact hname

theorem forms_parameters (n count : Nat) :
    Forms (fun params => ∀ param ∈ params, param.Plain) (parameters n count) := by
  induction n generalizing count with
  | zero =>
      unfold parameters
      exact (forms_parameter count).bind fun first hfirst => .pure (by simpa using hfirst)
  | succ n ih =>
      unfold parameters
      apply (forms_parameter count).bind
      intro first hfirst
      apply (forms_accept? .comma).bind
      intro comma _
      cases comma with
      | none => exact .pure (by simpa using hfirst)
      | some _ =>
          apply (ih (count + 1)).bind
          intro more hmore
          exact .pure (List.forall_mem_cons.mpr ⟨hfirst, hmore⟩)

theorem forms_declarations (hdecl : Forms SurvivorFormed decl) (closes : Token → Bool) (n : Nat) :
    Forms bodyFormed (declarations closes decl n) := by
  induction n with
  | zero =>
      unfold declarations
      exact .pure trivial
  | succ n ih =>
      unfold declarations
      apply forms_get.bind
      intro c _
      split
      · exact .pure trivial
      · split
        · exact .pure trivial
        · apply hdecl.bind
          intro first hfirst
          apply ih.bind
          intro more hmore
          apply Forms.pure
          cases first with
          | none => exact hmore
          | some s => exact ⟨hfirst s rfl, hmore⟩

theorem forms_block (hdecl : Forms SurvivorFormed decl) (n : Nat) :
    Forms bodyFormed (block decl n) := by
  unfold block
  apply (forms_declarations hdecl _ n).bind
  intro body hbody
  exact (forms_expect .rightBrace _).bind fun _ _ => .pure hbody

theorem forms_funDecl (callee : Callee) (hdecl : Forms SurvivorFormed decl) (n : Nat) :
    Forms CalleeFormed (funDecl callee decl n) := by
  unfold funDecl
  apply (forms_expect .name _).bind
  intro name hname
  apply (forms_expect .leftParen _).bind
  intro _ _
  have finished : ∀ params : List Token, (∀ param ∈ params, param.Plain) →
      Forms CalleeFormed
        (do let _ ← expect .rightParen .parameterEnd
            let _ ← expect .leftBrace (.calleeBody callee)
            let body ← block decl n
            return .mk name params body) := by
    intro params hparams
    apply (forms_expect .rightParen _).bind
    intro _ _
    apply (forms_expect .leftBrace _).bind
    intro _ _
    exact (forms_block hdecl n).bind fun body hbody => .pure ⟨hname.plain, hparams, hbody⟩
  apply (forms_check .rightParen).bind
  intro bare _
  cases bare with
  | true => exact Forms.bind (.pure nofun) finished
  | false => exact (forms_parameters n 0).bind finished

theorem forms_methods {method : Parse FunDecl}
    (hmethod : Forms CalleeFormed method) (n : Nat) :
    Forms methodsFormed (methods method n) := by
  induction n with
  | zero =>
      unfold methods
      exact .pure trivial
  | succ n ih =>
      unfold methods
      apply forms_atEnd.bind
      intro done _
      split
      · exact .pure trivial
      · apply (forms_check .rightBrace).bind
        intro closed _
        split
        · exact .pure trivial
        · apply hmethod.bind
          intro first hfirst
          exact ih.bind fun more hmore => .pure ⟨hfirst.2, hmore⟩

theorem forms_superclass :
    Forms (fun base => ∀ b, base = some b → b.2.Plain) superclass := by
  unfold superclass
  apply (forms_accept? .less).bind
  intro less _
  cases less with
  | none => exact .pure nofun
  | some _ =>
      apply (forms_expect .name _).bind
      intro name hname
      apply (forms_number _).bind
      intro id _
      apply Forms.pure
      rintro _ ⟨⟩
      exact hname.plain

theorem forms_classDecl (hdecl : Forms SurvivorFormed decl) (n : Nat) :
    Forms Stmt.Formed (classDecl decl n) := by
  unfold classDecl
  apply (forms_expect .name _).bind
  intro name hname
  apply forms_superclass.bind
  intro base hbase
  apply (forms_expect .leftBrace _).bind
  intro _ _
  apply (forms_methods (forms_funDecl .method hdecl n) n).bind
  intro methods hmethods
  apply (forms_expect .rightBrace _).bind
  intro _ _
  apply Forms.pure
  cases base with
  | none => exact ⟨hname.plain, hmethods⟩
  | some base => exact ⟨hname.plain, hbase base rfl, hmethods⟩

theorem forms_varDecl (n : Nat) : Forms Stmt.Formed (varDecl n) := by
  unfold varDecl
  apply (forms_expect .name _).bind
  intro name hname
  have finished : ∀ initial : Option Expr, OptionalFormed initial → Forms Stmt.Formed
      (do let _ ← expect .semicolon .variableEnd; return Stmt.var name initial) := by
    intro initial hinitial
    apply (forms_expect .semicolon _).bind
    intro _ _
    apply Forms.pure
    cases initial with
    | none => exact hname.plain
    | some value => exact ⟨hname.plain, hinitial value rfl⟩
  apply (forms_accept? .equal).bind
  intro equals _
  cases equals with
  | none => exact Forms.bind (.pure nofun) finished
  | some _ =>
      have hinitial : Forms OptionalFormed (some <$> expression n) :=
        (forms_expression n).map fun value hvalue _ heq => Option.some.inj heq ▸ hvalue
      exact hinitial.bind finished

theorem forms_expressionStmt (n : Nat) : Forms Undeclaring (expressionStmt n) := by
  unfold expressionStmt
  apply (forms_expression n).bind
  intro value hvalue
  exact (forms_expect .semicolon _).bind fun _ _ => .pure ⟨hvalue, rfl⟩

theorem forms_optionalExpression (n : Nat) (follower : Token.Kind) :
    Forms OptionalFormed (optionalExpression n follower) := by
  unfold optionalExpression
  apply (forms_check follower).bind
  intro absent _
  split
  · exact .pure nofun
  · exact (forms_expression n).map fun value hvalue _ heq => Option.some.inj heq ▸ hvalue

theorem forms_forInitial (n : Nat) : Forms SurvivorFormed (forInitial n) := by
  unfold forInitial
  apply (forms_accept? .semicolon).bind
  intro semicolon _
  cases semicolon with
  | some _ => exact .pure nofun
  | none =>
      apply (forms_accept? .kwVar).bind
      intro var _
      cases var with
      | some _ => exact (forms_varDecl n).map fun s hs _ heq => Option.some.inj heq ▸ hs
      | none => exact (forms_expressionStmt n).map fun s hs _ heq => Option.some.inj heq ▸ hs.1

theorem forms_forCondition {condition : Option Expr} (h : OptionalFormed condition) :
    Forms Expr.Formed (forCondition condition) := by
  unfold forCondition
  cases condition with
  | none => exact forms_build fun _ => trivial
  | some e => exact .pure (h e rfl)

theorem formed_forLoop {initial : Option Stmt} {condition : Expr} {increment : Option Expr}
    {body : Stmt} (hinitial : SurvivorFormed initial) (hcondition : condition.Formed)
    (hincrement : OptionalFormed increment) (hbody : Undeclaring body) :
    Undeclaring (.forLoop initial condition increment body) := by
  cases increment with
  | none =>
      cases initial with
      | none => exact ⟨⟨hcondition, hbody⟩, rfl⟩
      | some first => exact ⟨⟨hinitial first rfl, ⟨hcondition, hbody⟩, trivial⟩, rfl⟩
  | some e =>
      have hstep : (Stmt.block [body, .expression e]).Formed := ⟨hbody.1, hincrement e rfl, trivial⟩
      cases initial with
      | none => exact ⟨⟨hcondition, hstep, rfl⟩, rfl⟩
      | some first => exact ⟨⟨hinitial first rfl, ⟨hcondition, hstep, rfl⟩, trivial⟩, rfl⟩

theorem forms_forStmt (hstmt : Forms Undeclaring stmt) (n : Nat) :
    Forms Undeclaring (forStmt stmt n) := by
  unfold forStmt
  apply (forms_expect .leftParen _).bind
  intro _ _
  apply (forms_forInitial n).bind
  intro initial hinitial
  apply (forms_optionalExpression n .semicolon).bind
  intro condition hcondition
  apply (forms_expect .semicolon _).bind
  intro _ _
  apply (forms_optionalExpression n .rightParen).bind
  intro increment hincrement
  apply (forms_expect .rightParen _).bind
  intro _ _
  apply hstmt.bind
  intro body hbody
  exact (forms_forCondition hcondition).bind fun e he =>
    .pure (formed_forLoop hinitial he hincrement hbody)

theorem forms_ifStmt (hstmt : Forms Undeclaring stmt) (n : Nat) :
    Forms Undeclaring (ifStmt stmt n) := by
  unfold ifStmt
  apply (forms_expect .leftParen _).bind
  intro _ _
  apply (forms_expression n).bind
  intro condition hcondition
  apply (forms_expect .rightParen _).bind
  intro _ _
  apply hstmt.bind
  intro yes hyes
  apply (forms_accept? .kwElse).bind
  intro otherwise _
  cases otherwise with
  | none => exact .pure ⟨⟨hcondition, hyes⟩, rfl⟩
  | some _ => exact hstmt.bind fun no hno => .pure ⟨⟨hcondition, hyes, hno⟩, rfl⟩

theorem forms_whileStmt (hstmt : Forms Undeclaring stmt) (n : Nat) :
    Forms Undeclaring (whileStmt stmt n) := by
  unfold whileStmt
  apply (forms_expect .leftParen _).bind
  intro _ _
  apply (forms_expression n).bind
  intro condition hcondition
  apply (forms_expect .rightParen _).bind
  intro _ _
  exact hstmt.bind fun body hbody => .pure ⟨⟨hcondition, hbody⟩, rfl⟩

theorem forms_printStmt (n : Nat) : Forms Undeclaring (printStmt n) := by
  unfold printStmt
  apply (forms_expression n).bind
  intro value hvalue
  exact (forms_expect .semicolon _).bind fun _ _ => .pure ⟨hvalue, rfl⟩

theorem forms_returnStmt (keyword : Token) (n : Nat) :
    Forms Undeclaring (returnStmt keyword n) := by
  unfold returnStmt
  apply (forms_optionalExpression n .semicolon).bind
  intro value hvalue
  apply (forms_expect .semicolon _).bind
  intro _ _
  apply Forms.pure
  cases value with
  | none => exact ⟨trivial, rfl⟩
  | some value => exact ⟨hvalue value rfl, rfl⟩

theorem forms_statementForm (hstmt : Forms Undeclaring stmt) (hdecl : Forms SurvivorFormed decl)
    (n : Nat) : Forms Undeclaring (statementForm stmt decl n) := by
  unfold statementForm
  apply forms_current.bind
  intro t _
  split
  · exact forms_advance.bind fun _ _ => forms_forStmt hstmt n
  · exact forms_advance.bind fun _ _ => forms_ifStmt hstmt n
  · exact forms_advance.bind fun _ _ => forms_printStmt n
  · exact forms_advance.bind fun _ _ => forms_returnStmt t n
  · exact forms_advance.bind fun _ _ => forms_whileStmt hstmt n
  · exact forms_advance.bind fun _ _ =>
      (forms_block hdecl n).bind fun body hbody => .pure ⟨hbody, rfl⟩
  · exact forms_expressionStmt n

theorem forms_declarationForm (hstmt : Forms Undeclaring stmt) (hdecl : Forms SurvivorFormed decl)
    (n : Nat) : Forms Stmt.Formed (declarationForm stmt decl n) := by
  unfold declarationForm
  apply forms_current.bind
  intro t _
  split
  · exact forms_advance.bind fun _ _ => forms_classDecl hdecl n
  · exact forms_advance.bind fun _ _ => (forms_funDecl .function hdecl n).map fun f hf => hf
  · exact forms_advance.bind fun _ _ => forms_varDecl n
  · exact (forms_statementForm hstmt hdecl n).mono fun _ hs => hs.1

theorem forms_recovering {form : Parse Stmt} (hform : Forms Stmt.Formed form) :
    Forms SurvivorFormed (recovering form) where
  genuine {c} hc := by
    have hgenuine := hform.genuine hc
    unfold recovering
    rcases hread : form c with ⟨_ | s, c₁⟩
    · rw [hread] at hgenuine
      exact ⟨hgenuine.ending, fun t ht => hgenuine.tokens t ((recover_suffix _).mem ht)⟩
    · rw [hread] at hgenuine
      exact hgenuine
  forms {c c' s} hc hstep := by
    unfold recovering at hstep
    rcases hread : form c with ⟨_ | stmt, c₁⟩
    · rw [hread] at hstep
      cases hstep
      exact nofun
    · rw [hread] at hstep
      cases hstep
      rintro _ ⟨⟩
      exact hform.forms hc hread

end

mutual

theorem forms_statement : ∀ n : Nat, Forms Undeclaring (statement n)
  | 0 => by
      unfold statement
      exact forms_expressionStmt 0
  | n + 1 => by
      unfold statement
      exact forms_statementForm (forms_statement n) (forms_declaration n) (n + 1)

theorem forms_declaration : ∀ n : Nat, Forms SurvivorFormed (declaration n)
  | 0 => by
      unfold declaration
      exact forms_recovering ((forms_expressionStmt 0).mono fun _ hs => hs.1)
  | n + 1 => by
      unfold declaration
      exact forms_recovering
        (forms_declarationForm (forms_statement n) (forms_declaration n) (n + 1))

end

theorem forms_program (n : Nat) : Forms bodyFormed (program n) :=
  forms_declarations (forms_declaration n) _ n

theorem forms_wholeExpression (n : Nat) : Forms Expr.Formed (wholeExpression n) := by
  have hend : Forms (fun _ => True) (expectEnd .endOfExpression) := by
    unfold expectEnd
    apply forms_atEnd.bind
    intro done _
    split
    · exact .pure trivial
    · exact forms_refuse _
  unfold wholeExpression
  exact (forms_expression n).bind fun e he => hend.bind fun _ _ => .pure he

end Parse

end Lox
