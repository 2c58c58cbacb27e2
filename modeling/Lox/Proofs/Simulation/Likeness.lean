import Lox.Proofs.Host.View
import Lox.Proofs.Moving.Tokens
import Lox.Proofs.Scoping.Acceptance

/-!
# Code that is alike

Two runs can be compared step by step if their code has the same shape and refers to the same
variables.  A likeness says in what else the code may differ: in the tokens, and in the names of
variables, which each scope may have renamed in its own way.  The numbers of references may differ
too, as the same source may have been read at different times.
-/

namespace Lox

/-- What two runs that are compared may differ in. -/
structure Likeness where
  /-- Tokens at corresponding places, in code of the program that is compared or in other code. -/
  token : Bool → Token → Token → Prop
  token_kind : ∀ {own t t'}, token own t t' → t'.kind = t.kind
  token_site : token false Eval.hostSite Eval.hostSite
  /-- Numbers of corresponding nodes. -/
  number : NodeId → NodeId → Prop
  number_refl : ∀ id, number id id
  /-- How a scope may rename its variables. -/
  renames : (String → String) → Prop
  renames_id : renames fun x => x
  renames_injective : ∀ {ρ}, renames ρ → ∀ {x y}, ρ x = ρ y → x = y
  renames_this : ∀ {ρ}, renames ρ → ρ "this" = "this"
  renames_super : ∀ {ρ}, renames ρ → ρ "super" = "super"
  /-- The programs and expressions that may become code: those that are compared, and others. -/
  genuine : Bool → Part → Prop
  /-- Other code stands for itself. -/
  token_self : ∀ {part}, genuine false part → ∀ t ∈ part.tokens, token false t t
  /-- Whether a host function keeps to what Lox can take. -/
  strict : Prop
  /-- The steps that a host function may take. -/
  allowed : Step → Prop
  /-- Whether a host function may hand in code. -/
  reentry : Prop
  reentry_of_allowed : ∀ {step}, allowed step → step.HandsIn → reentry
  genuine_of_accepted : reentry → ∀ {part}, part.Accepted → genuine false part

/-- Accepted code, with the distances of its references. -/
structure Code where
  part : Part
  /-- Whether it is code of the program that is compared. -/
  own : Bool
  table : NodeId → Option Nat
  checked : Checked table {} [] part
  /-- The numbers that the references have in the second run. -/
  renumber : NodeId → NodeId

theorem Code.resolve_snd (code : Code) {c : Context} {σ : Scopes} {s : Stmt}
    (hreaches : Reaches code.part c σ (.stmt s)) (hdeclares : s.declares = false) :
    (s.resolve c σ).2 = σ :=
  s.resolve_snd (hreaches.checked code.checked).formed hdeclares

variable (ℓ : Likeness) (code : Code)

/-- How the scope of a reference renames its variables, the global scope not at all. -/
def renameAt (ρs : List (String → String)) (id : NodeId) (name : String) : String :=
  match code.table id with
  | some k => (ρs[k]?.getD fun x => x) name
  | none => name

/-- How the innermost scope renames its variables. -/
def renameHere (ρs : List (String → String)) : String → String :=
  ρs.headD fun x => x

/-- Tokens at corresponding places, with the same text. -/
def Likeness.word (own : Bool) (t t' : Token) : Prop :=
  ℓ.token own t t' ∧ t'.lexeme = t.lexeme

mutual

inductive Expr.Alike (ρs : List (String → String)) : Expr → Expr → Prop where
  | literal : ℓ.number number number' →
      Expr.Alike ρs (.literal number value) (.literal number' value)
  | grouping : ℓ.number number number' → Expr.Alike ρs e e' →
      Expr.Alike ρs (.grouping number e) (.grouping number' e')
  | unary : ℓ.number number number' → ℓ.token code.own op op' → Expr.Alike ρs e e' →
      Expr.Alike ρs (.unary number op e) (.unary number' op' e')
  | binary : ℓ.number number number' → Expr.Alike ρs left left' → ℓ.token code.own op op' →
      Expr.Alike ρs right right' →
      Expr.Alike ρs (.binary number left op right) (.binary number' left' op' right')
  | logical : ℓ.number number number' → Expr.Alike ρs left left' → ℓ.token code.own op op' →
      Expr.Alike ρs right right' →
      Expr.Alike ρs (.logical number left op right) (.logical number' left' op' right')
  | read : ℓ.number number (code.renumber number) → ℓ.token code.own name name' →
      name'.lexeme = renameAt code ρs number name.lexeme →
      Expr.Alike ρs (.read number name) (.read (code.renumber number) name')
  | assign : ℓ.number number (code.renumber number) → ℓ.token code.own name name' →
      name'.lexeme = renameAt code ρs number name.lexeme → Expr.Alike ρs e e' →
      Expr.Alike ρs (.assign number name e) (.assign (code.renumber number) name' e')
  | call : ℓ.number number number' → Expr.Alike ρs e e' → ℓ.token code.own paren paren' →
      ArgumentsAlike ρs es es' →
      Expr.Alike ρs (.call number e paren es) (.call number' e' paren' es')
  | get : ℓ.number number number' → Expr.Alike ρs e e' → ℓ.word code.own name name' →
      Expr.Alike ρs (.get number e name) (.get number' e' name')
  | set : ℓ.number number number' → Expr.Alike ρs e e' → ℓ.word code.own name name' →
      Expr.Alike ρs value value' →
      Expr.Alike ρs (.set number e name value) (.set number' e' name' value')
  | self : ℓ.number number (code.renumber number) → ℓ.word code.own keyword keyword' →
      Expr.Alike ρs (.self number keyword) (.self (code.renumber number) keyword')
  | super : ℓ.number number (code.renumber number) → ℓ.word code.own keyword keyword' →
      ℓ.word code.own method method' →
      Expr.Alike ρs (.super number keyword method) (.super (code.renumber number) keyword' method')

inductive ArgumentsAlike (ρs : List (String → String)) : List Expr → List Expr → Prop where
  | nil : ArgumentsAlike ρs [] []
  | cons : Expr.Alike ρs e e' → ArgumentsAlike ρs es es' →
      ArgumentsAlike ρs (e :: es) (e' :: es')

end

/-- Superclasses alike: both classes have one, or none has. -/
inductive SuperclassAlike (ρs : List (String → String)) :
    Option (NodeId × Token) → Option (NodeId × Token) → Prop where
  | none : SuperclassAlike ρs none none
  | some : ℓ.number number (code.renumber number) → ℓ.token code.own name name' →
      name'.lexeme = renameAt code ρs number name.lexeme →
      SuperclassAlike ρs (some (number, name)) (some (code.renumber number, name'))

/-- The renamings around the methods of a class.  Its own scopes rename nothing. -/
def renamingsOfClass (ρs : List (String → String)) :
    Option (NodeId × Token) → List (String → String)
  | none => (fun x => x) :: ρs
  | some _ => (fun x => x) :: (fun x => x) :: ρs

mutual

inductive Stmt.Alike : List (String → String) → Stmt → Stmt → Prop where
  | expression : Expr.Alike ℓ code ρs e e' → Stmt.Alike ρs (.expression e) (.expression e')
  | print : Expr.Alike ℓ code ρs e e' → Stmt.Alike ρs (.print e) (.print e')
  | var : ℓ.token code.own name name' → name'.lexeme = renameHere ρs name.lexeme →
      Stmt.Alike ρs (.var name none) (.var name' none)
  | initialised : ℓ.token code.own name name' → name'.lexeme = renameHere ρs name.lexeme →
      Expr.Alike ℓ code ρs e e' → Stmt.Alike ρs (.var name (some e)) (.var name' (some e'))
  | block : ℓ.renames ρ → BodyAlike (ρ :: ρs) ss ss' → Stmt.Alike ρs (.block ss) (.block ss')
  | ifOnly : Expr.Alike ℓ code ρs e e' → Stmt.Alike ρs yes yes' →
      Stmt.Alike ρs (.cond e yes none) (.cond e' yes' none)
  | ifElse : Expr.Alike ℓ code ρs e e' → Stmt.Alike ρs yes yes' → Stmt.Alike ρs no no' →
      Stmt.Alike ρs (.cond e yes (some no)) (.cond e' yes' (some no'))
  | loop : Expr.Alike ℓ code ρs e e' → Stmt.Alike ρs s s' →
      Stmt.Alike ρs (.loop e s) (.loop e' s')
  | function : renameHere ρs decl.name.lexeme = decl.name.lexeme → FunDecl.Alike ρs decl decl' →
      Stmt.Alike ρs (.function decl) (.function decl')
  | ret : ℓ.token code.own keyword keyword' → Stmt.Alike ρs (.ret keyword none) (.ret keyword' none)
  | returned : ℓ.token code.own keyword keyword' → Expr.Alike ℓ code ρs e e' →
      Stmt.Alike ρs (.ret keyword (some e)) (.ret keyword' (some e'))
  | classDecl : ℓ.word code.own name name' → renameHere ρs name.lexeme = name.lexeme →
      SuperclassAlike ℓ code ρs base base' →
      MethodsAlike (renamingsOfClass ρs base) decls decls' →
      Stmt.Alike ρs (.classDecl name base decls) (.classDecl name' base' decls')

inductive BodyAlike : List (String → String) → List Stmt → List Stmt → Prop where
  | nil : BodyAlike ρs [] []
  | cons : Stmt.Alike ρs s s' → BodyAlike ρs ss ss' → BodyAlike ρs (s :: ss) (s' :: ss')

inductive FunDecl.Alike : List (String → String) → FunDecl → FunDecl → Prop where
  | mk : ℓ.word code.own name name' → ℓ.renames ρ →
      List.Forall₂ (fun p p' => ℓ.token code.own p p' ∧ p'.lexeme = ρ p.lexeme) params params' →
      BodyAlike (ρ :: ρs) ss ss' →
      FunDecl.Alike ρs (.mk name params ss) (.mk name' params' ss')

inductive MethodsAlike : List (String → String) → List FunDecl → List FunDecl → Prop where
  | nil : MethodsAlike ρs [] []
  | cons : FunDecl.Alike ρs decl decl' → MethodsAlike ρs decls decls' →
      MethodsAlike ρs (decl :: decls) (decl' :: decls')

end

variable {ℓ code} {ρs : List (String → String)}

theorem Stmt.Alike.cond {e e' : Expr} {yes yes' : Stmt} {no no' : Option Stmt}
    (h : Stmt.Alike ℓ code ρs (.cond e yes no) (.cond e' yes' no')) :
    Expr.Alike ℓ code ρs e e' ∧ Stmt.Alike ℓ code ρs yes yes' := by
  cases h with
  | ifOnly hcondition hyes => exact ⟨hcondition, hyes⟩
  | ifElse hcondition hyes _ => exact ⟨hcondition, hyes⟩

theorem Expr.Alike.assign_inv {number number' : NodeId} {name name' : Token} {e e' : Expr}
    (h : Expr.Alike ℓ code ρs (.assign number name e) (.assign number' name' e')) :
    number' = code.renumber number ∧ ℓ.token code.own name name' ∧
      name'.lexeme = renameAt code ρs number name.lexeme ∧ Expr.Alike ℓ code ρs e e' := by
  cases h with
  | assign _ htoken hname h => exact ⟨rfl, htoken, hname, h⟩

theorem Expr.Alike.assigned {number number' : NodeId} {name name' : Token} {e e' : Expr}
    (h : Expr.Alike ℓ code ρs (.assign number name e) (.assign number' name' e')) :
    Expr.Alike ℓ code ρs e e' :=
  h.assign_inv.2.2.2

theorem FunDecl.Alike.name {decl decl' : FunDecl} (h : FunDecl.Alike ℓ code ρs decl decl') :
    ℓ.word code.own decl.name decl'.name := by
  cases h with
  | mk hname _ _ _ => exact hname

theorem FunDecl.Alike.arity {decl decl' : FunDecl} (h : FunDecl.Alike ℓ code ρs decl decl') :
    decl'.arity = decl.arity := by
  cases h with
  | mk _ _ hparams _ => exact hparams.length_eq.symm

end Lox
