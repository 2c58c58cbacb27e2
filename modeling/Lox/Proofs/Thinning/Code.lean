import Lox.Proofs.Moving.Tree
import Lox.Proofs.Simulation.Value

/-!
# Code with scopes left out

A scope that declares nothing can be left out: its frame binds nothing, and what is inside of it only
has to look one frame less far for names that are declared further out.  Gaps tell which frames
around a place are left out.  A twin is code that is read twice, with such scopes and without them:
its references have other numbers and other distances the second time, but lead to the same frames.
-/

namespace Lox

/-! ## Distances -/

/-- Which of the frames around a place are left out, the innermost first. -/
abbrev Gaps := List Bool

/-- Distances that lead to the same frame, with all frames and without those that are left out. -/
inductive Meets : Gaps → Nat → Nat → Prop where
  | here : Meets (false :: gaps) 0 0
  | inner : Meets gaps k k' → Meets (false :: gaps) (k + 1) (k' + 1)
  | gap : Meets gaps k k' → Meets (true :: gaps) (k + 1) k'

/-- The scopes around a place, with all of them and without those that are left out.  Outside of all
is the global frame, which is no scope. -/
inductive Scopes.Thins : Gaps → Scopes → Scopes → Prop where
  | globals : Scopes.Thins [false] [] []
  | scope : Scopes.Thins gaps σ σ' → Scopes.Thins (false :: gaps) (scope :: σ) (scope :: σ')
  | gap : σ'.Settled → Scopes.Thins gaps σ σ' → Scopes.Thins (true :: gaps) ([] :: σ) σ'

section

variable {gaps : Gaps} {σ σ' : Scopes} {k k' : Nat}

theorem Meets.succ_inv {m : Nat} (h : Meets gaps (k + 1) m) (h' : Meets gaps k k') : m = k' + 1 := by
  induction h' generalizing m with
  | here =>
      cases h with
      | inner h =>
          cases h with
          | here => rfl
  | inner _ ih =>
      cases h with
      | inner h => rw [ih h]
  | gap _ ih =>
      cases h with
      | gap h => exact ih h

/-- Every name is declared in the same scope, or it is global for both. -/
theorem Scopes.Thins.hops? (h : Scopes.Thins gaps σ σ') (x : String) :
    Option.Rel (Meets gaps) (σ.hops? x) (σ'.hops? x) := by
  induction h with
  | globals => exact .none
  | @scope gaps σ σ' scope _ ih =>
      rw [Scopes.hops?_cons, Scopes.hops?_cons]
      split
      · exact .some .here
      · rcases option_rel_cases ih with ⟨hnone, hnone'⟩ | ⟨_, _, hsome, hsome', hmeets⟩
        · rw [hnone, hnone']
          exact .none
        · rw [hsome, hsome']
          exact .some (.inner hmeets)
  | @gap σ' gaps σ _ _ ih =>
      have hnone : Bindings.binds ([] : Scope) x = false := rfl
      rw [Scopes.hops?_cons, hnone, if_neg Bool.false_ne_true]
      rcases option_rel_cases ih with ⟨hnone, hnone'⟩ | ⟨_, _, hsome, hsome', hmeets⟩
      · rw [hnone, hnone']
        exact .none
      · rw [hsome, hsome']
        exact .some (.gap hmeets)

theorem Scopes.Thins.meets_of_holds {x : String} (h : Scopes.Thins gaps σ σ') (hx : σ.Holds k x) :
    ∃ k', Meets gaps k k' := by
  obtain ⟨scope, hscope, htrue⟩ := hx
  induction h generalizing k with
  | globals => cases hscope
  | scope _ ih =>
      cases k with
      | zero => exact ⟨0, .here⟩
      | succ k =>
          obtain ⟨k', hmeets⟩ := ih hscope
          exact ⟨k' + 1, .inner hmeets⟩
  | gap _ _ ih =>
      cases k with
      | zero =>
          cases Option.some.inj hscope
          cases htrue
      | succ k =>
          obtain ⟨k', hmeets⟩ := ih hscope
          exact ⟨k', .gap hmeets⟩

end

/-! ## Twins -/

/-- Code that is read twice. -/
structure Twin where
  /-- The references of the code. -/
  ids : List NodeId
  /-- The numbers that they have the second time. -/
  renumber : NodeId → NodeId
  /-- Their distances. -/
  table : NodeId → Option Nat
  /-- Their distances the second time, by their first numbers. -/
  table' : NodeId → Option Nat

variable (T : Twin)

structure Twin.Refers (gaps : Gaps) (id : NodeId) : Prop where
  mem : id ∈ T.ids
  meets : Option.Rel (Meets gaps) (T.table id) (T.table' id)

/-- A use of `super`, which needs the frame of `super` and that of `this` right inside of it. -/
def Twin.RefersSuper (gaps : Gaps) (id : NodeId) : Prop :=
  id ∈ T.ids ∧ ∃ k k', T.table id = some (k + 1) ∧ T.table' id = some (k' + 1) ∧
    Meets gaps (k + 1) (k' + 1) ∧ Meets gaps k k'

mutual

/-- Expressions of a twin at places with these gaps around them. -/
inductive Expr.Thins (gaps : Gaps) : Expr → Expr → Prop where
  | literal : Expr.Thins gaps (.literal number value) (.literal number' value)
  | grouping : Expr.Thins gaps e e' → Expr.Thins gaps (.grouping number e) (.grouping number' e')
  | unary : Expr.Thins gaps e e' → Expr.Thins gaps (.unary number op e) (.unary number' op e')
  | binary : Expr.Thins gaps left left' → Expr.Thins gaps right right' →
      Expr.Thins gaps (.binary number left op right) (.binary number' left' op right')
  | logical : Expr.Thins gaps left left' → Expr.Thins gaps right right' →
      Expr.Thins gaps (.logical number left op right) (.logical number' left' op right')
  | read : T.Refers gaps number → Expr.Thins gaps (.read number name) (.read (T.renumber number) name)
  | assign : T.Refers gaps number → Expr.Thins gaps e e' →
      Expr.Thins gaps (.assign number name e) (.assign (T.renumber number) name e')
  | call : Expr.Thins gaps e e' → ArgumentsThin gaps es es' →
      Expr.Thins gaps (.call number e paren es) (.call number' e' paren es')
  | get : Expr.Thins gaps e e' → Expr.Thins gaps (.get number e name) (.get number' e' name)
  | set : Expr.Thins gaps e e' → Expr.Thins gaps value value' →
      Expr.Thins gaps (.set number e name value) (.set number' e' name value')
  | self : T.Refers gaps number → Expr.Thins gaps (.self number keyword) (.self (T.renumber number) keyword)
  | super : T.RefersSuper gaps number →
      Expr.Thins gaps (.super number keyword method) (.super (T.renumber number) keyword method)

inductive ArgumentsThin (gaps : Gaps) : List Expr → List Expr → Prop where
  | nil : ArgumentsThin gaps [] []
  | cons : Expr.Thins gaps e e' → ArgumentsThin gaps es es' →
      ArgumentsThin gaps (e :: es) (e' :: es')

end

inductive SuperclassThin (gaps : Gaps) :
    Option (NodeId × Token) → Option (NodeId × Token) → Prop where
  | none : SuperclassThin gaps none none
  | some : T.Refers gaps number → SuperclassThin gaps (some (number, name)) (some (T.renumber number, name))

/-- The gaps around the scope of `this` of a class. -/
def Gaps.ofClass (gaps : Gaps) (base : Option (NodeId × Token)) : Gaps :=
  if base.isSome then false :: gaps else gaps

mutual

/-- Statements of a twin.  What declares a name stands in a scope that is not left out. -/
inductive Stmt.Thins : Gaps → Stmt → Stmt → Prop where
  | expression : Expr.Thins T gaps e e' → Stmt.Thins gaps (.expression e) (.expression e')
  | print : Expr.Thins T gaps e e' → Stmt.Thins gaps (.print e) (.print e')
  | var : Stmt.Thins (false :: gaps) (.var name none) (.var name none)
  | initialised : Expr.Thins T (false :: gaps) e e' →
      Stmt.Thins (false :: gaps) (.var name (some e)) (.var name (some e'))
  | block : BodyThins (false :: gaps) ss ss' → Stmt.Thins gaps (.block ss) (.block ss')
  | ifOnly : Expr.Thins T gaps e e' → Stmt.Thins gaps yes yes' →
      Stmt.Thins gaps (.cond e yes none) (.cond e' yes' none)
  | ifElse : Expr.Thins T gaps e e' → Stmt.Thins gaps yes yes' → Stmt.Thins gaps no no' →
      Stmt.Thins gaps (.cond e yes (some no)) (.cond e' yes' (some no'))
  | loop : Expr.Thins T gaps e e' → Stmt.Thins gaps s s' →
      Stmt.Thins gaps (.loop e s) (.loop e' s')
  | function : FunDecl.Thins (false :: gaps) decl decl' →
      Stmt.Thins (false :: gaps) (.function decl) (.function decl')
  | ret : Stmt.Thins gaps (.ret keyword none) (.ret keyword none)
  | returned : Expr.Thins T gaps e e' →
      Stmt.Thins gaps (.ret keyword (some e)) (.ret keyword (some e'))
  | classDecl : SuperclassThin T (false :: gaps) base base' →
      MethodsThin (false :: Gaps.ofClass (false :: gaps) base) decls decls' →
      Stmt.Thins (false :: gaps) (.classDecl name base decls) (.classDecl name base' decls')

inductive BodyThins : Gaps → List Stmt → List Stmt → Prop where
  | nil : BodyThins gaps [] []
  | cons : Stmt.Thins gaps s s' → BodyThins gaps ss ss' → BodyThins gaps (s :: ss) (s' :: ss')

inductive FunDecl.Thins : Gaps → FunDecl → FunDecl → Prop where
  | mk : BodyThins (false :: gaps) ss ss' →
      FunDecl.Thins gaps (.mk name params ss) (.mk name params ss')

inductive MethodsThin : Gaps → List FunDecl → List FunDecl → Prop where
  | nil : MethodsThin gaps [] []
  | cons : FunDecl.Thins gaps decl decl' → MethodsThin gaps decls decls' →
      MethodsThin gaps (decl :: decls) (decl' :: decls')

end

variable {T} {gaps : Gaps}

theorem FunDecl.Thins.name_eq {decl decl' : FunDecl} (h : FunDecl.Thins T gaps decl decl') :
    decl'.name = decl.name := by
  cases h with
  | mk _ => rfl

theorem FunDecl.Thins.params_eq {decl decl' : FunDecl} (h : FunDecl.Thins T gaps decl decl') :
    decl'.params = decl.params := by
  cases h with
  | mk _ => rfl

theorem FunDecl.Thins.body {decl decl' : FunDecl} (h : FunDecl.Thins T gaps decl decl') :
    BodyThins T (false :: gaps) decl.body decl'.body := by
  cases h with
  | mk hbody => exact hbody

theorem FunDecl.Thins.arity_eq {decl decl' : FunDecl} (h : FunDecl.Thins T gaps decl decl') :
    decl'.arity = decl.arity :=
  congrArg List.length h.params_eq

end Lox
