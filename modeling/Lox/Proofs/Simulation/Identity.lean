import Lox.Proofs.Simulation.Likeness

/-!
# Code stands for itself

Where no scope renames anything, code of the form that the grammar gives it is like itself, also if it
was moved elsewhere.
-/

namespace Lox

/-- Renamings that rename nothing. -/
def NoRenaming (ρs : List (String → String)) : Prop :=
  ∀ ρ ∈ ρs, ρ = fun x => x

section

variable {ℓ : Likeness} {code : Code} {ρs : List (String → String)}

theorem NoRenaming.nil : NoRenaming [] :=
  nofun

theorem NoRenaming.cons (h : NoRenaming ρs) : NoRenaming ((fun x => x) :: ρs) := by
  intro ρ hρ
  rcases List.mem_cons.mp hρ with rfl | hρ
  · rfl
  · exact h ρ hρ

theorem NoRenaming.at (h : NoRenaming ρs) (id : NodeId) (x : String) :
    x = renameAt code ρs id x := by
  unfold renameAt
  cases code.table id with
  | none => rfl
  | some k =>
      dsimp only
      cases hk : ρs[k]? with
      | none => rfl
      | some ρ => rw [h ρ (List.mem_of_getElem? hk), Option.getD_some]

theorem NoRenaming.here (h : NoRenaming ρs) (x : String) : x = renameHere ρs x := by
  cases ρs with
  | nil => rfl
  | cons ρ ρs => exact (congrFun (h ρ List.mem_cons_self) x).symm

theorem NoRenaming.ofClass (h : NoRenaming ρs) (base : Option (NodeId × Token)) :
    NoRenaming (renamingsOfClass ρs base) := by
  cases base with
  | none => exact h.cons
  | some _ => exact h.cons.cons

/-- Code whose tokens may be moved in two ways. -/
def Shifts (ℓ : Likeness) (code : Code) (k k' : Int) (tokens : List Token) : Prop :=
  ∀ t ∈ tokens, ℓ.word code.own (t.down k) (t.down k')

/-- Code that was numbered in two ways. -/
structure Renumbers (ℓ : Likeness) (code : Code) (ν ν' : NodeId → NodeId) : Prop where
  renumber : ∀ id, code.renumber (ν id) = ν' id
  number : ∀ id, ℓ.number (ν id) (ν' id)

variable {k k' : Int} {ν ν' : NodeId → NodeId}

theorem Renumbers.numbered (h : Renumbers ℓ code ν ν') (id : NodeId) :
    ℓ.number (ν id) (code.renumber (ν id)) :=
  h.renumber id ▸ h.number id

namespace Shifts

variable {t : Token} {ts us : List Token}

theorem head (h : Shifts ℓ code k k' (t :: ts)) : ℓ.word code.own (t.down k) (t.down k') :=
  h t List.mem_cons_self

theorem tail (h : Shifts ℓ code k k' (t :: ts)) : Shifts ℓ code k k' ts :=
  fun u hu => h u (List.mem_cons_of_mem t hu)

theorem left (h : Shifts ℓ code k k' (ts ++ us)) : Shifts ℓ code k k' ts :=
  fun u hu => h u (List.mem_append_left us hu)

theorem right (h : Shifts ℓ code k k' (ts ++ us)) : Shifts ℓ code k k' us :=
  fun u hu => h u (List.mem_append_right ts hu)

end Shifts

mutual

theorem Expr.alike_moved (hν : Renumbers ℓ code ν ν') (hρs : NoRenaming ρs) : ∀ {e : Expr},
    Shifts ℓ code k k' e.tokens → e.Formed →
      Expr.Alike ℓ code ρs (e.moved k ν) (e.moved k' ν')
  | .literal id _, _, _ => .literal (hν.number id)
  | .grouping id inner, ht, h => by
      simp only [Expr.Formed] at h
      exact .grouping (hν.number id) (inner.alike_moved hν hρs ht h)
  | .unary id op right, ht, h => by
      simp only [Expr.Formed] at h
      exact .unary (hν.number id) ht.head.1 (right.alike_moved hν hρs ht.tail h.2)
  | .binary id left op right, ht, h => by
      simp only [Expr.Formed] at h
      exact .binary (hν.number id) (left.alike_moved hν hρs ht.left h.2.1) ht.right.head.1
        (right.alike_moved hν hρs ht.right.tail h.2.2)
  | .logical id left op right, ht, h => by
      simp only [Expr.Formed] at h
      exact .logical (hν.number id) (left.alike_moved hν hρs ht.left h.1) ht.right.head.1
        (right.alike_moved hν hρs ht.right.tail h.2)
  | .read id name, ht, _ => by
      simp only [Expr.moved, ← hν.renumber]
      exact .read (hν.numbered id) ht.head.1 (hρs.at _ _)
  | .assign id name value, ht, h => by
      simp only [Expr.Formed] at h
      simp only [Expr.moved, ← hν.renumber]
      exact .assign (hν.numbered id) ht.head.1 (hρs.at _ _)
        (value.alike_moved hν hρs ht.tail h.2)
  | .call id callee paren arguments, ht, h => by
      simp only [Expr.Formed] at h
      exact .call (hν.number id) (callee.alike_moved hν hρs ht.left h.1) ht.right.head.1
        (argumentsAlike_moved hν hρs ht.right.tail h.2)
  | .get id object name, ht, h => by
      simp only [Expr.Formed] at h
      exact .get (hν.number id) (object.alike_moved hν hρs ht.left h) ht.right.head
  | .set id object name value, ht, h => by
      simp only [Expr.Formed] at h
      exact .set (hν.number id) (object.alike_moved hν hρs ht.left h.1) ht.right.head
        (value.alike_moved hν hρs ht.right.tail h.2)
  | .self id keyword, ht, _ => by
      simp only [Expr.moved, ← hν.renumber]
      exact .self (hν.numbered id) ht.head
  | .super id keyword method, ht, _ => by
      simp only [Expr.moved, ← hν.renumber]
      exact .super (hν.numbered id) ht.head ht.tail.head
  | .missing, _, h => by simp only [Expr.Formed] at h
  | .misplaced _, _, h => by simp only [Expr.Formed] at h

theorem argumentsAlike_moved (hν : Renumbers ℓ code ν ν') (hρs : NoRenaming ρs) :
    ∀ {es : List Expr}, Shifts ℓ code k k' (argumentTokens es) → argumentsFormed es →
      ArgumentsAlike ℓ code ρs (movedArguments k ν es) (movedArguments k' ν' es)
  | [], _, _ => .nil
  | e :: es, ht, h => by
      simp only [argumentsFormed] at h
      exact .cons (e.alike_moved hν hρs ht.left h.1) (argumentsAlike_moved hν hρs ht.right h.2)

end

theorem paramsAlike_moved {params : List Token} (ht : Shifts ℓ code k k' params) :
    List.Forall₂ (fun p p' : Token => ℓ.token code.own p p' ∧ p'.lexeme = p.lexeme)
      (params.map (Token.down k)) (params.map (Token.down k')) := by
  induction params with
  | nil => exact .nil
  | cons param params ih => exact .cons ht.head (ih ht.tail)

mutual

theorem Stmt.alike_moved (hν : Renumbers ℓ code ν ν') : ∀ {s : Stmt} {ρs}, NoRenaming ρs →
    Shifts ℓ code k k' s.tokens → s.Formed → Stmt.Alike ℓ code ρs (s.moved k ν) (s.moved k' ν')
  | .expression value, _, hρs, ht, h => by
      simp only [Stmt.Formed] at h
      exact .expression (value.alike_moved hν hρs ht h)
  | .print value, _, hρs, ht, h => by
      simp only [Stmt.Formed] at h
      exact .print (value.alike_moved hν hρs ht h)
  | .var name none, _, hρs, ht, _ => .var ht.head.1 (hρs.here _)
  | .var name (some value), _, hρs, ht, h => by
      simp only [Stmt.Formed] at h
      exact .initialised ht.head.1 (hρs.here _) (value.alike_moved hν hρs ht.tail h.2)
  | .block body, _, hρs, ht, h => by
      simp only [Stmt.Formed] at h
      exact .block ℓ.renames_id (bodyAlike_moved hν hρs.cons ht h)
  | .cond condition yes none, _, hρs, ht, h => by
      simp only [Stmt.Formed] at h
      exact .ifOnly (condition.alike_moved hν hρs ht.left h.1)
        (yes.alike_moved hν hρs ht.right h.2.1)
  | .cond condition yes (some no), _, hρs, ht, h => by
      simp only [Stmt.Formed] at h
      exact .ifElse (condition.alike_moved hν hρs ht.left h.1)
        (yes.alike_moved hν hρs ht.right.left h.2.1.1)
        (no.alike_moved hν hρs ht.right.right h.2.2.1)
  | .loop condition body, _, hρs, ht, h => by
      simp only [Stmt.Formed] at h
      exact .loop (condition.alike_moved hν hρs ht.left h.1)
        (body.alike_moved hν hρs ht.right h.2.1)
  | .function decl, _, hρs, ht, h => by
      simp only [Stmt.Formed] at h
      exact .function (hρs.here _).symm (decl.alike_moved hν hρs ht h.2)
  | .ret keyword none, _, _, ht, _ => .ret ht.head.1
  | .ret keyword (some value), _, hρs, ht, h => by
      simp only [Stmt.Formed] at h
      exact .returned ht.head.1 (value.alike_moved hν hρs ht.tail h)
  | .classDecl name none methods, _, hρs, ht, h => by
      simp only [Stmt.Formed] at h
      exact .classDecl ht.head (hρs.here _).symm .none
        (methodsAlike_moved hν (hρs.ofClass none) ht.tail h.2)
  | .classDecl name (some (id, base)) methods, _, hρs, ht, h => by
      simp only [Stmt.Formed] at h
      simp only [Stmt.moved, ← hν.renumber]
      exact .classDecl ht.head (hρs.here _).symm
        (.some (hν.numbered id) ht.tail.head.1 (hρs.at _ _))
        (methodsAlike_moved hν (hρs.ofClass (some (ν id, base.down k))) ht.tail.tail h.2.2)
  | .missing, _, _, _, h => by simp only [Stmt.Formed] at h
  | .misplaced _, _, _, _, h => by simp only [Stmt.Formed] at h

theorem bodyAlike_moved (hν : Renumbers ℓ code ν ν') : ∀ {ss : List Stmt} {ρs}, NoRenaming ρs →
    Shifts ℓ code k k' (bodyTokens ss) → bodyFormed ss →
      BodyAlike ℓ code ρs (movedBody k ν ss) (movedBody k' ν' ss)
  | [], _, _, _, _ => .nil
  | s :: ss, _, hρs, ht, h => by
      simp only [bodyFormed] at h
      exact .cons (s.alike_moved hν hρs ht.left h.1) (bodyAlike_moved hν hρs ht.right h.2)

theorem FunDecl.alike_moved (hν : Renumbers ℓ code ν ν') : ∀ {decl : FunDecl} {ρs},
    NoRenaming ρs → Shifts ℓ code k k' decl.tokens → decl.Formed →
      FunDecl.Alike ℓ code ρs (decl.moved k ν) (decl.moved k' ν')
  | .mk name params body, _, hρs, ht, h => by
      simp only [FunDecl.Formed] at h
      exact .mk ht.head ℓ.renames_id (paramsAlike_moved ht.tail.left)
        (bodyAlike_moved hν hρs.cons ht.tail.right h.2)

theorem methodsAlike_moved (hν : Renumbers ℓ code ν ν') : ∀ {decls : List FunDecl} {ρs},
    NoRenaming ρs → Shifts ℓ code k k' (methodTokens decls) → methodsFormed decls →
      MethodsAlike ℓ code ρs (movedMethods k ν decls) (movedMethods k' ν' decls)
  | [], _, _, _, _ => .nil
  | decl :: decls, _, hρs, ht, h => by
      simp only [methodsFormed] at h
      exact .cons (decl.alike_moved hν hρs ht.left h.1) (methodsAlike_moved hν hρs ht.right h.2)

end

end

end Lox
