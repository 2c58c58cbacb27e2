import Lox.Proofs.Renaming.Resolution
import Lox.Proofs.Simulation.Likeness

/-!
# A renamed program is like the program

Scopes in which the variable got its new name rename it, and all other scopes rename nothing.
-/

namespace Lox.Renaming

variable {r : Renaming} {ℓ : Likeness} {code : Code} {marks : List Bool}

/-- A likeness that allows for the renaming, and code with the distances that it goes by. -/
structure Permitted (r : Renaming) (ℓ : Likeness) (code : Code) : Prop where
  token : ∀ mark t, ℓ.token code.own t (r.token mark t)
  renames : ∀ mark, ℓ.renames (r.rename mark)
  renumber : ∀ id, code.renumber id = id
  table : code.table = r.table

theorem Permitted.number (h : r.Permitted ℓ code) (id : NodeId) :
    ℓ.number id (code.renumber id) := by
  rw [h.renumber]
  exact ℓ.number_refl id

theorem Permitted.still (h : r.Permitted ℓ code) (t : Token) : ℓ.token code.own t t :=
  h.token false t

theorem Permitted.word (h : r.Permitted ℓ code) (t : Token) : ℓ.word code.own t t :=
  ⟨h.still t, rfl⟩

theorem renameAt_eq (h : r.Permitted ℓ code) (id : NodeId) (x : String) :
    renameAt code (marks.map r.rename) id x = r.rename (r.leads marks id) x := by
  unfold renameAt leads markAt
  rw [h.table]
  cases r.table id with
  | none => rfl
  | some k =>
      dsimp only
      rw [List.getElem?_map]
      cases marks[k]? <;> rfl

theorem renameHere_eq (x : String) :
    renameHere (marks.map r.rename) x = r.rename (marks.headD false) x := by
  cases marks <;> rfl

section

variable {t : Token} {id : NodeId}

theorem lexeme_at (h : r.Permitted ℓ code) (hnew : t.lexeme ≠ r.new) :
    (r.token (r.leads marks id) t).lexeme = renameAt code (marks.map r.rename) id t.lexeme := by
  rw [renameAt_eq h, lexeme_token hnew]

theorem lexeme_here (hnew : t.lexeme ≠ r.new) :
    (r.token (marks.headD false) t).lexeme = renameHere (marks.map r.rename) t.lexeme := by
  rw [renameHere_eq, lexeme_token hnew]

theorem title_here (hnew : t.lexeme ≠ r.new) (hold : marks.headD false = true → t.lexeme ≠ r.old) :
    renameHere (marks.map r.rename) t.lexeme = t.lexeme := by
  rw [← lexeme_here hnew, token_of_ne hold]

end

mutual

theorem expr_alike (hr : r.Permitted ℓ code) : ∀ {e : Expr}, e.Formed → r.new ∉ e.variables →
    Expr.Alike ℓ code (marks.map r.rename) e (r.expr marks e)
  | .literal id _, _, _ => .literal (ℓ.number_refl id)
  | .grouping id inner, h, hnew => by
      simp only [Expr.Formed] at h
      exact .grouping (ℓ.number_refl id) (expr_alike hr h hnew)
  | .unary id op right, h, hnew => by
      simp only [Expr.Formed] at h
      exact .unary (ℓ.number_refl id) (hr.still op) (expr_alike hr h.2 hnew)
  | .binary id left op right, h, hnew => by
      simp only [Expr.Formed] at h
      simp only [Expr.variables, List.mem_append, not_or] at hnew
      exact .binary (ℓ.number_refl id) (expr_alike hr h.2.1 hnew.1) (hr.still op) (expr_alike hr h.2.2 hnew.2)
  | .logical id left op right, h, hnew => by
      simp only [Expr.Formed] at h
      simp only [Expr.variables, List.mem_append, not_or] at hnew
      exact .logical (ℓ.number_refl id) (expr_alike hr h.1 hnew.1) (hr.still op) (expr_alike hr h.2 hnew.2)
  | .read id name, _, hnew => by
      simp only [Expr.variables, List.mem_singleton] at hnew
      have hread := Expr.Alike.read (hr.number id) (hr.token (r.leads marks id) name)
        (lexeme_at hr (Ne.symm hnew))
      rwa [hr.renumber] at hread
  | .assign id name value, h, hnew => by
      simp only [Expr.Formed] at h
      simp only [Expr.variables, List.mem_cons, not_or] at hnew
      have hassign := Expr.Alike.assign (hr.number id) (hr.token (r.leads marks id) name)
        (lexeme_at hr (Ne.symm hnew.1)) (expr_alike hr h.2 hnew.2)
      rwa [hr.renumber] at hassign
  | .call id callee paren arguments, h, hnew => by
      simp only [Expr.Formed] at h
      simp only [Expr.variables, List.mem_append, not_or] at hnew
      exact .call (ℓ.number_refl id) (expr_alike hr h.1 hnew.1) (hr.still paren) (exprs_alike hr h.2 hnew.2)
  | .get id object name, h, hnew => by
      simp only [Expr.Formed] at h
      exact .get (ℓ.number_refl id) (expr_alike hr h hnew) (hr.word name)
  | .set id object name value, h, hnew => by
      simp only [Expr.Formed] at h
      simp only [Expr.variables, List.mem_append, not_or] at hnew
      exact .set (ℓ.number_refl id) (expr_alike hr h.1 hnew.1) (hr.word name) (expr_alike hr h.2 hnew.2)
  | .self id keyword, _, _ => by
      have hself : Expr.Alike ℓ code (marks.map r.rename) _ _ :=
        .self (hr.number id) (hr.word keyword)
      rwa [hr.renumber] at hself
  | .super id keyword method, _, _ => by
      have hsuper : Expr.Alike ℓ code (marks.map r.rename) _ _ :=
        .super (hr.number id) (hr.word keyword) (hr.word method)
      rwa [hr.renumber] at hsuper
  | .missing, h, _ => by simp only [Expr.Formed] at h
  | .misplaced _, h, _ => by simp only [Expr.Formed] at h

theorem exprs_alike (hr : r.Permitted ℓ code) : ∀ {es : List Expr}, argumentsFormed es →
    r.new ∉ argumentVariables es →
      ArgumentsAlike ℓ code (marks.map r.rename) es (r.exprs marks es)
  | [], _, _ => .nil
  | e :: es, h, hnew => by
      simp only [argumentsFormed] at h
      simp only [argumentVariables, List.mem_append, not_or] at hnew
      exact .cons (expr_alike hr h.1 hnew.1) (exprs_alike hr h.2 hnew.2)

end

theorem params_alike (hr : r.Permitted ℓ code) (mark : Bool) {params : List Token}
    (hnew : ∀ p ∈ params, p.lexeme ≠ r.new) :
    List.Forall₂ (fun p p' : Token => ℓ.token code.own p p' ∧ p'.lexeme = r.rename mark p.lexeme) params
      (params.map (r.token mark)) := by
  induction params with
  | nil => exact .nil
  | cons p params ih =>
      exact .cons ⟨hr.token mark p, lexeme_token (hnew p List.mem_cons_self)⟩
        (ih fun q hq => hnew q (List.mem_cons_of_mem _ hq))

mutual

theorem stmt_alike (hr : r.Permitted ℓ code) :
    ∀ {s : Stmt} {marks : List Bool} {chosen : Nat → Bool}, s.Formed → r.new ∉ s.variables →
    r.Spares s.scopeTexts chosen → (marks.headD false = true → r.old ∉ s.titles) →
      Stmt.Alike ℓ code (marks.map r.rename) s (r.stmt chosen marks s)
  | .expression value, _, _, h, hnew, _, _ => by
      simp only [Stmt.Formed] at h
      exact .expression (expr_alike hr h hnew)
  | .print value, _, _, h, hnew, _, _ => by
      simp only [Stmt.Formed] at h
      exact .print (expr_alike hr h hnew)
  | .var name none, _, _, _, hnew, _, _ => by
      simp only [Stmt.variables, List.mem_singleton] at hnew
      exact .var (hr.token _ name) (lexeme_here (Ne.symm hnew))
  | .var name (some value), _, _, h, hnew, _, _ => by
      simp only [Stmt.Formed] at h
      simp only [Stmt.variables, List.mem_cons, not_or] at hnew
      exact .initialised (hr.token _ name) (lexeme_here (Ne.symm hnew.1))
        (expr_alike hr h.2 hnew.2)
  | .block ss, marks, chosen, h, hnew, htexts, _ => by
      simp only [Stmt.Formed] at h
      simp only [Stmt.scopeTexts] at htexts
      have hbody : BodyAlike ℓ code ((chosen 0 :: marks).map r.rename) ss _ :=
        body_alike hr h hnew htexts.tail htexts.head
      exact .block (hr.renames (chosen 0)) hbody
  | .cond condition yes none, _, _, h, hnew, htexts, _ => by
      simp only [Stmt.Formed] at h
      simp only [Stmt.variables, List.mem_append, not_or] at hnew
      refine .ifOnly (expr_alike hr h.1 hnew.1) (stmt_alike hr h.2.1 hnew.2 htexts fun _ => ?_)
      rw [Stmt.titles_of_declares h.2.2]
      exact List.not_mem_nil
  | .cond condition yes (some no), _, _, h, hnew, htexts, _ => by
      simp only [Stmt.Formed] at h
      simp only [Stmt.variables, List.mem_append, not_or] at hnew
      simp only [Stmt.scopeTexts] at htexts
      refine .ifElse (expr_alike hr h.1 hnew.1.1)
        (stmt_alike hr h.2.1.1 hnew.1.2 htexts.left fun _ => ?_)
        (stmt_alike hr h.2.2.1 hnew.2 htexts.right fun _ => ?_)
      · rw [Stmt.titles_of_declares h.2.1.2]
        exact List.not_mem_nil
      · rw [Stmt.titles_of_declares h.2.2.2]
        exact List.not_mem_nil
  | .loop condition s, _, _, h, hnew, htexts, _ => by
      simp only [Stmt.Formed] at h
      simp only [Stmt.variables, List.mem_append, not_or] at hnew
      refine .loop (expr_alike hr h.1 hnew.1) (stmt_alike hr h.2.1 hnew.2 htexts fun _ => ?_)
      rw [Stmt.titles_of_declares h.2.2]
      exact List.not_mem_nil
  | .function decl, _, _, h, hnew, htexts, htitles => by
      simp only [Stmt.Formed] at h
      simp only [Stmt.variables, List.mem_cons, not_or] at hnew
      refine .function (title_here (Ne.symm hnew.1) fun hmark heq => ?_)
        (function_alike hr h.2 hnew.2 htexts)
      exact htitles hmark (heq ▸ List.mem_cons_self)
  | .ret keyword none, _, _, _, _, _, _ => .ret (hr.still keyword)
  | .ret keyword (some value), _, _, h, hnew, _, _ => by
      simp only [Stmt.Formed] at h
      exact .returned (hr.still keyword) (expr_alike hr h hnew)
  | .classDecl name none decls, marks, _, h, hnew, htexts, htitles => by
      simp only [Stmt.Formed] at h
      simp only [Stmt.variables, List.mem_cons, not_or] at hnew
      have hmethods : MethodsAlike ℓ code ((false :: marks).map r.rename) decls _ :=
        methods_alike hr h.2 hnew.2 htexts
      refine .classDecl (hr.word name) (title_here (Ne.symm hnew.1) fun hmark heq => ?_) .none
        hmethods
      exact htitles hmark (heq ▸ List.mem_cons_self)
  | .classDecl name (some (id, superclass)) decls, marks, _, h, hnew, htexts, htitles => by
      simp only [Stmt.Formed] at h
      simp only [Stmt.variables, List.mem_cons, not_or] at hnew
      have hbase := SuperclassAlike.some (hr.number id) (hr.token (r.leads marks id) superclass)
        (lexeme_at hr (Ne.symm hnew.2.1))
      rw [hr.renumber] at hbase
      have hmethods : MethodsAlike ℓ code ((false :: false :: marks).map r.rename) decls _ :=
        methods_alike hr h.2.2 hnew.2.2 htexts
      refine .classDecl (hr.word name) (title_here (Ne.symm hnew.1) fun hmark heq => ?_) hbase
        hmethods
      exact htitles hmark (heq ▸ List.mem_cons_self)
  | .missing, _, _, h, _, _, _ => by simp only [Stmt.Formed] at h
  | .misplaced _, _, _, h, _, _, _ => by simp only [Stmt.Formed] at h

theorem body_alike (hr : r.Permitted ℓ code) :
    ∀ {ss : List Stmt} {marks : List Bool} {chosen : Nat → Bool}, bodyFormed ss →
    r.new ∉ bodyVariables ss → r.Spares (bodyScopeTexts ss) chosen →
    (marks.headD false = true → ∀ s ∈ ss, r.old ∉ s.titles) →
      BodyAlike ℓ code (marks.map r.rename) ss (r.body chosen marks ss)
  | [], _, _, _, _, _, _ => .nil
  | s :: ss, _, _, h, hnew, htexts, htitles => by
      simp only [bodyFormed] at h
      simp only [bodyVariables, List.mem_append, not_or] at hnew
      simp only [bodyScopeTexts] at htexts
      exact .cons
        (stmt_alike hr h.1 hnew.1 htexts.left fun hmark => htitles hmark s List.mem_cons_self)
        (body_alike hr h.2 hnew.2 htexts.right fun hmark s' hs' =>
          htitles hmark s' (List.mem_cons_of_mem _ hs'))

theorem function_alike (hr : r.Permitted ℓ code) :
    ∀ {decl : FunDecl} {marks : List Bool} {chosen : Nat → Bool}, decl.Formed →
    r.new ∉ decl.variables → r.Spares decl.scopeTexts chosen →
      FunDecl.Alike ℓ code (marks.map r.rename) decl (r.function chosen marks decl)
  | .mk name params ss, marks, chosen, h, hnew, htexts => by
      simp only [FunDecl.Formed] at h
      simp only [FunDecl.variables, List.mem_append, List.mem_map, not_or, not_exists,
        not_and] at hnew
      simp only [FunDecl.scopeTexts] at htexts
      have hbody : BodyAlike ℓ code ((chosen 0 :: marks).map r.rename) ss _ :=
        body_alike hr h.2 hnew.2 htexts.tail htexts.head
      exact .mk (hr.word name) (hr.renames (chosen 0)) (params_alike hr (chosen 0) hnew.1) hbody

theorem methods_alike (hr : r.Permitted ℓ code) :
    ∀ {decls : List FunDecl} {marks : List Bool} {chosen : Nat → Bool}, methodsFormed decls →
    r.new ∉ methodVariables decls → r.Spares (methodScopeTexts decls) chosen →
      MethodsAlike ℓ code (marks.map r.rename) decls (r.methods chosen marks decls)
  | [], _, _, _, _, _ => .nil
  | decl :: decls, _, _, h, hnew, htexts => by
      simp only [methodsFormed] at h
      simp only [methodVariables, List.mem_append, not_or] at hnew
      simp only [methodScopeTexts] at htexts
      exact .cons (function_alike hr h.1 hnew.1 htexts.left)
        (methods_alike hr h.2 hnew.2 htexts.right)

end

end Lox.Renaming
