import Lox.Proofs.Renaming.Tree
import Lox.Proofs.Scoping.Distance
import Mathlib.Data.List.Nodup
import Mathlib.Data.List.Pairwise

/-!
# Resolution of renamed variables

A program in which a local variable got a new name is resolved like the program itself: it is
accepted, and each of its references has the distance that it had before.
-/

namespace Lox

/-! ## Findings with the same distances -/

/-- References that differ at most in how they are spelled. -/
structure Reference.SameDistance (r r' : Reference) : Prop where
  id_eq : r'.id = r.id
  kind_eq : r'.kind = r.kind
  hops_eq : r'.hops = r.hops

/-- Findings with the same distances, the second of them without a problem. -/
structure Findings.Agree (found found' : Findings) : Prop where
  references : List.Forall₂ Reference.SameDistance found.references found'.references
  problems : found'.problems = []

namespace Findings.Agree

variable {a a' b b' : Findings}

theorem nil : Agree {} {} :=
  ⟨.nil, rfl⟩

theorem append (ha : Agree a a') (hb : Agree b b') : Agree (a ++ b) (a' ++ b') where
  references := List.rel_append ha.references hb.references
  problems := by rw [Findings.problems_append, ha.problems, hb.problems, List.append_nil]

theorem ofProblems {problems problems' : List Diagnostic} (h : problems' = []) :
    Agree (.ofProblems problems) (.ofProblems problems') :=
  ⟨.nil, h⟩

theorem refer {σ σ' : Scopes} {id : NodeId} {kind : ReferenceKind} {name name' : Token}
    (h : σ'.hops? name'.lexeme = σ.hops? name.lexeme) :
    Agree (.refer σ id kind name) (.refer σ' id kind name') := by
  unfold Findings.refer
  rw [h]
  cases σ.hops? name.lexeme with
  | none => exact nil
  | some hops => exact ⟨.cons ⟨rfl, rfl, rfl⟩ .nil, rfl⟩

theorem hopsOf_eq (h : Agree a a') (id : NodeId) :
    hopsOf a'.references id = hopsOf a.references id := by
  have hreferences := h.references
  generalize a.references = rs at hreferences
  generalize a'.references = rs' at hreferences
  induction hreferences with
  | nil => rfl
  | cons hr _ ih => simp only [hopsOf, ih, hr.id_eq, hr.hops_eq]

end Findings.Agree

/-! ## Declarations of one scope -/

theorem Bindings.binds_iff_mem_names {α : Type} (b : Bindings α) (x : String) :
    b.binds x = true ↔ x ∈ b.names := by
  induction b with
  | nil => simp [Bindings.names]
  | cons entry b ih =>
      obtain ⟨key, value⟩ := entry
      by_cases hkey : key = x
      · simp [Bindings.binds, Bindings.find?, Bindings.names, hkey]
      · have hne : ¬ x = key := fun h => hkey h.symm
        simpa [Bindings.binds, Bindings.find?, Bindings.names, hkey, hne] using ih

theorem Scopes.lists_names (σ : Scopes) : σ.Lists (σ.map Bindings.names) := by
  induction σ with
  | nil => exact .nil
  | cons scope σ ih => exact .cons scope.binds_iff_mem_names ih

theorem Stmt.names_new {c : Context} {σ : Scopes} {here : List String} {ns : List (List String)}
    {s : Stmt} (h : σ.Lists (here :: ns)) (hproblems : (s.resolve c σ).1.problems = []) :
    ∀ x ∈ s.names, x ∉ here := by
  have hnew : ∀ {name : Token}, σ.redeclaration name = [] → ∀ x ∈ [name.lexeme], x ∉ here := by
    intro name hdeclared x hx hmem
    rw [List.mem_singleton.mp hx] at hmem
    cases h with
    | cons hscope _ => simp [Scopes.redeclaration, (hscope name.lexeme).mpr hmem] at hdeclared
  cases s with
  | var name initial =>
      cases initial with
      | none => exact hnew hproblems
      | some value => exact hnew (List.append_eq_nil_iff.mp hproblems).1
  | function decl => exact hnew (List.append_eq_nil_iff.mp hproblems).1
  | classDecl name base methods =>
      cases base with
      | none => exact hnew (List.append_eq_nil_iff.mp hproblems).1
      | some base =>
          have hfirst := (List.append_eq_nil_iff.mp hproblems).1
          exact hnew (List.append_eq_nil_iff.mp (List.append_eq_nil_iff.mp hfirst).1).1
  | _ =>
      intro x hx
      cases hx

theorem nodup_names {c : Context} {σ : Scopes} {here : List String} {ns : List (List String)}
    {ss : List Stmt} (hformed : bodyFormed ss) (h : σ.Lists (here :: ns))
    (hproblems : (resolveBody c σ ss).1.problems = []) :
    (ss.flatMap Stmt.names).Nodup ∧ ∀ x ∈ ss.flatMap Stmt.names, x ∉ here := by
  induction ss generalizing σ here with
  | nil => exact ⟨.nil, nofun⟩
  | cons s ss ih =>
      simp only [bodyFormed] at hformed
      simp only [resolveBody, Findings.problems_append, List.append_eq_nil_iff] at hproblems
      have hfirst := Stmt.names_new h hproblems.1
      obtain ⟨hnodup, hlater⟩ := ih hformed.2 (s.lists_snd hformed.1 h) hproblems.2
      rw [List.flatMap_cons]
      refine ⟨List.nodup_append.mpr ⟨?_, hnodup, fun x hx y hy heq => ?_⟩, fun x hx hmem => ?_⟩
      · cases s <;> simp [Stmt.names]
      · exact hlater y hy (heq ▸ List.mem_append_left here hx)
      · rcases List.mem_append.mp hx with hx | hx
        · exact hfirst x hx hmem
        · exact hlater x hx (List.mem_append_right _ hmem)

/-- A scope of an accepted program that has a variable has no function or class of that name. -/
theorem ScopeText.HasVariable.not_mem_titles {text : ScopeText} {x : String}
    (h : text.HasVariable x) {c : Context} {σ : Scopes} {ns : List (List String)}
    (hlists : σ.Lists (text.params.map Token.lexeme :: ns)) (hformed : bodyFormed text.body)
    (hproblems : (resolveBody c σ text.body).1.problems = []) : ∀ s ∈ text.body, x ∉ s.titles := by
  intro s hs hx
  obtain ⟨hnodup, hnew⟩ := nodup_names hformed hlists hproblems
  have hnames : x ∈ s.names := by
    cases s with
    | function _ => exact hx
    | classDecl _ _ _ => exact hx
    | _ => cases hx
  rcases h with ⟨param, hparam, rfl⟩ | ⟨t, initial, hvar, rfl⟩
  · exact hnew _ (List.mem_flatMap.mpr ⟨s, hs, hnames⟩) (List.mem_map_of_mem hparam)
  · have hdisjoint := (List.nodup_flatMap.mp hnodup).2
    have hother : Stmt.var t initial ≠ s := by
      rintro rfl
      cases hx
    have : Std.Symm (Function.onFun List.Disjoint Stmt.names) := ⟨fun _ _ h _ hx hy => h hy hx⟩
    exact hdisjoint.forall hvar hs hother List.mem_cons_self hnames

mutual

theorem Stmt.reaches_scope {root : Part} : ∀ {s : Stmt} {c : Context} {σ : Scopes} {text : ScopeText},
    Reaches root c σ (.stmt s) → text ∈ s.scopeTexts →
      ∃ c' σ', Reaches root c' (resolveParams ([] :: σ') text.params).2 (.body text.body)
  | .block ss, c, σ, _, h, htext => by
      simp only [Stmt.scopeTexts] at htext
      rcases List.mem_cons.mp htext with rfl | htext
      · exact ⟨c, σ, h.block⟩
      · exact body_reaches_scope h.block htext
  | .cond _ yes none, _, _, _, h, htext => yes.reaches_scope h.yes htext
  | .cond _ yes (some no), _, _, _, h, htext => by
      simp only [Stmt.scopeTexts] at htext
      rcases List.mem_append.mp htext with htext | htext
      · exact yes.reaches_scope h.yes htext
      · exact no.reaches_scope h.no htext
  | .loop _ s, _, _, _, h, htext => s.reaches_scope h.loopBody htext
  | .function decl, _, _, _, h, htext => decl.reaches_scope h.function htext
  | .classDecl _ _ decls, _, _, _, h, htext => methods_reach_scope h.methods htext
  | .expression _, _, _, _, _, htext => absurd htext List.not_mem_nil
  | .print _, _, _, _, _, htext => absurd htext List.not_mem_nil
  | .var _ _, _, _, _, _, htext => absurd htext List.not_mem_nil
  | .ret _ _, _, _, _, _, htext => absurd htext List.not_mem_nil
  | .missing, _, _, _, _, htext => absurd htext List.not_mem_nil
  | .misplaced _, _, _, _, _, htext => absurd htext List.not_mem_nil

theorem body_reaches_scope {root : Part} :
    ∀ {ss : List Stmt} {c : Context} {σ : Scopes} {text : ScopeText},
    Reaches root c σ (.body ss) → text ∈ bodyScopeTexts ss →
      ∃ c' σ', Reaches root c' (resolveParams ([] :: σ') text.params).2 (.body text.body)
  | [], _, _, _, _, htext => absurd htext List.not_mem_nil
  | s :: ss, _, _, _, h, htext => by
      simp only [bodyScopeTexts] at htext
      rcases List.mem_append.mp htext with htext | htext
      · exact s.reaches_scope h.firstStmt htext
      · exact body_reaches_scope h.moreStmts htext

theorem FunDecl.reaches_scope {root : Part} :
    ∀ {decl : FunDecl} {c : Context} {σ : Scopes} {text : ScopeText},
    Reaches root c σ (.function decl) → text ∈ decl.scopeTexts →
      ∃ c' σ', Reaches root c' (resolveParams ([] :: σ') text.params).2 (.body text.body)
  | .mk _ params ss, c, σ, _, h, htext => by
      simp only [FunDecl.scopeTexts] at htext
      rcases List.mem_cons.mp htext with rfl | htext
      · exact ⟨c, σ, h.functionBody⟩
      · exact body_reaches_scope h.functionBody htext

theorem methods_reach_scope {root : Part} :
    ∀ {decls : List FunDecl} {c : Context} {σ : Scopes} {text : ScopeText},
    Reaches root c σ (.methods decls) → text ∈ methodScopeTexts decls →
      ∃ c' σ', Reaches root c' (resolveParams ([] :: σ') text.params).2 (.body text.body)
  | [], _, _, _, _, htext => absurd htext List.not_mem_nil
  | decl :: decls, _, _, _, h, htext => by
      simp only [methodScopeTexts] at htext
      rcases List.mem_append.mp htext with htext | htext
      · exact decl.reaches_scope h.firstMethod htext
      · exact methods_reach_scope h.moreMethods htext

end

namespace Renaming

variable (r : Renaming)

/-! ## Names and scopes -/

/-- How a scope renames its variables, if the variable is renamed in it. -/
def rename (mark : Bool) (x : String) : String :=
  if mark then if x = r.old then r.new else if x = r.new then r.old else x else x

/-- Open scopes in which the variable is renamed where there is a mark.  None of them declares the new
name before. -/
inductive ScopesAlike : List Bool → Scopes → Scopes → Prop where
  | nil : ScopesAlike [] [] []
  | cons : Bindings.Alike Eq (r.rename mark) scope scope' → scope.binds r.new = false →
      ScopesAlike marks σ σ' → ScopesAlike (mark :: marks) (scope :: σ) (scope' :: σ')

variable {r} {mark : Bool} {x : String}

theorem rename_rename (a b : Bool) (x : String) :
    r.rename a (r.rename b x) = r.rename (a ^^ b) x := by
  cases a with
  | false => cases b <;> rfl
  | true =>
      cases b with
      | false => rfl
      | true =>
          simp only [rename, Bool.xor_self, if_true, Bool.false_eq_true, if_false]
          grind

theorem rename_injective {y : String} (h : r.rename mark x = r.rename mark y) : x = y := by
  have hback := congrArg (r.rename mark) h
  rwa [rename_rename, rename_rename, Bool.xor_self] at hback

theorem rename_of_ne (hold : x ≠ r.old) (hnew : x ≠ r.new) : r.rename mark x = x := by
  simp [rename, hold, hnew]

theorem lexeme_token {t : Token} (hnew : t.lexeme ≠ r.new) :
    (r.token mark t).lexeme = r.rename mark t.lexeme := by
  unfold token rename
  cases mark with
  | false => rfl
  | true => by_cases hold : t.lexeme = r.old <;> simp [hold, hnew]

theorem token_of_ne {t : Token} (h : mark = true → t.lexeme ≠ r.old) : r.token mark t = t :=
  if_neg fun hboth => h hboth.1 hboth.2

section

variable {scope scope' : Scope}

theorem find?_rename (h : Bindings.Alike Eq (r.rename mark) scope scope') (x : String) :
    scope'.find? (r.rename mark x) = scope.find? x := by
  rcases option_rel_cases (h.find? rename_injective x) with ⟨hx, hx'⟩ | ⟨b, _, hx, hx', rfl⟩
  · rw [hx, hx']
  · rw [hx, hx']

theorem binds_rename (h : Bindings.Alike Eq (r.rename mark) scope scope') (x : String) :
    scope'.binds (r.rename mark x) = scope.binds x := by
  unfold Bindings.binds
  rw [find?_rename h]

/-- A name that a scope does not bind is not bound by the renamed scope either, under whichever of its
two names. -/
theorem unbound_rename (h : Bindings.Alike Eq (r.rename mark) scope scope')
    (hfresh : scope.binds r.new = false) (hnew : x ≠ r.new) (hx : scope.binds x = false) (b : Bool) :
    scope'.binds (r.rename b x) = false := by
  have hback : r.rename b x = r.rename mark (r.rename (mark ^^ b) x) := by
    rw [rename_rename, ← Bool.xor_assoc, Bool.xor_self, Bool.false_xor]
  rw [hback, binds_rename h]
  generalize (mark ^^ b) = a
  by_cases hold : x = r.old
  · subst hold
    cases a with
    | false => exact hx
    | true => simpa [rename] using hfresh
  · rwa [rename_of_ne hold hnew]

end

namespace ScopesAlike

variable {marks : List Bool} {σ σ' : Scopes} {t : Token} {id : NodeId} {kind : ReferenceKind}

theorem hops?_eq (h : r.ScopesAlike marks σ σ') (hnew : x ≠ r.new) :
    σ'.hops? (r.rename (markAt marks (σ.hops? x)) x) = σ.hops? x := by
  -- The scopes are left one by one until one binds the name.  Its mark decides how the name is
  -- spelled, and no nearer scope binds it in either spelling.
  induction h with
  | nil => rfl
  | @cons mark scope scope' marks σ σ' hscope hfresh _ ih =>
      rw [Scopes.hops?_cons, Scopes.hops?_cons]
      by_cases hx : scope.binds x = true
      · rw [if_pos hx]
        exact if_pos ((binds_rename hscope x).trans hx)
      · have hx : scope.binds x = false := Bool.eq_false_iff.mpr hx
        have hmark : markAt (mark :: marks) ((σ.hops? x).map (· + 1)) =
            markAt marks (σ.hops? x) := by
          cases σ.hops? x <;> rfl
        rw [if_neg (Bool.eq_false_iff.mp hx), hmark, ih,
          if_neg (Bool.eq_false_iff.mp (unbound_rename hscope hfresh hnew hx _))]

theorem prematureRead_eq (h : r.ScopesAlike marks σ σ') (hnew : t.lexeme ≠ r.new)
    (hread : σ.prematureRead t = []) :
    σ'.prematureRead (r.token (markAt marks (σ.hops? t.lexeme)) t) = [] := by
  cases h with
  | nil => rfl
  | @cons mark scope scope' marks σ σ' hscope hfresh _ =>
      have hinitialised : scope.find? t.lexeme ≠ some false := by
        intro hfalse
        simp [Scopes.prematureRead, hfalse] at hread
      refine if_neg fun hfalse => hinitialised ?_
      rw [lexeme_token hnew, Scopes.hops?_cons] at hfalse
      by_cases hx : scope.binds t.lexeme = true
      · rw [if_pos hx] at hfalse
        exact (find?_rename hscope _).symm.trans hfalse
      · have hnone := unbound_rename hscope hfresh hnew (Bool.eq_false_iff.mpr hx)
          (markAt (mark :: marks) (if scope.binds t.lexeme = true then some 0
            else (Scopes.hops? σ t.lexeme).map (· + 1)))
        rw [Bindings.binds_eq_false.mp hnone] at hfalse
        cases hfalse

theorem agree_refer (h : r.ScopesAlike marks σ σ') (hnew : t.lexeme ≠ r.new)
    (htable : r.table id = σ.hops? t.lexeme) :
    Findings.Agree (.refer σ id kind t) (.refer σ' id kind (r.token (r.leads marks id) t)) := by
  refine .refer ?_
  rw [leads, htable, lexeme_token hnew]
  exact h.hops?_eq hnew

theorem agree_read (h : r.ScopesAlike marks σ σ') (hnew : t.lexeme ≠ r.new)
    (htable : r.table id = σ.hops? t.lexeme) (hread : σ.prematureRead t = []) :
    Findings.Agree (resolveRead σ id t) (resolveRead σ' id (r.token (r.leads marks id) t)) := by
  refine .append (.ofProblems ?_) (h.agree_refer hnew htable)
  rw [leads, htable]
  exact h.prematureRead_eq hnew hread

theorem agree_keyword (h : r.ScopesAlike marks σ σ') (hold : t.lexeme ≠ r.old)
    (hnew : t.lexeme ≠ r.new) : Findings.Agree (.refer σ id kind t) (.refer σ' id kind t) := by
  refine .refer ?_
  have hhops := h.hops?_eq hnew
  rwa [rename_of_ne hold hnew] at hhops

theorem redeclaration_eq (h : r.ScopesAlike marks σ σ') (hnew : t.lexeme ≠ r.new)
    (hdeclared : σ.redeclaration t = []) :
    σ'.redeclaration (r.token (marks.headD false) t) = [] := by
  cases h with
  | nil => rfl
  | @cons mark scope scope' marks σ σ' hscope _ _ =>
      have hunbound : ¬ scope.binds t.lexeme = true := by
        intro hbound
        simp [Scopes.redeclaration, hbound] at hdeclared
      refine if_neg fun hbound => hunbound ?_
      rw [lexeme_token hnew] at hbound
      exact (binds_rename hscope _).symm.trans hbound

theorem declare (h : r.ScopesAlike marks σ σ') (hnew : t.lexeme ≠ r.new) :
    r.ScopesAlike marks (σ.declare t) (σ'.declare (r.token (marks.headD false) t)) := by
  cases h with
  | nil => exact .nil
  | cons hscope hfresh hσ =>
      refine .cons ?_ ?_ hσ
      · rw [lexeme_token hnew]
        exact hscope.set rename_injective _ rfl
      · rw [Bindings.binds_set, hfresh, decide_eq_false hnew, Bool.or_false]

theorem define (h : r.ScopesAlike marks σ σ') (hnew : t.lexeme ≠ r.new) :
    r.ScopesAlike marks (σ.define t) (σ'.define (r.token (marks.headD false) t)) := by
  cases h with
  | nil => exact .nil
  | cons hscope hfresh hσ =>
      refine .cons ?_ ?_ hσ
      · rw [lexeme_token hnew]
        exact hscope.set rename_injective _ rfl
      · rw [Bindings.binds_set, hfresh, decide_eq_false hnew, Bool.or_false]

theorem settle (h : r.ScopesAlike marks σ σ') (hnew : t.lexeme ≠ r.new) :
    r.ScopesAlike marks (σ.settle t) (σ'.settle (r.token (marks.headD false) t)) :=
  (h.declare hnew).define hnew

theorem push (h : r.ScopesAlike marks σ σ') (mark : Bool) :
    r.ScopesAlike (mark :: marks) ([] :: σ) ([] :: σ') :=
  .cons .nil rfl h

theorem fixed (h : r.ScopesAlike marks σ σ') (hnew : x ≠ r.new) :
    r.ScopesAlike (false :: marks) ([(x, true)] :: σ) ([(x, true)] :: σ') :=
  .cons (.cons rfl .nil) (by simp [Bindings.binds, Bindings.find?, hnew]) h

theorem params (h : r.ScopesAlike marks σ σ') {params : List Token}
    (hnew : ∀ p ∈ params, p.lexeme ≠ r.new) (hproblems : (resolveParams σ params).1.problems = []) :
    Findings.Agree (resolveParams σ params).1
        (resolveParams σ' (params.map (r.token (marks.headD false)))).1 ∧
      r.ScopesAlike marks (resolveParams σ params).2
        (resolveParams σ' (params.map (r.token (marks.headD false)))).2 := by
  induction params generalizing σ σ' with
  | nil => exact ⟨.nil, h⟩
  | cons p params ih =>
      have hp := hnew p List.mem_cons_self
      simp only [resolveParams, Findings.problems_append, Findings.problems_ofProblems,
        List.append_eq_nil_iff] at hproblems
      obtain ⟨hfound, hscopes⟩ := ih (h.settle hp) (fun q hq => hnew q (List.mem_cons_of_mem _ hq))
        hproblems.2
      exact ⟨.append (.ofProblems (h.redeclaration_eq hp hproblems.1)) hfound, hscopes⟩

end ScopesAlike

theorem superclassProblems_eq {name base : Token} (hname : name.lexeme ≠ r.new)
    (h : superclassProblems name base = []) (mark : Bool) :
    superclassProblems name (r.token mark base) = [] := by
  unfold token
  split
  · exact if_neg (Ne.symm hname)
  · exact h

/-! ## Walks -/

/-- Neither name is one that classes declare by themselves. -/
structure Proper (r : Renaming) : Prop where
  old : r.old ≠ "this" ∧ r.old ≠ "super"
  new : r.new ≠ "this" ∧ r.new ≠ "super"

variable {root : Part} {c : Context} {marks : List Bool} {σ σ' : Scopes}

mutual

theorem expr_agrees (hproper : r.Proper) (hroot : Checked r.table {} [] root)
    (hσ : r.ScopesAlike marks σ σ') : ∀ {e : Expr}, Reaches root c σ (.expr e) →
    r.new ∉ e.variables → Findings.Agree (e.resolve c σ) ((r.expr marks e).resolve c σ')
  | .literal _ _, _, _ => .nil
  | .grouping _ inner, h, hnew => by
      simp only [Expr.resolve, expr]
      exact expr_agrees hproper hroot hσ h.grouping hnew
  | .unary _ _ right, h, hnew => by
      simp only [Expr.resolve, expr]
      exact expr_agrees hproper hroot hσ h.unary hnew
  | .binary _ left _ right, h, hnew => by
      simp only [Expr.variables, List.mem_append, not_or] at hnew
      simp only [Expr.resolve, expr]
      exact .append (expr_agrees hproper hroot hσ h.binaryLeft hnew.1)
        (expr_agrees hproper hroot hσ h.binaryRight hnew.2)
  | .logical _ left _ right, h, hnew => by
      simp only [Expr.variables, List.mem_append, not_or] at hnew
      simp only [Expr.resolve, expr]
      exact .append (expr_agrees hproper hroot hσ h.logicalLeft hnew.1)
        (expr_agrees hproper hroot hσ h.logicalRight hnew.2)
  | .read id name, h, hnew => by
      simp only [Expr.variables, List.mem_singleton] at hnew
      simp only [Expr.resolve, expr]
      have hchecked := h.checked hroot
      exact hσ.agree_read (Ne.symm hnew) hchecked.read.1 hchecked.sound.behind.1
  | .assign id name value, h, hnew => by
      simp only [Expr.variables, List.mem_cons, not_or] at hnew
      simp only [Expr.resolve, expr]
      exact .append (expr_agrees hproper hroot hσ h.assigned hnew.2)
        (hσ.agree_refer (Ne.symm hnew.1) (h.checked hroot).assign)
  | .call _ callee _ arguments, h, hnew => by
      simp only [Expr.variables, List.mem_append, not_or] at hnew
      simp only [Expr.resolve, expr]
      exact .append (expr_agrees hproper hroot hσ h.callee hnew.1)
        (exprs_agree hproper hroot hσ h.arguments hnew.2)
  | .get _ object _, h, hnew => by
      simp only [Expr.resolve, expr]
      exact expr_agrees hproper hroot hσ h.getObject hnew
  | .set _ object _ value, h, hnew => by
      simp only [Expr.variables, List.mem_append, not_or] at hnew
      simp only [Expr.resolve, expr]
      exact .append (expr_agrees hproper hroot hσ h.setValue hnew.2)
        (expr_agrees hproper hroot hσ h.setObject hnew.1)
  | .self id keyword, h, _ => by
      have hchecked := h.checked hroot
      have hthis : keyword.lexeme = "this" := hchecked.formed
      have hproblems := hchecked.sound.problems
      simp only [Part.resolve, Expr.resolve, expr] at hproblems ⊢
      split at hproblems
      · cases hproblems
      · next hinside =>
          rw [if_neg hinside, if_neg hinside]
          exact hσ.agree_keyword (hthis ▸ hproper.old.1.symm) (hthis ▸ hproper.new.1.symm)
  | .super id keyword method, h, _ => by
      have hchecked := h.checked hroot
      have hsuper : keyword.lexeme = "super" := hchecked.formed
      simp only [Expr.resolve, expr]
      exact .append (.ofProblems hchecked.sound.behind.1)
        (hσ.agree_keyword (hsuper ▸ hproper.old.2.symm) (hsuper ▸ hproper.new.2.symm))
  | .missing, h, _ => absurd (h.checked hroot).formed (by simp [Part.Formed, Expr.Formed])
  | .misplaced _, h, _ => absurd (h.checked hroot).formed (by simp [Part.Formed, Expr.Formed])

theorem exprs_agree (hproper : r.Proper) (hroot : Checked r.table {} [] root)
    (hσ : r.ScopesAlike marks σ σ') : ∀ {es : List Expr}, Reaches root c σ (.exprs es) →
    r.new ∉ argumentVariables es →
      Findings.Agree (resolveArguments c σ es) (resolveArguments c σ' (r.exprs marks es))
  | [], _, _ => .nil
  | e :: es, h, hnew => by
      simp only [argumentVariables, List.mem_append, not_or] at hnew
      simp only [resolveArguments, exprs]
      exact .append (expr_agrees hproper hroot hσ h.firstArgument hnew.1)
        (exprs_agree hproper hroot hσ h.moreArguments hnew.2)

end

variable (r) in
/-- No chosen scope declares a function or class of the name that is replaced. -/
def Spares (texts : List ScopeText) (chosen : Nat → Bool) : Prop :=
  ∀ {i text}, texts[i]? = some text → chosen i = true → ∀ s ∈ text.body, r.old ∉ s.titles

theorem Spares.left {texts texts' : List ScopeText} {chosen : Nat → Bool}
    (h : r.Spares (texts ++ texts') chosen) : r.Spares texts chosen := by
  intro i text hi
  obtain ⟨hlt, -⟩ := List.getElem?_eq_some_iff.mp hi
  exact h ((List.getElem?_append_left hlt).trans hi)

theorem Spares.right {texts texts' : List ScopeText} {chosen : Nat → Bool}
    (h : r.Spares (texts ++ texts') chosen) :
    r.Spares texts' fun i => chosen (i + texts.length) := by
  intro i text hi
  refine h (i := i + texts.length) ?_
  rw [List.getElem?_append_right (Nat.le_add_left _ _), Nat.add_sub_cancel]
  exact hi

theorem Spares.tail {text : ScopeText} {texts : List ScopeText} {chosen : Nat → Bool}
    (h : r.Spares (text :: texts) chosen) : r.Spares texts fun i => chosen (i + 1) :=
  fun hi => h hi

theorem Spares.head {text : ScopeText} {texts : List ScopeText} {chosen : Nat → Bool}
    (h : r.Spares (text :: texts) chosen) (hchosen : chosen 0 = true) :
    ∀ s ∈ text.body, r.old ∉ s.titles :=
  h (i := 0) rfl hchosen

/-- If one scope is chosen that has the variable, no function or class gets in the way. -/
theorem spares_of_hasVariable {ss : List Stmt} {i : Nat} {text : ScopeText}
    (hroot : Checked r.table {} [] (.body ss)) (htext : (bodyScopeTexts ss)[i]? = some text)
    (hvariable : text.HasVariable r.old) : r.Spares (bodyScopeTexts ss) fun j => j == i := by
  intro j other hj hchosen
  obtain rfl : j = i := eq_of_beq hchosen
  obtain rfl : text = other := Option.some.inj (htext.symm.trans hj)
  obtain ⟨c, σ, hreaches⟩ := body_reaches_scope .root (List.mem_of_getElem? htext)
  have hchecked := hreaches.checked hroot
  have hopen : Scopes.Lists ([] :: σ) ([] :: σ.map Bindings.names) :=
    .cons (fun x => by simp) (Scopes.lists_names σ)
  have hlists := hopen.params text.params
  simp only [addNames, List.append_nil] at hlists
  exact hvariable.not_mem_titles hlists hchecked.formed hchecked.sound.problems

mutual

theorem stmt_agrees (hproper : r.Proper) (hroot : Checked r.table {} [] root) :
    ∀ {s : Stmt} {c : Context} {σ σ' : Scopes} {marks : List Bool} {chosen : Nat → Bool},
    r.ScopesAlike marks σ σ' → Reaches root c σ (.stmt s) → r.new ∉ s.variables →
    r.Spares s.scopeTexts chosen → (marks.headD false = true → r.old ∉ s.titles) →
      Findings.Agree (s.resolve c σ).1 ((r.stmt chosen marks s).resolve c σ').1 ∧
        r.ScopesAlike marks (s.resolve c σ).2 ((r.stmt chosen marks s).resolve c σ').2
  | .expression value, _, _, _, _, _, hσ, h, hnew, _, _ =>
      ⟨expr_agrees hproper hroot hσ h.expression hnew, hσ⟩
  | .print value, _, _, _, _, _, hσ, h, hnew, _, _ =>
      ⟨expr_agrees hproper hroot hσ h.print hnew, hσ⟩
  | .var name none, _, _, _, _, _, hσ, h, hnew, _, _ => by
      simp only [Stmt.variables, List.mem_singleton] at hnew
      have hnew : name.lexeme ≠ r.new := Ne.symm hnew
      exact ⟨.ofProblems (hσ.redeclaration_eq hnew (h.checked hroot).sound.problems),
        hσ.settle hnew⟩
  | .var name (some value), _, _, _, _, _, hσ, h, hnew, _, _ => by
      simp only [Stmt.variables, List.mem_cons, not_or] at hnew
      have hname : name.lexeme ≠ r.new := Ne.symm hnew.1
      exact ⟨.append (.ofProblems (hσ.redeclaration_eq hname (h.checked hroot).sound.behind.1))
        (expr_agrees hproper hroot (hσ.declare hname) h.initial hnew.2), hσ.settle hname⟩
  | .block ss, _, _, _, _, chosen, hσ, h, hnew, htexts, _ => by
      simp only [Stmt.scopeTexts] at htexts
      exact ⟨(body_agrees hproper hroot (hσ.push (chosen 0)) h.block hnew htexts.tail
        htexts.head).1, hσ⟩
  | .cond condition yes none, _, _, _, _, _, hσ, h, hnew, htexts, _ => by
      have hformed := (h.checked hroot).formed
      simp only [Part.Formed, Stmt.Formed] at hformed
      simp only [Stmt.variables, List.mem_append, not_or] at hnew
      have hyes := stmt_agrees hproper hroot hσ h.yes hnew.2 htexts fun _ => by
        rw [Stmt.titles_of_declares hformed.2.2]
        exact List.not_mem_nil
      exact ⟨.append (expr_agrees hproper hroot hσ h.condition hnew.1) hyes.1, hyes.2⟩
  | .cond condition yes (some no), _, _, _, _, _, hσ, h, hnew, htexts, _ => by
      have hformed := (h.checked hroot).formed
      simp only [Part.Formed, Stmt.Formed] at hformed
      simp only [Stmt.variables, List.mem_append, not_or] at hnew
      simp only [Stmt.scopeTexts] at htexts
      have hyes := stmt_agrees hproper hroot hσ h.yes hnew.1.2 htexts.left fun _ => by
        rw [Stmt.titles_of_declares hformed.2.1.2]
        exact List.not_mem_nil
      have hno := stmt_agrees hproper hroot hyes.2 h.no hnew.2 htexts.right fun _ => by
        rw [Stmt.titles_of_declares hformed.2.2.2]
        exact List.not_mem_nil
      exact ⟨.append (.append (expr_agrees hproper hroot hσ h.condition hnew.1.1) hyes.1) hno.1,
        hno.2⟩
  | .loop condition s, _, _, _, _, _, hσ, h, hnew, htexts, _ => by
      have hformed := (h.checked hroot).formed
      simp only [Part.Formed, Stmt.Formed] at hformed
      simp only [Stmt.variables, List.mem_append, not_or] at hnew
      have hbody := stmt_agrees hproper hroot hσ h.loopBody hnew.2 htexts fun _ => by
        rw [Stmt.titles_of_declares hformed.2.2]
        exact List.not_mem_nil
      exact ⟨.append (expr_agrees hproper hroot hσ h.loopCondition hnew.1) hbody.1, hbody.2⟩
  | .function (.mk name params ss), _, _, _, marks, _, hσ, h, hnew, htexts, htitles => by
      simp only [Stmt.variables, List.mem_cons, not_or] at hnew
      have hname : name.lexeme ≠ r.new := Ne.symm hnew.1
      have hsame : r.token (marks.headD false) name = name :=
        token_of_ne fun hmark heq => htitles hmark (heq ▸ List.mem_cons_self)
      have hdeclared := hσ.redeclaration_eq hname (h.checked hroot).sound.behind.1
      have hsettled := hσ.settle hname
      rw [hsame] at hdeclared hsettled
      exact ⟨.append (.ofProblems hdeclared)
        (function_agrees hproper hroot hsettled h.function hnew.2 htexts), hsettled⟩
  | .ret keyword none, _, _, _, _, _, hσ, h, _, _, _ =>
      ⟨.ofProblems (h.checked hroot).sound.problems, hσ⟩
  | .ret keyword (some value), _, _, _, _, _, hσ, h, hnew, _, _ =>
      ⟨.append (.ofProblems (h.checked hroot).sound.behind.1)
        (expr_agrees hproper hroot hσ h.returned hnew), hσ⟩
  | .classDecl name none decls, _, _, _, marks, _, hσ, h, hnew, htexts, htitles => by
      simp only [Stmt.variables, List.mem_cons, not_or] at hnew
      have hname : name.lexeme ≠ r.new := Ne.symm hnew.1
      have hsame : r.token (marks.headD false) name = name :=
        token_of_ne fun hmark heq => htitles hmark (heq ▸ List.mem_cons_self)
      have hdeclared := hσ.redeclaration_eq hname (h.checked hroot).sound.behind.1
      have hsettled := hσ.settle hname
      rw [hsame] at hdeclared hsettled
      exact ⟨.append (.ofProblems hdeclared) (methods_agree hproper hroot
        (hsettled.fixed hproper.new.1.symm) h.methods hnew.2 htexts), hsettled⟩
  | .classDecl name (some (id, superclass)) decls, _, _, _, marks, _, hσ, h, hnew, htexts,
      htitles => by
      simp only [Stmt.variables, List.mem_cons, not_or] at hnew
      have hname : name.lexeme ≠ r.new := Ne.symm hnew.1
      have hbase : superclass.lexeme ≠ r.new := Ne.symm hnew.2.1
      have hsame : r.token (marks.headD false) name = name :=
        token_of_ne fun hmark heq => htitles hmark (heq ▸ List.mem_cons_self)
      obtain ⟨hproblems, hread, htable⟩ := (h.checked hroot).superclassRead
      rw [List.append_eq_nil_iff] at hproblems
      have hdeclared := hσ.redeclaration_eq hname hproblems.1
      have hsettled := hσ.settle hname
      rw [hsame] at hdeclared hsettled
      have hsuper := superclassProblems_eq hname hproblems.2 (r.leads marks id)
      refine ⟨.append (.append (.ofProblems ?_) (hsettled.agree_read hbase htable hread))
        (methods_agree hproper hroot ((hsettled.fixed hproper.new.2.symm).fixed
          hproper.new.1.symm) h.methods hnew.2.2 htexts), hsettled⟩
      rw [hdeclared, hsuper, List.append_nil]
  | .missing, _, _, _, _, _, _, h, _, _, _ =>
      absurd (h.checked hroot).formed (by simp [Part.Formed, Stmt.Formed])
  | .misplaced _, _, _, _, _, _, _, h, _, _, _ =>
      absurd (h.checked hroot).formed (by simp [Part.Formed, Stmt.Formed])

theorem body_agrees (hproper : r.Proper) (hroot : Checked r.table {} [] root) :
    ∀ {ss : List Stmt} {c : Context} {σ σ' : Scopes} {marks : List Bool} {chosen : Nat → Bool},
    r.ScopesAlike marks σ σ' → Reaches root c σ (.body ss) → r.new ∉ bodyVariables ss →
    r.Spares (bodyScopeTexts ss) chosen →
    (marks.headD false = true → ∀ s ∈ ss, r.old ∉ s.titles) →
      Findings.Agree (resolveBody c σ ss).1 (resolveBody c σ' (r.body chosen marks ss)).1 ∧
        r.ScopesAlike marks (resolveBody c σ ss).2 (resolveBody c σ' (r.body chosen marks ss)).2
  | [], _, _, _, _, _, hσ, _, _, _, _ => ⟨.nil, hσ⟩
  | s :: ss, _, _, _, _, _, hσ, h, hnew, htexts, htitles => by
      simp only [bodyVariables, List.mem_append, not_or] at hnew
      simp only [bodyScopeTexts] at htexts
      have hfirst := stmt_agrees hproper hroot hσ h.firstStmt hnew.1 htexts.left
        fun hmark => htitles hmark s List.mem_cons_self
      have hmore := body_agrees hproper hroot hfirst.2 h.moreStmts hnew.2 htexts.right
        fun hmark s' hs' => htitles hmark s' (List.mem_cons_of_mem _ hs')
      exact ⟨.append hfirst.1 hmore.1, hmore.2⟩

theorem function_agrees (hproper : r.Proper) (hroot : Checked r.table {} [] root) :
    ∀ {decl : FunDecl} {c : Context} {σ σ' : Scopes} {marks : List Bool} {chosen : Nat → Bool},
    r.ScopesAlike marks σ σ' → Reaches root c σ (.function decl) → r.new ∉ decl.variables →
    r.Spares decl.scopeTexts chosen →
      Findings.Agree (decl.resolve c σ) ((r.function chosen marks decl).resolve c σ')
  | .mk name params ss, _, _, _, _, chosen, hσ, h, hnew, htexts => by
      simp only [FunDecl.variables, List.mem_append, List.mem_map, not_or, not_exists,
        not_and] at hnew
      simp only [FunDecl.scopeTexts] at htexts
      have hproblems := (h.checked hroot).sound.problems
      simp only [Part.resolve, FunDecl.resolve, Findings.problems_append,
        List.append_eq_nil_iff] at hproblems
      have hparams := (hσ.push (chosen 0)).params hnew.1 hproblems.1
      have hbody := body_agrees hproper hroot hparams.2 h.functionBody hnew.2 htexts.tail htexts.head
      exact .append hparams.1 hbody.1

theorem methods_agree (hproper : r.Proper) (hroot : Checked r.table {} [] root) :
    ∀ {decls : List FunDecl} {c : Context} {σ σ' : Scopes} {marks : List Bool}
      {chosen : Nat → Bool},
    r.ScopesAlike marks σ σ' → Reaches root c σ (.methods decls) → r.new ∉ methodVariables decls →
    r.Spares (methodScopeTexts decls) chosen →
      Findings.Agree (resolveMethods c σ decls)
        (resolveMethods c σ' (r.methods chosen marks decls))
  | [], _, _, _, _, _, _, _, _, _ => .nil
  | decl :: decls, _, _, _, _, _, hσ, h, hnew, htexts => by
      simp only [methodVariables, List.mem_append, not_or] at hnew
      simp only [methodScopeTexts] at htexts
      have hfirst := function_agrees hproper hroot hσ h.firstMethod hnew.1 htexts.left
      have hmore := methods_agree hproper hroot hσ h.moreMethods hnew.2 htexts.right
      obtain ⟨name, params, ss⟩ := decl
      exact .append hfirst hmore

end

end Renaming

end Lox
