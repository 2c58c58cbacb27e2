import Lox.Proofs.Bindings
import Lox.Proofs.Scoping.Walk

/-!
# Parts of accepted programs

`Checked table context scopes part` collects what is known of a part of an accepted program: the walk
finds no problem in it, it has the form that the grammar gives it, the table has the distances that
the walk found, and the scopes are nested as declarations nest them.  All of this passes from a
program to every part that the walk over it reaches.
-/

namespace Lox

/-! ## Findings -/

@[simp] theorem Findings.references_append (a b : Findings) :
    (a ++ b).references = a.references ++ b.references := rfl

@[simp] theorem Findings.problems_append (a b : Findings) :
    (a ++ b).problems = a.problems ++ b.problems := rfl

@[simp] theorem Findings.references_ofProblems (problems : List Diagnostic) :
    (Findings.ofProblems problems).references = [] := rfl

@[simp] theorem Findings.problems_ofProblems (problems : List Diagnostic) :
    (Findings.ofProblems problems).problems = problems := rfl

@[simp] theorem Findings.problems_refer (scopes : Scopes) (id : NodeId) (kind : ReferenceKind)
    (name : Token) : (Findings.refer scopes id kind name).problems = [] := by
  unfold Findings.refer
  split <;> rfl

theorem Findings.id_of_mem_refer {scopes : Scopes} {id : NodeId} {kind : ReferenceKind}
    {name : Token} {r : Reference} (h : r ∈ (Findings.refer scopes id kind name).references) :
    r.id = id := by
  unfold Findings.refer at h
  split at h
  · simp only [List.mem_singleton] at h
    rw [h]
  · cases h

/-! ## The distances of references -/

/-- The distance of the last reference of a number. -/
def hopsOf : List Reference → NodeId → Option Nat
  | [], _ => none
  | r :: rs, id => (hopsOf rs id).or (if r.id = id then some r.hops else none)

theorem hopsOf_append (rs rs' : List Reference) (id : NodeId) :
    hopsOf (rs ++ rs') id = (hopsOf rs' id).or (hopsOf rs id) := by
  induction rs with
  | nil => simp [hopsOf]
  | cons r rs ih => simp [hopsOf, ih, Option.or_assoc]

theorem hopsOf_eq_none {rs : List Reference} {id : NodeId} (h : ∀ r ∈ rs, r.id ≠ id) :
    hopsOf rs id = none := by
  induction rs with
  | nil => rfl
  | cons r rs ih =>
      have hmore := ih fun r' hr' => h r' (List.mem_cons_of_mem _ hr')
      simp [hopsOf, hmore, h r List.mem_cons_self]

@[simp] theorem hopsOf_refer (scopes : Scopes) (id : NodeId) (kind : ReferenceKind)
    (name : Token) :
    hopsOf (Findings.refer scopes id kind name).references id = scopes.hops? name.lexeme := by
  unfold Findings.refer
  split
  · next h => simp [hopsOf, h]
  · next h => simp [hopsOf, h]

/-! ## References belong to the part that they are found in -/

mutual

theorem Expr.id_mem_ids {context : Context} {scopes : Scopes} : ∀ {e : Expr} {r : Reference},
    r ∈ (e.resolve context scopes).references → r.id ∈ e.ids
  | .literal _ _, r, h => by simp [Expr.resolve] at h
  | .grouping _ inner, r, h => by
      simp only [Expr.resolve, Expr.ids] at h ⊢
      exact inner.id_mem_ids h
  | .unary _ _ right, r, h => by
      simp only [Expr.resolve, Expr.ids] at h ⊢
      exact right.id_mem_ids h
  | .binary _ left _ right, r, h => by
      simp only [Expr.resolve, Expr.ids, Findings.references_append, List.mem_append] at h ⊢
      exact h.imp left.id_mem_ids right.id_mem_ids
  | .logical _ left _ right, r, h => by
      simp only [Expr.resolve, Expr.ids, Findings.references_append, List.mem_append] at h ⊢
      exact h.imp left.id_mem_ids right.id_mem_ids
  | .read id name, r, h => by
      simp only [Expr.resolve, resolveRead, Findings.references_append,
        Findings.references_ofProblems, List.nil_append] at h
      simp [Expr.ids, Findings.id_of_mem_refer h]
  | .assign id name value, r, h => by
      simp only [Expr.resolve, Expr.ids, Findings.references_append, List.mem_append] at h ⊢
      exact h.imp value.id_mem_ids fun h => by simp [Findings.id_of_mem_refer h]
  | .call _ callee _ arguments, r, h => by
      simp only [Expr.resolve, Expr.ids, Findings.references_append, List.mem_append] at h ⊢
      exact h.imp callee.id_mem_ids id_mem_argumentIds
  | .get _ object _, r, h => by
      simp only [Expr.resolve, Expr.ids] at h ⊢
      exact object.id_mem_ids h
  | .set _ object _ value, r, h => by
      simp only [Expr.resolve, Expr.ids, Findings.references_append, List.mem_append] at h ⊢
      exact (h.imp value.id_mem_ids object.id_mem_ids).symm
  | .self id keyword, r, h => by
      simp only [Expr.resolve] at h
      split at h
      · simp at h
      · simp [Expr.ids, Findings.id_of_mem_refer h]
  | .super id keyword _, r, h => by
      simp only [Expr.resolve, Findings.references_append, Findings.references_ofProblems,
        List.nil_append] at h
      simp [Expr.ids, Findings.id_of_mem_refer h]
  | .missing, r, h => by simp [Expr.resolve, Findings.ofFlaw] at h
  | .misplaced _, r, h => by simp [Expr.resolve, Findings.ofFlaw] at h

theorem id_mem_argumentIds {context : Context} {scopes : Scopes} :
    ∀ {es : List Expr} {r : Reference},
      r ∈ (resolveArguments context scopes es).references → r.id ∈ argumentIds es
  | [], r, h => by simp [resolveArguments] at h
  | e :: es, r, h => by
      simp only [resolveArguments, argumentIds, Findings.references_append,
        List.mem_append] at h ⊢
      exact h.imp e.id_mem_ids id_mem_argumentIds

end

theorem references_resolveParams (scopes : Scopes) (params : List Token) :
    (resolveParams scopes params).1.references = [] := by
  induction params generalizing scopes with
  | nil => rfl
  | cons param params ih => simp [resolveParams, ih]

mutual

theorem Stmt.id_mem_ids {context : Context} {scopes : Scopes} : ∀ {s : Stmt} {r : Reference},
    r ∈ (s.resolve context scopes).1.references → r.id ∈ s.ids
  | .expression value, r, h => by
      simp only [Stmt.resolve, Stmt.ids] at h ⊢
      exact value.id_mem_ids h
  | .print value, r, h => by
      simp only [Stmt.resolve, Stmt.ids] at h ⊢
      exact value.id_mem_ids h
  | .var _ none, r, h => by simp [Stmt.resolve] at h
  | .var _ (some value), r, h => by
      simp only [Stmt.resolve, Stmt.ids, Findings.references_append,
        Findings.references_ofProblems, List.nil_append] at h ⊢
      exact value.id_mem_ids h
  | .block body, r, h => by
      simp only [Stmt.resolve, Stmt.ids] at h ⊢
      exact id_mem_bodyIds h
  | .cond condition yes none, r, h => by
      simp only [Stmt.resolve, Stmt.ids, Findings.references_append, List.mem_append] at h ⊢
      exact h.imp condition.id_mem_ids yes.id_mem_ids
  | .cond condition yes (some no), r, h => by
      simp only [Stmt.resolve, Stmt.ids, Findings.references_append, List.mem_append] at h ⊢
      exact h.imp (fun h => h.imp condition.id_mem_ids yes.id_mem_ids) no.id_mem_ids
  | .loop condition body, r, h => by
      simp only [Stmt.resolve, Stmt.ids, Findings.references_append, List.mem_append] at h ⊢
      exact h.imp condition.id_mem_ids body.id_mem_ids
  | .function decl, r, h => by
      simp only [Stmt.resolve, Stmt.ids, Findings.references_append,
        Findings.references_ofProblems, List.nil_append] at h ⊢
      exact decl.id_mem_ids h
  | .ret _ none, r, h => by simp [Stmt.resolve] at h
  | .ret _ (some value), r, h => by
      simp only [Stmt.resolve, Stmt.ids, Findings.references_append,
        Findings.references_ofProblems, List.nil_append] at h ⊢
      exact value.id_mem_ids h
  | .classDecl _ none methods, r, h => by
      simp only [Stmt.resolve, Stmt.ids, Findings.references_append,
        Findings.references_ofProblems, List.nil_append] at h ⊢
      exact id_mem_methodIds h
  | .classDecl _ (some (id, superclass)) methods, r, h => by
      simp only [Stmt.resolve, Stmt.ids, resolveRead, Findings.references_append,
        Findings.references_ofProblems, List.nil_append, List.mem_append, List.mem_cons] at h ⊢
      exact h.imp Findings.id_of_mem_refer id_mem_methodIds
  | .missing, r, h => by simp [Stmt.resolve, Findings.ofFlaw] at h
  | .misplaced _, r, h => by simp [Stmt.resolve, Findings.ofFlaw] at h

theorem id_mem_bodyIds {context : Context} {scopes : Scopes} :
    ∀ {ss : List Stmt} {r : Reference},
      r ∈ (resolveBody context scopes ss).1.references → r.id ∈ bodyIds ss
  | [], r, h => by simp [resolveBody] at h
  | s :: ss, r, h => by
      simp only [resolveBody, bodyIds, Findings.references_append, List.mem_append] at h ⊢
      exact h.imp s.id_mem_ids id_mem_bodyIds

theorem FunDecl.id_mem_ids {context : Context} {scopes : Scopes} :
    ∀ {decl : FunDecl} {r : Reference},
      r ∈ (decl.resolve context scopes).references → r.id ∈ decl.ids
  | .mk _ params body, r, h => by
      simp only [FunDecl.resolve, FunDecl.ids, Findings.references_append,
        references_resolveParams, List.nil_append] at h ⊢
      exact id_mem_bodyIds h

theorem id_mem_methodIds {context : Context} {scopes : Scopes} :
    ∀ {decls : List FunDecl} {r : Reference},
      r ∈ (resolveMethods context scopes decls).references → r.id ∈ methodIds decls
  | [], r, h => by simp [resolveMethods] at h
  | decl :: decls, r, h => by
      simp only [resolveMethods, methodIds, Findings.references_append, List.mem_append] at h ⊢
      exact h.imp decl.id_mem_ids id_mem_methodIds

end

/-! ## Findings without a problem -/

/-- Findings without a problem, whose distances are in a table. -/
structure Sound (table : NodeId → Option Nat) (found : Findings) (ids : List NodeId) : Prop where
  problems : found.problems = []
  distinct : ids.Nodup
  recorded : ∀ id ∈ ids, table id = hopsOf found.references id

variable {table : NodeId → Option Nat} {found a b : Findings} {ids ids' : List NodeId}

theorem Sound.split (h : Sound table (a ++ b) (ids ++ ids'))
    (ha : ∀ r ∈ a.references, r.id ∈ ids) (hb : ∀ r ∈ b.references, r.id ∈ ids') :
    Sound table a ids ∧ Sound table b ids' := by
  obtain ⟨hproblems, hdistinct, hrecorded⟩ := h
  simp only [Findings.problems_append, List.append_eq_nil_iff] at hproblems
  rw [List.nodup_append] at hdistinct
  obtain ⟨hids, hids', hdisjoint⟩ := hdistinct
  refine ⟨⟨hproblems.1, hids, fun id hid => ?_⟩, hproblems.2, hids', fun id hid => ?_⟩
  · have hnone : hopsOf b.references id = none :=
      hopsOf_eq_none fun r hr heq => hdisjoint id hid r.id (hb r hr) heq.symm
    rw [hrecorded id (List.mem_append_left _ hid), Findings.references_append, hopsOf_append,
      hnone, Option.none_or]
  · have hnone : hopsOf a.references id = none :=
      hopsOf_eq_none fun r hr heq => hdisjoint r.id (ha r hr) id hid heq
    rw [hrecorded id (List.mem_append_right _ hid), Findings.references_append, hopsOf_append,
      hnone, Option.or_none]

theorem Sound.swap (h : Sound table found (ids ++ ids')) : Sound table found (ids' ++ ids) where
  problems := h.problems
  distinct := (List.perm_append_comm.nodup_iff).mp h.distinct
  recorded id hid := h.recorded id ((List.mem_append.mp hid).elim
    (List.mem_append_right _) (List.mem_append_left _))

theorem Sound.behind {problems : List Diagnostic}
    (h : Sound table (Findings.ofProblems problems ++ found) ids) :
    problems = [] ∧ Sound table found ids := by
  have hproblems := h.problems
  simp only [Findings.problems_append, Findings.problems_ofProblems,
    List.append_eq_nil_iff] at hproblems
  exact ⟨hproblems.1, hproblems.2, h.distinct, h.recorded⟩

theorem Sound.refer {scopes : Scopes} {id : NodeId} {kind : ReferenceKind} {name : Token}
    (h : Sound table (Findings.refer scopes id kind name) [id]) :
    table id = scopes.hops? name.lexeme := by
  rw [h.recorded id List.mem_cons_self, hopsOf_refer]

/-! ## How scopes are nested -/

/-- A scope that no class makes. -/
def Scope.Ordinary (scope : Scope) : Prop :=
  scope.find? "this" = none ∧ scope.find? "super" = none

inductive Nesting : ClassContext → Scopes → Prop where
  | globals : Nesting .outside []
  | scope : scope.Ordinary → Nesting c σ → Nesting c (scope :: σ)
  | plain : Nesting c σ → Nesting .plain (thisScope :: σ)
  | subclass : Nesting c σ → Nesting .subclass (thisScope :: superScope :: σ)

/-- The scopes around a statement: the innermost is that of a block or function. -/
inductive Opened : ClassContext → Scopes → Prop where
  | globals : Opened .outside []
  | scope : scope.Ordinary → Nesting c σ → Opened c (scope :: σ)

/-- No name is being initialised. -/
def Scopes.Settled (σ : Scopes) : Prop :=
  ∀ scope ∈ σ, ∀ name b, scope.find? name = some b → b = true

theorem Opened.nesting {c : ClassContext} {σ : Scopes} (h : Opened c σ) : Nesting c σ := by
  cases h with
  | globals => exact .globals
  | scope hscope hσ => exact .scope hscope hσ

theorem Scope.Ordinary.set {scope : Scope} (h : scope.Ordinary) {name : Token}
    (hname : name.Plain) (b : Bool) : Scope.Ordinary (Bindings.set scope name.lexeme b) := by
  constructor
  · rw [Bindings.find?_set_of_ne hname.1]
    exact h.1
  · rw [Bindings.find?_set_of_ne hname.2]
    exact h.2

theorem Opened.declare {c : ClassContext} {σ : Scopes} {name : Token} (h : Opened c σ)
    (hname : name.Plain) : Opened c (σ.declare name) := by
  cases h with
  | globals => exact .globals
  | scope hscope hσ => exact .scope (hscope.set hname false) hσ

theorem Opened.settle {c : ClassContext} {σ : Scopes} {name : Token} (h : Opened c σ)
    (hname : name.Plain) : Opened c (σ.settle name) := by
  cases h with
  | globals => exact .globals
  | scope hscope hσ => exact .scope ((hscope.set hname false).set hname true) hσ

theorem Scopes.Settled.tail_declare {σ : Scopes} {name : Token} (h : σ.Settled) :
    Scopes.Settled (σ.declare name).tail := by
  cases σ with
  | nil => exact h
  | cons scope σ => exact fun other hother => h other (List.mem_cons_of_mem _ hother)

theorem Scopes.Settled.settle {σ : Scopes} {name : Token} (h : σ.Settled) :
    (σ.settle name).Settled := by
  cases σ with
  | nil => exact h
  | cons scope σ =>
      intro other hother x b hx
      rcases List.mem_cons.mp hother with rfl | hother
      · simp only [Bindings.find?_set] at hx
        split at hx
        · exact (Option.some.inj hx).symm
        · exact h scope List.mem_cons_self x b hx
      · exact h other (List.mem_cons_of_mem _ hother) x b hx

theorem Scopes.Settled.tail {σ : Scopes} (h : σ.Settled) : Scopes.Settled σ.tail :=
  fun scope hscope => h scope (List.mem_of_mem_tail hscope)

theorem Scopes.Settled.cons {scope : Scope} {σ : Scopes} (h : σ.Settled)
    (hscope : ∀ name b, scope.find? name = some b → b = true) : Scopes.Settled (scope :: σ) := by
  intro other hother
  rcases List.mem_cons.mp hother with rfl | hother
  · exact hscope
  · exact h other hother

theorem Scopes.Settled.ofClass {σ : Scopes} (h : σ.Settled) (base : Option (NodeId × Token)) :
    (σ.ofClass base).Settled := by
  have hthis : ∀ name b, thisScope.find? name = some b → b = true := by
    intro name b hb
    simp only [thisScope, Bindings.find?] at hb
    split at hb
    · exact (Option.some.inj hb).symm
    · cases hb
  have hsuper : ∀ name b, superScope.find? name = some b → b = true := by
    intro name b hb
    simp only [superScope, Bindings.find?] at hb
    split at hb
    · exact (Option.some.inj hb).symm
    · cases hb
  cases base with
  | none => exact h.cons hthis
  | some _ => exact (h.cons hsuper).cons hthis

theorem Opened.ofClass {c : ClassContext} {σ : Scopes} (h : Opened c σ)
    (base : Option (NodeId × Token)) :
    Nesting (if base.isSome then .subclass else .plain) (σ.ofClass base) := by
  cases base with
  | none => exact .plain h.nesting
  | some _ => exact .subclass h.nesting

private theorem resolveParams_scopes {c : ClassContext} {σ : Scopes} {params : List Token}
    (hparams : ∀ param ∈ params, param.Plain) (hopened : Opened c σ) (hsettled : σ.Settled) :
    Opened c (resolveParams σ params).2 ∧ (resolveParams σ params).2.Settled := by
  induction params generalizing σ with
  | nil => exact ⟨hopened, hsettled⟩
  | cons param params ih =>
      simp only [resolveParams]
      exact ih (fun p hp => hparams p (List.mem_cons_of_mem _ hp))
        (hopened.settle (hparams param List.mem_cons_self)) hsettled.settle

/-! ## Checked parts -/

/-- The scopes open at a part are nested as they are around parts of its sort. -/
def Part.Placed (c : ClassContext) (σ : Scopes) : Part → Prop
  | .expr _ | .exprs _ => Nesting c σ ∧ Scopes.Settled σ.tail
  | .stmt _ | .body _ => Opened c σ ∧ σ.Settled
  | .function _ | .methods _ => Nesting c σ ∧ σ.Settled

structure Checked (table : NodeId → Option Nat) (c : Context) (σ : Scopes) (part : Part) :
    Prop where
  sound : Sound table (part.resolve c σ) part.ids
  formed : part.Formed
  placed : part.Placed c.inClass σ

theorem Checked.className {c : Context} {σ : Scopes} {name : Token}
    {base : Option (NodeId × Token)} {methods : List FunDecl}
    (h : Checked table c σ (.stmt (.classDecl name base methods))) : name.Plain := by
  cases base with
  | none => exact h.formed.1
  | some base => exact h.formed.1

theorem Stmt.resolve_snd {c : Context} {σ : Scopes} : ∀ {s : Stmt}, s.Formed →
    s.declares = false → (s.resolve c σ).2 = σ
  | .expression _, _, _ => rfl
  | .print _, _, _ => rfl
  | .block _, _, _ => rfl
  | .cond _ yes none, h, _ => by
      simp only [Stmt.Formed] at h
      simp only [Stmt.resolve, yes.resolve_snd h.2.1 h.2.2]
  | .cond _ yes (some no), h, _ => by
      simp only [Stmt.Formed] at h
      simp only [Stmt.resolve, yes.resolve_snd h.2.1.1 h.2.1.2, no.resolve_snd h.2.2.1 h.2.2.2]
  | .loop _ body, h, _ => by
      simp only [Stmt.Formed] at h
      simp only [Stmt.resolve, body.resolve_snd h.2.1 h.2.2]
  | .ret _ none, _, _ => rfl
  | .ret _ (some _), _, _ => rfl
  | .var _ _, _, h => by cases h
  | .function _, _, h => by cases h
  | .classDecl _ _ _, _, h => by cases h
  | .missing, h, _ => by cases h
  | .misplaced _, h, _ => by cases h

theorem Stmt.placed_snd {c : Context} {σ : Scopes} {s : Stmt} (h : s.Formed)
    (hopened : Opened c.inClass σ) (hsettled : σ.Settled) :
    Opened c.inClass (s.resolve c σ).2 ∧ (s.resolve c σ).2.Settled := by
  by_cases hdeclares : s.declares = false
  · rw [s.resolve_snd h hdeclares]
    exact ⟨hopened, hsettled⟩
  · have settled : ∀ name : Token, name.Plain →
        Opened c.inClass (σ.settle name) ∧ (σ.settle name).Settled :=
      fun name hname => ⟨hopened.settle hname, hsettled.settle⟩
    cases s with
    | var name initial =>
        cases initial with
        | none => exact settled name h
        | some e => exact settled name h.1
    | function decl =>
        simp only [Stmt.Formed] at h
        exact settled decl.name h.1
    | classDecl name base methods =>
        cases base with
        | none =>
            simp only [Stmt.Formed] at h
            exact settled name h.1
        | some base =>
            simp only [Stmt.Formed] at h
            exact settled name h.1
    | _ => exact absurd rfl hdeclares

section

variable {c : Context} {σ : Scopes}

private theorem expr_ids {e : Expr} :
    ∀ r ∈ (e.resolve c σ).references, r.id ∈ e.ids :=
  fun _ => Expr.id_mem_ids

private theorem exprs_ids {es : List Expr} :
    ∀ r ∈ (resolveArguments c σ es).references, r.id ∈ argumentIds es :=
  fun _ => id_mem_argumentIds

private theorem stmt_ids {s : Stmt} :
    ∀ r ∈ (s.resolve c σ).1.references, r.id ∈ s.ids :=
  fun _ => Stmt.id_mem_ids

private theorem body_ids {ss : List Stmt} :
    ∀ r ∈ (resolveBody c σ ss).1.references, r.id ∈ bodyIds ss :=
  fun _ => id_mem_bodyIds

private theorem function_ids {decl : FunDecl} :
    ∀ r ∈ (decl.resolve c σ).references, r.id ∈ decl.ids :=
  fun _ => FunDecl.id_mem_ids

private theorem methods_ids {decls : List FunDecl} :
    ∀ r ∈ (resolveMethods c σ decls).references, r.id ∈ methodIds decls :=
  fun _ => id_mem_methodIds

private theorem refer_ids {id : NodeId} {kind : ReferenceKind} {name : Token} :
    ∀ r ∈ (Findings.refer σ id kind name).references, r.id ∈ [id] :=
  fun _ hr => List.mem_singleton.mpr (Findings.id_of_mem_refer hr)

private theorem condition_ids {e : Expr} {yes : Stmt} :
    ∀ r ∈ (e.resolve c σ ++ (yes.resolve c σ).1).references, r.id ∈ e.ids ++ yes.ids := by
  intro r hr
  simp only [Findings.references_append, List.mem_append] at hr ⊢
  exact hr.imp Expr.id_mem_ids Stmt.id_mem_ids

private theorem superclass_ids {problems : List Diagnostic} {id : NodeId} {name : Token} :
    ∀ r ∈ (Findings.ofProblems problems ++ resolveRead σ id name).references, r.id ∈ [id] := by
  intro r hr
  simp only [resolveRead, Findings.references_append, Findings.references_ofProblems,
    List.nil_append] at hr
  exact refer_ids r hr

end

/-! ## Parts of parts -/

namespace Checked

section

variable {c : Context} {σ : Scopes} {e left right value : Expr} {es : List Expr}
  {op name paren : Token} {number : NodeId}

theorem grouping (h : Checked table c σ (.expr (.grouping number e))) : Checked table c σ (.expr e) :=
  ⟨h.sound, h.formed, h.placed⟩

theorem unary (h : Checked table c σ (.expr (.unary number op e))) : Checked table c σ (.expr e) :=
  ⟨h.sound, h.formed.2, h.placed⟩

theorem binaryLeft (h : Checked table c σ (.expr (.binary number left op right))) :
    Checked table c σ (.expr left) :=
  ⟨(h.sound.split expr_ids expr_ids).1, h.formed.2.1, h.placed⟩

theorem binaryRight (h : Checked table c σ (.expr (.binary number left op right))) :
    Checked table c σ (.expr right) :=
  ⟨(h.sound.split expr_ids expr_ids).2, h.formed.2.2, h.placed⟩

theorem logicalLeft (h : Checked table c σ (.expr (.logical number left op right))) :
    Checked table c σ (.expr left) :=
  ⟨(h.sound.split expr_ids expr_ids).1, h.formed.1, h.placed⟩

theorem logicalRight (h : Checked table c σ (.expr (.logical number left op right))) :
    Checked table c σ (.expr right) :=
  ⟨(h.sound.split expr_ids expr_ids).2, h.formed.2, h.placed⟩

theorem assigned (h : Checked table c σ (.expr (.assign number name e))) :
    Checked table c σ (.expr e) :=
  ⟨(h.sound.split expr_ids refer_ids).1, h.formed.2, h.placed⟩

theorem callee (h : Checked table c σ (.expr (.call number e paren es))) : Checked table c σ (.expr e) :=
  ⟨(h.sound.split expr_ids exprs_ids).1, h.formed.1, h.placed⟩

theorem arguments (h : Checked table c σ (.expr (.call number e paren es))) :
    Checked table c σ (.exprs es) :=
  ⟨(h.sound.split expr_ids exprs_ids).2, h.formed.2, h.placed⟩

theorem getObject (h : Checked table c σ (.expr (.get number e name))) : Checked table c σ (.expr e) :=
  ⟨h.sound, h.formed, h.placed⟩

theorem setObject (h : Checked table c σ (.expr (.set number e name value))) :
    Checked table c σ (.expr e) :=
  ⟨(h.sound.swap.split expr_ids expr_ids).2, h.formed.1, h.placed⟩

theorem setValue (h : Checked table c σ (.expr (.set number e name value))) :
    Checked table c σ (.expr value) :=
  ⟨(h.sound.swap.split expr_ids expr_ids).1, h.formed.2, h.placed⟩

theorem firstArgument (h : Checked table c σ (.exprs (e :: es))) : Checked table c σ (.expr e) :=
  ⟨(h.sound.split expr_ids exprs_ids).1, h.formed.1, h.placed⟩

theorem moreArguments (h : Checked table c σ (.exprs (e :: es))) : Checked table c σ (.exprs es) :=
  ⟨(h.sound.split expr_ids exprs_ids).2, h.formed.2, h.placed⟩

end

section

variable {c : Context} {σ : Scopes} {e : Expr} {s first second : Stmt} {otherwise : Option Stmt}
  {ss : List Stmt} {name keyword : Token} {params : List Token} {decl : FunDecl}
  {decls : List FunDecl} {base : Option (NodeId × Token)}

theorem expression (h : Checked table c σ (.stmt (.expression e))) : Checked table c σ (.expr e) :=
  ⟨h.sound, h.formed, h.placed.1.nesting, h.placed.2.tail⟩

theorem print (h : Checked table c σ (.stmt (.print e))) : Checked table c σ (.expr e) :=
  ⟨h.sound, h.formed, h.placed.1.nesting, h.placed.2.tail⟩

theorem initial (h : Checked table c σ (.stmt (.var name (some e)))) :
    Checked table c (σ.declare name) (.expr e) :=
  ⟨h.sound.behind.2, h.formed.2, (h.placed.1.declare h.formed.1).nesting, h.placed.2.tail_declare⟩

theorem block (h : Checked table c σ (.stmt (.block ss))) : Checked table c ([] :: σ) (.body ss) :=
  ⟨h.sound, h.formed, .scope ⟨rfl, rfl⟩ h.placed.1.nesting, h.placed.2.cons nofun⟩

theorem condition (h : Checked table c σ (.stmt (.cond e first otherwise))) :
    Checked table c σ (.expr e) := by
  refine ⟨?_, ?_, h.placed.1.nesting, h.placed.2.tail⟩
  · cases otherwise with
    | none => exact (h.sound.split expr_ids stmt_ids).1
    | some second => exact ((h.sound.split condition_ids stmt_ids).1.split expr_ids stmt_ids).1
  · cases otherwise with
    | none => exact h.formed.1
    | some second => exact h.formed.1

theorem yes (h : Checked table c σ (.stmt (.cond e first otherwise))) :
    Checked table c σ (.stmt first) := by
  refine ⟨?_, ?_, h.placed⟩
  · cases otherwise with
    | none => exact (h.sound.split expr_ids stmt_ids).2
    | some second => exact ((h.sound.split condition_ids stmt_ids).1.split expr_ids stmt_ids).2
  · cases otherwise with
    | none => exact h.formed.2.1
    | some second => exact h.formed.2.1.1

theorem no (h : Checked table c σ (.stmt (.cond e first (some second)))) :
    Checked table c (first.resolve c σ).2 (.stmt second) :=
  ⟨(h.sound.split condition_ids stmt_ids).2, h.formed.2.2.1,
    Stmt.placed_snd h.formed.2.1.1 h.placed.1 h.placed.2⟩

theorem loopCondition (h : Checked table c σ (.stmt (.loop e s))) : Checked table c σ (.expr e) :=
  ⟨(h.sound.split expr_ids stmt_ids).1, h.formed.1, h.placed.1.nesting, h.placed.2.tail⟩

theorem loopBody (h : Checked table c σ (.stmt (.loop e s))) : Checked table c σ (.stmt s) :=
  ⟨(h.sound.split expr_ids stmt_ids).2, h.formed.2.1, h.placed⟩

theorem returned (h : Checked table c σ (.stmt (.ret keyword (some e)))) :
    Checked table c σ (.expr e) :=
  ⟨h.sound.behind.2, h.formed, h.placed.1.nesting, h.placed.2.tail⟩

theorem firstStmt (h : Checked table c σ (.body (s :: ss))) : Checked table c σ (.stmt s) :=
  ⟨(h.sound.split stmt_ids body_ids).1, h.formed.1, h.placed⟩

theorem moreStmts (h : Checked table c σ (.body (s :: ss))) :
    Checked table c (s.resolve c σ).2 (.body ss) :=
  ⟨(h.sound.split stmt_ids body_ids).2, h.formed.2,
    Stmt.placed_snd h.formed.1 h.placed.1 h.placed.2⟩

theorem function (h : Checked table c σ (.stmt (.function decl))) :
    Checked table { c with inFunction := some .function } (σ.settle decl.name) (.function decl) :=
  ⟨h.sound.behind.2, h.formed.2, (h.placed.1.settle h.formed.1).nesting, h.placed.2.settle⟩

theorem functionBody (h : Checked table c σ (.function (.mk name params ss))) :
    Checked table c (resolveParams ([] :: σ) params).2 (.body ss) := by
  obtain ⟨hproblems, hdistinct, hrecorded⟩ := h.sound
  simp only [Part.resolve, FunDecl.resolve, Findings.problems_append,
    List.append_eq_nil_iff, Findings.references_append, references_resolveParams,
    List.nil_append] at hproblems hrecorded
  exact ⟨⟨hproblems.2, hdistinct, hrecorded⟩, h.formed.2,
    resolveParams_scopes h.formed.1 (.scope ⟨rfl, rfl⟩ h.placed.1) (h.placed.2.cons nofun)⟩

theorem methods (h : Checked table c σ (.stmt (.classDecl name base decls))) :
    Checked table (c.ofClass base) ((σ.settle name).ofClass base) (.methods decls) := by
  refine ⟨?_, ?_, (h.placed.1.settle h.className).ofClass base, h.placed.2.settle.ofClass base⟩
  · cases base with
    | none => exact h.sound.behind.2
    | some base =>
        have hsound : Sound table _ ([base.1] ++ methodIds decls) := h.sound
        exact (hsound.split superclass_ids methods_ids).2
  · cases base with
    | none => exact h.formed.2
    | some base => exact h.formed.2.2

theorem firstMethod (h : Checked table c σ (.methods (decl :: decls))) :
    Checked table { c with inFunction := some (.ofMethod decl) } σ (.function decl) :=
  ⟨(h.sound.split function_ids methods_ids).1, h.formed.1, h.placed⟩

theorem moreMethods (h : Checked table c σ (.methods (decl :: decls))) :
    Checked table c σ (.methods decls) :=
  ⟨(h.sound.split function_ids methods_ids).2, h.formed.2, h.placed⟩

end

end Checked

/-- What is known of a program is known of every part that the walk over it reaches. -/
theorem Reaches.checked {root : Part} (hroot : Checked table {} [] root) {c : Context}
    {σ : Scopes} {part : Part} (h : Reaches root c σ part) : Checked table c σ part := by
  induction h with
  | root => exact hroot
  | grouping _ ih => exact ih.grouping
  | unary _ ih => exact ih.unary
  | binaryLeft _ ih => exact ih.binaryLeft
  | binaryRight _ ih => exact ih.binaryRight
  | logicalLeft _ ih => exact ih.logicalLeft
  | logicalRight _ ih => exact ih.logicalRight
  | assigned _ ih => exact ih.assigned
  | callee _ ih => exact ih.callee
  | arguments _ ih => exact ih.arguments
  | getObject _ ih => exact ih.getObject
  | setObject _ ih => exact ih.setObject
  | setValue _ ih => exact ih.setValue
  | firstArgument _ ih => exact ih.firstArgument
  | moreArguments _ ih => exact ih.moreArguments
  | expression _ ih => exact ih.expression
  | print _ ih => exact ih.print
  | initial _ ih => exact ih.initial
  | block _ ih => exact ih.block
  | condition _ ih => exact ih.condition
  | yes _ ih => exact ih.yes
  | no _ ih => exact ih.no
  | loopCondition _ ih => exact ih.loopCondition
  | loopBody _ ih => exact ih.loopBody
  | returned _ ih => exact ih.returned
  | firstStmt _ ih => exact ih.firstStmt
  | moreStmts _ ih => exact ih.moreStmts
  | function _ ih => exact ih.function
  | functionBody _ ih => exact ih.functionBody
  | methods _ ih => exact ih.methods
  | firstMethod _ ih => exact ih.firstMethod
  | moreMethods _ ih => exact ih.moreMethods

/-! ## What is known of references -/

/-- The scope at a distance has a name, and it is initialised. -/
def Scopes.Holds (σ : Scopes) (k : Nat) (name : String) : Prop :=
  ∃ scope : Scope, σ[k]? = some scope ∧ scope.find? name = some true

theorem Scopes.exists_of_hops? {σ : Scopes} {name : String} {k : Nat}
    (h : σ.hops? name = some k) :
    ∃ (scope : Scope) (b : Bool), σ[k]? = some scope ∧ scope.find? name = some b := by
  unfold Scopes.hops? at h
  obtain ⟨hk, hbinds, -⟩ := List.findIdx?_eq_some_iff_getElem.mp h
  obtain ⟨b, hb⟩ := Bindings.binds_iff.mp hbinds
  exact ⟨σ[k], b, List.getElem?_eq_getElem hk, hb⟩

theorem Scopes.hops?_cons (scope : Scope) (σ : Scopes) (name : String) :
    Scopes.hops? (scope :: σ) name =
      if scope.binds name then some 0 else (σ.hops? name).map (· + 1) := by
  simp only [Scopes.hops?, List.findIdx?_cons]

theorem Scopes.holds_of_read {σ : Scopes} {name : Token} (hread : σ.prematureRead name = [])
    (hsettled : Scopes.Settled σ.tail) {k : Nat} (hk : σ.hops? name.lexeme = some k) :
    σ.Holds k name.lexeme := by
  obtain ⟨scope, b, hscope, hb⟩ := Scopes.exists_of_hops? hk
  suffices hinitialised : b = true from ⟨scope, hscope, hinitialised ▸ hb⟩
  cases σ with
  | nil => cases hscope
  | cons first σ =>
      cases k with
      | zero =>
          obtain rfl : first = scope := Option.some.inj hscope
          cases b with
          | true => rfl
          | false => simp [Scopes.prematureRead, hb] at hread
      | succ k =>
          rw [List.getElem?_cons_succ] at hscope
          exact hsettled scope (List.mem_of_getElem? hscope) name.lexeme b hb

section

variable {c : Context} {σ : Scopes} {id : NodeId} {name keyword method : Token}

theorem Checked.read (h : Checked table c σ (.expr (.read id name))) :
    table id = σ.hops? name.lexeme ∧
      ∀ k, σ.hops? name.lexeme = some k → σ.Holds k name.lexeme := by
  obtain ⟨hread, hrefer⟩ := h.sound.behind
  exact ⟨hrefer.refer, fun k hk => Scopes.holds_of_read hread h.placed.2 hk⟩

theorem Checked.assign {value : Expr} (h : Checked table c σ (.expr (.assign id name value))) :
    table id = σ.hops? name.lexeme :=
  (h.sound.split expr_ids refer_ids).2.refer

theorem Nesting.this {context : ClassContext} (h : Nesting context σ)
    (hinside : context ≠ .outside) :
    ∃ k, σ.hops? "this" = some k ∧ σ.Holds k "this" := by
  induction h with
  | globals => exact absurd rfl hinside
  | scope hscope _ ih =>
      obtain ⟨k, hk, scope, hscope', hthis⟩ := ih hinside
      refine ⟨k + 1, ?_, scope, hscope', hthis⟩
      rw [Scopes.hops?_cons, if_neg (by simp [Bindings.binds, hscope.1]), hk]
      rfl
  | plain _ _ => exact ⟨0, rfl, thisScope, rfl, rfl⟩
  | subclass _ _ => exact ⟨0, rfl, thisScope, rfl, rfl⟩

theorem Nesting.super (h : Nesting .subclass σ) :
    ∃ k, σ.hops? "super" = some (k + 1) ∧ σ.Holds (k + 1) "super" ∧ σ.Holds k "this" := by
  generalize hcontext : ClassContext.subclass = context at h
  induction h with
  | globals => cases hcontext
  | scope hscope _ ih =>
      obtain ⟨k, hk, hsuper, hthis⟩ := ih hcontext
      refine ⟨k + 1, ?_, hsuper, hthis⟩
      rw [Scopes.hops?_cons, if_neg (by simp [Bindings.binds, hscope.2]), hk]
      rfl
  | plain _ _ => cases hcontext
  | subclass _ _ => exact ⟨0, rfl, ⟨superScope, rfl, rfl⟩, thisScope, rfl, rfl⟩

theorem Checked.insideClass (h : Checked table c σ (.expr (.self id keyword))) :
    c.inClass ≠ .outside ∧ table id = σ.hops? "this" := by
  have hlexeme : keyword.lexeme = "this" := h.formed
  have hsound : Sound table (Expr.resolve c σ (.self id keyword)) [id] := h.sound
  unfold Expr.resolve at hsound
  split at hsound
  · exact absurd hsound.problems (List.cons_ne_nil _ _)
  · next hinside => exact ⟨hinside, hlexeme ▸ hsound.refer⟩

theorem Checked.self (h : Checked table c σ (.expr (.self id keyword))) :
    keyword.lexeme = "this" ∧ ∃ k, table id = some k ∧ σ.Holds k "this" := by
  obtain ⟨hinside, htable⟩ := h.insideClass
  obtain ⟨k, hk, hthis⟩ := h.placed.1.this hinside
  exact ⟨h.formed, k, htable.trans hk, hthis⟩

theorem Checked.inSubclass (h : Checked table c σ (.expr (.super id keyword method))) :
    Nesting .subclass σ ∧ table id = σ.hops? "super" := by
  have hlexeme : keyword.lexeme = "super" := h.formed
  obtain ⟨hproblems, hrefer⟩ := h.sound.behind
  have hsubclass : c.inClass = .subclass := by
    cases hclass : c.inClass with
    | outside => simp [hclass, superProblems] at hproblems
    | plain => simp [hclass, superProblems] at hproblems
    | subclass => rfl
  rw [← hsubclass, ← hlexeme]
  exact ⟨h.placed.1, hrefer.refer⟩

theorem Checked.super (h : Checked table c σ (.expr (.super id keyword method))) :
    ∃ k, table id = some (k + 1) ∧ σ.Holds (k + 1) "super" ∧ σ.Holds k "this" := by
  obtain ⟨hnesting, htable⟩ := h.inSubclass
  obtain ⟨k, hk, hsuper, hthis⟩ := hnesting.super
  exact ⟨k, htable.trans hk, hsuper, hthis⟩

theorem Checked.superclassRead {superclass : Token} {methods : List FunDecl}
    (h : Checked table c σ (.stmt (.classDecl name (some (id, superclass)) methods))) :
    σ.redeclaration name ++ superclassProblems name superclass = [] ∧
      (σ.settle name).prematureRead superclass = [] ∧
        table id = (σ.settle name).hops? superclass.lexeme := by
  have hsound : Sound table _ ([id] ++ methodIds methods) := h.sound
  obtain ⟨hread, -⟩ := hsound.split superclass_ids methods_ids
  exact ⟨hread.behind.1, hread.behind.2.behind.1, hread.behind.2.behind.2.refer⟩

theorem Checked.superclass {superclass : Token} {methods : List FunDecl}
    (h : Checked table c σ (.stmt (.classDecl name (some (id, superclass)) methods))) :
    table id = σ.hops? superclass.lexeme ∧
      ∀ k, σ.hops? superclass.lexeme = some k → σ.Holds k superclass.lexeme := by
  obtain ⟨hproblems, -, htable⟩ := h.superclassRead
  have hother : superclass.lexeme ≠ name.lexeme := by
    intro heq
    simp [superclassProblems, heq] at hproblems
  have hhops : (σ.settle name).hops? superclass.lexeme = σ.hops? superclass.lexeme := by
    cases σ with
    | nil => rfl
    | cons scope σ =>
        simp only [Scopes.settle, Scopes.declare, Scopes.define, Scopes.hops?_cons,
          Bindings.binds_set, hother.symm, decide_false, Bool.false_or]
  refine ⟨htable.trans hhops, fun k hk => ?_⟩
  obtain ⟨scope, b, hscope, hb⟩ := Scopes.exists_of_hops? hk
  have hinitialised := h.placed.2 scope (List.mem_of_getElem? hscope) _ b hb
  exact ⟨scope, hscope, hinitialised ▸ hb⟩

theorem Checked.returns {value : Option Expr}
    (h : Checked table c σ (.stmt (.ret keyword value))) : c.inFunction ≠ none := by
  intro hnone
  have hproblems := h.sound.problems
  cases value with
  | none => simp [Part.resolve, Stmt.resolve, hnone, returnProblems] at hproblems
  | some e => simp [Part.resolve, Stmt.resolve, hnone, returnProblems] at hproblems

end

end Lox
