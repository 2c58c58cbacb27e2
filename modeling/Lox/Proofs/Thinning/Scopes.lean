import Lox.Proofs.Thinning.Code

/-!
# Code that resolution reads twice

Code that is checked both with all scopes around it and without those that declare nothing is a twin:
each of its references leads to the same frame both times.
-/

namespace Lox

/-! ## Scopes while resolution walks on -/

namespace Scopes.Thins

variable {gaps : Gaps} {σ σ' : Scopes}

theorem declare (h : Scopes.Thins (false :: gaps) σ σ') (name : Token) :
    Scopes.Thins (false :: gaps) (σ.declare name) (σ'.declare name) := by
  cases h with
  | globals => exact .globals
  | scope h => exact .scope h

theorem settle (h : Scopes.Thins (false :: gaps) σ σ') (name : Token) :
    Scopes.Thins (false :: gaps) (σ.settle name) (σ'.settle name) := by
  cases h with
  | globals => exact .globals
  | scope h => exact .scope h

theorem params (h : Scopes.Thins (false :: gaps) σ σ') (params : List Token) :
    Scopes.Thins (false :: gaps) (resolveParams σ params).2 (resolveParams σ' params).2 := by
  induction params generalizing σ σ' with
  | nil => exact h
  | cons param params ih => exact ih (h.settle param)

theorem ofClass (h : Scopes.Thins gaps σ σ') (base : Option (NodeId × Token)) :
    Scopes.Thins (false :: Gaps.ofClass gaps base) (σ.ofClass base) (σ'.ofClass base) := by
  cases base with
  | none => exact .scope h
  | some _ => exact .scope (.scope h)

theorem open_of (h : Scopes.Thins gaps σ σ') (hopen : gaps.head? ≠ some true) :
    ∃ outer, gaps = false :: outer := by
  cases h with
  | globals => exact ⟨_, rfl⟩
  | scope _ => exact ⟨_, rfl⟩
  | gap _ _ => exact absurd rfl hopen

theorem after {c : Context} {s : Stmt} (h : Scopes.Thins gaps σ σ') (hformed : s.Formed)
    (hquiet : gaps.head? = some true → s.declares = false) :
    Scopes.Thins gaps (s.resolve c σ).2 (s.resolve c σ').2 := by
  by_cases hdeclares : s.declares = false
  · rw [s.resolve_snd hformed hdeclares, s.resolve_snd hformed hdeclares]
    exact h
  · obtain ⟨outer, rfl⟩ := h.open_of fun hgap => hdeclares (hquiet hgap)
    cases s with
    | var name initial => cases initial <;> exact h.settle name
    | function decl => exact h.settle decl.name
    | classDecl name base methods => cases base <;> exact h.settle name
    | _ => exact absurd rfl hdeclares

end Scopes.Thins

/-! ## Twins from two checks -/

variable {T : Twin}

theorem Scopes.Thins.refers {gaps : Gaps} {σ σ' : Scopes} (hσ : Scopes.Thins gaps σ σ')
    {id : NodeId} {x : String} (hid : id ∈ T.ids) (htable : T.table id = σ.hops? x)
    (htable' : T.table' id = σ'.hops? x) : T.Refers gaps id :=
  ⟨hid, htable ▸ htable' ▸ hσ.hops? x⟩

section

variable {gaps : Gaps} {c : Context} {σ σ' : Scopes}

theorem Scopes.Thins.refersSuper (hσ : Scopes.Thins gaps σ σ') {id : NodeId}
    {keyword method : Token} (hid : id ∈ T.ids)
    (h : Checked T.table c σ (.expr (.super id keyword method)))
    (h' : Checked T.table' c σ' (.expr (.super id keyword method))) : T.RefersSuper gaps id := by
  obtain ⟨k, hk, -, hthis⟩ := h.super
  obtain ⟨k', hk', -, -⟩ := h'.super
  have hmeets := hσ.hops? "super"
  rw [← h.inSubclass.2, ← h'.inSubclass.2, hk, hk'] at hmeets
  obtain ⟨m, hm⟩ := hσ.meets_of_holds hthis
  cases hmeets with
  | some hmeets =>
      obtain rfl : k' = m := Nat.succ.inj (hmeets.succ_inv hm)
      exact ⟨hid, k, k', hk, hk', hmeets, hm⟩

mutual

theorem Expr.thins (hσ : Scopes.Thins gaps σ σ') : ∀ {e : Expr}, Checked T.table c σ (.expr e) →
    Checked T.table' c σ' (.expr e) → e.ids ⊆ T.ids → Expr.Thins T gaps e (e.moved 0 T.renumber)
  | .literal _ _, _, _, _ => .literal
  | .grouping _ _, h, h', hids => .grouping (Expr.thins hσ h.grouping h'.grouping hids)
  | .unary _ op _, h, h', hids => by
      rw [Expr.moved, op.down_zero]
      exact .unary (Expr.thins hσ h.unary h'.unary hids)
  | .binary _ _ op _, h, h', hids => by
      obtain ⟨hleft, hright⟩ := List.append_subset.mp hids
      rw [Expr.moved, op.down_zero]
      exact .binary (Expr.thins hσ h.binaryLeft h'.binaryLeft hleft)
        (Expr.thins hσ h.binaryRight h'.binaryRight hright)
  | .logical _ _ op _, h, h', hids => by
      obtain ⟨hleft, hright⟩ := List.append_subset.mp hids
      rw [Expr.moved, op.down_zero]
      exact .logical (Expr.thins hσ h.logicalLeft h'.logicalLeft hleft)
        (Expr.thins hσ h.logicalRight h'.logicalRight hright)
  | .read id name, h, h', hids => by
      rw [Expr.moved, name.down_zero]
      exact .read (hσ.refers (hids List.mem_cons_self) h.read.1 h'.read.1)
  | .assign id name _, h, h', hids => by
      obtain ⟨hvalue, hid⟩ := List.append_subset.mp hids
      rw [Expr.moved, name.down_zero]
      exact .assign (hσ.refers (hid List.mem_cons_self) h.assign h'.assign)
        (Expr.thins hσ h.assigned h'.assigned hvalue)
  | .call _ _ paren _, h, h', hids => by
      obtain ⟨hcallee, harguments⟩ := List.append_subset.mp hids
      rw [Expr.moved, paren.down_zero]
      exact .call (Expr.thins hσ h.callee h'.callee hcallee)
        (argumentsThin hσ h.arguments h'.arguments harguments)
  | .get _ _ name, h, h', hids => by
      rw [Expr.moved, name.down_zero]
      exact .get (Expr.thins hσ h.getObject h'.getObject hids)
  | .set _ _ name _, h, h', hids => by
      obtain ⟨hobject, hvalue⟩ := List.append_subset.mp hids
      rw [Expr.moved, name.down_zero]
      exact .set (Expr.thins hσ h.setObject h'.setObject hobject)
        (Expr.thins hσ h.setValue h'.setValue hvalue)
  | .self id keyword, h, h', hids => by
      rw [Expr.moved, keyword.down_zero]
      exact .self (hσ.refers (hids List.mem_cons_self) h.insideClass.2 h'.insideClass.2)
  | .super id keyword method, h, h', hids => by
      rw [Expr.moved, keyword.down_zero, method.down_zero]
      exact .super (hσ.refersSuper (hids List.mem_cons_self) h h')
  | .missing, h, _, _ => h.formed.elim
  | .misplaced _, h, _, _ => h.formed.elim

theorem argumentsThin (hσ : Scopes.Thins gaps σ σ') : ∀ {es : List Expr},
    Checked T.table c σ (.exprs es) → Checked T.table' c σ' (.exprs es) →
      argumentIds es ⊆ T.ids → ArgumentsThin T gaps es (movedArguments 0 T.renumber es)
  | [], _, _, _ => .nil
  | _ :: _, h, h', hids =>
      have hids := List.append_subset.mp hids
      .cons (Expr.thins hσ h.firstArgument h'.firstArgument hids.1)
        (argumentsThin hσ h.moreArguments h'.moreArguments hids.2)

end

end

theorem map_down_zero (tokens : List Token) : tokens.map (Token.down 0) = tokens := by
  have hsame : Token.down 0 = id := funext Token.down_zero
  rw [hsame, List.map_id]

mutual

theorem Stmt.thins {gaps : Gaps} {c : Context} {σ σ' : Scopes} (hσ : Scopes.Thins gaps σ σ') :
    ∀ {s : Stmt}, (gaps.head? = some true → s.declares = false) → Checked T.table c σ (.stmt s) →
      Checked T.table' c σ' (.stmt s) → s.ids ⊆ T.ids →
        Stmt.Thins T gaps s (s.moved 0 T.renumber)
  | .expression _, _, h, h', hids => .expression (Expr.thins hσ h.expression h'.expression hids)
  | .print _, _, h, h', hids => .print (Expr.thins hσ h.print h'.print hids)
  | .var name none, hquiet, _, _, _ => by
      obtain ⟨outer, rfl⟩ := hσ.open_of fun hgap => nomatch hquiet hgap
      rw [Stmt.moved, name.down_zero]
      exact .var
  | .var name (some _), hquiet, h, h', hids => by
      obtain ⟨outer, rfl⟩ := hσ.open_of fun hgap => nomatch hquiet hgap
      rw [Stmt.moved, name.down_zero]
      exact .initialised (Expr.thins (hσ.declare name) h.initial h'.initial hids)
  | .block _, _, h, h', hids => .block (bodyThins (.scope hσ) nofun h.block h'.block hids)
  | .cond _ yes none, _, h, h', hids => by
      obtain ⟨hcondition, hyes⟩ := List.append_subset.mp hids
      exact .ifOnly (Expr.thins hσ h.condition h'.condition hcondition)
        (yes.thins hσ (fun _ => h.formed.2.2) h.yes h'.yes hyes)
  | .cond _ yes (some no), _, h, h', hids => by
      obtain ⟨hbranch, hno⟩ := List.append_subset.mp hids
      obtain ⟨hcondition, hyes⟩ := List.append_subset.mp hbranch
      have hquiet : gaps.head? = some true → yes.declares = false := fun _ => h.formed.2.1.2
      exact .ifElse (Expr.thins hσ h.condition h'.condition hcondition)
        (yes.thins hσ hquiet h.yes h'.yes hyes)
        (no.thins (hσ.after h.formed.2.1.1 hquiet) (fun _ => h.formed.2.2.2) h.no h'.no hno)
  | .loop _ body, _, h, h', hids => by
      obtain ⟨hcondition, hbody⟩ := List.append_subset.mp hids
      exact .loop (Expr.thins hσ h.loopCondition h'.loopCondition hcondition)
        (body.thins hσ (fun _ => h.formed.2.2) h.loopBody h'.loopBody hbody)
  | .function decl, hquiet, h, h', hids => by
      obtain ⟨outer, rfl⟩ := hσ.open_of fun hgap => nomatch hquiet hgap
      exact .function (decl.thins (hσ.settle decl.name) h.function h'.function hids)
  | .ret keyword none, _, _, _, _ => by
      rw [Stmt.moved, keyword.down_zero]
      exact .ret
  | .ret keyword (some _), _, h, h', hids => by
      rw [Stmt.moved, keyword.down_zero]
      exact .returned (Expr.thins hσ h.returned h'.returned hids)
  | .classDecl name none _, hquiet, h, h', hids => by
      obtain ⟨outer, rfl⟩ := hσ.open_of fun hgap => nomatch hquiet hgap
      rw [Stmt.moved, name.down_zero]
      exact .classDecl .none (methodsThin ((hσ.settle name).ofClass none) h.methods h'.methods hids)
  | .classDecl name (some (id, base)) _, hquiet, h, h', hids => by
      obtain ⟨outer, rfl⟩ := hσ.open_of fun hgap => nomatch hquiet hgap
      obtain ⟨hid, hmethods⟩ := List.cons_subset.mp hids
      rw [Stmt.moved, name.down_zero, base.down_zero]
      exact .classDecl (.some (hσ.refers hid h.superclass.1 h'.superclass.1))
        (methodsThin ((hσ.settle name).ofClass (some (id, base))) h.methods h'.methods hmethods)
  | .missing, _, h, _, _ => h.formed.elim
  | .misplaced _, _, h, _, _ => h.formed.elim

theorem bodyThins {gaps : Gaps} {c : Context} {σ σ' : Scopes} (hσ : Scopes.Thins gaps σ σ') :
    ∀ {ss : List Stmt}, (gaps.head? = some true → ∀ s ∈ ss, s.declares = false) →
      Checked T.table c σ (.body ss) → Checked T.table' c σ' (.body ss) → bodyIds ss ⊆ T.ids →
        BodyThins T gaps ss (movedBody 0 T.renumber ss)
  | [], _, _, _, _ => .nil
  | s :: _, hquiet, h, h', hids =>
      have hids := List.append_subset.mp hids
      have hfirst := fun hgap => hquiet hgap s List.mem_cons_self
      .cons (s.thins hσ hfirst h.firstStmt h'.firstStmt hids.1)
        (bodyThins (hσ.after h.formed.1 hfirst)
          (fun hgap st hst => hquiet hgap st (List.mem_cons_of_mem _ hst)) h.moreStmts h'.moreStmts
          hids.2)

theorem FunDecl.thins {gaps : Gaps} {c : Context} {σ σ' : Scopes} (hσ : Scopes.Thins gaps σ σ') :
    ∀ {decl : FunDecl}, Checked T.table c σ (.function decl) →
      Checked T.table' c σ' (.function decl) → decl.ids ⊆ T.ids →
        FunDecl.Thins T gaps decl (decl.moved 0 T.renumber)
  | .mk name params _, h, h', hids => by
      rw [FunDecl.moved, name.down_zero, map_down_zero]
      exact .mk (bodyThins (Scopes.Thins.params (.scope hσ) params) nofun h.functionBody
        h'.functionBody hids)

theorem methodsThin {gaps : Gaps} {c : Context} {σ σ' : Scopes} (hσ : Scopes.Thins gaps σ σ') :
    ∀ {decls : List FunDecl}, Checked T.table c σ (.methods decls) →
      Checked T.table' c σ' (.methods decls) → methodIds decls ⊆ T.ids →
        MethodsThin T gaps decls (movedMethods 0 T.renumber decls)
  | [], _, _, _ => .nil
  | decl :: _, h, h', hids =>
      have hids := List.append_subset.mp hids
      .cons (decl.thins hσ h.firstMethod h'.firstMethod hids.1)
        (methodsThin hσ h.moreMethods h'.moreMethods hids.2)

end

/-! ## Problems

Resolution notes the same problems without the scopes that declare nothing. -/

section

variable {gaps : Gaps} {σ σ' : Scopes}

theorem Scopes.Settled.prematureRead_eq (h : σ.Settled) (name : Token) :
    σ.prematureRead name = [] := by
  cases σ with
  | nil => rfl
  | cons scope σ =>
      refine if_neg fun hfalse => ?_
      cases h scope List.mem_cons_self name.lexeme false hfalse

theorem Scopes.Thins.prematureRead_eq (h : Scopes.Thins gaps σ σ') (name : Token) :
    σ'.prematureRead name = σ.prematureRead name := by
  cases h with
  | globals => rfl
  | scope _ => rfl
  | gap hsettled _ => exact hsettled.prematureRead_eq name

theorem Scopes.Thins.redeclaration_eq (h : Scopes.Thins (false :: gaps) σ σ') (name : Token) :
    σ'.redeclaration name = σ.redeclaration name := by
  cases h with
  | globals => rfl
  | scope _ => rfl

theorem Scopes.Thins.resolveRead_eq (h : Scopes.Thins gaps σ σ') (id : NodeId) (name : Token) :
    (resolveRead σ' id name).problems = (resolveRead σ id name).problems := by
  simp only [resolveRead, Findings.problems_append, Findings.problems_ofProblems,
    Findings.problems_refer, h.prematureRead_eq]

theorem Scopes.Thins.resolveParams_eq (h : Scopes.Thins (false :: gaps) σ σ')
    (params : List Token) :
    (resolveParams σ' params).1.problems = (resolveParams σ params).1.problems := by
  induction params generalizing σ σ' with
  | nil => rfl
  | cons param params ih =>
      have hmore := ih (h.settle param)
      simp only [Scopes.settle] at hmore
      simp only [resolveParams, Findings.problems_append, Findings.problems_ofProblems,
        h.redeclaration_eq, hmore]

variable {c : Context}

mutual

theorem Expr.problems_thin (hσ : Scopes.Thins gaps σ σ') : ∀ e : Expr,
    (e.resolve c σ').problems = (e.resolve c σ).problems
  | .literal _ _ | .missing | .misplaced _ => rfl
  | .grouping _ e | .unary _ _ e | .get _ e _ => Expr.problems_thin hσ e
  | .binary _ left _ right | .logical _ left _ right => by
      simp only [Expr.resolve, Findings.problems_append, Expr.problems_thin hσ left,
        Expr.problems_thin hσ right]
  | .read id name => hσ.resolveRead_eq id name
  | .assign id name value => by
      simp only [Expr.resolve, Findings.problems_append, Findings.problems_refer,
        Expr.problems_thin hσ value]
  | .call _ callee _ arguments => by
      simp only [Expr.resolve, Findings.problems_append, Expr.problems_thin hσ callee,
        problems_thin_arguments hσ arguments]
  | .set _ object _ value => by
      simp only [Expr.resolve, Findings.problems_append, Expr.problems_thin hσ object,
        Expr.problems_thin hσ value]
  | .self id keyword => by
      unfold Expr.resolve
      split
      · rfl
      · simp only [Findings.problems_refer]
  | .super id keyword method => by
      simp only [Expr.resolve, Findings.problems_append, Findings.problems_refer]

theorem problems_thin_arguments (hσ : Scopes.Thins gaps σ σ') : ∀ es : List Expr,
    (resolveArguments c σ' es).problems = (resolveArguments c σ es).problems
  | [] => rfl
  | e :: es => by
      simp only [resolveArguments, Findings.problems_append, Expr.problems_thin hσ e,
        problems_thin_arguments hσ es]

end

end

mutual

theorem Stmt.problems_thin {gaps : Gaps} {c : Context} {σ σ' : Scopes}
    (hσ : Scopes.Thins gaps σ σ') : ∀ {s : Stmt}, s.Formed →
      (gaps.head? = some true → s.declares = false) →
        (s.resolve c σ').1.problems = (s.resolve c σ).1.problems
  | .expression e, _, _ | .print e, _, _ => Expr.problems_thin hσ e
  | .var name none, _, hquiet => by
      obtain ⟨outer, rfl⟩ := hσ.open_of fun hgap => nomatch hquiet hgap
      simp only [Stmt.resolve, hσ.redeclaration_eq]
  | .var name (some e), _, hquiet => by
      obtain ⟨outer, rfl⟩ := hσ.open_of fun hgap => nomatch hquiet hgap
      simp only [Stmt.resolve, Findings.problems_append, hσ.redeclaration_eq,
        Expr.problems_thin (hσ.declare name) e]
  | .block _, hformed, _ => problems_thin_body (.scope hσ) hformed nofun
  | .cond e yes none, hformed, _ => by
      simp only [Stmt.Formed] at hformed
      simp only [Stmt.resolve, Findings.problems_append, Expr.problems_thin hσ e,
        yes.problems_thin hσ hformed.2.1 fun _ => hformed.2.2]
  | .cond e yes (some no), hformed, _ => by
      simp only [Stmt.Formed] at hformed
      have hquiet : gaps.head? = some true → yes.declares = false := fun _ => hformed.2.1.2
      simp only [Stmt.resolve, Findings.problems_append, Expr.problems_thin hσ e,
        yes.problems_thin hσ hformed.2.1.1 hquiet,
        no.problems_thin (hσ.after hformed.2.1.1 hquiet) hformed.2.2.1 fun _ => hformed.2.2.2]
  | .loop e body, hformed, _ => by
      simp only [Stmt.Formed] at hformed
      simp only [Stmt.resolve, Findings.problems_append, Expr.problems_thin hσ e,
        body.problems_thin hσ hformed.2.1 fun _ => hformed.2.2]
  | .function decl, hformed, hquiet => by
      obtain ⟨outer, rfl⟩ := hσ.open_of fun hgap => nomatch hquiet hgap
      simp only [Stmt.Formed] at hformed
      have hdecl := decl.problems_thin (c := { c with inFunction := some .function })
        (hσ.settle decl.name) hformed.2
      simp only [Scopes.settle] at hdecl
      simp only [Stmt.resolve, Findings.problems_append, hσ.redeclaration_eq, hdecl]
  | .ret _ none, _, _ => rfl
  | .ret _ (some e), _, _ => by
      simp only [Stmt.resolve, Findings.problems_append, Expr.problems_thin hσ e]
  | .classDecl name none decls, hformed, hquiet => by
      obtain ⟨outer, rfl⟩ := hσ.open_of fun hgap => nomatch hquiet hgap
      simp only [Stmt.Formed] at hformed
      have hdecls := problems_thin_methods (c := { c with inClass := .plain })
        ((hσ.settle name).ofClass none) hformed.2
      simp only [Scopes.settle, Scopes.ofClass] at hdecls
      simp only [Stmt.resolve, Findings.problems_append, hσ.redeclaration_eq, hdecls]
  | .classDecl name (some (id, base)) decls, hformed, hquiet => by
      obtain ⟨outer, rfl⟩ := hσ.open_of fun hgap => nomatch hquiet hgap
      simp only [Stmt.Formed] at hformed
      have hbase := (hσ.settle name).resolveRead_eq id base
      have hdecls := problems_thin_methods (c := { c with inClass := .subclass })
        ((hσ.settle name).ofClass (some (id, base))) hformed.2.2
      simp only [Scopes.settle, Scopes.ofClass] at hbase hdecls
      simp only [Stmt.resolve, Findings.problems_append, hσ.redeclaration_eq, hbase, hdecls]
  | .missing, _, _ | .misplaced _, _, _ => rfl

theorem problems_thin_body {gaps : Gaps} {c : Context} {σ σ' : Scopes}
    (hσ : Scopes.Thins gaps σ σ') : ∀ {ss : List Stmt}, bodyFormed ss →
      (gaps.head? = some true → ∀ s ∈ ss, s.declares = false) →
        (resolveBody c σ' ss).1.problems = (resolveBody c σ ss).1.problems
  | [], _, _ => rfl
  | s :: ss, hformed, hquiet => by
      simp only [bodyFormed] at hformed
      have hfirst := fun hgap => hquiet hgap s List.mem_cons_self
      have hmore := problems_thin_body (c := c) (hσ.after (c := c) hformed.1 hfirst) hformed.2
        fun hgap st hst => hquiet hgap st (List.mem_cons_of_mem _ hst)
      simp only [resolveBody, Findings.problems_append, s.problems_thin hσ hformed.1 hfirst, hmore]

theorem FunDecl.problems_thin {gaps : Gaps} {c : Context} {σ σ' : Scopes}
    (hσ : Scopes.Thins gaps σ σ') : ∀ {decl : FunDecl}, decl.Formed →
      (decl.resolve c σ').problems = (decl.resolve c σ).problems
  | .mk _ params ss, hformed => by
      simp only [FunDecl.Formed] at hformed
      have hopen : Scopes.Thins (false :: gaps) ([] :: σ) ([] :: σ') := .scope hσ
      simp only [FunDecl.resolve, Findings.problems_append, hopen.resolveParams_eq,
        problems_thin_body (hopen.params params) hformed.2 nofun]

theorem problems_thin_methods {gaps : Gaps} {c : Context} {σ σ' : Scopes}
    (hσ : Scopes.Thins gaps σ σ') : ∀ {decls : List FunDecl}, methodsFormed decls →
      (resolveMethods c σ' decls).problems = (resolveMethods c σ decls).problems
  | [], _ => rfl
  | decl :: decls, hformed => by
      simp only [methodsFormed] at hformed
      simp only [resolveMethods, Findings.problems_append, decl.problems_thin hσ hformed.1,
        problems_thin_methods hσ hformed.2]

end

end Lox
