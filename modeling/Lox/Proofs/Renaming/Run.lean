import Lox.Proofs.Grammar.Span
import Lox.Proofs.History.Outward
import Lox.Proofs.Renaming.Alike
import Mathlib

/-!
# Runs of renamed programs

Scoping is lexical: a local variable of an accepted program may be given any new name.  The program
is accepted as before, its references have the same distances, and in every session it prints the same
and ends in the same way.  Only the token that a runtime error is reported at may show the new name.
-/

namespace Lox

namespace Renaming

/-- The likeness under which the variable may have its new name, wherever that is. -/
def likeness (r : Renaming) (hr : r.Proper) : Likeness where
  token _ t t' := ∃ mark, t' = r.token mark t
  token_kind := by
    rintro _ t _ ⟨mark, rfl⟩
    unfold token
    split <;> rfl
  token_site := ⟨false, rfl⟩
  number id id' := id' = id
  number_refl _ := rfl
  renames ρ := ∃ mark, ρ = r.rename mark
  renames_id := ⟨false, rfl⟩
  renames_injective := by
    rintro _ ⟨mark, rfl⟩ x y
    exact rename_injective
  renames_this := by
    rintro _ ⟨mark, rfl⟩
    exact rename_of_ne hr.old.1.symm hr.new.1.symm
  renames_super := by
    rintro _ ⟨mark, rfl⟩
    exact rename_of_ne hr.old.2.symm hr.new.2.symm
  genuine _ _ := True
  token_self _ _ _ := ⟨false, rfl⟩
  strict := False
  allowed _ := True
  reentry := True
  reentry_of_allowed _ _ := trivial
  genuine_of_accepted _ _ _ := trivial

variable {r : Renaming} {w : World}

theorem line_token (mark : Bool) (t : Token) : (r.token mark t).line = t.line := by
  unfold token
  split <;> rfl

theorem likeness_obeys (hr : r.Proper) : (r.likeness hr).Obeys .outward where
  view w := by
    have hself : ∀ t, (r.likeness hr).token false t t := fun _ => ⟨false, rfl⟩
    refine ⟨Likeness.view_outward _ w, ?_, fun h => RuntimeError.alike_self (hself _) h⟩
    rintro e e' ⟨⟨_, mark, htoken⟩, -⟩
    rw [htoken, line_token]
  strict := Iff.rfl
  allowed h := h

/-! ## Runs that end alike -/

/-- Sessions in which the same was printed, with the same flags. -/
structure SamePrinted (s s' : Session) : Prop where
  output : s'.output = s.output
  written : s'.written = s.written
  input : s'.input = s.input
  staticError : s'.hadStaticError = s.hadStaticError
  runtimeError : s'.hadRuntimeError = s.hadRuntimeError

/-- Runs that end in the same way.  The token of an error may show the new name for the old one. -/
inductive SameEnd (r : Renaming) : EStateM.Result Interrupt Session Report →
    EStateM.Result Interrupt Session Report → Prop where
  | finished : SamePrinted s s' → SameEnd r (.ok .finished s) (.ok .finished s')
  | failed : SamePrinted s s' → e'.fault = e.fault →
      e'.token = e.token ∨ e.token.lexeme = r.old ∧ e'.token = { e.token with lexeme := r.new } →
      SameEnd r (.ok (.failed e) s) (.ok (.failed e') s')
  | raised : SamePrinted s s' → SameEnd r (.error (.host e) s) (.error (.host e) s')
  | outOfFuel : SamePrinted s s' → SameEnd r (.error .outOfFuel s) (.error .outOfFuel s')

section

variable {hr : r.Proper}

theorem samePrinted {s s' : Session} (hw : World.Later (r.likeness hr) w.reset w')
    (h : Session.Alike (r.likeness hr) w' s s') : SamePrinted s s' := by
  have houtput := h.output
  have hstatic := h.staticError
  have hruntime := h.runtimeError
  rw [hw.pace_of_reset] at houtput hstatic hruntime
  exact ⟨houtput.trans Array.empty_append, h.written, h.input, hstatic rfl, hruntime rfl⟩

theorem token_cases {t t' : Token} (h : ∃ mark, t' = r.token mark t) :
    t' = t ∨ t.lexeme = r.old ∧ t' = { t with lexeme := r.new } := by
  obtain ⟨mark, rfl⟩ := h
  unfold token
  split
  · next hboth => exact .inr ⟨hboth.2, rfl⟩
  · exact .inl rfl

/-- Statements of an accepted program that end alike make runs that end alike. -/
theorem sameEnd_of_outcome {x y : Eval Completion} {s s' : Session}
    (h : Outcome (r.likeness hr) True (fun _ => Report.Related (RuntimeError.Alike (r.likeness hr)))
      w.reset
      ((do let error ← Eval.catchFault x; Eval.conclude error) s)
      ((do let error ← Eval.catchFault y; Eval.conclude error) s')) :
    r.SameEnd ((do let error ← Eval.catchFault x; Eval.conclude error) s)
      ((do let error ← Eval.catchFault y; Eval.conclude error) s') := by
  obtain ⟨hreport, hinterrupt⟩ := Eval.ends_caught x s
  generalize (do let error ← Eval.catchFault x; Eval.conclude error : Eval Report) s = a at *
  generalize (do let error ← Eval.catchFault y; Eval.conclude error : Eval Report) s' = b at *
  cases h with
  | ok hw hs halike =>
      cases halike with
      | finished => exact .finished (samePrinted hw hs)
      | rejected => exact absurd rfl (hreport _ _)
      | failed he =>
          obtain ⟨⟨_, htoken⟩, hsame, -⟩ := he
          exact .failed (samePrinted hw hs) hsame (token_cases htoken)
  | fault _ _ _ _ => exact absurd rfl (hinterrupt _ _)
  | host hw hs _ => exact .raised (samePrinted hw hs)
  | outOfFuel hw hs => exact .outOfFuel (samePrinted hw hs)
  | slack h => exact absurd trivial h

end

/-! ## The renamed program -/

variable (r)

mutual

theorem span_expr (marks : List Bool) : ∀ e : Expr, (r.expr marks e).span = e.span
  | .literal _ _ => rfl
  | .grouping _ inner => by simp only [expr, Expr.span, span_expr marks inner]
  | .unary _ _ right => by simp only [expr, Expr.span, span_expr marks right]
  | .binary _ left _ right => by
      simp only [expr, Expr.span, span_expr marks left, span_expr marks right]
  | .logical _ left _ right => by
      simp only [expr, Expr.span, span_expr marks left, span_expr marks right]
  | .read _ _ => rfl
  | .assign _ _ value => by simp only [expr, Expr.span, span_expr marks value]
  | .call _ callee _ arguments => by
      simp only [expr, Expr.span, span_expr marks callee, span_exprs marks arguments]
  | .get _ object _ => by simp only [expr, Expr.span, span_expr marks object]
  | .set _ object _ value => by
      simp only [expr, Expr.span, span_expr marks object, span_expr marks value]
  | .self _ _ => rfl
  | .super _ _ _ => rfl
  | .missing => rfl
  | .misplaced _ => rfl

theorem span_exprs (marks : List Bool) :
    ∀ es : List Expr, argumentSpan (r.exprs marks es) = argumentSpan es
  | [] => rfl
  | e :: es => by simp only [exprs, argumentSpan, span_expr marks e, span_exprs marks es]

end

mutual

theorem span_stmt : ∀ (s : Stmt) (chosen : Nat → Bool) (marks : List Bool),
    (r.stmt chosen marks s).span = s.span
  | .expression value, _, marks => r.span_expr marks value
  | .print value, _, marks => r.span_expr marks value
  | .var _ none, _, _ => rfl
  | .var _ (some value), _, marks => r.span_expr marks value
  | .block ss, _, _ => span_body ss _ _
  | .cond condition yes none, _, marks => by
      simp only [stmt, Stmt.span, r.span_expr marks condition, span_stmt yes]
  | .cond condition yes (some no), _, marks => by
      simp only [stmt, Stmt.span, r.span_expr marks condition, span_stmt yes, span_stmt no]
  | .loop condition s, _, marks => by
      simp only [stmt, Stmt.span, r.span_expr marks condition, span_stmt s]
  | .function decl, _, _ => span_function decl _ _
  | .ret _ none, _, _ => rfl
  | .ret _ (some value), _, marks => r.span_expr marks value
  | .classDecl _ none decls, _, _ => span_methods decls _ _
  | .classDecl _ (some (_, _)) decls, _, _ => by
      simp only [stmt, Stmt.span, span_methods decls]
  | .missing, _, _ => rfl
  | .misplaced _, _, _ => rfl

theorem span_body : ∀ (ss : List Stmt) (chosen : Nat → Bool) (marks : List Bool),
    bodySpan (r.body chosen marks ss) = bodySpan ss
  | [], _, _ => rfl
  | s :: ss, _, _ => by simp only [body, bodySpan, span_stmt s, span_body ss]

theorem span_function : ∀ (decl : FunDecl) (chosen : Nat → Bool) (marks : List Bool),
    (r.function chosen marks decl).span = decl.span
  | .mk _ _ ss, _, _ => span_body ss _ _

theorem span_methods : ∀ (decls : List FunDecl) (chosen : Nat → Bool) (marks : List Bool),
    methodSpan (r.methods chosen marks decls) = methodSpan decls
  | [], _, _ => rfl
  | decl :: decls, _, _ => by
      simp only [methods, methodSpan, span_function decl, span_methods decls]

end

/-- A new name for a variable of a scope, which the program does not have yet.  The variable is declared
in the scope by `var` or as a parameter. -/
structure Renames (r : Renaming) (program : Compilation) (i : Nat) : Prop where
  table : r.table = hopsOf program.references
  scope : ∃ text, (bodyScopeTexts program.statements)[i]? = some text ∧ text.HasVariable r.old
  word : Token.Kind.ofWord r.new = .name
  fresh : r.new ∉ bodyVariables program.statements

/-- A program with the variable renamed in the scope that has this place among its scopes. -/
def program (i : Nat) (ss : List Stmt) : List Stmt :=
  r.body (fun j => j == i) [] ss

/-- Runs a program with the variable renamed in its tree.  No text is read for that tree. -/
def runRenamed (fuel i : Nat) (source : String) : Eval Report := do
  modify Session.beginRun
  let read := compile source (← get).nextNode
  modify fun s => { s with nextNode := read.nextId }
  let renamed := r.program i read.statements
  let error ← Session.runStatements fuel (resolveProgram renamed).references renamed
  Eval.conclude error

/-- The session in which the statements of the renamed program run. -/
def readyRenamed (i : Nat) (source : String) (s : Session) : Session :=
  { s.ready source with
    hops := s.hops.merge
      (resolveProgram (r.program i (compile source s.nextNode).statements)).references }

theorem runRenamed_apply {fuel i : Nat} {source : String} {s : Session} :
    r.runRenamed fuel i source s = (do
      let error ← Eval.catchFault
        (Eval.execAll fuel Session.globals (r.program i (compile source s.nextNode).statements))
      Eval.conclude error) (r.readyRenamed i source s) := by
  unfold runRenamed
  rw [eval_modify_bind_apply, eval_get_bind_apply, eval_modify_bind_apply]
  rfl

variable {r} {source source' : String} {n : NodeId} {i : Nat}

theorem plain_of_mem {ss : List Stmt} (h : bodyFormed ss) {t : Token} {initial : Option Expr}
    (hmem : Stmt.var t initial ∈ ss) : t.Plain := by
  induction ss with
  | nil => cases hmem
  | cons s ss ih =>
      simp only [bodyFormed] at h
      rcases List.mem_cons.mp hmem with rfl | hmem
      · cases initial with
        | none => exact h.1
        | some value => exact h.1.1
      · exact ih h.2 hmem

/-- No variable has a name that classes declare by themselves. -/
theorem old_ne {ss : List Stmt} {table : NodeId → Option Nat} {text : ScopeText} {x : String}
    (hroot : Checked table {} [] (.body ss)) (htext : text ∈ bodyScopeTexts ss)
    (hvariable : text.HasVariable x) : x ≠ "this" ∧ x ≠ "super" := by
  obtain ⟨c, σ, hreaches⟩ := body_reaches_scope .root htext
  have hchecked := hreaches.checked hroot
  rcases hvariable with ⟨param, hparam, rfl⟩ | ⟨t, initial, hvar, rfl⟩
  · have hempty : Scopes.Lists ([] :: σ) ([] :: σ.map Bindings.names) :=
      .cons (fun x => by simp) (Scopes.lists_names σ)
    have hlists := hempty.params text.params
    have hopen := hchecked.placed.1.open
    simp only [addNames, List.append_nil] at hlists
    generalize (resolveParams ([] :: σ) text.params).2 = τ at hlists hopen
    cases hlists with
    | @cons scope _ _ _ hscope _ =>
        have hbound := (hscope param.lexeme).mpr (List.mem_map_of_mem hparam)
        obtain ⟨hthis, hsuper⟩ := hopen scope rfl
        refine ⟨fun heq => ?_, fun heq => ?_⟩
        · rw [heq, Bindings.binds, hthis] at hbound
          cases hbound
        · rw [heq, Bindings.binds, hsuper] at hbound
          cases hbound
  · exact plain_of_mem hchecked.formed hvar

namespace Renames

theorem checked (hr : r.Renames (compile source n) i) (hvalid : (compile source n).problems = []) :
    Checked r.table {} [] (.body (compile source n).statements) := by
  rw [hr.table]
  exact (compile_checked hvalid).1

theorem proper (hr : r.Renames (compile source n) i) (hvalid : (compile source n).problems = []) :
    r.Proper where
  old := by
    obtain ⟨text, htext, hvariable⟩ := hr.scope
    exact old_ne (hr.checked hvalid) (List.mem_of_getElem? htext) hvariable
  new := by
    constructor
    · intro hthis
      have hword := hr.word
      rw [hthis] at hword
      cases hword
    · intro hsuper
      have hword := hr.word
      rw [hsuper] at hword
      cases hword

theorem spares (hr : r.Renames (compile source n) i) (hvalid : (compile source n).problems = []) :
    r.Spares (bodyScopeTexts (compile source n).statements) fun j => j == i := by
  obtain ⟨text, htext, hvariable⟩ := hr.scope
  exact spares_of_hasVariable (hr.checked hvalid) htext hvariable

/-- The renamed program is resolved like the program. -/
theorem agree (hr : r.Renames (compile source n) i) (hvalid : (compile source n).problems = []) :
    Findings.Agree (resolveProgram (compile source n).statements)
      (resolveProgram (r.program i (compile source n).statements)) :=
  (body_agrees (hr.proper hvalid) (hr.checked hvalid) .nil .root hr.fresh (hr.spares hvalid)
    fun hmark => absurd hmark Bool.false_ne_true).1

end Renames

theorem references_compile (h : (compile source n).resolved = true) :
    (compile source n).problems = (resolveProgram (compile source n).statements).problems ∧
      (compile source n).references = (resolveProgram (compile source n).statements).references := by
  unfold compile at h ⊢
  dsimp only at h ⊢
  split at h
  · next hnone => simp only [hnone, if_true, and_self]
  · cases h

theorem resolved_compile (h : (compile source n).problems = []) :
    (compile source n).resolved = true := by
  obtain ⟨hscan, phrases, j, hphrases, -⟩ := program_of_compile h
  rw [compile_of_program hscan hphrases]

theorem nextId_of_accepted (h : (compile source n).problems = []) :
    (compile source n).nextId = n + bodySpan (compile source n).statements := by
  obtain ⟨hscan, phrases, j, hphrases, -⟩ := program_of_compile h
  rw [compile_of_program hscan hphrases]
  exact hphrases.span_eq

theorem Renames.sameDistance (hr : r.Renames (compile source n) i)
    (hvalid : (compile source n).problems = []) :
    List.Forall₂ Reference.SameDistance (compile source n).references
      (resolveProgram (r.program i (compile source n).statements)).references := by
  rw [(references_compile (resolved_compile hvalid)).2]
  exact (hr.agree hvalid).references

theorem Renames.references_bounded (hr : r.Renames (compile source n) i)
    (hvalid : (compile source n).problems = []) :
    ∀ reference ∈ (resolveProgram (r.program i (compile source n).statements)).references,
      n ≤ reference.id ∧ reference.id < (compile source n).nextId := by
  intro reference hmem
  obtain ⟨hlength, hsame⟩ := List.forall₂_iff_get.mp (hr.sameDistance hvalid)
  obtain ⟨k, hk, rfl⟩ := List.getElem_of_mem hmem
  have hid := (hsame k (hlength ▸ hk) hk).id_eq
  simp only [List.get_eq_getElem] at hid
  rw [hid]
  exact Lox.references_bounded hvalid _ (List.getElem_mem _)

/-- Once the program is read and both trees are resolved, the session is like itself. -/
theorem Renames.ready {s : Session} (hr : r.Renames (compile source s.nextNode) i)
    (hvalid : (compile source s.nextNode).problems = [])
    (hs : Session.Alike (r.likeness (hr.proper hvalid)) w s s) :
    Session.Alike (r.likeness (hr.proper hvalid)) (w.reset.accept (Code.ofProgram false hvalid 0))
      (s.ready source) (r.readyRenamed i source s) := by
  have hresolved := references_compile (resolved_compile hvalid)
  have hgap : w.pace.gap = 0 := (hs.gap_eq (Nat.add_zero s.nextNode).symm rfl trivial).symm
  have hbounds := (compile_checked hvalid).2.bounds
  have hle := le_nextId_compile source s.nextNode
  have hs := hs.beginRun
  refine hs.accept trivial ?_ ?_ fun _ => ?_
  · exact hs.recorded.accept hle hbounds (fun _ _ => rfl) (Lox.references_bounded hvalid)
  · refine hs.recorded'.accept hle hbounds (fun id _ => ?_) (hr.references_bounded hvalid)
    have hhops := (hr.agree hvalid).hopsOf_eq id
    rw [← hresolved.2] at hhops
    exact hhops.symm
  · change _ = _ + w.pace.gap
    rw [hgap]
    rfl

theorem Renames.bodyAlike (hr : r.Renames (compile source n) i)
    (hvalid : (compile source n).problems = []) :
    BodyAlike (r.likeness (hr.proper hvalid)) (Code.ofProgram false hvalid 0) []
      (compile source n).statements (r.program i (compile source n).statements) := by
  have hpermitted : r.Permitted (r.likeness (hr.proper hvalid)) (Code.ofProgram false hvalid 0) :=
    ⟨fun mark _ => ⟨mark, rfl⟩, fun mark => ⟨mark, rfl⟩, fun _ => rfl, hr.table.symm⟩
  have hnone : ([] : List Bool).headD false = true →
      ∀ s ∈ (compile source n).statements, r.old ∉ s.titles :=
    fun hmark => absurd hmark Bool.false_ne_true
  exact body_alike hpermitted (compile_checked hvalid).1.formed hr.fresh (hr.spares hvalid) hnone

theorem runProgram_readsRenamed {s : Session} {fuel : Nat}
    (hvalid : (compile source s.nextNode).problems = [])
    (hvalid' : (compile source' s.nextNode).problems = [])
    (htree : (compile source' s.nextNode).statements =
      r.program i (compile source s.nextNode).statements) :
    Session.run fuel source' s = r.runRenamed fuel i source s := by
  have hresolved' := references_compile (resolved_compile hvalid')
  have hnextId : (compile source' s.nextNode).nextId = (compile source s.nextNode).nextId := by
    rw [nextId_of_accepted hvalid, nextId_of_accepted hvalid', htree, program, span_body]
  rw [runRenamed_apply, Session.run, Eval.runProgram_accepted hvalid']
  unfold readyRenamed Session.ready
  rw [hnextId, hresolved'.2, htree]

end Renaming

/-- A variable that a closure reads, that is shadowed, and that a class cannot inherit from. -/
def shadowed : String :=
  "\x7b var a; fun get() \x7b return a; \x7d \x7b var a; \x7d class B < a \x7b\x7d \x7d"

def unshadowed : String :=
  "\x7b var b; fun get() \x7b return b; \x7d \x7b var a; \x7d class B < b \x7b\x7d \x7d"

end Lox
