import Lox.Proofs.Names.Kept
import Lox.Proofs.Scoping.Violations

/-!
# Evaluation binds no names but those that are declared

Code that was accepted binds a name only in the frame of the scope that declares it, and only while it
declares it.  Host functions that are called in the meantime may evaluate expressions.  If they run
programs or set variables, that binds global names, but no others.

An assignment is no exception.  It goes to a frame whose scope has the name, and such a frame binds
the name already, unless the assignment stands in the initializer of the variable itself.
-/

namespace Lox

/-- What an expression may bind: the name whose initializer it is. -/
def Scopes.MayBind (σ : Scopes) (env : Environment) (f : FrameId) (x : String) : Prop :=
  env.head? = some f ∧ σ.Initialises x

def Stmt.declared? : Stmt → Option String
  | .var name _ => some name.lexeme
  | .function decl => some decl.name.lexeme
  | .classDecl name _ _ => some name.lexeme
  | _ => none

def Stmt.MayBind (env : Environment) (st : Stmt) (f : FrameId) (x : String) : Prop :=
  env.head? = some f ∧ st.declared? = some x

def BodyMayBind (env : Environment) (ss : List Stmt) (f : FrameId) (x : String) : Prop :=
  ∃ st ∈ ss, Stmt.MayBind env st f x

theorem Stmt.not_mayBind {env : Environment} {st : Stmt} (h : st.declares = false) {f : FrameId}
    {x : String} : ¬ st.MayBind env f x := by
  rintro ⟨-, hx⟩
  cases st with
  | var | function | classDecl => cases h
  | _ => cases hx

/-- Steps that bind no global variables: no runs, and no settings. -/
def Step.Quiet : Step → Prop
  | .run _ | .runOther _ | .execute _ | .set _ _ => False
  | _ => True

section

variable {ℓ : Likeness} {w : World} {code : Code} {c : Context} {σ : Scopes}
  {ρs : List (String → String)} {env : Environment} {s : Session} {may : FrameId → String → Prop}

theorem Scopes.Settled.not_mayBind (h : σ.Settled) {f : FrameId} {x : String} :
    ¬ σ.MayBind env f x := by
  rintro ⟨-, scope, outer, rfl, hx⟩
  cases h scope List.mem_cons_self x false hx

theorem Scopes.Settled.mayBind_declare (h : σ.Settled) {name : Token} {f : FrameId} {x : String}
    (hx : Scopes.MayBind (σ.declare name) env f x) : env.head? = some f ∧ name.lexeme = x := by
  obtain ⟨hhead, scope, outer, hscope, hfind⟩ := hx
  refine ⟨hhead, ?_⟩
  cases σ with
  | nil => cases hscope
  | cons first σ =>
      obtain rfl := (List.cons.inj hscope).1
      by_cases hname : name.lexeme = x
      · exact hname
      · rw [Bindings.find?_set_of_ne hname] at hfind
        cases h first List.mem_cons_self x false hfind

namespace Eval

theorem writeAt_eq {k : Nat} {f : FrameId} {outer : Environment} (hdrop : env.drop k = f :: outer)
    (x : String) (v : Value) : writeAt env k x v = updateFrame f x v := by
  unfold writeAt
  rw [Frames.frameAt_eq hdrop]
  rfl

/-- An assignment binds no name that is not being initialised, and no global one at all. -/
theorem keepsNames_assign {part : Part} (hs : Session.Alike ℓ w s s)
    (hsited : Sited w code c σ ρs env part) {id : NodeId} (hid : id ∈ part.ids) {name : Token}
    (htable : code.table id = σ.hops? name.lexeme) (hsettled : Scopes.Settled σ.tail) (v : Value) :
    s.KeepsNames (σ.MayBind env) (leftBy (assign env id name v s)) := by
  unfold assign
  rw [eval_get_bind_apply, hs.recorded.table hsited.accepted (hsited.id_mem hid)]
  cases hhops : code.table id with
  | none => exact (Tidy.keeps s).of_nowhere
  | some k =>
      rw [hhops] at htable
      obtain ⟨scope, b, hscope, hx⟩ := Scopes.exists_of_hops? htable.symm
      obtain ⟨f, outer, hframe⟩ := hsited.covers.frame hscope
      dsimp only
      rw [writeAt_eq hframe.drop]
      refine .update s v ?_
      cases b with
      | true => exact .inl (hs.frames.declared (hframe.declared hx))
      | false =>
          cases k with
          | zero =>
              have hhead : env.head? = some f := by
                rw [show env = f :: outer from hframe.drop]
                rfl
              obtain ⟨outer, rfl⟩ : ∃ outer, σ = scope :: outer := by
                rw [← List.head?_eq_some_iff, List.head?_eq_getElem?]
                exact hscope
              exact .inr ⟨hhead, scope, outer, rfl, hx⟩
          | succ k =>
              have htail : σ.tail[k]? = some scope := by rw [List.getElem?_tail, hscope]
              cases hsettled scope (List.mem_of_getElem? htail) _ _ hx

end Eval

theorem Sited.nonglobal {part : Part} (h : Sited w code c σ ρs env part) {f : FrameId} {x : String}
    (hx : σ.MayBind env f x) : env.head? = some f ∧ f ≠ Session.globalFrame := by
  obtain ⟨hhead, scope, outer, rfl, -⟩ := hx
  obtain ⟨g, outer, hframe⟩ := h.covers.frame (List.getElem?_cons_zero (a := scope))
  have henv : env = g :: outer := hframe.drop
  rw [henv] at hhead
  obtain rfl := Option.some.inj hhead
  exact ⟨by rw [henv]; rfl, hframe.nonglobal⟩

/-! ## What one more step preserves -/

/-- What host functions may bind, whatever else may be bound. -/
def Besides (hosts may : FrameId → String → Prop) (f : FrameId) (x : String) : Prop :=
  hosts f x ∨ may f x

/-- Evaluations bind what their code declares, besides what host functions may bind. -/
structure KeepNames (ℓ : Likeness) (hosts : FrameId → String → Prop) (n : Nat) : Prop where
  eval : ∀ {w code c σ ρs env e s}, Session.Alike ℓ w s s → Sited w code c σ ρs env (.expr e) →
    Expr.Alike ℓ code ρs e e → s.KeepsNames (Besides hosts (σ.MayBind env)) (leftBy (Eval.eval n env e s))
  evalAll : ∀ {w code c σ ρs env es s}, Session.Alike ℓ w s s →
    Sited w code c σ ρs env (.exprs es) → ArgumentsAlike ℓ code ρs es es →
      s.KeepsNames (Besides hosts (σ.MayBind env)) (leftBy (Eval.evalAll n env es s))
  exec : ∀ {w code c σ ρs env st s}, Session.Alike ℓ w s s →
    Sited w code c σ ρs env (.stmt st) → Stmt.Alike ℓ code ρs st st →
      s.KeepsNames (Besides hosts (st.MayBind env)) (leftBy (Eval.exec n env st s))
  execAll : ∀ {w code c σ ρs env ss s}, Session.Alike ℓ w s s →
    Sited w code c σ ρs env (.body ss) → BodyAlike ℓ code ρs ss ss →
      s.KeepsNames (Besides hosts (BodyMayBind env ss)) (leftBy (Eval.execAll n env ss s))
  invoke : ∀ {w site f vs s}, Session.Alike ℓ w s s → Value.Alike ℓ w f f →
    List.Forall₂ (Value.Alike ℓ w) vs vs → f.arity? = some vs.length →
      s.KeepsNames hosts (leftBy (Eval.invoke n site f vs s))
  perform : ∀ {w a s}, Session.Alike ℓ w s s → HostAction.Alike ℓ w a a →
    s.KeepsNames hosts (leftBy (Eval.perform n a s))

end

namespace KeepNames

open Eval

variable {ℓ : Likeness} {hosts : FrameId → String → Prop} {n : Nat} {w : World} {code : Code}
  {c : Context} {σ : Scopes} {ρs : List (String → String)} {env : Environment} {s : Session}

theorem eval_succ (ih : KeepNames ℓ hosts n) (hs : Session.Alike ℓ w s s) {e : Expr}
    (hsited : Sited w code c σ ρs env (.expr e)) (halike : Expr.Alike ℓ code ρs e e) :
    s.KeepsNames (Besides hosts (σ.MayBind env)) (leftBy (Eval.eval (n + 1) env e s)) := by
  -- What an expression binds depends on where its code belongs, so likeness is carried from part to
  -- part.
  have done : ∀ {e₁ : Expr} {v : Value} {s₁ : Session}, Sited w code c σ ρs env (.expr e₁) →
      Expr.Alike ℓ code ρs e₁ e₁ → Eval.eval n env e₁ s = .ok v s₁ →
      ∃ w₁, w.Later ℓ w₁ ∧ Session.Alike ℓ w₁ s₁ s₁ ∧ Value.Alike ℓ w₁ v v :=
    fun hsited₁ halike₁ hv => ((evaluatesAlike_same n).eval hsited₁ halike₁).done hs hv
  cases e with
  | literal _ _ => exact .refl s
  | grouping _ inner =>
      cases halike with
      | grouping _ h => exact ih.eval hs hsited.grouping h
  | unary _ op right =>
      cases halike with
      | unary _ _ h =>
          exact keepsNames_bind (ih.eval hs hsited.unary h) fun _ => (Tidy.keeps _).of_nowhere
  | binary _ left op right =>
      cases halike with
      | binary _ hleft _ hright =>
          refine keepsNames_bind (ih.eval hs hsited.binaryLeft hleft) fun hv => ?_
          obtain ⟨w₁, hw₁, hs₁, -⟩ := done hsited.binaryLeft hleft hv
          exact keepsNames_bind (ih.eval hs₁ (hsited.binaryRight.mono hw₁.le) hright)
            fun _ => (Tidy.keeps _).of_nowhere
  | logical _ left op right =>
      cases halike with
      | logical _ hleft _ hright =>
          refine keepsNames_bind (ih.eval hs hsited.logicalLeft hleft) fun hv => ?_
          obtain ⟨w₁, hw₁, hs₁, -⟩ := done hsited.logicalLeft hleft hv
          split
          · exact .refl _
          · exact ih.eval hs₁ (hsited.logicalRight.mono hw₁.le) hright
  | read id name =>
      change s.KeepsNames _ (leftBy (lookUp env id name s))
      exact (Tidy.keeps s).of_nowhere
  | assign id name value =>
      refine keepsNames_bind (ih.eval hs hsited.assigned halike.assigned) fun {v _} hv => ?_
      obtain ⟨w₁, hw₁, hs₁, -⟩ := done hsited.assigned halike.assigned hv
      have hid : id ∈ (Part.expr (.assign id name value)).ids :=
        List.mem_append_right _ List.mem_cons_self
      have hassigned := keepsNames_assign hs₁ (hsited.mono hw₁.le) hid hsited.checked.assign
        hsited.checked.placed.2 v
      exact keepsNames_bind (hassigned.mono fun _ => .inr) fun _ => .refl _
  | call _ callee paren arguments =>
      cases halike with
      | call _ hcallee _ hargs =>
          refine keepsNames_bind (ih.eval hs hsited.callee hcallee) fun {f s₁} hf => ?_
          obtain ⟨w₁, hw₁, hs₁, hf₁⟩ := done hsited.callee hcallee hf
          have hsited₁ := hsited.arguments.mono hw₁.le
          refine keepsNames_bind (ih.evalAll hs₁ hsited₁ hargs) fun {vs s₂} hvs => ?_
          obtain ⟨w₂, hw₂, hs₂, hvs₂⟩ := ((evaluatesAlike_same n).evalAll hsited₁ hargs).done hs₁ hvs
          rcases checkCall_cases paren f vs.length with ⟨harity, hcheck⟩ | ⟨fault, hcheck⟩
          · rw [hcheck]
            exact (ih.invoke hs₂ (hf₁.mono hw₂.le) hvs₂ harity).mono fun _ => .inl
          · rw [hcheck]
            exact .refl _
  | get _ object name =>
      cases halike with
      | get _ h _ =>
          refine keepsNames_bind (ih.eval hs hsited.getObject h) fun {v s₁} _ => ?_
          cases v <;> exact (Tidy.keeps s₁).of_nowhere
  | set _ object name value =>
      cases halike with
      | set _ hobject _ hvalue =>
          refine keepsNames_bind (ih.eval hs hsited.setObject hobject) fun {v s₁} hv => ?_
          obtain ⟨w₁, hw₁, hs₁, -⟩ := done hsited.setObject hobject hv
          cases v with
          | object i cls =>
              exact keepsNames_bind (ih.eval hs₁ (hsited.setValue.mono hw₁.le) hvalue)
                fun _ => .of_frames rfl
          | _ => exact .refl _
  | self id keyword =>
      change s.KeepsNames _ (leftBy (lookUp env id keyword s))
      exact (Tidy.keeps s).of_nowhere
  | super id keyword method =>
      change s.KeepsNames _ (leftBy (superMethod env id method s))
      exact (Tidy.keeps s).of_nowhere
  | missing => exact .refl s
  | misplaced stmt => exact .refl s

theorem evalAll_succ (ih : KeepNames ℓ hosts n) (hs : Session.Alike ℓ w s s) {es : List Expr}
    (hsited : Sited w code c σ ρs env (.exprs es)) (halike : ArgumentsAlike ℓ code ρs es es) :
    s.KeepsNames (Besides hosts (σ.MayBind env)) (leftBy (Eval.evalAll (n + 1) env es s)) := by
  cases es with
  | nil => exact .refl s
  | cons e es =>
      cases halike with
      | cons hfirst hmore =>
          refine keepsNames_bind (ih.eval hs hsited.firstArgument hfirst) fun hv => ?_
          obtain ⟨w₁, hw₁, hs₁, -⟩ :=
            ((evaluatesAlike_same n).eval hsited.firstArgument hfirst).done hs hv
          exact keepsNames_bind (ih.evalAll hs₁ (hsited.moreArguments.mono hw₁.le) hmore)
            fun _ => .refl _

theorem exec_succ (ih : KeepNames ℓ hosts n) (hs : Session.Alike ℓ w s s) {st : Stmt}
    (hsited : Sited w code c σ ρs env (.stmt st)) (halike : Stmt.Alike ℓ code ρs st st) :
    s.KeepsNames (Besides hosts (st.MayBind env)) (leftBy (Eval.exec (n + 1) env st s)) := by
  have hformed : st.Formed := hsited.checked.formed
  have hopen : σ.Open := hsited.checked.placed.1.open
  have hsettled : σ.Settled := hsited.checked.placed.2
  have done : ∀ {e : Expr} {v : Value} {s₁ : Session}, Sited w code c σ ρs env (.expr e) →
      Expr.Alike ℓ code ρs e e → Eval.eval n env e s = .ok v s₁ →
      ∃ w₁, w.Later ℓ w₁ ∧ Session.Alike ℓ w₁ s₁ s₁ ∧ Value.Alike ℓ w₁ v v :=
    fun hsited₁ halike₁ hv => ((evaluatesAlike_same n).eval hsited₁ halike₁).done hs hv
  -- Expressions that are no initializers bind nothing.
  have quiet : ∀ {e : Expr}, Sited w code c σ ρs env (.expr e) → Expr.Alike ℓ code ρs e e →
      ∀ {may : FrameId → String → Prop},
        s.KeepsNames (Besides hosts may) (leftBy (Eval.eval n env e s)) :=
    fun hsited₁ halike₁ _ => (ih.eval hs hsited₁ halike₁).mono
      fun _ hx => hx.imp_right fun hx => absurd hx hsettled.not_mayBind
  cases st with
  | expression e =>
      cases halike with
      | expression h => exact keepsNames_bind (quiet hsited.expression h) fun _ => .refl _
  | print e =>
      cases halike with
      | print h =>
          exact keepsNames_bind (quiet hsited.print h) fun _ => .of_frames rfl
  | var name value =>
      have hmay : ∀ f, env.head? = some f →
          Besides hosts (Stmt.MayBind env (.var name value)) f name.lexeme :=
        fun f hf => .inr ⟨hf, rfl⟩
      cases halike with
      | var _ _ => exact keepsNames_bind (keepsNames_define hmay _ s) fun _ => .refl _
      | initialised _ _ h =>
          have hinitial := hsited.initial (hsited.covers.declare hopen hformed.1)
          refine keepsNames_bind ((ih.eval hs hinitial h).mono fun _ hx => ?_) fun _ =>
            keepsNames_bind (keepsNames_define hmay _ _) fun _ => .refl _
          rcases hx with hx | hx
          · exact .inl hx
          · obtain ⟨hhead, rfl⟩ := hsettled.mayBind_declare hx
            exact hmay _ hhead
  | block ss =>
      cases halike with
      | block hρ h =>
          refine (keepsNames_enter fun henter => ?_).mono fun _ => .inl
          obtain ⟨w₁, hw₁, hs₁, -, hentered⟩ := (simulates_enter hsited.covers hρ).done hs henter
          refine (ih.execAll hs₁ ((hsited.mono hw₁.le).block hentered) h).mono
            fun _ hx => hx.imp_right ?_
          rintro ⟨-, -, hhead, -⟩
          exact hhead
  | cond e yes no =>
      obtain ⟨hcondition, hyes⟩ := halike.cond
      refine keepsNames_bind (quiet hsited.condition hcondition) fun hv => ?_
      obtain ⟨w₁, hw₁, hs₁, -⟩ := done hsited.condition hcondition hv
      split
      · have hquiet : yes.declares = false := by
          cases no with
          | none => exact hformed.2.2
          | some no => exact hformed.2.1.2
        exact (ih.exec hs₁ (hsited.yes.mono hw₁.le) hyes).mono
          fun _ hx => hx.imp_right fun hx => absurd hx (Stmt.not_mayBind hquiet)
      · cases halike with
        | ifOnly _ _ => exact .refl _
        | ifElse _ _ hno =>
            exact (ih.exec hs₁ (hsited.no.mono hw₁.le) hno).mono
              fun _ hx => hx.imp_right fun hx => absurd hx (Stmt.not_mayBind hformed.2.2.2)
  | loop e body =>
      cases halike with
      | loop hcondition hbody =>
          refine keepsNames_bind (quiet hsited.loopCondition hcondition) fun {v s₁} hv => ?_
          obtain ⟨w₁, hw₁, hs₁, -⟩ := done hsited.loopCondition hcondition hv
          split
          · have hround := ih.exec hs₁ (hsited.loopBody.mono hw₁.le) hbody
            refine keepsNames_bind (hround.mono fun _ hx => hx.imp_right fun hx =>
              absurd hx (Stmt.not_mayBind hformed.2.2)) fun {r s₂} hr => ?_
            obtain ⟨w₂, hw₂, hs₂, -⟩ :=
              ((evaluatesAlike_same n).exec (hsited.loopBody.mono hw₁.le) hbody).done hs₁ hr
            cases r with
            | normal =>
                exact ih.exec hs₂ ((hsited.mono hw₁.le).mono hw₂.le) (.loop hcondition hbody)
            | returned _ => exact .refl _
          · exact .refl _
  | function decl =>
      refine keepsNames_bind ((Tidy.keeps s).of_nowhere) fun _ => ?_
      exact keepsNames_bind (keepsNames_define (fun f hf => .inr ⟨hf, rfl⟩) _ _)
        fun _ => .refl _
  | ret keyword value =>
      cases halike with
      | ret _ => exact .refl _
      | returned _ h => exact keepsNames_bind (quiet hsited.returned h) fun _ => .refl _
  | classDecl name base decls =>
      exact keepsNames_bind (keepsNames_declareClass (fun f hf => .inr ⟨hf, rfl⟩) base decls s)
        fun _ => .refl _
  | missing => exact .refl s
  | misplaced e => exact .refl s

theorem execAll_succ (ih : KeepNames ℓ hosts n) (hs : Session.Alike ℓ w s s) {ss : List Stmt}
    (hsited : Sited w code c σ ρs env (.body ss)) (halike : BodyAlike ℓ code ρs ss ss) :
    s.KeepsNames (Besides hosts (BodyMayBind env ss)) (leftBy (Eval.execAll (n + 1) env ss s)) := by
  cases ss with
  | nil => exact .refl s
  | cons st ss =>
      cases halike with
      | cons hfirst hmore =>
          refine keepsNames_bind ((ih.exec hs hsited.firstStmt hfirst).mono
            fun _ hx => hx.imp_right fun hx => ⟨st, List.mem_cons_self, hx⟩) fun {r s₁} hr => ?_
          obtain ⟨w₁, hw₁, hs₁, hend⟩ :=
            ((evaluatesAlike_same n).exec hsited.firstStmt hfirst).done hs hr
          cases hend with
          | normal hcovers₁ =>
              refine (ih.execAll hs₁ ((hsited.mono hw₁.le).moreStmts hcovers₁) hmore).mono ?_
              rintro _ _ - (hx | ⟨st', hmem, hx⟩)
              · exact .inl hx
              · exact .inr ⟨st', List.mem_cons_of_mem _ hmem, hx⟩
          | returned _ _ => exact .refl _

theorem keepsNames_activate (ih : KeepNames ℓ hosts n) (hs : Session.Alike ℓ w s s) {f : Closure}
    (hf : Closure.Alike ℓ w f f) {vs : List Value} (hvs : List.Forall₂ (Value.Alike ℓ w) vs vs)
    (hcount : vs.length = f.decl.arity) :
    s.KeepsNames hosts (leftBy (activate (Eval.execAll n) f vs s)) := by
  have hframe : s.KeepsNames hosts (leftBy (Eval.open f vs s)) := (Tidy.keeps s).of_nowhere
  rw [activate_eq, leftBy_bind]
  cases hopen : Eval.open f vs s with
  | error i t =>
      rw [hopen] at hframe
      exact hframe
  | ok env s₁ =>
      rw [hopen] at hframe
      obtain ⟨w₁, -, hs₁, -, code, c, σ, ρs, -, hsited, hbody⟩ :=
        (simulates_open hf hvs hcount).done hs hopen
      have hnew : ∀ {g x}, Besides hosts (BodyMayBind env f.decl.body) g x →
          hosts g x ∨ s.frames.frames.size ≤ g := by
        rintro g x (hx | ⟨-, -, hhead, -⟩)
        · exact .inl hx
        · rw [(Eval.open_inv hopen).1] at hhead
          exact .inr (Nat.le_of_eq (Option.some.inj hhead))
      refine hframe.after_new (keepsNames_bind (ih.execAll hs₁ hsited hbody) fun _ => ?_) hnew
      split <;> exact (Tidy.keeps _).of_nowhere

theorem keepsNames_instantiate (ih : KeepNames ℓ hosts n) (hs : Session.Alike ℓ w s s) {cls : Class}
    (hcls : Class.Alike ℓ w cls cls) {vs : List Value}
    (hvs : List.Forall₂ (Value.Alike ℓ w) vs vs) (hcount : vs.length = cls.arity) :
    s.KeepsNames hosts (leftBy (instantiate (Eval.execAll n) cls vs s)) := by
  refine keepsNames_bind (Tidy.keeps s).of_nowhere fun hmade => ?_
  obtain ⟨w₁, hw₁, hs₁, hv, i, hi⟩ := (simulates_newInstance hcls).done hs hmade
  subst hi
  unfold Class.arity at hcount
  rcases option_rel_cases (hcls.findMethod? initializerName) with
    ⟨hmethod, -⟩ | ⟨f, f', hmethod, hmethod', hf⟩
  · simp only [Class.initializer?, hmethod]
    exact .refl _
  · cases hmethod.symm.trans hmethod'
    simp only [Class.initializer?, hmethod] at hcount ⊢
    obtain ⟨home, hinherits, hmem⟩ := Class.home_of_findMethod? hmethod
    refine keepsNames_bind (Tidy.keeps _).of_nowhere fun hbound => ?_
    obtain ⟨w₂, hw₂, hs₂, hg, hdecl, -⟩ :=
      (simulates_bindThis (hf.mono hw₁.le) hv hinherits hmem).done hs₁ hbound
    rw [← hdecl] at hcount
    have hvs₂ := hvs.imp fun _ _ h => (h.mono hw₁.le).mono hw₂.le
    exact keepsNames_bind (ih.keepsNames_activate hs₂ hg hvs₂ hcount) fun _ => .refl _

theorem invoke_succ (ih : KeepNames ℓ hosts n) (hs : Session.Alike ℓ w s s) {site : Token} {f : Value}
    (hf : Value.Alike ℓ w f f) {vs : List Value} (hvs : List.Forall₂ (Value.Alike ℓ w) vs vs)
    (harity : f.arity? = some vs.length) :
    s.KeepsNames hosts (leftBy (Eval.invoke (n + 1) site f vs s)) := by
  have hdeeper : Session.Alike ℓ w s.deeper s.deeper := { hs with depth := rfl }
  cases hf with
  | native hi =>
      obtain ⟨native, native', hnative, hnative', halike⟩ := hs.natives.alike hi
      cases hnative.symm.trans hnative'
      simp only [Eval.invoke, eval_get_bind_apply, hnative]
      cases halike with
      | clock => exact (Tidy.keeps s).of_nowhere
      | readLine => exact (Tidy.keeps s).of_nowhere
      | host hbody =>
          exact ih.perform hs (HostAction.alike_body hbody (Option.some.inj harity).symm hvs)
  | closure hf =>
      exact keepsNames_nested
        (ih.keepsNames_activate hdeeper hf hvs (Option.some.inj harity).symm)
  | classObject hcls =>
      exact keepsNames_nested
        (ih.keepsNames_instantiate hdeeper hcls hvs (Option.some.inj harity).symm)
  | _ => cases harity

/-- A step binds nothing in the frames that there are, or only what hosts may bind. -/
theorem keepsNames_take (ih : KeepNames ℓ hosts n) (hs : Session.Alike ℓ w s s) {step : Step}
    (hhosts : step.Quiet ∨ ∀ x, hosts Session.globalFrame x)
    (hgenuine : ∀ {part}, step.Compiles s.nextNode part → ℓ.genuine false part)
    (hstep : Step.Alike ℓ w step step) : s.KeepsNames hosts (leftBy (step.take n s)) := by
  have stands : ∀ {task s₁}, Starts step s task s₁ → task.Stands ℓ w s₁ :=
    fun hstarts => hstarts.stands hs hgenuine hstep
  -- Programs are evaluated in the global frame and declare names in it.
  have program : ∀ {code : String}, (∀ x, hosts Session.globalFrame x) →
      ((compile code s.nextNode).problems = [] → Starts step s
        (.execAll Session.globals (compile code s.nextNode).statements) (s.ready code)) →
        s.KeepsNames hosts (leftBy (Eval.runProgram (Eval.execAll n) code s)) := by
    intro code hglobal hstarts
    by_cases hnone : (compile code s.nextNode).problems = []
    · obtain ⟨w₁, -, hs₁, hplaced⟩ := stands (hstarts hnone)
      cases hplaced with
      | execAll hsited halike =>
          have hkept : (s.ready code).KeepsNames hosts _ :=
            (ih.execAll hs₁ hsited halike).mono fun _ hx => hx.elim id fun ⟨_, _, hhead, _⟩ =>
              Option.some.inj hhead ▸ hglobal _
          have hready : s.KeepsNames hosts (s.ready code) := .of_frames rfl
          exact hready.trans (hkept.trans (.of_frames (frames_runProgram hnone)))
    · rw [Eval.runProgram_rejected hnone]
      exact .of_frames rfl
  cases step with
  | run code =>
      rw [Step.take, Eval.take, leftBy_map]
      exact program (hhosts.resolve_left id) .run
  | runOther sort =>
      rw [Step.take, Eval.take, leftBy_map]
      exact .of_frames rfl
  | execute code =>
      rw [Step.take, Eval.take, leftBy_map]
      refine keepsNames_bind (program (hhosts.resolve_left id) .execute) fun {report _} _ => ?_
      cases report <;> exact .refl _
  | evaluate code =>
      rw [Step.take, Eval.take, leftBy_map, evaluateCode, eval_get_bind_apply, eval_modify_bind_apply]
      cases htree : (compileExpression code s.nextNode).tree with
      | error problems => exact .of_frames rfl
      | ok e =>
          obtain ⟨w₁, -, hs₁, hplaced⟩ := stands (.evaluate htree)
          dsimp only
          rw [leftBy_map]
          cases hplaced with
          | eval hsited halike =>
              have hkept := ih.eval hs₁ hsited halike
              refine .mono ⟨hkept.size, hkept.binds⟩ fun _ hx => hx.elim id fun hx => ?_
              -- The innermost frame is the global one, whose names no initializer binds.
              obtain ⟨hhead, hlocal⟩ := hsited.nonglobal hx
              exact absurd (Option.some.inj hhead).symm hlocal
  | get name =>
      rw [Step.take, Eval.take, leftBy_map]
      exact (Tidy.keeps s).of_nowhere
  | set name object =>
      rw [Step.take, Eval.take, leftBy_map]
      refine keepsNames_bind (Tidy.keeps s).of_nowhere fun _ => keepsNames_define ?_ _ _
      intro f hhead
      exact Option.some.inj hhead ▸ hhosts.resolve_left id _
  | call f os =>
      rw [Step.take, Eval.take, leftBy_map]
      cases f with
      | plain v => exact .refl s
      | wrapper f =>
          refine keepsNames_bind (Tidy.keeps s).of_nowhere fun hvs => ?_
          obtain ⟨w₁, -, hs₁, hplaced⟩ := stands (.call hvs)
          rw [leftBy_map]
          cases hplaced with
          | invoke _ hf hvs harity => exact ih.invoke hs₁ hf hvs harity

theorem perform_succ (ih : KeepNames ℓ hosts n)
    (hhosts : ∀ {step}, ℓ.allowed step → step.Quiet ∨ ∀ x, hosts Session.globalFrame x)
    (hs : Session.Alike ℓ w s s) {action : HostAction} (haction : HostAction.Alike ℓ w action action) :
    s.KeepsNames hosts (leftBy (Eval.perform (n + 1) action s)) := by
  cases haction with
  | give _ _ =>
      change s.KeepsNames hosts (leftBy (toValue _ s))
      exact (Tidy.keeps s).of_nowhere
  | raise _ => exact .refl s
  | raiseHost _ => exact .refl s
  | @ask step _ _ _ _ hallowed hstep hnext =>
      have hattempt : s.KeepsNames hosts (leftBy (attempt (step.take n) s)) := by
        rw [leftBy_attempt]
        exact ih.keepsNames_take hs (hhosts hallowed) (ℓ.genuine_of_allowed hallowed) hstep
      rw [perform_ask]
      refine keepsNames_bind hattempt fun hanswer => ?_
      obtain ⟨w₁, hw₁, hs₁, hended, hstrict⟩ :=
        (simulates_attempt_take (evaluatesAlike_same n).proceeds hallowed hstep).done hs hanswer
      exact ih.perform hs₁ (hnext w₁ _ _ hw₁.le hended hstrict)
  | recollect hnext => exact ih.perform hs (hnext w _ _ (World.le_refl w) hs.memory)
  | @keep _ fs _ a _ hfs ha =>
      have hkept := ih.perform (s := { s with memory := fs }) { hs with memory := hfs } ha
      exact ⟨hkept.size, hkept.binds⟩

end KeepNames

/-- Evaluations bind only what they are to declare, and hosts only what they may bind. -/
theorem keepNames {ℓ : Likeness} {hosts : FrameId → String → Prop}
    (hhosts : ∀ {step}, ℓ.allowed step → step.Quiet ∨ ∀ x, hosts Session.globalFrame x) (n : Nat) :
    KeepNames ℓ hosts n := by
  induction n with
  | zero => constructor <;> intros <;> exact .refl _
  | succ n ih =>
      exact ⟨fun hs hsited => ih.eval_succ hs hsited, fun hs hsited => ih.evalAll_succ hs hsited,
        fun hs hsited => ih.exec_succ hs hsited, fun hs hsited => ih.execAll_succ hs hsited,
        fun hs hf hvs => ih.invoke_succ hs hf hvs, fun hs => ih.perform_succ hhosts hs⟩

/-- What an evaluation may come to bind besides: nothing in a call, in other code only names of the
innermost frame.  Expressions may do so in the initializer of the name itself, which is no global one
then. -/
def Task.MayBind : Task → FrameId → String → Prop
  | .eval env _ | .evalAll env _ => fun f _ => env.head? = some f ∧ f ≠ Session.globalFrame
  | .exec env st => st.MayBind env
  | .execAll env ss => BodyMayBind env ss
  | .invoke _ _ _ | .perform _ => nowhere

theorem Task.Stands.keepsNames {ℓ : Likeness} {hosts : FrameId → String → Prop} {w : World}
    {task : Task} {s : Session}
    (hhosts : ∀ {step}, ℓ.allowed step → step.Quiet ∨ ∀ x, hosts Session.globalFrame x)
    (h : task.Stands ℓ w s) (n : Nat) :
    s.KeepsNames (Besides hosts task.MayBind) (task.leaves n s) := by
  have hkeep : KeepNames ℓ hosts n := keepNames hhosts n
  obtain ⟨w', -, hs, hplaced⟩ := h
  cases hplaced with
  | eval hsited halike =>
      exact (hkeep.eval hs hsited halike).mono fun _ hx => hx.imp_right hsited.nonglobal
  | evalAll hsited halike =>
      exact (hkeep.evalAll hs hsited halike).mono fun _ hx => hx.imp_right hsited.nonglobal
  | exec hsited halike => exact hkeep.exec hs hsited halike
  | execAll hsited halike => exact hkeep.execAll hs hsited halike
  | invoke _ hf hvs harity => exact (hkeep.invoke hs hf hvs harity).mono fun _ => .inl
  | perform haction => exact (hkeep.perform hs haction).mono fun _ => .inl

end Lox
