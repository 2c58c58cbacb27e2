import Lox.Proofs.Methods.Persistence
import Lox.Proofs.Termination.LoopFree
import Lox.Proofs.Termination.Settling

/-!
# Programs without loops come to an end

Without loops, an evaluation goes on only through the parts of the code itself and through calls.  The
parts get smaller.  A call may lead to any code, but it uses up some of the room for calls, as there is
no way into the body of a function but through a call that is counted.
-/

namespace Lox

open Eval

/-- The likeness under which nothing may differ, and no code has loops. -/
def Likeness.loopFree : Likeness :=
  { Likeness.exact True with
    genuine := fun _ part => part.loopFree = true
    allowed := fun _ => False
    reentry := False
    token_self := fun _ _ _ => rfl
    reentry_of_allowed := False.elim
    genuine_of_accepted := False.elim }

/-- A session in which calls may nest at most so much deeper.  Its natives are no host functions, which
could call each other without being counted. -/
structure Session.Bounded (room : Nat) (s : Session) : Prop where
  limit : ∃ most : Int, s.limits.calls = .atMost most ∧ most ≤ s.depth + room
  hostless : ∀ {i : NativeId} {body}, s.natives[i]? ≠ some (.host body)

/-- A session of code without loops in which calls are bounded. -/
structure Halting (room : Nat) (w : World) (s : Session) : Prop where
  alike : Session.Alike .loopFree w s s
  bounded : s.Bounded room

section

variable {room : Nat} {w : World} {s s₁ : Session}

theorem Session.Bounded.later (h : s.Bounded room) (hs : s.Resumes s₁) : s₁.Bounded room where
  limit := by
    rw [hs.limits, hs.depth]
    exact h.limit
  hostless {_ _} := by
    rw [hs.natives]
    exact h.hostless

theorem Halting.done {α : Type} {R : World → α → α → Prop} {x : Eval α} {a : α}
    (hs : Halting room w s) (h : Simulates .loopFree True R w x x) (hx : x s = .ok a s₁)
    (hresumes : s.Resumes s₁) : ∃ w₁, w ≤ w₁ ∧ Halting room w₁ s₁ ∧ R w₁ a a := by
  obtain ⟨w₁, hw₁, hs₁, hR⟩ := h.done hs.alike hx
  exact ⟨w₁, hw₁.le, ⟨hs₁, hs.bounded.later hresumes⟩, hR⟩

end

/-- Calls settle if they may nest at most so much deeper. -/
def CallsSettle (room : Nat) : Prop :=
  ∀ {w site f vs s}, Halting room w s → Value.Alike .loopFree w f f →
    List.Forall₂ (Value.Alike .loopFree w) vs vs → f.arity? = some vs.length →
      Settles (fun n => Eval.invoke n site f vs) s

/-! ## Code settles if calls do -/

section

variable {room : Nat} {w : World} {code : Code} {c : Context}
  {σ : Scopes} {ρs : List (String → String)} {env : Environment} {s : Session}

mutual

theorem settles_eval (hcalls : CallsSettle room) (e : Expr) {w : World} {s : Session}
    (hs : Halting room w s) (hsited : Sited w code c σ ρs env (.expr e))
    (halike : Expr.Alike .loopFree code ρs e e) : Settles (fun n => Eval.eval n env e) s := by
  refine .succ ?_
  cases e with
  | literal _ value => exact .of_local (pure _) s
  | grouping _ inner =>
      cases halike with
      | grouping _ h => exact settles_eval hcalls inner hs hsited.grouping h
  | unary _ op right =>
      cases halike with
      | unary _ _ h => exact (settles_eval hcalls right hs hsited.unary h).bind fun _ _ => .of_local _ _
  | binary _ left op right =>
      cases halike with
      | binary _ hleft _ hright =>
          refine (settles_eval hcalls left hs hsited.binaryLeft hleft).bind fun {n v s₁} hv hs₁ => ?_
          obtain ⟨w₁, hw₁, hs₁, -⟩ :=
            hs.done ((evaluatesAlike_same n).eval hsited.binaryLeft hleft) hv hs₁
          exact (settles_eval hcalls right hs₁ (hsited.binaryRight.mono hw₁) hright).bind
            fun _ _ => .of_local _ _
  | logical _ left op right =>
      cases halike with
      | logical _ hleft _ hright =>
          refine (settles_eval hcalls left hs hsited.logicalLeft hleft).bind fun {n v s₁} hv hs₁ => ?_
          obtain ⟨w₁, hw₁, hs₁, -⟩ :=
            hs.done ((evaluatesAlike_same n).eval hsited.logicalLeft hleft) hv hs₁
          by_cases hdecided : v.isTruthy = decide (op.kind = .kwOr)
          · simp only [if_pos hdecided]
            exact .of_local (pure v) _
          · simp only [if_neg hdecided]
            exact settles_eval hcalls right hs₁ (hsited.logicalRight.mono hw₁) hright
  | read id name => exact .of_local (lookUp env id name) s
  | assign id name value =>
      refine (settles_eval hcalls value hs hsited.assigned halike.assigned).bind fun _ _ => ?_
      exact .of_local (do assign env id name _; return _) _
  | call _ callee paren arguments =>
      cases halike with
      | call _ hcallee _ hargs =>
          refine (settles_eval hcalls callee hs hsited.callee hcallee).bind fun {n f s₁} hf hs₁ => ?_
          obtain ⟨w₁, hw₁, hs₁, hf₁⟩ :=
            hs.done ((evaluatesAlike_same n).eval hsited.callee hcallee) hf hs₁
          have hsited₁ := hsited.arguments.mono hw₁
          refine (settles_evalAll hcalls arguments hs₁ hsited₁ hargs).bind
            fun {n vs s₂} hvs hs₂ => ?_
          obtain ⟨w₂, hw₂, hs₂, hvs₂⟩ :=
            hs₁.done ((evaluatesAlike_same n).evalAll hsited₁ hargs) hvs hs₂
          rcases checkCall_cases paren f vs.length with ⟨harity, hcheck⟩ | ⟨fault, hcheck⟩
          · simp only [hcheck, pure_bind]
            exact hcalls hs₂ (hf₁.mono hw₂) hvs₂ harity
          · simp only [hcheck]
            exact (Settles.of_local (Eval.fault paren fault) s₂).bind fun h => by cases h
  | get _ object name =>
      cases halike with
      | get _ h _ =>
          refine (settles_eval hcalls object hs hsited.getObject h).bind fun {n v s₁} _ _ => ?_
          cases v with
          | object i cls => exact .of_local (property i cls name) s₁
          | _ => exact .of_local (fault name .propertyOfNonInstance) s₁
  | set _ object name value =>
      cases halike with
      | set _ hobject _ hvalue =>
          refine (settles_eval hcalls object hs hsited.setObject hobject).bind
            fun {n v s₁} hv hs₁ => ?_
          obtain ⟨w₁, hw₁, hs₁, -⟩ :=
            hs.done ((evaluatesAlike_same n).eval hsited.setObject hobject) hv hs₁
          cases v with
          | object i cls =>
              exact (settles_eval hcalls value hs₁ (hsited.setValue.mono hw₁) hvalue).bind
                fun _ _ => .of_local (do setField i name.lexeme _; return _) _
          | _ => exact .of_local (fault name .fieldOfNonInstance) s₁
  | self id keyword => exact .of_local (lookUp env id keyword) s
  | super id keyword method => exact .of_local (superMethod env id method) s
  | missing => exact .of_local (stuck _) s
  | misplaced stmt => exact .of_local (stuck _) s

theorem settles_evalAll (hcalls : CallsSettle room) (es : List Expr) {w : World} {s : Session}
    (hs : Halting room w s) (hsited : Sited w code c σ ρs env (.exprs es))
    (halike : ArgumentsAlike .loopFree code ρs es es) :
    Settles (fun n => Eval.evalAll n env es) s := by
  refine .succ ?_
  cases es with
  | nil => exact .of_local (pure []) s
  | cons e es =>
      cases halike with
      | cons hfirst hmore =>
          refine (settles_eval hcalls e hs hsited.firstArgument hfirst).bind fun {n v s₁} hv hs₁ => ?_
          obtain ⟨w₁, hw₁, hs₁, -⟩ :=
            hs.done ((evaluatesAlike_same n).eval hsited.firstArgument hfirst) hv hs₁
          exact (settles_evalAll hcalls es hs₁ (hsited.moreArguments.mono hw₁) hmore).bind
            fun _ _ => .of_local (pure _) _

end

mutual

theorem settles_exec (hcalls : CallsSettle room) (st : Stmt) {w : World} {σ : Scopes}
    {ρs : List (String → String)} {env : Environment} {s : Session} (hs : Halting room w s)
    (hsited : Sited w code c σ ρs env (.stmt st)) (halike : Stmt.Alike .loopFree code ρs st st) :
    Settles (fun n => Eval.exec n env st) s := by
  have hformed : st.Formed := hsited.checked.formed
  have hopen : σ.Open := hsited.checked.placed.1.open
  refine .succ ?_
  cases st with
  | expression e =>
      cases halike with
      | expression h =>
          exact (settles_eval hcalls e hs hsited.expression h).bind fun _ _ => .of_local (pure _) _
  | print e =>
      cases halike with
      | print h =>
          refine (settles_eval hcalls e hs hsited.print h).bind fun {n v s₁} _ _ => ?_
          have hprint : Settles (fun _ => modify (Session.printLine v.display) : Nat → Eval Unit) s₁ :=
            .of_ends (fun _ => nofun) ⟨⟨rfl, rfl⟩, rfl⟩
          exact hprint.bind fun _ _ => .of_local (pure _) _
  | var name value =>
      cases halike with
      | var _ _ => exact .of_local (do define env name.lexeme .nil; return Completion.normal) s
      | initialised _ _ h =>
          have hinitial := hsited.initial (hsited.covers.declare hopen hformed.1)
          exact (settles_eval hcalls _ hs hinitial h).bind
            fun _ _ => .of_local (do define env name.lexeme _; return Completion.normal) _
  | block ss =>
      cases halike with
      | block hρ h =>
          refine (Settles.of_local (enter env) s).bind fun {n inner s₁} henter hs₁ => ?_
          obtain ⟨w₁, hw₁, hs₁, -, hentered⟩ := hs.done (simulates_enter hsited.covers hρ) henter hs₁
          exact settles_execAll hcalls ss hs₁ ((hsited.mono hw₁).block hentered) h
  | cond e yes no =>
      obtain ⟨hcondition, hyes⟩ := halike.cond
      refine (settles_eval hcalls e hs hsited.condition hcondition).bind fun {n v s₁} hv hs₁ => ?_
      obtain ⟨w₁, hw₁, hs₁, -⟩ :=
        hs.done ((evaluatesAlike_same n).eval hsited.condition hcondition) hv hs₁
      by_cases htrue : v.isTruthy = true
      · simp only [if_pos htrue]
        exact settles_exec hcalls yes hs₁ (hsited.yes.mono hw₁) hyes
      · simp only [if_neg htrue]
        cases no with
        | none => exact .of_local (pure Completion.normal) s₁
        | some no =>
            cases halike with
            | ifElse _ _ hno => exact settles_exec hcalls no hs₁ (hsited.no.mono hw₁) hno
  | loop e body => cases hsited.reaches.loopFree (hs.alike.genuine hsited.accepted)
  | function decl =>
      exact .of_local (do
        let f ← newClosure env .function decl
        define env decl.name.lexeme (.closure f)
        return Completion.normal) s
  | ret keyword value =>
      cases halike with
      | ret _ => exact .of_local (pure _) s
      | returned _ h =>
          exact (settles_eval hcalls _ hs hsited.returned h).bind fun _ _ => .of_local (pure _) _
  | classDecl name base decls =>
      exact .of_local (do declareClass env name base decls; return Completion.normal) s
  | missing => exact .of_local (stuck _) s
  | misplaced e => exact .of_local (stuck _) s

theorem settles_execAll (hcalls : CallsSettle room) (ss : List Stmt) {w : World} {σ : Scopes}
    {ρs : List (String → String)} {env : Environment} {s : Session} (hs : Halting room w s)
    (hsited : Sited w code c σ ρs env (.body ss)) (halike : BodyAlike .loopFree code ρs ss ss) :
    Settles (fun n => Eval.execAll n env ss) s := by
  refine .succ ?_
  cases ss with
  | nil => exact .of_local (pure Completion.normal) s
  | cons st ss =>
      cases halike with
      | cons hfirst hmore =>
          refine (settles_exec hcalls st hs hsited.firstStmt hfirst).bind fun {n r s₁} hr hs₁ => ?_
          obtain ⟨w₁, hw₁, hs₁, hend⟩ :=
            hs.done ((evaluatesAlike_same n).exec hsited.firstStmt hfirst) hr hs₁
          cases hend with
          | normal hcovers₁ =>
              exact settles_execAll hcalls ss hs₁ ((hsited.mono hw₁).moreStmts hcovers₁) hmore
          | returned _ _ => exact .of_local (pure _) s₁

end

end

/-! ## Calls settle if there is less room than for another call -/

section

variable {room : Nat} {w : World} {s : Session}

theorem settles_activate (hcalls : CallsSettle room) (hs : Halting room w s) {f : Closure}
    (hf : Closure.Alike .loopFree w f f) {vs : List Value}
    (hvs : List.Forall₂ (Value.Alike .loopFree w) vs vs) (hcount : vs.length = f.decl.arity) :
    Settles (fun n => activate (Eval.execAll n) f vs) s := by
  simp only [activate_eq]
  refine (Settles.of_local (Eval.open f vs) s).bind fun {n env s₁} hopen hs₁ => ?_
  obtain ⟨w₁, -, hs₁, -, code, c, σ, ρs, -, hsited, hbody⟩ :=
    hs.done (simulates_open hf hvs hcount) hopen hs₁
  refine (settles_execAll hcalls f.decl.body hs₁ hsited hbody).bind fun _ _ => ?_
  split
  · exact .of_local (readAt f.env 0 "this") _
  · exact .of_local (pure _) _

theorem settles_instantiate (hcalls : CallsSettle room) (hs : Halting room w s) {cls : Class}
    (hcls : Class.Alike .loopFree w cls cls) {vs : List Value}
    (hvs : List.Forall₂ (Value.Alike .loopFree w) vs vs) (hcount : vs.length = cls.arity) :
    Settles (fun n => instantiate (Eval.execAll n) cls vs) s := by
  refine (Settles.of_local (newInstance cls) s).bind fun {n v s₁} hmade hs₁ => ?_
  obtain ⟨w₁, hw₁, hs₁, hv, i, hi⟩ := hs.done (simulates_newInstance hcls) hmade hs₁
  subst hi
  unfold Class.arity at hcount
  rcases option_rel_cases (hcls.findMethod? initializerName) with
    ⟨hmethod, -⟩ | ⟨f, f', hmethod, hmethod', hf⟩
  · simp only [Class.initializer?, hmethod]
    exact .of_local (pure _) s₁
  · cases hmethod.symm.trans hmethod'
    simp only [Class.initializer?, hmethod] at hcount ⊢
    obtain ⟨home, hinherits, hmem⟩ := Class.home_of_findMethod? hmethod
    refine (Settles.of_local (bindThis f _) s₁).bind fun {n g s₂} hbound hs₂ => ?_
    obtain ⟨w₂, hw₂, hs₂, hg, hdecl, -⟩ :=
      hs₁.done (simulates_bindThis (hf.mono hw₁) hv hinherits hmem) hbound hs₂
    rw [← hdecl] at hcount
    have hvs₂ := hvs.imp fun _ _ h => (h.mono hw₁).mono hw₂
    exact (settles_activate hcalls hs₂ hg hvs₂ hcount).bind fun _ _ => .of_local (pure _) _

theorem settles_native (hs : Halting room w s) {i : NativeId} {arity : Nat}
    (hi : w.natives[i]? = some arity) {site : Token} {vs : List Value} :
    Settles (fun n => Eval.invoke n site (.native i arity) vs) s := by
  obtain ⟨native, native', hnative, hnative', halike⟩ := hs.alike.natives.alike hi
  cases hnative.symm.trans hnative'
  refine .succ ?_
  simp only [Eval.invoke]
  cases halike with
  | clock =>
      refine .congr (fun n => ?_) (.of_ends (x := readClock) (by rintro _ ⟨⟩) ⟨⟨rfl, rfl⟩, rfl⟩)
      rw [eval_get_bind_apply, hnative]
  | readLine =>
      refine .congr (fun n => ?_) (.of_ends (x := readLine) (by rintro _ ⟨⟩) ⟨⟨rfl, rfl⟩, rfl⟩)
      rw [eval_get_bind_apply, hnative]
  | host _ => exact absurd hnative hs.bounded.hostless

theorem settles_nested {α : Type} {x : Nat → Eval α} {site : Token} (hs : Halting room w s)
    (h : ∀ {room'}, room = room' + 1 → Halting room' w s.deeper → Settles x s.deeper) :
    Settles (fun n => Eval.nested site (x n)) s := by
  obtain ⟨most, hmost, hroom⟩ := hs.bounded.limit
  have hblank : s.limits.calls ≠ .blank := by
    rw [hmost]
    nofun
  by_cases hdeep : s.limits.exceeded (s.depth + 1) = true
  · have hfault : ∀ n, Eval.nested site (x n) s = Eval.fault site .stackOverflow s := by
      intro n
      unfold Eval.nested
      rw [if_neg hblank, if_pos hdeep]
      rfl
    exact .congr hfault (.of_local _ s)
  · have hwithin : ((s.depth + 1 : Nat) : Int) ≤ most := by
      rw [Bool.not_eq_true, Limits.exceeded, hmost, Bool.or_eq_false_iff] at hdeep
      exact Int.not_lt.mp (of_decide_eq_false hdeep.1)
    -- One call deeper, there is room for one call less.
    obtain ⟨room', rfl⟩ : ∃ room', room = room' + 1 := ⟨room - 1, by omega⟩
    have hdeeper : Halting room' w s.deeper := by
      refine ⟨{ hs.alike with depth := rfl }, ⟨most, hmost, ?_⟩, hs.bounded.hostless⟩
      change most ≤ ((s.depth + 1 : Nat) : Int) + room'
      omega
    exact .nested ⟨hblank, Bool.not_eq_true _ ▸ hdeep⟩ site (h rfl hdeeper)

end

/-- All calls settle, by induction on the room that there is for them. -/
theorem callsSettle (room : Nat) : CallsSettle room := by
  -- Bodies are evaluated by recursion on their code; only calls, which may lead anywhere, use up
  -- room.
  induction room using Nat.strong_induction_on with
  | _ room ih =>
      intro w site f vs s hs hf hvs harity
      cases hf with
      | native hi => exact settles_native hs hi
      | closure hf =>
          refine .succ (settles_nested hs fun {room'} heq hdeeper => ?_)
          exact settles_activate (ih room' (by omega)) hdeeper hf hvs (Option.some.inj harity).symm
      | classObject hcls =>
          refine .succ (settles_nested hs fun {room'} heq hdeeper => ?_)
          exact settles_instantiate (ih room' (by omega)) hdeeper hcls hvs (Option.some.inj harity).symm
      | _ => cases harity

end Lox
