import Lox.Proofs.Names.Evaluation

/-!
# Frames that last

Once an evaluation is over, the evaluations that called it go on in frames that are older than the
session in which it began, and in new frames.  So the frames that it made bind for good what they
bound at its end.
-/

namespace Lox

/-- What hosts may bind at any time: global variables. -/
def globally (f : FrameId) (_ : String) : Prop :=
  f = Session.globalFrame

/-- Frames from the number `k` on keep their names, and all frames with `this` in them stay as they
are.  The global frame does not count. -/
structure Session.Lasts (k : FrameId) (s s' : Session) : Prop where
  keeps : s.Keeps s'
  names : s.KeepsNames (Besides globally fun f _ => f < k) s'

namespace Session.Lasts

variable {k : FrameId} {s s' s'' : Session}

theorem of_frames (h : s'.frames = s.frames) : s.Lasts k s' where
  keeps := .of_frames h
  names := .of_frames h

theorem refl (s : Session) : s.Lasts k s :=
  .of_frames rfl

theorem trans (h : s.Lasts k s') (h' : s'.Lasts k s'') : s.Lasts k s'' where
  keeps := h.keeps.trans h'.keeps
  names := h.names.trans h'.names

theorem of_tidy (hkeeps : s.Keeps s') (hnames : s.KeepsNames nowhere s') : s.Lasts k s' where
  keeps := hkeeps
  names := hnames.of_nowhere

/-- A frame that is empty and lasts stays empty. -/
theorem empty (h : s.Lasts k s') (hlt : k < s.frames.frames.size) (hlocal : k ≠ Session.globalFrame)
    (hempty : s.frames.bindings k = []) : s'.frames.bindings k = [] := by
  have hbinds : ∀ x, (s'.frames.bindings k).binds x = false := by
    intro x
    rw [h.names.binds hlt fun hmay => hmay.elim hlocal (Nat.lt_irrefl k), hempty]
    rfl
  cases hlater : s'.frames.bindings k with
  | nil => rfl
  | cons entry rest =>
      have hfirst := hbinds entry.1
      rw [hlater] at hfirst
      simp [Bindings.binds, Bindings.find?] at hfirst

end Session.Lasts

/-! ## Steps in a row -/

section

variable {α β : Type} {x : Eval α} {f : α → Eval β} {k : FrameId} {s : Session}

theorem lasts_after (h : ∀ {a s₁}, x s = .ok a s₁ → s₁.Lasts k (leftBy (f a s₁))) :
    (leftBy (x s)).Lasts k (leftBy ((x >>= f) s)) := by
  rw [leftBy_bind]
  cases hx : x s with
  | ok a s₁ => exact h hx
  | error i s₁ => exact .refl s₁

theorem lasts_bind (hx : s.Lasts k (leftBy (x s)))
    (h : ∀ {a s₁}, x s = .ok a s₁ → s₁.Lasts k (leftBy (f a s₁))) :
    s.Lasts k (leftBy ((x >>= f) s)) :=
  hx.trans (lasts_after h)

theorem lasts_operate (op : Token) (r : Except Fault α) (s : Session) :
    s.Lasts k (leftBy (Eval.operate op r s)) := by
  cases r <;> exact .refl s

theorem lasts_checkCall {site : Token} {callee : Value} {count : Nat} {next : Eval α}
    (h : callee.arity? = some count → s.Lasts k (leftBy (next s))) :
    s.Lasts k (leftBy ((do Eval.checkCall site callee count; next) s)) := by
  rcases Eval.checkCall_cases site callee count with ⟨harity, hcheck⟩ | ⟨f, hcheck⟩
  · rw [hcheck]
    exact h harity
  · rw [hcheck]
    exact .refl s

theorem lasts_readAt (env : Environment) (distance : Int) (name : String) (s : Session) :
    s.Lasts k (leftBy (Eval.readAt env distance name s)) := by
  unfold Eval.readAt
  rw [eval_get_bind_apply]
  cases s.frames.getAt env distance name <;> exact .refl s

end

/-! ## Evaluations in older frames -/

/-- A task whose frames are older than the frame `k`. -/
def Task.OlderThan (k : FrameId) : Task → Prop
  | .eval env _ | .evalAll env _ | .exec env _ | .execAll env _ => ∀ f ∈ env, f < k
  | .invoke _ _ _ | .perform _ => True

theorem Task.OlderThan.of_mayBind {k f : FrameId} {task : Task} {x : String} (h : task.OlderThan k)
    (hmay : task.MayBind f x) : f < k := by
  cases task with
  | eval | evalAll | exec => exact h f (List.mem_of_mem_head? hmay.1)
  | execAll =>
      obtain ⟨-, -, hhead, -⟩ := hmay
      exact h f (List.mem_of_mem_head? hhead)
  | invoke | perform => exact hmay.elim

section

variable {ℓ : Likeness} {w : World} {n : Nat} {k : FrameId} {task task' : Task} {s s' : Session}

theorem Task.Stands.olderThan (h : task.Stands ℓ w s) (hk : s.frames.frames.size ≤ k) :
    task.OlderThan k := by
  obtain ⟨w', -, hs, hplaced⟩ := h
  have hlt : ∀ {f}, f < w'.frames → f < k :=
    fun hf => Nat.lt_of_lt_of_le (hs.frames.size ▸ hf) hk
  cases hplaced with
  | eval hsited _ | evalAll hsited _ | exec hsited _ | execAll hsited _ =>
      exact fun f hf => hlt (hsited.bounded f hf)
  | invoke | perform => trivial

theorem Task.Stands.lasts (h : task.Stands ℓ w s) (hold : task.OlderThan k) (n : Nat) :
    s.Lasts k (task.leaves n s) where
  keeps := h.keeps n
  names := (h.keepsNames (fun _ => .inr fun _ => rfl) n).mono
    fun _ hx => hx.imp_right hold.of_mayBind

theorem Calls.lasts_called (h : Calls n task s task' s') (hstands : task.Stands ℓ w s)
    (hold : task'.OlderThan k) : s'.Lasts k (task'.leaves n s') :=
  (h.stands hstands).lasts hold n

theorem Calls.size_le (h : Calls n task s task' s') (hstands : task.Stands ℓ w s) :
    s.frames.frames.size ≤ s'.frames.frames.size := by
  obtain ⟨w₁, -, hs, hplaced⟩ := hstands
  obtain ⟨w₂, hw, hs', -⟩ := h.stands (hplaced.stands hs)
  rw [hs.frames.size, hs'.frames.size]
  exact hw.frames

/-! ## From the end of what is called to the end of what called it -/

theorem Calls.lasts_end_eval {env : Environment} {e : Expr} (h : Calls n (.eval env e) s task' s')
    (hstands : Task.Stands ℓ w (.eval env e) s) (hold : ∀ f ∈ env, f < k) :
    (task'.leaves n s').Lasts k (Task.leaves (n + 1) s (.eval env e)) := by
  have inner : ∀ {f}, env.head? = some f → f < k := fun hf => hold _ (List.mem_of_mem_head? hf)
  cases h with
  | grouping => exact .refl _
  | unary => exact lasts_after fun _ => lasts_operate _ _ _
  | binaryLeft =>
      exact lasts_after fun hv =>
        lasts_bind ((Calls.binaryRight hv).lasts_called hstands hold) fun _ => lasts_operate _ _ _
  | binaryRight hv =>
      simp only [Task.leaves, Eval.eval]
      rw [leftBy_bind_ok hv]
      exact lasts_after fun _ => lasts_operate _ _ _
  | logicalLeft =>
      refine lasts_after fun {v s₁} hv => ?_
      split
      · exact .refl _
      · next hgoes => exact (Calls.logicalRight hv hgoes).lasts_called hstands hold
  | logicalRight hv hgoes =>
      simp only [Task.leaves, Eval.eval]
      rw [leftBy_bind_ok hv, if_neg hgoes]
      exact .refl _
  | @assigned _ number name value =>
      obtain ⟨w₁, -, hs, hplaced⟩ := hstands
      cases hplaced with
      | eval hsited halike =>
          have hformed : Expr.Formed (.assign number name value) := hsited.checked.formed
          obtain ⟨hnumber, htoken, hname, halike⟩ := halike.assign_inv
          refine lasts_after fun {v s₁} hv => ?_
          obtain ⟨w₂, hw₂, hs₁, hvalue⟩ :=
            ((evaluatesAlike_same n).eval hsited.assigned halike).done hs hv
          have hid : number ∈ (Part.expr (.assign number name value)).ids :=
            List.mem_append_right _ List.mem_cons_self
          have hassign : Simulates ℓ True _ w₂ _ _ :=
            simulates_assign (hsited.mono hw₂.le) hid hsited.checked.assign htoken hname hformed.1
              hvalue
          rw [← hnumber] at hassign
          have hnames := Eval.keepsNames_assign hs₁ (hsited.mono hw₂.le) hid hsited.checked.assign
            hsited.checked.placed.2 v
          exact lasts_bind ⟨hassign.keeps hs₁, hnames.mono fun _ hx => .inr (inner hx.1)⟩
            fun _ => .refl _
  | callee =>
      refine lasts_after fun hf => ?_
      refine lasts_bind ((Calls.arguments hf).lasts_called hstands hold) fun hvs => ?_
      exact lasts_checkCall fun harity => (Calls.call hf hvs harity).lasts_called hstands trivial
  | arguments hf =>
      simp only [Task.leaves, Eval.eval]
      rw [leftBy_bind_ok hf]
      refine lasts_after fun hvs => ?_
      exact lasts_checkCall fun harity => (Calls.call hf hvs harity).lasts_called hstands trivial
  | call hf hvs harity =>
      simp only [Task.leaves, Eval.eval]
      rw [leftBy_bind_ok hf, leftBy_bind_ok hvs, Eval.checkCall_eq_pure harity]
      exact .refl _
  | getObject =>
      obtain ⟨w₁, -, hs, hplaced⟩ := hstands
      cases hplaced with
      | eval hsited halike =>
          cases halike with
          | get _ halike hname =>
              refine lasts_after fun {v s₁} hv => ?_
              obtain ⟨w₂, hw₂, hs₁, hvalue⟩ :=
                ((evaluatesAlike_same n).eval hsited.getObject halike).done hs hv
              cases hvalue with
              | object hcls =>
                  exact .of_tidy ((simulates_property hcls hname).keeps hs₁) (Eval.Tidy.keeps s₁)
              | _ => exact .refl _
  | setObject =>
      refine lasts_after fun {v s₁} hv => ?_
      cases v with
      | object i cls =>
          exact lasts_bind ((Calls.setValue hv).lasts_called hstands hold) fun _ => .of_frames rfl
      | _ => exact .refl _
  | setValue hv =>
      simp only [Task.leaves, Eval.eval]
      rw [leftBy_bind_ok hv]
      exact lasts_after fun _ => .of_frames rfl

theorem Calls.lasts_end_evalAll {env : Environment} {es : List Expr}
    (h : Calls n (.evalAll env es) s task' s') (hstands : Task.Stands ℓ w (.evalAll env es) s)
    (hold : ∀ f ∈ env, f < k) :
    (task'.leaves n s').Lasts k (Task.leaves (n + 1) s (.evalAll env es)) := by
  cases h with
  | firstArgument =>
      exact lasts_after fun hv =>
        lasts_bind ((Calls.moreArguments hv).lasts_called hstands hold) fun _ => .refl _
  | moreArguments hv =>
      simp only [Task.leaves, Eval.evalAll]
      rw [leftBy_bind_ok hv]
      exact lasts_after fun _ => .refl _

theorem Calls.lasts_end_exec {env : Environment} {st : Stmt} (h : Calls n (.exec env st) s task' s')
    (hstands : Task.Stands ℓ w (.exec env st) s) (hold : ∀ f ∈ env, f < k) :
    (task'.leaves n s').Lasts k (Task.leaves (n + 1) s (.exec env st)) := by
  have inner : ∀ {f}, env.head? = some f → f < k := fun hf => hold _ (List.mem_of_mem_head? hf)
  cases h with
  | expression => exact lasts_after fun _ => .refl _
  | print => exact lasts_after fun _ => .of_frames rfl
  | @initial _ name value =>
      obtain ⟨w₁, -, hs, hplaced⟩ := hstands
      cases hplaced with
      | exec hsited halike =>
          have hformed : Stmt.Formed (.var name (some value)) := hsited.checked.formed
          have hopen := hsited.checked.placed.1.open
          cases halike with
          | initialised htoken hname halike =>
              refine lasts_after fun {v s₁} hv => ?_
              have hinitial := hsited.initial (hsited.covers.declare hopen hformed.1)
              obtain ⟨w₂, hw₂, hs₁, hvalue⟩ :=
                ((evaluatesAlike_same n).eval hinitial halike).done hs hv
              have hdefine : Simulates ℓ True _ w₂ _ _ :=
                simulates_define (hsited.covers.mono hw₂.le) hopen (fun _ => hformed.1)
                  fun _ hw _ => hvalue.mono hw
              rw [← hname] at hdefine
              have hnames : s₁.KeepsNames (Besides globally fun f _ => f < k)
                  (leftBy (Eval.define env name.lexeme v s₁)) :=
                Eval.keepsNames_define (fun _ hf => .inr (inner hf)) v s₁
              exact lasts_bind ⟨hdefine.keeps hs₁, hnames⟩ fun _ => .refl _
  | block henter =>
      simp only [Task.leaves, Eval.exec]
      rw [leftBy_bind_ok henter]
      exact .refl _
  | @condition _ _ _ no =>
      refine lasts_after fun {v s₁} hv => ?_
      split
      · next htrue => exact (Calls.yes hv htrue).lasts_called hstands hold
      · next hfalse =>
          cases no with
          | none => exact .refl _
          | some no => exact (Calls.no hv (Bool.eq_false_iff.mpr hfalse)).lasts_called hstands hold
  | yes hv htrue =>
      simp only [Task.leaves, Eval.exec]
      rw [leftBy_bind_ok hv, if_pos htrue]
      exact .refl _
  | no hv hfalse =>
      simp only [Task.leaves, Eval.exec]
      rw [leftBy_bind_ok hv, if_neg (Bool.eq_false_iff.mp hfalse)]
      exact .refl _
  | loopCondition =>
      refine lasts_after fun {v s₁} hv => ?_
      split
      · next htrue =>
          have hbody := (Calls.loopBody hv htrue).lasts_called hstands hold
          refine lasts_bind hbody fun {r s₂} hround => ?_
          cases r with
          | normal => exact (Calls.loopAgain hv htrue hround).lasts_called hstands hold
          | returned _ => exact .refl _
      · exact .refl _
  | loopBody hv htrue =>
      simp only [Task.leaves]
      rw [Eval.exec, leftBy_bind_ok hv, if_pos htrue]
      refine lasts_after fun {r s₂} hround => ?_
      cases r with
      | normal => exact (Calls.loopAgain hv htrue hround).lasts_called hstands hold
      | returned _ => exact .refl _
  | loopAgain hv htrue hround =>
      simp only [Task.leaves]
      rw [Eval.exec, leftBy_bind_ok hv, if_pos htrue, leftBy_bind_ok hround]
      exact .refl _
  | returned => exact lasts_after fun _ => .refl _

theorem Calls.lasts_end_execAll {env : Environment} {ss : List Stmt}
    (h : Calls n (.execAll env ss) s task' s') (hstands : Task.Stands ℓ w (.execAll env ss) s)
    (hold : ∀ f ∈ env, f < k) :
    (task'.leaves n s').Lasts k (Task.leaves (n + 1) s (.execAll env ss)) := by
  cases h with
  | firstStmt =>
      refine lasts_after fun {r s₁} hdone => ?_
      cases r with
      | normal => exact (Calls.moreStmts hdone).lasts_called hstands hold
      | returned _ => exact .refl _
  | moreStmts hdone =>
      simp only [Task.leaves, Eval.execAll]
      rw [leftBy_bind_ok hdone]
      exact .refl _

theorem lasts_end_activate {f : Closure} {vs : List Value} {env : Environment} {s₁ : Session}
    (hopen : Eval.open f vs s = .ok env s₁) :
    (Task.leaves n s₁ (.execAll env f.decl.body)).Lasts k
      (leftBy (Eval.activate (Eval.execAll n) f vs s)) := by
  rw [Eval.activate_eq, leftBy_bind_ok hopen]
  refine lasts_after fun _ => ?_
  split
  · exact lasts_readAt _ _ _ _
  · exact .refl _

theorem Calls.lasts_end_invoke {site : Token} {callee : Value} {vs : List Value}
    (h : Calls n (.invoke site callee vs) s task' s') :
    (task'.leaves n s').Lasts k (Task.leaves (n + 1) s (.invoke site callee vs)) := by
  cases h with
  | native hnative =>
      simp only [Task.leaves, Eval.invoke]
      rw [eval_get_bind_apply, hnative]
      exact .refl _
  | function hroom hopen =>
      exact (lasts_end_activate hopen).trans (.of_frames (frames_nested hroom))
  | initializer hroom hmethod hopen =>
      refine Session.Lasts.trans ?_ (.of_frames (frames_nested hroom))
      unfold Eval.instantiate
      rw [leftBy_bind_ok (Eval.newInstance_apply _ _), hmethod,
        leftBy_bind_ok (Eval.bindThis_apply _ _ _)]
      exact (lasts_end_activate hopen).trans (lasts_after fun _ => .refl _)

theorem Starts.lasts_end {step : Step} (h : Starts step s task s') (fuel : Nat) :
    (task.leaves fuel s').Lasts k (leftBy (step.take fuel s)) := by
  cases h with
  | run hnone =>
      rw [Step.take, Eval.take, leftBy_map]
      exact .of_frames (frames_runProgram hnone)
  | execute hnone =>
      rw [Step.take, Eval.take, leftBy_map]
      refine (Session.Lasts.of_frames (frames_runProgram hnone)).trans ?_
      refine lasts_after fun {report s₁} _ => ?_
      cases report <;> exact .refl _
  | evaluate htree =>
      rw [Step.take, Eval.take, leftBy_map]
      unfold Eval.evaluateCode
      rw [eval_get_bind_apply, eval_modify_bind_apply, htree, leftBy_map]
      exact .refl _
  | call hvs =>
      rw [Step.take, Eval.take, leftBy_map, Eval.callForm, leftBy_bind_ok hvs, leftBy_map]
      exact .refl _

theorem Calls.lasts_end_perform {action : HostAction} (h : Calls n (.perform action) s task' s')
    (hstands : Task.Stands ℓ w (.perform action) s) :
    (task'.leaves n s').Lasts k (Task.leaves (n + 1) s (.perform action)) := by
  cases h with
  | @asked step _ _ _ _ hstarts =>
      have hstep : (task'.leaves n s').Lasts k _ := hstarts.lasts_end n
      rw [← leftBy_attempt] at hstep
      refine hstep.trans (lasts_after fun hanswer => ?_)
      exact (Calls.answered hanswer).lasts_called hstands trivial
  | answered hanswer =>
      rw [Task.leaves, Task.leaves, Eval.perform_ask, leftBy_bind_ok hanswer]
      exact .refl _
  | recalled => exact .refl _
  | kept => exact .refl _

/-- From the end of an evaluation to the end of the one that called it. -/
theorem Calls.lasts_end (h : Calls n task s task' s') (hstands : task.Stands ℓ w s)
    (hold : task.OlderThan k) : (task'.leaves n s').Lasts k (task.leaves (n + 1) s) := by
  cases task with
  | eval env e => exact h.lasts_end_eval hstands hold
  | evalAll env es => exact h.lasts_end_evalAll hstands hold
  | exec env st => exact h.lasts_end_exec hstands hold
  | execAll env ss => exact h.lasts_end_execAll hstands hold
  | invoke site callee vs => exact h.lasts_end_invoke
  | perform action => exact h.lasts_end_perform hstands

/-- A block makes a frame, which has the next number. -/
theorem Task.Stands.size_lt_block {env : Environment} {ss : List Stmt}
    (h : Task.Stands ℓ w (.exec env (.block ss)) s) :
    s.frames.frames.size < (Task.leaves (n + 1) s (.exec env (.block ss))).frames.frames.size := by
  have hcalls : Calls n (.exec env (.block ss)) s (.execAll (s.frames.frames.size :: env) ss)
      { s with frames := s.frames.push } := .block rfl
  obtain ⟨w₁, -, hs, hplaced⟩ := hcalls.stands h
  obtain ⟨w₂, hw, hend⟩ := hplaced.left hs n
  have hbody : w₁.frames ≤ w₂.frames := hw.frames
  rw [← hs.frames.size, ← hend.frames.size] at hbody
  have hpush : s.frames.push.frames.size = s.frames.frames.size + 1 := by simp
  exact Nat.lt_of_lt_of_le (hpush ▸ Nat.lt_succ_self _) hbody

/-! ## All evaluations of a step -/

variable {step : Step} {fuel : Nat}

/-- The frames that an evaluation leaves last to the end of the step, unless they were there before
it. -/
theorem Visits.lasts (hs : Session.Alike ℓ w s s)
    (hgenuine : ∀ {part}, step.Compiles s.nextNode part → ℓ.genuine false part)
    (hstep : Step.Alike ℓ w step step) (h : Visits step fuel s n task s')
    (hk : s'.frames.frames.size ≤ k) : (task.leaves n s').Lasts k (leftBy (step.take fuel s)) := by
  -- It goes outwards, from the end of each evaluation to the end of the one that called it.
  induction h with
  | starts hstarts => exact hstarts.lasts_end fuel
  | calls hvisits hcalls ih =>
      have hstands := hvisits.stands hs hgenuine hstep
      have hsize := Nat.le_trans (hcalls.size_le hstands) hk
      exact (hcalls.lasts_end hstands (hstands.olderThan hsize)).trans (ih hsize)

/-- An evaluation, wherever it takes place in a step, keeps the frames that it finds, and those that it
leaves are kept to the end of the step. -/
theorem Visits.keeps (hs : Session.Alike ℓ w s s)
    (hgenuine : ∀ {part}, step.Compiles s.nextNode part → ℓ.genuine false part)
    (hstep : Step.Alike ℓ w step step) (h : Visits step fuel s n task s') :
    s.Keeps s' ∧ s'.Keeps (task.leaves n s') ∧
      (task.leaves n s').Keeps (leftBy (step.take fuel s)) := by
  obtain ⟨w', hw, hs', hplaced⟩ := h.stands hs hgenuine hstep
  exact ⟨hs.keeps hw hs', (hplaced.stands hs').keeps n,
    (h.lasts hs hgenuine hstep (Nat.le_refl _)).keeps⟩

theorem Session.Alike.keepsNames_take (hs : Session.Alike ℓ w s s)
    (hgenuine : ∀ {part}, step.Compiles s.nextNode part → ℓ.genuine false part)
    (hstep : Step.Alike ℓ w step step) (fuel : Nat) :
    s.KeepsNames globally (leftBy (step.take fuel s)) := by
  have hkeep : KeepNames ℓ globally fuel := keepNames (fun _ => .inr fun _ => rfl) fuel
  exact hkeep.keepsNames_take hs (.inr fun _ => rfl) hgenuine hstep

/-- The frames that there are last, whatever steps come next. -/
theorem Session.Alike.lasts_onward {rules : HostRules} {known : Value → Prop} (hℓ : ℓ.Obeys rules)
    (hgenuine : ∀ {part}, Part.Accepted part → ℓ.genuine false part) (hs : Session.Alike ℓ w s s)
    (hknown : ∀ v, known v → Value.Alike ℓ w v v) (h : Onward rules s known s') : s.Lasts k s' := by
  -- Later worlds keep the fixtures of earlier ones, so it is enough to go from world to world.
  induction h generalizing w with
  | here => exact .refl _
  | @done known _ fuel _ _ _ _ hstep htake _ ih =>
      obtain ⟨w₁, hw, hs₁, hknown₁⟩ := hs.done hknown hℓ (fun h => hgenuine h.accepted) hstep htake
      have hnames := hs.keepsNames_take (fun h => hgenuine h.accepted) (hstep.alike hℓ hknown) fuel
      rw [htake] at hnames
      exact .trans ⟨hs.keeps hw hs₁, hnames.mono fun _ => .inl⟩ (ih hs₁ hknown₁)
  | @interrupted known _ fuel _ _ _ _ hstep htake _ ih =>
      obtain ⟨w₁, hw, hs₁, hknown₁⟩ :=
        hs.interrupted hknown hℓ (fun h => hgenuine h.accepted) hstep htake
      have hnames := hs.keepsNames_take (fun h => hgenuine h.accepted) (hstep.alike hℓ hknown) fuel
      rw [htake] at hnames
      exact .trans ⟨hs.keeps hw hs₁, hnames.mono fun _ => .inl⟩ (ih hs₁ hknown₁)

end

end Lox
