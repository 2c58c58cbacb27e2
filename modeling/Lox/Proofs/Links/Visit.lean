import Lox.Proofs.Links.Evaluation
import Lox.Proofs.Methods.Persistence

/-!
# Links in the evaluations of a step

An evaluation that another one calls finds the session linked, and is about environments and values
that were made with the same links.  When it ends, the one that called it goes on from the links that
it leaves.  So there are links for every moment of a step, and later ones only add to earlier ones.
-/

namespace Lox

/-- What an evaluation is about was made with these links. -/
def Task.Linked (L : Links) : Task → Prop
  | .eval env _ | .evalAll env _ | .exec env _ | .execAll env _ => L.Chain env
  | .invoke _ callee vs => callee.Linked L ∧ ArgumentsLinked L callee vs
  | .perform action => action.Linked L

/-- An evaluation that leaves a session linked, and gives what was made with these links. -/
def Task.Ends (L : Links) (n : Nat) (s : Session) : Task → Prop
  | .eval env e => EndsLinked Value.Linked L (Eval.eval n env e s)
  | .evalAll env es => EndsLinked ValuesLinked L (Eval.evalAll n env es s)
  | .exec env st => EndsLinked Completion.Linked L (Eval.exec n env st s)
  | .execAll env ss => EndsLinked Completion.Linked L (Eval.execAll n env ss s)
  | .invoke site callee vs =>
      EndsLinked Value.Linked L (Eval.invoke n site callee vs s)
  | .perform action => EndsLinked Value.Linked L (Eval.perform n action s)

section

variable {α β : Type} {P : Links → α → Prop} {Q : Links → β → Prop} {L : Links} {s s₁ : Session}

theorem EndsLinked.left {r : EStateM.Result Interrupt Session α} (h : EndsLinked P L r) :
    (leftBy r).Linked L := by
  cases r with
  | ok a s => exact h.1
  | error i s => exact h

theorem Builds.reaches {x : Eval α} (hx : Builds P L x) (hs : s.Linked L) {a : α}
    (h : x s = .ok a s₁) : ∃ L', L ≤ L' ∧ s₁.Linked L' ∧ P L' a := by
  obtain ⟨L', hL, hend⟩ := hx s hs
  rw [h] at hend
  exact ⟨L', hL, hend⟩

theorem EndsLinked.of_bind_ok {x : Eval α} {f : α → Eval β} {a : α} (h : x s = .ok a s₁)
    (hend : EndsLinked Q L (f a s₁)) : EndsLinked Q L ((x >>= f) s) := by
  rw [eval_bind_ok h]
  exact hend

end

section

variable {L : Links} {n : Nat} {task task' : Task} {s s' : Session}

theorem Task.Ends.left (h : task.Ends L n s) : (task.leaves n s).Linked L := by
  cases task <;> exact EndsLinked.left h

theorem Task.Linked.ends (h : task.Linked L) (hs : s.Linked L) (n : Nat) :
    ∃ L', L ≤ L' ∧ task.Ends L' n s := by
  cases task with
  | eval env e => exact (allBuild n).eval h s hs
  | evalAll env es => exact (allBuild n).evalAll h s hs
  | exec env st => exact (allBuild n).exec h s hs
  | execAll env ss => exact (allBuild n).execAll h s hs
  | invoke site callee vs => exact (allBuild n).invoke h.1 h.2 s hs
  | perform action => exact (allBuild n).perform h s hs

/-! ## From an evaluation to one that it calls, and back -/

/-- There are links for the beginning of what is called, and from the links at its end there are more
for the end of what called it. -/
def Task.Passes (L : Links) (n : Nat) (task : Task) (s : Session) (task' : Task) (s' : Session) :
    Prop :=
  ∃ L₁, L ≤ L₁ ∧ s'.Linked L₁ ∧ task'.Linked L₁ ∧
    ∀ L₂, L₁ ≤ L₂ → task'.Ends L₂ n s' → ∃ L₃, L₂ ≤ L₃ ∧ task.Ends L₃ (n + 1) s

theorem Calls.passes_eval {env : Environment} {e : Expr} (h : Calls n (.eval env e) s task' s')
    (hs : s.Linked L) (henv : L.Chain env) : Task.Passes L n (.eval env e) s task' s' := by
  have hall := allBuild n
  have hfirst : ∀ {e'}, (∀ L₂, L ≤ L₂ → Task.Ends L₂ n s (.eval env e') →
      ∃ L₃, L₂ ≤ L₃ ∧ Task.Ends L₃ (n + 1) s (.eval env e)) →
      Task.Passes L n (.eval env e) s (.eval env e') s :=
    fun hrest => ⟨L, Links.le_refl L, hs, henv, hrest⟩
  cases h with
  | grouping => exact hfirst fun L₂ _ hend => ⟨L₂, Links.le_refl L₂, hend⟩
  | unary =>
      exact hfirst fun _ _ hend => hend.bind fun _ => builds_operate _ fun _ => applyUnary_basic
  | binaryLeft =>
      exact hfirst fun _ hL₂ hend => hend.bind fun _ => hall.afterLeft (henv.mono hL₂) _ _ _
  | binaryRight hv =>
      obtain ⟨L₁, hL₁, hs₁, -⟩ := (hall.eval henv).reaches hs hv
      refine ⟨L₁, hL₁, hs₁, henv.mono hL₁, fun L₂ _ hend => ?_⟩
      obtain ⟨L₃, hL₃, hend⟩ := hend.bind fun _ => builds_operate _ fun _ => applyBinary_basic
      exact ⟨L₃, hL₃, .of_bind_ok hv hend⟩
  | logicalLeft =>
      exact hfirst fun _ hL₂ hend => hend.bind fun hv => hall.afterCondition (henv.mono hL₂) hv _ _
  | logicalRight hv hgoes =>
      obtain ⟨L₁, hL₁, hs₁, -⟩ := (hall.eval henv).reaches hs hv
      refine ⟨L₁, hL₁, hs₁, henv.mono hL₁, fun L₂ _ hend => ⟨L₂, Links.le_refl L₂, ?_⟩⟩
      refine .of_bind_ok hv ?_
      rw [if_neg hgoes]
      exact hend
  | assigned => exact hfirst fun _ _ hend => hend.bind fun hv => AllBuild.afterAssigned env _ _ hv
  | callee =>
      exact hfirst fun _ hL₂ hend => hend.bind fun hf => hall.afterCallee (henv.mono hL₂) _ _ hf
  | arguments hf =>
      obtain ⟨L₁, hL₁, hs₁, hlinked⟩ := (hall.eval henv).reaches hs hf
      refine ⟨L₁, hL₁, hs₁, henv.mono hL₁, fun L₂ hL₂ hend => ?_⟩
      obtain ⟨L₃, hL₃, hend⟩ := hend.bind fun hvs => hall.afterArguments _ (hlinked.mono hL₂) hvs
      exact ⟨L₃, hL₃, .of_bind_ok hf hend⟩
  | call hf hvs harity =>
      obtain ⟨L₁, hL₁, hs₁, hlinked⟩ := (hall.eval henv).reaches hs hf
      obtain ⟨L₂, hL₂, hs₂, harguments⟩ := (hall.evalAll (henv.mono hL₁)).reaches hs₁ hvs
      refine ⟨L₂, Links.le_trans hL₁ hL₂, hs₂, ⟨hlinked.mono hL₂, harity, harguments⟩,
        fun L₃ _ hend => ⟨L₃, Links.le_refl L₃, ?_⟩⟩
      refine .of_bind_ok hf (.of_bind_ok hvs ?_)
      rw [Eval.checkCall_eq_pure harity]
      exact hend
  | getObject => exact hfirst fun _ _ hend => hend.bind fun hv => AllBuild.afterGetObject hv _
  | setObject =>
      exact hfirst fun _ hL₂ hend => hend.bind fun _ => hall.afterSetObject (henv.mono hL₂) _ _ _
  | setValue hv =>
      obtain ⟨L₁, hL₁, hs₁, -⟩ := (hall.eval henv).reaches hs hv
      refine ⟨L₁, hL₁, hs₁, henv.mono hL₁, fun L₂ _ hend => ?_⟩
      obtain ⟨L₃, hL₃, hend⟩ := hend.bind fun hu => AllBuild.afterSetValue _ _ hu
      exact ⟨L₃, hL₃, .of_bind_ok hv hend⟩

theorem Calls.passes_evalAll {env : Environment} {es : List Expr}
    (h : Calls n (.evalAll env es) s task' s') (hs : s.Linked L) (henv : L.Chain env) :
    Task.Passes L n (.evalAll env es) s task' s' := by
  have hall := allBuild n
  cases h with
  | firstArgument =>
      refine ⟨L, Links.le_refl L, hs, henv, fun L₂ hL₂ hend => ?_⟩
      exact hend.bind fun hv => hall.afterFirstArgument (henv.mono hL₂) hv _
  | moreArguments hv =>
      obtain ⟨L₁, hL₁, hs₁, hlinked⟩ := (hall.eval henv).reaches hs hv
      refine ⟨L₁, hL₁, hs₁, henv.mono hL₁, fun L₂ hL₂ hend => ?_⟩
      obtain ⟨L₃, hL₃, hend⟩ :=
        hend.bind fun hvs => .pure (ValuesLinked.cons (hlinked.mono hL₂) hvs)
      exact ⟨L₃, hL₃, .of_bind_ok hv hend⟩

theorem Calls.passes_exec {env : Environment} {st : Stmt} (h : Calls n (.exec env st) s task' s')
    (hs : s.Linked L) (henv : L.Chain env) : Task.Passes L n (.exec env st) s task' s' := by
  have hall := allBuild n
  have hfirst : ∀ {e}, (∀ L₂, L ≤ L₂ → Task.Ends L₂ n s (.eval env e) →
      ∃ L₃, L₂ ≤ L₃ ∧ Task.Ends L₃ (n + 1) s (.exec env st)) →
      Task.Passes L n (.exec env st) s (.eval env e) s :=
    fun hrest => ⟨L, Links.le_refl L, hs, henv, hrest⟩
  cases h with
  | expression => exact hfirst fun _ _ hend => hend.bind fun _ => .pure trivial
  | print => exact hfirst fun _ _ hend => hend.bind fun _ => AllBuild.afterPrinted _
  | initial => exact hfirst fun _ _ hend => hend.bind fun hv => AllBuild.afterInitial env _ hv
  | block henter =>
      obtain ⟨L₁, hL₁, hs₁, hinner⟩ := (builds_enter henv).reaches hs henter
      exact ⟨L₁, hL₁, hs₁, hinner, fun L₂ _ hend => ⟨L₂, Links.le_refl L₂, .of_bind_ok henter hend⟩⟩
  | condition =>
      exact hfirst fun _ hL₂ hend => hend.bind fun _ => hall.afterDecided (henv.mono hL₂) _ _ _
  | yes hv htrue =>
      obtain ⟨L₁, hL₁, hs₁, -⟩ := (hall.eval henv).reaches hs hv
      refine ⟨L₁, hL₁, hs₁, henv.mono hL₁, fun L₂ _ hend => ⟨L₂, Links.le_refl L₂, ?_⟩⟩
      refine .of_bind_ok hv ?_
      rw [if_pos htrue]
      exact hend
  | no hv hfalse =>
      obtain ⟨L₁, hL₁, hs₁, -⟩ := (hall.eval henv).reaches hs hv
      refine ⟨L₁, hL₁, hs₁, henv.mono hL₁, fun L₂ _ hend => ⟨L₂, Links.le_refl L₂, ?_⟩⟩
      refine .of_bind_ok hv ?_
      rw [if_neg (Bool.eq_false_iff.mp hfalse)]
      exact hend
  | loopCondition =>
      refine hfirst fun L₂ hL₂ hend => ?_
      simp only [Task.Ends]
      rw [Eval.exec]
      exact hend.bind fun _ => hall.afterTested (henv.mono hL₂) _ _ _
  | loopBody hv htrue =>
      obtain ⟨L₁, hL₁, hs₁, -⟩ := (hall.eval henv).reaches hs hv
      refine ⟨L₁, hL₁, hs₁, henv.mono hL₁, fun L₂ hL₂ hend => ?_⟩
      obtain ⟨L₃, hL₃, hend⟩ :=
        hend.bind fun hr => hall.afterRound ((henv.mono hL₁).mono hL₂) _ _ hr
      refine ⟨L₃, hL₃, ?_⟩
      simp only [Task.Ends]
      rw [Eval.exec, eval_bind_ok hv, if_pos htrue]
      exact hend
  | loopAgain hv htrue hround =>
      obtain ⟨L₁, hL₁, hs₁, -⟩ := (hall.eval henv).reaches hs hv
      obtain ⟨L₂, hL₂, hs₂, -⟩ := (hall.exec (henv.mono hL₁)).reaches hs₁ hround
      refine ⟨L₂, Links.le_trans hL₁ hL₂, hs₂, (henv.mono hL₁).mono hL₂,
        fun L₃ _ hend => ⟨L₃, Links.le_refl L₃, ?_⟩⟩
      simp only [Task.Ends]
      rw [Eval.exec, eval_bind_ok hv, if_pos htrue, eval_bind_ok hround]
      exact hend
  | returned => exact hfirst fun _ _ hend => hend.bind fun hv => .pure hv

theorem Calls.passes_execAll {env : Environment} {ss : List Stmt}
    (h : Calls n (.execAll env ss) s task' s') (hs : s.Linked L) (henv : L.Chain env) :
    Task.Passes L n (.execAll env ss) s task' s' := by
  have hall := allBuild n
  cases h with
  | firstStmt =>
      refine ⟨L, Links.le_refl L, hs, henv, fun L₂ hL₂ hend => ?_⟩
      exact hend.bind fun hr => hall.afterStmt (henv.mono hL₂) _ hr
  | moreStmts hdone =>
      obtain ⟨L₁, hL₁, hs₁, -⟩ := (hall.exec henv).reaches hs hdone
      exact ⟨L₁, hL₁, hs₁, henv.mono hL₁, fun L₂ _ hend => ⟨L₂, Links.le_refl L₂, .of_bind_ok hdone hend⟩⟩

theorem EndsLinked.activate {f : Closure} {vs : List Value} {env : Environment} {s₁ : Session}
    (hopen : Eval.open f vs s = .ok env s₁)
    (hend : Task.Ends L n s₁ (.execAll env f.decl.body)) :
    ∃ L', L ≤ L' ∧ EndsLinked Value.Linked L'
      (Eval.activate (Eval.execAll n) f vs s) := by
  rw [Eval.activate_eq, eval_bind_ok hopen]
  exact EndsLinked.bind hend fun hr => AllBuild.afterBody hr

theorem Calls.passes_invoke {site : Token} {callee : Value} {vs : List Value}
    (h : Calls n (.invoke site callee vs) s task' s') (hs : s.Linked L)
    (htask : Task.Linked L (.invoke site callee vs)) :
    Task.Passes L n (.invoke site callee vs) s task' s' := by
  obtain ⟨hcallee, hvs⟩ := htask
  cases h with
  | native hi =>
      refine ⟨L, Links.le_refl L, hs, hs.action hi hcallee hvs,
        fun L₂ _ hend => ⟨L₂, Links.le_refl L₂, ?_⟩⟩
      simp only [Task.Ends, Eval.invoke]
      rw [eval_get_bind_apply, hi]
      exact hend
  | function hroom hopen =>
      have hdeeper : s.deeper.Linked L := hs.congr rfl rfl rfl rfl rfl
      obtain ⟨L₁, hL₁, hs₁, henv⟩ := (builds_open hcallee hvs.2).reaches hdeeper hopen
      refine ⟨L₁, hL₁, hs₁, henv, fun L₂ _ hend => ?_⟩
      obtain ⟨L₃, hL₃, hend⟩ := EndsLinked.activate hopen hend
      exact ⟨L₃, hL₃, hend.nested hroom⟩
  | @initializer method cls _ _ _ _ _ hroom hmethod hopen =>
      have hdeeper : s.deeper.Linked L := hs.congr rfl rfl rfl rfl rfl
      have hlinked : method.Linked L := Class.Linked.findMethod? hs.wellFounded hcallee hmethod
      obtain ⟨L₁, hL₁, hs₁, henv⟩ :=
        (builds_openInitializer hcallee hlinked hvs.2).reaches hdeeper hopen
      refine ⟨L₁, hL₁, hs₁, henv, fun L₂ hL₂ hend => ?_⟩
      obtain ⟨L₃, hL₃, hend⟩ := EndsLinked.activate hopen hend
      have hmade : (Value.object s.fields.size cls).Linked L₃ :=
        Class.Linked.mono (Links.le_trans hL₁ (Links.le_trans hL₂ hL₃)) hcallee
      obtain ⟨L₄, hL₄, hend⟩ := hend.bind fun _ => .pure hmade
      refine ⟨L₄, Links.le_trans hL₃ hL₄, EndsLinked.nested hroom ?_⟩
      rw [Eval.instantiate_eq hmethod, eval_bind_ok (Eval.newInstance_apply _ _),
        eval_bind_ok (Eval.bindThis_apply _ _ _)]
      exact hend

theorem EndsLinked.map {α β : Type} {P : Links → α → Prop} {Q : Links → β → Prop} {g : α → β}
    {x : Eval α} (hx : EndsLinked P L (x s)) (h : ∀ {a}, P L a → Q L (g a)) :
    EndsLinked Q L ((g <$> x) s) := by
  rw [map_eq_pure_bind, eval_bind_apply]
  generalize x s = r at hx ⊢
  cases r with
  | ok a s₁ => exact ⟨hx.1, h hx.2⟩
  | error i s₁ => exact hx

/-- From a step to an evaluation that it starts, and back. -/
theorem Starts.passes {step : Step} (h : Starts step s task s') (fuel : Nat) (hs : s.Linked L)
    (hstep : step.Linked L) :
    ∃ L₁, L ≤ L₁ ∧ s'.Linked L₁ ∧ task.Linked L₁ ∧ ∀ L₂, L₁ ≤ L₂ → task.Ends L₂ fuel s' →
      ∃ L₃, L₂ ≤ L₃ ∧ EndsLinked Answer.Linked L₃ (step.take fuel s) := by
  cases h with
  | @run code _ hnone =>
      refine ⟨L, Links.le_refl L, hs.ready code, (hs.ready code).chain_globals, fun L₂ _ hend => ?_⟩
      obtain ⟨L₃, hL₃, hend⟩ := EndsLinked.runProgram hnone hend
      exact ⟨L₃, hL₃, hend.map fun _ => nofun⟩
  | @execute code _ hnone =>
      refine ⟨L, Links.le_refl L, hs.ready code, (hs.ready code).chain_globals, fun L₂ _ hend => ?_⟩
      obtain ⟨L₃, hL₃, hend⟩ := EndsLinked.runProgram hnone hend
      obtain ⟨L₄, hL₄, hend⟩ := hend.bind fun {report} _ => builds_executed report
      rw [← Eval.executeProgram_eq] at hend
      exact ⟨L₄, Links.le_trans hL₃ hL₄, hend.map fun _ => nofun⟩
  | evaluate htree =>
      have hnumbered : ∀ id, Session.Linked L { s with nextNode := id } :=
        fun _ => hs.congr rfl rfl rfl rfl rfl
      refine ⟨L, Links.le_refl L, hnumbered _, hs.chain_globals,
        fun L₂ _ hend => ⟨L₂, Links.le_refl L₂, ?_⟩⟩
      refine EndsLinked.map (P := fun L r => Answer.Linked L (.form r)) ?_ fun h => h
      unfold Eval.evaluateCode
      rw [eval_get_bind_apply, eval_modify_bind_apply, htree]
      refine EndsLinked.map hend fun {v} hv => ?_
      rintro _ rfl
      rw [HostForm.value_ofValue]
      exact hv
  | @call f _ _ _ _ hvs =>
      cases hstep with
      | call hf hos =>
          obtain ⟨L₁, hL₁, hs₁, harguments⟩ := (builds_hostArguments _ hos).reaches hs hvs
          refine ⟨L₁, hL₁, hs₁, ⟨hf.value.linked.mono hL₁, harguments⟩,
            fun L₂ _ hend => ⟨L₂, Links.le_refl L₂, ?_⟩⟩
          refine EndsLinked.map (P := fun L (form : HostForm) => form.value.Linked L) ?_ ?_
          · refine .of_bind_ok hvs (EndsLinked.map hend fun {v} hv => ?_)
            rw [HostForm.value_ofValue]
            exact hv
          · rintro form hform _ rfl
            exact hform

theorem Calls.passes_perform {action : HostAction} (h : Calls n (.perform action) s task' s')
    (hs : s.Linked L) (haction : action.Linked L) :
    Task.Passes L n (.perform action) s task' s' := by
  have hall := allBuild n
  cases h with
  | asked hstarts =>
      cases haction with
      | ask _ hstep hnext =>
          obtain ⟨L₁, hL₁, hs₁, htask, hback⟩ := hstarts.passes n hs hstep
          refine ⟨L₁, hL₁, hs₁, htask, fun L₂ hL₂ hend => ?_⟩
          obtain ⟨L₃, hL₃, hend⟩ := hback L₂ hL₂ hend
          have hle := Links.le_trans hL₁ (Links.le_trans hL₂ hL₃)
          obtain ⟨L₄, hL₄, hend⟩ := hend.attempt.bind fun {r} hr => hall.perform
            (hnext _ (HostRules.view_linked L₃) (Links.view_mono hle) r r (attempted_linked hr)
              False.elim)
          exact ⟨L₄, Links.le_trans hL₃ hL₄, hend⟩
  | answered hanswer =>
      cases haction with
      | ask _ hstep hnext =>
          obtain ⟨L₁, hL₁, hs₁, hr⟩ := (builds_take hall.proceeds hstep).attempt.reaches hs hanswer
          refine ⟨L₁, hL₁, hs₁, ?_, fun L₂ _ hend => ⟨L₂, Links.le_refl L₂, .of_bind_ok hanswer hend⟩⟩
          exact hnext _ (HostRules.view_linked L₁) (Links.view_mono hL₁) _ _ (attempted_linked hr)
            False.elim
  | recalled =>
      cases haction with
      | recollect hnext =>
          refine ⟨L, Links.le_refl L, hs, ?_, fun L₂ _ hend => ⟨L₂, Links.le_refl L₂, hend⟩⟩
          exact hnext _ (HostRules.view_linked L) (View.le_refl _) _ _ hs.holds.memory.related
  | @kept fs =>
      cases haction with
      | keep hfs haction =>
          have hmodify : (modify fun s => { s with memory := fs } : Eval Unit) s =
              .ok () { s with memory := fs } := rfl
          obtain ⟨L₁, hL₁, hs₁, -⟩ := (builds_keep (.of_related hfs)).reaches hs hmodify
          exact ⟨L₁, hL₁, hs₁, HostAction.Linked.mono hL₁ haction,
            fun L₂ _ hend => ⟨L₂, Links.le_refl L₂, .of_bind_ok hmodify hend⟩⟩

theorem Calls.passes (h : Calls n task s task' s') (hs : s.Linked L) (htask : task.Linked L) :
    task.Passes L n s task' s' := by
  cases task with
  | eval env e => exact h.passes_eval hs htask
  | evalAll env es => exact h.passes_evalAll hs htask
  | exec env st => exact h.passes_exec hs htask
  | execAll env ss => exact h.passes_execAll hs htask
  | invoke site callee vs => exact h.passes_invoke hs htask
  | perform action => exact h.passes_perform hs htask

end

end Lox
