import Lox.Proofs.Host.Conversion
import Lox.Proofs.Simulation.Run
import Lox.Proofs.Thinning.Call

/-!
# Steps of the host and runs of programs

What both sessions take from the world around them is the same, and host functions that do not look
into functions do the same in both.  Code that they hand in becomes a twin, as the second session may
have given out more numbers.
-/

namespace Lox

variable {early late : Prop} {w : Layout}

/-! ## The host -/

theorem agree_readClock : Agree early late (Value.Thins) w Eval.readClock Eval.readClock := by
  refine .modifyGet fun s s' hs => ⟨w, w.later_refl, ?_, ?_⟩
  · exact { hs with ticks := congrArg (· + 1) hs.ticks }
  · rw [hs.readings, hs.ticks]
    exact .number

theorem agree_readLine : Agree early late (Value.Thins) w Eval.readLine Eval.readLine := by
  have htake : Agree early late (fun _ line line' => line' = line) w
      (modifyGet Session.takeLine : Eval (List Char))
      (modifyGet Session.takeLine : Eval (List Char)) := by
    refine .modifyGet fun s s' hs => ⟨w, w.later_refl, ?_, ?_⟩
    · unfold Session.takeLine
      rw [hs.input]
      exact { hs with input := rfl }
    · unfold Session.takeLine
      rw [hs.input]
  refine htake.bind fun w₁ line line' _ hline => .pure ?_
  rw [hline]
  exact .string

theorem agree_printLine (line : String) :
    Agree early late (fun _ _ _ => True) w (modify (Session.printLine line) : Eval Unit)
      (modify (Session.printLine line) : Eval Unit) := by
  refine .modify fun s s' hs => ⟨w, w.later_refl, ?_, trivial⟩
  refine { hs with output := ?_, written := ?_ }
  · simp only [Session.printLine, hs.output]
  · simp only [Session.printLine, hs.written]

theorem NativesThin.hire {natives natives' : Array Native} (h : NativesThin w natives natives')
    {arity : Nat} {n n' : Native} (hn : Native.Thins w arity n n') :
    NativesThin (w.hire arity) (natives.push n) (natives'.push n') := by
  have hle := (w.later_hire arity).le
  refine ⟨by simp [Layout.hire, h.size], by simp [Layout.hire, h.size'], ?_⟩
  refine natives_push h.size h.size' (fun hi => ?_) (hn.mono hle)
  obtain ⟨k, k', hk, hk', hthin⟩ := h.thin hi
  exact ⟨k, k', hk, hk', hthin.mono hle⟩

theorem Session.Thins.hire {s s' : Session} (h : Session.Thins w s s') {arity : Nat}
    {n n' : Native} (hn : Native.Thins w arity n n') :
    Session.Thins (w.hire arity) { s with natives := s.natives.push n }
      { s' with natives := s'.natives.push n' } :=
  { h with
    frames := h.frames.mono (w.later_hire arity).le rfl rfl rfl
    fields := h.fields.mono (w.later_hire arity).le
    natives := h.natives.hire hn
    memory := formsThin_mono (w.later_hire arity).le h.memory
    recorded := h.recorded }

theorem agree_nearestNumber (number : Option Float) :
    Agree early late Value.Thins w (Eval.nearestNumber number) (Eval.nearestNumber number) := by
  cases number with
  | some x => exact .pure .number
  | none => exact .hostError

theorem agree_hire {arity : Nat} {body body' : List HostForm → HostAction}
    (hbody : ∀ w' fs fs', w ≤ w' → fs.length = arity →
      List.Forall₂ (HostForm.Related (Value.Thins w')) fs fs' →
        HostAction.Follows .outward w'.view (body fs) (body' fs')) :
    Agree early late Value.Thins w (Eval.hire arity body) (Eval.hire arity body') := by
  refine .modifyGet fun s s' hs => ⟨w.hire arity, w.later_hire arity, hs.hire (.host hbody), ?_⟩
  simp only [hs.natives.size, hs.natives.size']
  exact .native (by simp [Layout.hire])

theorem agree_toValue {o o' : HostObject} (ho : HostObject.Follows .outward w.view o o') :
    Agree early late Value.Thins w (Eval.toValue o) (Eval.toValue o') := by
  cases ho with
  | form hf =>
      cases hf with
      | wrapper hf => exact .pure hf
      | plain hv =>
          cases hv with
          | object _ => exact .hostError
          | _ => exact .pure (by constructor <;> assumption)
  | integer => exact agree_nearestNumber _
  | foreign => exact .hostError
  | function hbody =>
      exact agree_hire fun w' fs fs' hw =>
        hbody w'.view (HostRules.view_thins w') (Layout.view_mono hw) fs fs'

theorem agree_toValues {os os' : List HostObject}
    (hos : ObjectsFollow .outward w.view os os') :
    Agree early late
      (fun w' vs vs' => List.Forall₂ (Value.Thins w') vs vs' ∧ vs.length = os.length) w
      (Eval.toValues os) (Eval.toValues os') := by
  induction os generalizing w os' with
  | nil =>
      cases hos with
      | nil => exact .pure ⟨.nil, rfl⟩
  | cons o os ih =>
      cases hos with
      | cons ho hos =>
          refine (agree_toValue ho).bind fun w₁ v v' hw₁ hv => ?_
          refine (ih (hos.mono (Layout.view_mono hw₁))).bind fun w₂ vs vs' hw₂ ⟨hvs, hlength⟩ => ?_
          exact .pure ⟨.cons (hv.mono hw₂) hvs, congrArg (· + 1) hlength⟩

theorem agree_hostArguments {f f' : Value} (hf : Value.Thins w f f') {os os' : List HostObject}
    (hos : ObjectsFollow .outward w.view os os') :
    Agree early late
      (fun w' vs vs' => List.Forall₂ (Value.Thins w') vs vs' ∧ f.arity? = some vs.length) w
      (Eval.hostArguments f os) (Eval.hostArguments f' os') := by
  unfold Eval.hostArguments
  rw [hf.looksLike.arity, hf.looksLike.sort, hos.length_eq]
  cases f.arity? with
  | none => exact .hostError
  | some arity =>
      dsimp only
      split
      · next hlength =>
          exact (agree_toValues hos).imp fun _ h => ⟨h.1, congrArg some (h.2.trans hlength).symm⟩
      · exact .hostError

/-! ## Beginning a run -/

theorem Session.Thins.beginRun {s s' : Session} (h : Session.Thins w s s') :
    Session.Thins w s.beginRun s'.beginRun :=
  { h with
    output := rfl
    staticError := rfl
    runtimeError := rfl }

theorem agree_beginRun :
    Agree early late (fun _ _ _ => True) w (modify Session.beginRun : Eval Unit)
      (modify Session.beginRun : Eval Unit) :=
  .modify fun _ _ hs => ⟨w, w.later_refl, hs.beginRun, trivial⟩

theorem agree_keep {fs fs' : List HostForm}
    (hfs : List.Forall₂ (HostForm.Related (Value.Thins w)) fs fs') :
    Agree early late (fun _ _ _ => True) w (modify fun s => { s with memory := fs } : Eval Unit)
      (modify fun s => { s with memory := fs' } : Eval Unit) :=
  .modify fun _ _ hs => ⟨w, w.later_refl, { hs with memory := hfs }, trivial⟩

/-! ## Globals -/

theorem formThin_ofValue {v v' : Value} (hv : Value.Thins w v v') :
    HostForm.Related (Value.Thins w) (.ofValue v) (.ofValue v') :=
  HostForm.related_ofValue hv hv.looksLike.arity

theorem agree_getGlobal (name : String) :
    Agree early late (fun w' => HostForm.Related (Value.Thins w')) w (Eval.getGlobal name)
      (Eval.getGlobal name) := by
  refine .get fun s s' hs => ?_
  rcases option_rel_cases (hs.frames.find?_env (.globals w) name) with
    ⟨hnone, hnone'⟩ | ⟨v, v', hv, hv', hthin⟩
  · rw [hnone, hnone']
    exact .pure (formThin_ofValue .nil)
  · rw [hv, hv']
    exact .pure (formThin_ofValue hthin)

theorem agree_setGlobal (name : String) {o o' : HostObject}
    (ho : HostObject.Follows .outward w.view o o') :
    Agree early late (fun _ _ _ => True) w (Eval.setGlobal name o) (Eval.setGlobal name o') :=
  (agree_toValue ho).bind fun w₁ _ _ _ hv => agree_define (.globals w₁) name hv

/-! ## Accepting code -/

theorem Hops.find?_merge_old {hops : Hops} {references : List Reference} {next id : NodeId}
    (hreferences : ∀ r ∈ references, next ≤ r.id) (hid : id < next) :
    (hops.merge references).find? id = hops.find? id := by
  have hnone : hopsOf references id = none :=
    hopsOf_eq_none fun r hr heq => Nat.lt_irrefl id (Nat.lt_of_lt_of_le hid (heq ▸ hreferences r hr))
  rw [Hops.find?_merge, hnone, Option.none_or]

theorem Hops.find?_merge_fresh {hops : Hops} {references : List Reference} {next id : NodeId}
    (hfresh : ∀ id, next ≤ id → hops.find? id = none) (hid : next ≤ id) :
    (hops.merge references).find? id = hopsOf references id := by
  rw [Hops.find?_merge, hfresh id hid, Option.or_none]

/-- References with numbers from one on, up to another one. -/
def NumberedWithin (low high : NodeId) (references : List Reference) : Prop :=
  ∀ r ∈ references, low ≤ r.id ∧ r.id < high

theorem NumberedWithin.nil (low high : NodeId) : NumberedWithin low high [] :=
  nofun

theorem Hops.merge_fresh {hops : Hops} {references : List Reference} {low high : NodeId}
    (hfresh : ∀ id, low ≤ id → hops.find? id = none) (hle : low ≤ high)
    (hreferences : NumberedWithin low high references) (id : NodeId) (hid : high ≤ id) :
    (hops.merge references).find? id = none := by
  rw [Hops.find?_merge_fresh hfresh (Nat.le_trans hle hid)]
  exact hopsOf_eq_none fun r hr heq =>
    Nat.lt_irrefl id (Nat.lt_of_lt_of_le (heq ▸ (hreferences r hr).2) hid)

theorem Session.Thins.merge {s s' : Session} (h : Session.Thins w s s')
    {references references' : List Reference} {next next' : NodeId} (hle : s.nextNode ≤ next)
    (hreferences : NumberedWithin s.nextNode next references) (hle' : s'.nextNode ≤ next')
    (hreferences' : NumberedWithin s'.nextNode next' references') (hnext : next ≤ next') :
    Session.Thins w { s with hops := s.hops.merge references, nextNode := next }
      { s' with hops := s'.hops.merge references', nextNode := next' } :=
  { h with
    recorded := fun hT =>
      have hold := h.recorded hT
      { hops := fun id hid => (Hops.find?_merge_old (fun r hr => (hreferences r hr).1)
          (hold.below id hid)).trans (hold.hops id hid)
        hops' := fun id hid => (Hops.find?_merge_old (fun r hr => (hreferences' r hr).1)
          (hold.below' id hid)).trans (hold.hops' id hid)
        below := fun id hid => Nat.lt_of_lt_of_le (hold.below id hid) hle
        below' := fun id hid => Nat.lt_of_lt_of_le (hold.below' id hid) hle' }
    fresh := Hops.merge_fresh h.fresh hle hreferences
    fresh' := Hops.merge_fresh h.fresh' hle' hreferences'
    nextNode := hnext }

theorem Session.Thins.learn {s s' : Session} (h : Session.Thins w s s') {T : Twin}
    (hT : T.Recorded s.hops s'.hops s.nextNode s'.nextNode) :
    Session.Thins (w.learn T) s s' :=
  have hle := (w.later_learn T).le
  { h with
    frames := h.frames.mono hle rfl rfl rfl
    fields := h.fields.mono hle
    natives := h.natives.mono hle rfl
    memory := formsThin_mono hle h.memory
    recorded := fun hknown => hknown.elim (fun heq => heq ▸ hT) h.recorded }

/-! ## Runs -/

/-- An accepted program, which the second session reads with higher numbers. -/
def Twin.ofProgram (source : String) (i : NodeId) (gap : Nat) : Twin where
  ids := bodyIds (compile source i).statements
  renumber := (· + gap)
  table := hopsOf (compile source i).references
  table' := hopsOf (compile source i).references

/-- An expression, none of whose variables is local. -/
def Twin.ofExpression (e : Expr) (gap : Nat) : Twin where
  ids := e.ids
  renumber := (· + gap)
  table _ := none
  table' _ := none

section

variable {source : String} {i : NodeId} {gap : Nat}

theorem Twin.exprThins_ofExpression {e : Expr} (h : (compileExpression source i).tree = .ok e) :
    Expr.Thins (.ofExpression e gap) [false] e (e.moved 0 (· + gap)) := by
  have hchecked := (compileExpression_checked h).1
  exact Expr.thins (T := .ofExpression e gap) .globals hchecked hchecked fun _ hid => hid

theorem Session.Thins.readExpression {s s' : Session} (h : Session.Thins w s s') {e : Expr}
    (hread : (compileExpression source s.nextNode).tree = .ok e)
    (hgap : s'.nextNode = s.nextNode + gap) :
    Session.Thins (w.learn (.ofExpression e gap))
      { s with nextNode := (compileExpression source s.nextNode).nextId }
      { s' with nextNode := (compileExpression source s'.nextNode).nextId } := by
  have hbounds := (compileExpression_checked hread).2.bounds
  have hnextId : (compileExpression source s'.nextNode).nextId =
      (compileExpression source s.nextNode).nextId + gap := by
    rw [hgap, nextId_compileExpression_later]
  have hmerged := h.merge (le_nextId_compileExpression source s.nextNode) (.nil _ _)
    (le_nextId_compileExpression source s'.nextNode) (.nil _ _)
    (by rw [hnextId]; exact Nat.le_add_right _ _)
  refine hmerged.learn ?_
  constructor
  case hops => exact fun id hid => h.fresh id (hbounds id hid).1
  case hops' => exact fun id hid => h.fresh' _ (hgap ▸ Nat.add_le_add_right (hbounds id hid).1 gap)
  case below => exact fun id hid => (hbounds id hid).2
  case below' =>
    intro id hid
    change id + gap < (compileExpression source s'.nextNode).nextId
    rw [hnextId]
    exact Nat.add_lt_add_right (hbounds id hid).2 gap

theorem Twin.bodyThins_ofProgram (h : (compile source i).problems = []) :
    BodyThins (.ofProgram source i gap) [false] (compile source i).statements
      (compile source (i + gap)).statements := by
  have hchecked := (compile_checked h).1
  rw [statements_compile_later]
  exact bodyThins (T := .ofProgram source i gap) .globals nofun hchecked hchecked fun _ hid => hid

theorem Session.Thins.ready {s s' : Session} (h : Session.Thins w s s')
    (hnone : (compile source s.nextNode).problems = [])
    (hnone' : (compile source s'.nextNode).problems = []) (hgap : s'.nextNode = s.nextNode + gap) :
    Session.Thins (w.learn (.ofProgram source s.nextNode gap)) (s.ready source)
      (s'.ready source) := by
  have hbounds := (compile_checked hnone).2.bounds
  have hmerged := h.beginRun.merge (le_nextId_compile source s.nextNode)
    (references_bounded hnone) (le_nextId_compile source s'.nextNode) (references_bounded hnone')
    (by rw [hgap, nextId_compile_later]; exact Nat.le_add_right _ _)
  refine hmerged.learn ?_
  constructor
  case hops => exact fun id hid => Hops.find?_merge_fresh h.fresh (hbounds id hid).1
  case hops' =>
    intro id hid
    have hlow : s'.nextNode ≤ id + gap := hgap ▸ Nat.add_le_add_right (hbounds id hid).1 gap
    refine (Hops.find?_merge_fresh h.fresh' hlow).trans ?_
    change hopsOf (compile source s'.nextNode).references (id + gap) = _
    rw [hgap, references_compile_later]
    exact hopsOf_moved 0 gap _ id
  case below => exact fun id hid => (hbounds id hid).2
  case below' =>
    intro id hid
    change id + gap < (compile source s'.nextNode).nextId
    rw [hgap, nextId_compile_later]
    exact Nat.add_lt_add_right (hbounds id hid).2 gap

end

theorem agree_catchFault {x y : Eval Completion} (h : Agree early late (Completion.Thins) w x y) :
    Agree early late (fun _ e e' => e' = e) w (Eval.catchFault x) (Eval.catchFault y) := by
  intro s s' hs
  have hend := h s s' hs
  unfold Eval.catchFault
  generalize x s = r at hend ⊢
  generalize y s' = r' at hend ⊢
  cases hend with
  | ok hw hs₁ hend =>
      cases hend with
      | normal => exact .ok hw hs₁ rfl
      | returned hv => exact .error hw hs₁ (.stray hv)
  | @error _ _ _ i i' hw hs₁ hi =>
      cases hi with
      | same =>
          cases i with
          | fault e => exact .ok hw hs₁ rfl
          | _ => exact .error hw hs₁ .same
      | stray hv => exact .error hw hs₁ (.stray hv)
  | early h => exact .early h
  | late h => exact .late h

theorem agree_conclude (e : Option RuntimeError) :
    Agree early late (fun _ r r' => r' = r) w (Eval.conclude e) (Eval.conclude e) := by
  have hflag : Agree early late (fun _ _ _ => True) w
      (modify fun s => { s with hadRuntimeError := e.isSome } : Eval Unit)
      (modify fun s => { s with hadRuntimeError := e.isSome } : Eval Unit) :=
    .modify fun s s' hs => ⟨w, w.later_refl, { hs with runtimeError := rfl }, trivial⟩
  refine hflag.bind fun w₁ _ _ _ _ => ?_
  cases e with
  | none => exact .pure rfl
  | some e => exact .pure rfl

theorem agree_runProgram {run run' : Environment → List Stmt → Eval Completion}
    (hrun : RunsAgree early late run run') (source : String) :
    Agree early late (fun _ r r' => r' = r) w (Eval.runProgram run source)
      (Eval.runProgram run' source) := by
  intro s s' hs
  obtain ⟨gap, hgap⟩ := Nat.exists_eq_add_of_le hs.nextNode
  have hproblems : (compile source s'.nextNode).problems = (compile source s.nextNode).problems := by
    rw [hgap, problems_compile_later]
  by_cases hnone : (compile source s.nextNode).problems = []
  · have hnone' : (compile source s'.nextNode).problems = [] := hproblems.trans hnone
    rw [Eval.runProgram_accepted hnone, Eval.runProgram_accepted hnone']
    have hready := hs.ready hnone hnone' hgap
    have hbody : BodyThins (.ofProgram source s.nextNode gap) [false]
        (compile source s.nextNode).statements (compile source (s.nextNode + gap)).statements :=
      Twin.bodyThins_ofProgram hnone
    rw [← hgap] at hbody
    refine AgreedEnd.mono (w.later_learn (.ofProgram source s.nextNode gap)) ?_
    have hsited : (Twin.ofProgram source s.nextNode gap).Sited (w.learn _) [false]
        Session.globals Session.globals := ⟨.inl rfl, .globals _⟩
    refine (agree_catchFault (hrun hsited hbody) _ _ hready).bind
      fun w₁ e e' _ he => ?_
    rw [he]
    exact agree_conclude e
  · have hsome' : (compile source s'.nextNode).problems ≠ [] :=
      fun hnone' => hnone (hproblems.symm.trans hnone')
    rw [Eval.runProgram_rejected hnone, Eval.runProgram_rejected hsome', hproblems]
    have hmerged := hs.beginRun.merge (le_nextId_compile source s.nextNode) (.nil _ _)
      (le_nextId_compile source s'.nextNode) (.nil _ _)
      (by rw [hgap, nextId_compile_later]; exact Nat.le_add_right _ _)
    exact .ok w.later_refl { hmerged with staticError := rfl } rfl

theorem agree_executeProgram {run run' : Environment → List Stmt → Eval Completion}
    (hrun : RunsAgree early late run run') (source : String) :
    Agree early late (fun _ text text' => text' = text) w (Eval.executeProgram run source)
      (Eval.executeProgram run' source) := by
  refine (agree_runProgram hrun source).bind fun w₁ r r' _ hr => ?_
  subst hr
  cases r' with
  | finished =>
      refine .get fun s s' hs => ?_
      rw [hs.output]
      exact .pure rfl
  | rejected problems => exact .pure rfl
  | failed e => exact .throw

theorem agree_runOther (sort : String) :
    Agree early late (fun _ _ _ => False) w (Eval.runOther sort) (Eval.runOther sort) :=
  agree_beginRun.bind fun _ _ _ _ _ => .hostError

/-! ## Steps, given how code is evaluated -/

/-- Ways of evaluating code that agree. -/
structure ProceedsAgree (early late : Prop) (eval eval' : Environment → Expr → Eval Value)
    (run run' : Environment → List Stmt → Eval Completion)
    (invoke invoke' : Token → Value → List Value → Eval Value) : Prop where
  eval : ∀ {w : Layout} {T : Twin} {gaps env env' e e'}, T.Sited w gaps env env' →
    Expr.Thins T gaps e e' → Agree early late Value.Thins w (eval env e) (eval' env' e')
  run : RunsAgree early late run run'
  invoke : ∀ {w : Layout} (site : Token) {v v' args args'}, Value.Thins w v v' →
    List.Forall₂ (Value.Thins w) args args' → v.arity? = some args.length →
      Agree early late Value.Thins w (invoke site v args) (invoke' site v' args')

section

variable {eval eval' : Environment → Expr → Eval Value}
  {run run' : Environment → List Stmt → Eval Completion}
  {invoke invoke' : Token → Value → List Value → Eval Value}

theorem agree_evaluateCode (h : ProceedsAgree early late eval eval' run run' invoke invoke')
    (source : String) :
    Agree early late (fun w' r r' => Answer.Related w'.view (.form r) (.form r')) w
      (Eval.evaluateCode eval source) (Eval.evaluateCode eval' source) := by
  intro s s' hs
  obtain ⟨gap, hgap⟩ := Nat.exists_eq_add_of_le hs.nextNode
  have hlater := compileExpression_later gap source s.nextNode
  rw [← hgap] at hlater
  have htree : (compileExpression source s'.nextNode).tree =
      (compileExpression source s.nextNode).tree.map (Expr.moved 0 (· + gap)) := by rw [hlater]
  unfold Eval.evaluateCode
  simp only [eval_get_bind_apply, eval_modify_bind_apply]
  cases hread : (compileExpression source s.nextNode).tree with
  | error problems =>
      rw [hread] at htree
      rw [htree]
      have hmerged := hs.merge (le_nextId_compileExpression source s.nextNode) (.nil _ _)
        (le_nextId_compileExpression source s'.nextNode) (.nil _ _)
        (by rw [hlater]; exact Nat.le_add_right _ _)
      exact .ok w.later_refl hmerged .refused
  | ok e =>
      rw [hread] at htree
      rw [htree]
      have hsited : (Twin.ofExpression e gap).Sited (w.learn (.ofExpression e gap)) [false]
          Session.globals Session.globals := ⟨.inl rfl, .globals _⟩
      have hform : Agree early late
          (fun w' (r r' : Except (List Diagnostic) HostForm) =>
            Answer.Related w'.view (.form r) (.form r')) (w.learn (.ofExpression e gap))
          ((fun v => .ok (.ofValue v)) <$> eval Session.globals e)
          ((fun v => .ok (.ofValue v)) <$> eval' Session.globals (e.moved 0 (· + gap))) :=
        (h.eval hsited (Twin.exprThins_ofExpression hread)).map fun hv => .form (formThin_ofValue hv)
      exact (hform _ _ (hs.readExpression hread hgap)).mono (w.later_learn _)

theorem agree_callForm (h : ProceedsAgree early late eval eval' run run' invoke invoke')
    {f f' : HostForm} (hf : HostForm.Related (Value.Thins w) f f') {os os' : List HostObject}
    (hos : ObjectsFollow .outward w.view os os') :
    Agree early late (fun w' => HostForm.Related (Value.Thins w')) w (Eval.callForm invoke os f)
      (Eval.callForm invoke' os' f') := by
  cases hf with
  | plain hv =>
      simp only [Eval.callForm, hv.looksLike.sort]
      exact .hostError
  | wrapper hf =>
      refine (agree_hostArguments hf hos).bind ?_
      rintro w₁ vs vs' hw₁ ⟨hvs, harity⟩
      exact (h.invoke Eval.hostSite (hf.mono hw₁) hvs harity).map formThin_ofValue

theorem agree_take (h : ProceedsAgree early late eval eval' run run' invoke invoke')
    {step step' : Step} (hstep : Step.Corresponds .outward w.view step step') :
    Agree early late (fun w' => Answer.Related w'.view) w (Eval.take eval run invoke step)
      (Eval.take eval' run' invoke' step') := by
  cases hstep with
  | run =>
      refine (agree_runProgram h.run _).map fun {w' r r'} hr => ?_
      rw [hr]
      exact .report (Report.related_self (E := w'.view.errors) (fun _ => rfl) r)
  | runOther => exact (agree_runOther _).map False.elim
  | execute =>
      refine (agree_executeProgram h.run _).map fun {w' text text'} htext => ?_
      rw [htext]
      exact .text
  | evaluate => exact (agree_evaluateCode h _).map fun hr => hr
  | get => exact (agree_getGlobal _).map fun hf => .form hf
  | set ho => exact (agree_setGlobal _ ho).map fun _ => .nothing
  | call hf hos => exact (agree_callForm h hf hos).map fun hf => .form hf

end

end Lox
