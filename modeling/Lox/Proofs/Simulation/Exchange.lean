import Lox.Proofs.Host.Conversion
import Lox.Proofs.Simulation.Call

/-!
# Exchange with the host

What sessions alike take from the world around them is alike.  A host that keeps to what Lox can take
causes no error of its own.
-/

namespace Lox

variable {ℓ : Likeness} {lockstep : Prop} {w : World}

theorem simulates_readClock :
    Simulates ℓ lockstep (Value.Alike ℓ) w Eval.readClock Eval.readClock := by
  refine simulates_modifyGet fun s s' hs => ⟨w, World.later_refl w, ?_, ?_⟩
  · exact { hs with ticks := congrArg (· + 1) hs.ticks }
  · rw [hs.readings, hs.ticks]
    exact .number

theorem simulates_readLine :
    Simulates ℓ lockstep (Value.Alike ℓ) w Eval.readLine Eval.readLine := by
  have htake : Simulates ℓ lockstep (fun _ line line' => line' = line) w
      (modifyGet Session.takeLine : Eval (List Char))
      (modifyGet Session.takeLine : Eval (List Char)) := by
    refine simulates_modifyGet fun s s' hs => ⟨w, World.later_refl w, ?_, ?_⟩
    · unfold Session.takeLine
      rw [hs.input]
      exact { hs with input := rfl }
    · unfold Session.takeLine
      rw [hs.input]
  refine htake.bind fun w₁ line line' _ hline => .pure ?_
  rw [hline]
  exact .string

theorem simulates_printLine (line : String) :
    Simulates ℓ lockstep (fun w' _ _ => w' = w) w (modify (Session.printLine line) : Eval Unit)
      (modify (Session.printLine line) : Eval Unit) := by
  refine simulates_modify fun s s' hs => ⟨w, World.later_refl w, ?_, rfl⟩
  refine { hs with output := ?_, written := ?_ }
  · simp only [Session.printLine, hs.output, Array.push_append]
  · simp only [Session.printLine, hs.written]

theorem NativesAlike.hire {natives natives' : Array Native} (h : NativesAlike ℓ w natives natives')
    {arity : Nat} {n n' : Native} (hn : Native.Alike ℓ w arity n n') :
    NativesAlike ℓ (w.hire arity) (natives.push n) (natives'.push n') := by
  refine ⟨by simp [World.hire, h.size], by simp [World.hire, h.size'], ?_⟩
  refine natives_push h.size h.size' (fun hi => ?_) (hn.mono (World.le_hire arity))
  obtain ⟨k, k', hk, hk', halike⟩ := h.alike hi
  exact ⟨k, k', hk, hk', halike.mono (World.le_hire arity)⟩

theorem Session.Alike.hire {s s' : Session} (h : Session.Alike ℓ w s s') {arity : Nat}
    {n n' : Native} (hn : Native.Alike ℓ w arity n n') :
    Session.Alike ℓ (w.hire arity) { s with natives := s.natives.push n }
      { s' with natives := s'.natives.push n' } :=
  { h with
    frames := h.frames.mono (World.le_hire arity) rfl rfl rfl h.frames.declared
    fields := h.fields.mono (World.le_hire arity)
    natives := h.natives.hire hn
    memory := formsAlike_mono (World.le_hire arity) h.memory
    genuine := h.genuine
    recorded := ⟨h.recorded.table, h.recorded.below, h.recorded.fresh⟩
    recorded' := ⟨h.recorded'.table, h.recorded'.below, h.recorded'.fresh⟩ }

theorem simulates_nearestNumber {number : Option Float} (hstrict : ℓ.strict → number ≠ none) :
    Simulates ℓ lockstep (Value.Alike ℓ) w (Eval.nearestNumber number) (Eval.nearestNumber number) := by
  cases number with
  | some x => exact .pure .number
  | none => exact simulates_hostError fun h => hstrict h rfl

theorem simulates_hire {arity : Nat} {body body' : List HostForm → HostAction}
    (hbody : ∀ w' fs fs', w ≤ w' → fs.length = arity →
      List.Forall₂ (HostForm.Related (Value.Alike ℓ w')) fs fs' →
        HostAction.Alike ℓ w' (body fs) (body' fs')) :
    Simulates ℓ lockstep (Value.Alike ℓ) w (Eval.hire arity body) (Eval.hire arity body') := by
  refine simulates_modifyGet fun s s' hs => ⟨w.hire arity, ⟨World.le_hire arity, .inl rfl⟩, ?_, ?_⟩
  · exact hs.hire (.host hbody)
  · simp only [hs.natives.size, hs.natives.size']
    exact .native (by simp [World.hire])

theorem HostForm.Related.convertible {f f' : HostForm}
    (hf : HostForm.Related (Value.Alike ℓ w) f f') (h : (HostObject.form f).Convertible) :
    (HostObject.form f').Convertible := by
  cases hf with
  | wrapper _ => trivial
  | plain hv =>
      rintro i cls rfl
      cases hv with
      | object _ => exact h _ _ rfl

theorem HostForm.Related.toValue {f f' : HostForm} (hf : HostForm.Related (Value.Alike ℓ w) f f')
    (h : (HostObject.form f).Convertible) :
    Eval.toValue (.form f) = pure f.value ∧ Eval.toValue (.form f') = pure f'.value := by
  have h' := hf.convertible h
  cases hf with
  | wrapper _ => exact ⟨rfl, rfl⟩
  | plain _ => exact ⟨Eval.toValue_plain h, Eval.toValue_plain h'⟩

theorem HostForm.Related.toValue_refused {f f' : HostForm}
    (hf : HostForm.Related (Value.Alike ℓ w) f f') (h : ¬ (HostObject.form f).Convertible) :
    ∃ e, Eval.toValue (.form f) = Eval.hostError e ∧ Eval.toValue (.form f') = Eval.hostError e := by
  cases hf with
  | wrapper _ => exact absurd trivial h
  | plain hv =>
      cases hv with
      | object _ => exact ⟨_, rfl, rfl⟩
      | _ => exact absurd nofun h

theorem simulates_toValue {o o' : HostObject} (ho : HostObject.Alike ℓ w o o')
    (hstrict : ℓ.strict → o.Convertible) :
    Simulates ℓ lockstep (Value.Alike ℓ) w (Eval.toValue o) (Eval.toValue o') := by
  cases ho with
  | @form _ f f' hf =>
      by_cases h : (HostObject.form f).Convertible
      · obtain ⟨heq, heq'⟩ := hf.toValue h
        rw [heq, heq']
        exact .pure hf.value
      · obtain ⟨e, heq, heq'⟩ := hf.toValue_refused h
        rw [heq, heq']
        exact simulates_hostError fun hs => h (hstrict hs)
  | integer => exact simulates_nearestNumber hstrict
  | foreign => exact simulates_hostError hstrict
  | function hbody => exact simulates_hire hbody

theorem tries_toValue {o o' : HostObject} (ho : HostObject.Alike ℓ w o o') :
    Tries ℓ lockstep (Value.Alike ℓ) w (Eval.toValue o) (Eval.toValue o') := by
  by_cases h : o.Convertible
  · exact (simulates_toValue ho fun _ => h).tries
  · cases ho with
    | form hf =>
        obtain ⟨e, heq, heq'⟩ := hf.toValue_refused h
        rw [heq, heq']
        exact tries_hostError
    | @integer n =>
        rw [Eval.toValue_integer, not_not.mp h]
        exact tries_hostError
    | foreign => exact tries_hostError
    | function _ => exact absurd trivial h

/-- Values of things, one for each. -/
def ValuesFor (ℓ : Likeness) (os : List HostObject) (w : World) (vs vs' : List Value) : Prop :=
  List.Forall₂ (Value.Alike ℓ w) vs vs' ∧ vs.length = os.length

theorem simulates_toValues {os os' : List HostObject} (hos : ObjectsAlike ℓ w os os')
    (hstrict : ℓ.strict → ∀ o ∈ os, o.Convertible) :
    Simulates ℓ lockstep (ValuesFor ℓ os) w (Eval.toValues os) (Eval.toValues os') := by
  induction os generalizing w os' with
  | nil =>
      cases hos with
      | nil => exact .pure ⟨.nil, rfl⟩
  | cons o os ih =>
      cases hos with
      | cons ho hos =>
          refine (simulates_toValue ho fun h => hstrict h o List.mem_cons_self).bind
            fun w₁ v v' hw₁ hv => ?_
          refine (ih (hos.mono hw₁) fun h u hu => hstrict h u (List.mem_cons_of_mem o hu)).bind
            fun w₂ vs vs' hw₂ ⟨hvs, hlength⟩ => .pure ?_
          exact ⟨.cons (hv.mono hw₂) hvs, congrArg (· + 1) hlength⟩

theorem tries_toValues {os os' : List HostObject} (hos : ObjectsAlike ℓ w os os') :
    Tries ℓ lockstep (ValuesFor ℓ os) w (Eval.toValues os) (Eval.toValues os') := by
  induction os generalizing w os' with
  | nil =>
      cases hos with
      | nil => exact (Simulates.pure ⟨.nil, rfl⟩).tries
  | cons o os ih =>
      cases hos with
      | cons ho hos =>
          refine (tries_toValue ho).bind fun w₁ v v' hw₁ hv => ?_
          refine (ih (hos.mono hw₁)).bind fun w₂ vs vs' hw₂ ⟨hvs, hlength⟩ =>
            (Simulates.pure ?_).tries
          exact ⟨.cons (hv.mono hw₂) hvs, congrArg (· + 1) hlength⟩

/-- As many values as the callee takes. -/
def ArgumentsFor (ℓ : Likeness) (f : Value) (w : World) (vs vs' : List Value) : Prop :=
  List.Forall₂ (Value.Alike ℓ w) vs vs' ∧ f.arity? = some vs.length

theorem simulates_hostArguments {f f' : Value} (hf : Value.Alike ℓ w f f')
    {os os' : List HostObject} (hos : ObjectsAlike ℓ w os os')
    (hstrict : ℓ.strict → f.arity? = some os.length ∧ ∀ o ∈ os, o.Convertible) :
    Simulates ℓ lockstep (ArgumentsFor ℓ f) w (Eval.hostArguments f os)
      (Eval.hostArguments f' os') := by
  unfold Eval.hostArguments
  rw [hf.arity?_eq, hf.hostSort_eq, hos.length_eq]
  cases harity : f.arity? with
  | none =>
      refine simulates_hostError fun h => ?_
      rw [(hstrict h).1] at harity
      cases harity
  | some arity =>
      dsimp only
      split
      · next hlength =>
          refine (simulates_toValues hos fun h => (hstrict h).2).imp fun _ h => ⟨h.1, ?_⟩
          rw [h.2, hlength, harity]
      · next hlength =>
          refine simulates_hostError fun h => hlength ?_
          exact Option.some.inj ((hstrict h).1.symm.trans harity)

theorem tries_hostArguments {f f' : Value} (hf : Value.Alike ℓ w f f') {os os' : List HostObject}
    (hos : ObjectsAlike ℓ w os os') :
    Tries ℓ lockstep (ArgumentsFor ℓ f) w (Eval.hostArguments f os) (Eval.hostArguments f' os') := by
  unfold Eval.hostArguments
  rw [hf.arity?_eq, hf.hostSort_eq, hos.length_eq]
  cases harity : f.arity? with
  | none => exact tries_hostError
  | some arity =>
      dsimp only
      split
      · next hlength =>
          refine (tries_toValues hos).imp fun h => ⟨h.1, ?_⟩
          rw [h.2, hlength, harity]
      · exact tries_hostError

/-- Frames and code do not depend on the pace of the runs, nor on numbers that are not used yet. -/
theorem Session.Alike.paced {s s' : Session} (h : Session.Alike ℓ w s s') {pace : Pace}
    {i i' : NodeId} {output output' : Array String} {hadStatic hadStatic' hadRuntime hadRuntime' : Bool}
    (hi : s.nextNode ≤ i) (hi' : s'.nextNode ≤ i') (hgap : ℓ.reentry → i = i' + pace.gap)
    (hnumber : ℓ.reentry → ∀ id, ℓ.number (id + pace.gap) id)
    (houtput : output' = pace.ahead ++ output)
    (hstatic : pace.stale = false → hadStatic' = hadStatic)
    (hruntime : pace.stale = false → hadRuntime' = hadRuntime) :
    Session.Alike ℓ (w.paced pace)
      { s with
        nextNode := i, output := output, hadStaticError := hadStatic, hadRuntimeError := hadRuntime }
      { s' with
        nextNode := i', output := output', hadStaticError := hadStatic',
        hadRuntimeError := hadRuntime' } :=
  have hsame : (w.paced pace).code = w.code := rfl
  { h with
    frames := h.frames.mono (w.le_paced pace) rfl rfl rfl h.frames.declared
    fields := h.fields.mono (w.le_paced pace)
    natives := h.natives.mono (w.le_paced pace) rfl
    memory := formsAlike_mono (w.le_paced pace) h.memory
    genuine := h.genuine
    recorded := (h.recorded.later hi).same hsame
    recorded' := (h.recorded'.later hi').same hsame
    nextNode := hgap
    number := hnumber
    output := houtput
    staticError := hstatic
    runtimeError := hruntime }

/-- Two runs may begin at any time. -/
theorem Session.Alike.beginRun {s s' : Session} (h : Session.Alike ℓ w s s') :
    Session.Alike ℓ w.reset s.beginRun s'.beginRun :=
  h.paced (Nat.le_refl _) (Nat.le_refl _) h.nextNode h.number rfl (fun _ => rfl) fun _ => rfl

theorem simulates_keep {fs fs' : List HostForm}
    (hfs : List.Forall₂ (HostForm.Related (Value.Alike ℓ w)) fs fs') :
    Simulates ℓ lockstep (fun w' _ _ => w' = w) w
      (modify fun s => { s with memory := fs } : Eval Unit)
      (modify fun s => { s with memory := fs' } : Eval Unit) :=
  simulates_modify fun _ _ hs => ⟨w, World.later_refl w, { hs with memory := hfs }, rfl⟩

/-! ## Globals -/

theorem simulates_getGlobal (name : String) :
    Simulates ℓ lockstep (fun w' => HostForm.Related (Value.Alike ℓ w')) w (Eval.getGlobal name)
      (Eval.getGlobal name) := by
  intro s s' hs
  have hfound := hs.frames.find? Session.globalFrame name
  rw [hs.frames.rename_globals] at hfound
  have hform : ∀ {v v'}, Value.Alike ℓ w v v' → HostForm.Related (Value.Alike ℓ w) (.ofValue v)
      (.ofValue v') := fun hv => HostForm.related_ofValue hv hv.arity?_eq
  simp only [Eval.getGlobal, eval_get_bind_apply, Session.globals, Frames.find?]
  rcases option_rel_cases hfound with ⟨hv, hv'⟩ | ⟨v, v', hv, hv', halike⟩
  · rw [hv, hv']
    exact Simulates.pure (hform .nil) s s' hs
  · rw [hv, hv']
    exact Simulates.pure (hform halike) s s' hs

theorem simulates_setValue (name : String) {v v' : Value} (hv : Value.Alike ℓ w v v') :
    Simulates ℓ lockstep (fun _ _ _ => True) w (Eval.define Session.globals name v)
      (Eval.define Session.globals name v') := by
  have hdefine : Simulates ℓ lockstep _ w (Eval.define Session.globals name v)
      (Eval.define Session.globals (renameHere [] name) v') :=
    simulates_define .globals nofun (fun h => absurd rfl h) fun _ hw _ => hv.mono hw
  exact hdefine.imp fun _ _ => trivial

theorem simulates_setGlobal (name : String) {o o' : HostObject} (ho : HostObject.Alike ℓ w o o')
    (hstrict : ℓ.strict → o.Convertible) :
    Simulates ℓ lockstep (fun _ _ _ => True) w (Eval.setGlobal name o) (Eval.setGlobal name o') :=
  (simulates_toValue ho hstrict).bind fun _ _ _ _ hv => simulates_setValue name hv

theorem tries_setGlobal (name : String) {o o' : HostObject} (ho : HostObject.Alike ℓ w o o') :
    Tries ℓ lockstep (fun _ _ _ => True) w (Eval.setGlobal name o) (Eval.setGlobal name o') :=
  (tries_toValue ho).bind fun _ _ _ _ hv => (simulates_setValue name hv).tries

end Lox
