import Lox.Proofs.Thinning.Layout

/-!
# Sessions with frames left out

A session does without some frames of another one if it has related values in the frames that are
not left out, and if those that are left out bind nothing.  Two steps agree if they take such sessions
to such sessions, under a later layout, and end in the same way.
-/

namespace Lox

/-! ## Host functions -/

section

variable {rules : HostRules} {V V' : View}

theorem HostObject.Follows.mono (hV : V ≤ V') {o o' : HostObject}
    (h : HostObject.Follows rules V o o') : HostObject.Follows rules V' o o' := by
  cases h with
  | form hf => exact .form (hf.imp hV.values)
  | integer => exact .integer
  | foreign => exact .foreign
  | function hbody =>
      exact .function fun V'' hV'' hle => hbody V'' hV'' (View.le_trans hV hle)

theorem ObjectsFollow.mono (hV : V ≤ V') : ∀ {os os' : List HostObject},
    ObjectsFollow rules V os os' → ObjectsFollow rules V' os os'
  | _, _, .nil => .nil
  | _, _, .cons ho hos => .cons (ho.mono hV) (hos.mono hV)

theorem Step.Corresponds.mono (hV : V ≤ V') {step step' : Step}
    (h : Step.Corresponds rules V step step') : Step.Corresponds rules V' step step' := by
  cases h with
  | run => exact .run
  | runOther => exact .runOther
  | execute => exact .execute
  | evaluate => exact .evaluate
  | get => exact .get
  | set ho => exact .set (ho.mono hV)
  | call hf hos => exact .call (hf.imp hV.values) (hos.mono hV)

theorem HostAction.Follows.mono (hV : V ≤ V') : ∀ {a a' : HostAction},
    HostAction.Follows rules V a a' → HostAction.Follows rules V' a a'
  | _, _, .give ho hstrict => .give (ho.mono hV) hstrict
  | _, _, .raise he => .raise (hV.errors he)
  | _, _, .raiseHost hstrict => .raiseHost hstrict
  | _, _, .ask hallowed hstep hnext =>
      .ask hallowed (hstep.mono hV) fun V'' hV'' hle => hnext V'' hV'' (View.le_trans hV hle)
  | _, _, .recollect hnext => .recollect fun V'' hV'' hle => hnext V'' hV'' (View.le_trans hV hle)
  | _, _, .keep hfs h => .keep (hfs.imp fun _ _ hf => hf.imp hV.values) (h.mono hV)

theorem ObjectsFollow.length_eq : ∀ {os os' : List HostObject},
    ObjectsFollow rules V os os' → os'.length = os.length
  | _, _, .nil => rfl
  | _, _, .cons _ hos => congrArg (· + 1) hos.length_eq

end

theorem Report.related_self {E : RuntimeError → RuntimeError → Prop} (hE : ∀ e, E e e) :
    ∀ r : Report, Report.Related E r r
  | .finished => .finished
  | .rejected _ => .rejected
  | .failed e => .failed (hE e)

/-- Natives that take a number of arguments and do the same with related ones. -/
inductive Native.Thins (w : Layout) (arity : Nat) : Native → Native → Prop where
  | clock : Native.Thins w arity .clock .clock
  | readLine : Native.Thins w arity .readLine .readLine
  | host : (∀ w' fs fs', w ≤ w' → fs.length = arity →
        List.Forall₂ (HostForm.Related (Value.Thins w')) fs fs' →
          HostAction.Follows .outward w'.view (body fs) (body' fs')) →
      Native.Thins w arity (.host body) (.host body')

theorem Native.Thins.mono {w w' : Layout} (hw : w ≤ w') {arity : Nat} {n n' : Native}
    (h : Native.Thins w arity n n') : Native.Thins w' arity n n' := by
  cases h with
  | clock => exact .clock
  | readLine => exact .readLine
  | host hbody => exact .host fun w'' fs fs' hw' => hbody w'' fs fs' (Layout.le_trans hw hw')

/-! ## Sessions -/

section

variable (w : Layout)

structure Frames.Thins (fs fs' : Frames Value) : Prop where
  size : fs.frames.size = w.frames
  size' : fs'.frames.size = w.frames'
  bindings : ∀ {f g}, w.image f = some g →
    Bindings.Alike (Value.Thins w) (fun x => x) (fs.bindings f) (fs'.bindings g)
  empty : ∀ {f}, f < w.frames → w.image f = none → fs.bindings f = []

structure FieldsThin (fields fields' : Array (Bindings Value)) : Prop where
  size : fields'.size = fields.size
  bindings : ∀ i, Bindings.Alike (Value.Thins w) (fun x => x) (fields.getD i [])
    (fields'.getD i [])

structure NativesThin (natives natives' : Array Native) : Prop where
  size : natives.size = w.natives.length
  size' : natives'.size = w.natives.length
  thin : ∀ {i : NativeId} {arity}, w.natives[i]? = some arity → ∃ n n', natives[i]? = some n ∧
    natives'[i]? = some n' ∧ Native.Thins w arity n n'

/-- Two tables have the distances of a twin, under the numbers that its references have there.  These
numbers were given out. -/
structure Twin.Recorded (T : Twin) (hops hops' : Hops) (next next' : NodeId) : Prop where
  hops : ∀ id ∈ T.ids, hops.find? id = T.table id
  hops' : ∀ id ∈ T.ids, hops'.find? (T.renumber id) = T.table' id
  below : ∀ id ∈ T.ids, id < next
  below' : ∀ id ∈ T.ids, T.renumber id < next'

structure Session.Thins (s s' : Session) : Prop where
  frames : Frames.Thins w s.frames s'.frames
  fields : FieldsThin w s.fields s'.fields
  natives : NativesThin w s.natives s'.natives
  recorded : ∀ {T}, w.knows T → T.Recorded s.hops s'.hops s.nextNode s'.nextNode
  fresh : ∀ id, s.nextNode ≤ id → s.hops.find? id = none
  fresh' : ∀ id, s'.nextNode ≤ id → s'.hops.find? id = none
  nextNode : s.nextNode ≤ s'.nextNode
  nextObject : s'.nextObject = s.nextObject
  depth : s'.depth = s.depth
  limits : s'.limits = s.limits
  output : s'.output = s.output
  written : s'.written = s.written
  input : s'.input = s.input
  readings : s'.readings = s.readings
  ticks : s'.ticks = s.ticks
  memory : List.Forall₂ (HostForm.Related (Value.Thins w)) s.memory s'.memory
  staticError : s'.hadStaticError = s.hadStaticError
  runtimeError : s'.hadRuntimeError = s.hadRuntimeError

end

section

variable {w w' : Layout}

theorem FieldsThin.mono (hw : w ≤ w') {fields fields' : Array (Bindings Value)}
    (h : FieldsThin w fields fields') : FieldsThin w' fields fields' :=
  ⟨h.size, fun i => (h.bindings i).imp fun hv => hv.mono hw⟩

theorem formsThin_mono (hw : w ≤ w') {fs fs' : List HostForm}
    (h : List.Forall₂ (HostForm.Related (Value.Thins w)) fs fs') :
    List.Forall₂ (HostForm.Related (Value.Thins w')) fs fs' :=
  h.imp fun _ _ hf => hf.imp fun hv => hv.mono hw

/-- The host gets forms that look the same for related values. -/
theorem formsThin_ofValues {vs vs' : List Value} (h : List.Forall₂ (Value.Thins w) vs vs') :
    List.Forall₂ (HostForm.Related (Value.Thins w)) (vs.map .ofValue) (vs'.map .ofValue) := by
  rw [List.forall₂_map_left_iff, List.forall₂_map_right_iff]
  exact h.imp fun _ _ hv => HostForm.related_ofValue hv hv.looksLike.arity

theorem NativesThin.mono (hw : w ≤ w') (hsame : w'.natives = w.natives)
    {natives natives' : Array Native} (h : NativesThin w natives natives') :
    NativesThin w' natives natives' := by
  refine ⟨hsame ▸ h.size, hsame ▸ h.size', fun {i arity} hi => ?_⟩
  obtain ⟨n, n', hn, hn', hthin⟩ := h.thin (hsame ▸ hi)
  exact ⟨n, n', hn, hn', hthin.mono hw⟩

theorem Frames.Thins.find? {fs fs' : Frames Value} (h : Frames.Thins w fs fs') {f g : FrameId}
    (hfg : w.image f = some g) (x : String) :
    Option.Rel (Value.Thins w) ((fs.bindings f).find? x) ((fs'.bindings g).find? x) :=
  (h.bindings hfg).find? (fun heq => heq) x

theorem Session.Thins.withFrames {s s' : Session} (h : Session.Thins w s s') (hw : w ≤ w')
    (hnatives : w'.natives = w.natives) (hknows : ∀ {T}, w'.knows T → w.knows T)
    {fs fs' : Frames Value} (hframes : Frames.Thins w' fs fs') :
    Session.Thins w' { s with frames := fs } { s' with frames := fs' } :=
  { h with
    frames := hframes
    fields := h.fields.mono hw
    natives := h.natives.mono hw hnatives
    memory := formsThin_mono hw h.memory
    recorded := fun hT => h.recorded (hknows hT) }

end

/-! ## Steps that agree -/

/-- A layout that comes after another one while both sessions go on. -/
structure Layout.Later (w w' : Layout) : Prop where
  le : w ≤ w'
  whole : w'.whole = w.whole

theorem Layout.later_refl (w : Layout) : w.Later w :=
  ⟨le_refl w, rfl⟩

theorem Layout.Later.trans {w w' w'' : Layout} (h : w.Later w') (h' : w'.Later w'') :
    w.Later w'' :=
  ⟨le_trans h.le h'.le, h'.whole.trans h.whole⟩

/-- Interrupts that differ at most in a value that was returned where nothing may return. -/
inductive Interrupt.Thins (w : Layout) : Interrupt → Interrupt → Prop where
  | same : Interrupt.Thins w i i
  | stray : Value.Thins w v v' →
      Interrupt.Thins w (.stuck (.strayReturn v)) (.stuck (.strayReturn v'))

section

variable (early late : Prop) {α β : Type}

/-- Ends of two evaluations that agree.  Those that need not be given as many steps may run out of them at
different times: the first one `early`, or the second one, while the first one comes `late`. -/
inductive AgreedEnd (R : Layout → α → β → Prop) (w : Layout) :
    EStateM.Result Interrupt Session α → EStateM.Result Interrupt Session β → Prop where
  | ok : w.Later w' → Session.Thins w' s s' → R w' a b → AgreedEnd R w (.ok a s) (.ok b s')
  | error : w.Later w' → Session.Thins w' s s' → Interrupt.Thins w' i i' →
      AgreedEnd R w (.error i s) (.error i' s')
  | early : early → AgreedEnd R w (.error .outOfFuel s) r
  | late : late → AgreedEnd R w r (.error .outOfFuel s)

def Agree (R : Layout → α → β → Prop) (w : Layout) (x : Eval α) (y : Eval β) : Prop :=
  ∀ s s', Session.Thins w s s' → AgreedEnd early late R w (x s) (y s')

end

section

variable {early late : Prop} {α β γ δ : Type} {w : Layout} {R : Layout → α → β → Prop}
  {S : Layout → γ → δ → Prop}

theorem AgreedEnd.mono {w₀ : Layout} (hw : w₀.Later w) {r : EStateM.Result Interrupt Session α}
    {r' : EStateM.Result Interrupt Session β} (h : AgreedEnd early late R w r r') :
    AgreedEnd early late R w₀ r r' := by
  cases h with
  | ok hw' hs hR => exact .ok (hw.trans hw') hs hR
  | error hw' hs hi => exact .error (hw.trans hw') hs hi
  | early h => exact .early h
  | late h => exact .late h

theorem AgreedEnd.bind {x : Eval α} {y : Eval β} {f : α → Eval γ} {g : β → Eval δ} {s s' : Session}
    (hend : AgreedEnd early late R w (x s) (y s'))
    (hf : ∀ w' a b, w ≤ w' → R w' a b → Agree early late S w' (f a) (g b)) :
    AgreedEnd early late S w ((x >>= f) s) ((y >>= g) s') := by
  rw [eval_bind_apply, eval_bind_apply]
  generalize x s = r at hend
  generalize y s' = r' at hend
  cases hend with
  | ok hw hs hR => exact (hf _ _ _ hw.le hR _ _ hs).mono hw
  | error hw hs hi => exact .error hw hs hi
  | early h => exact .early h
  | late h => exact .late h

theorem Agree.bind {x : Eval α} {y : Eval β} {f : α → Eval γ} {g : β → Eval δ}
    (hx : Agree early late R w x y)
    (hf : ∀ w' a b, w ≤ w' → R w' a b → Agree early late S w' (f a) (g b)) :
    Agree early late S w (x >>= f) (y >>= g) :=
  fun s s' hs => (hx s s' hs).bind hf

theorem Agree.pure {a : α} {b : β} (h : R w a b) : Agree early late R w (pure a) (pure b) :=
  fun _ _ hs => .ok w.later_refl hs h

theorem Agree.imp {R' : Layout → α → β → Prop} {x : Eval α} {y : Eval β}
    (h : Agree early late R w x y) (hR : ∀ {w' a b}, w ≤ w' → R w' a b → R' w' a b) :
    Agree early late R' w x y := by
  intro s s' hs
  have hend := h s s' hs
  generalize x s = r at hend ⊢
  generalize y s' = r' at hend ⊢
  cases hend with
  | ok hw hs hab => exact .ok hw hs (hR hw.le hab)
  | error hw hs hi => exact .error hw hs hi
  | early h => exact .early h
  | late h => exact .late h

theorem Agree.throw {i : Interrupt} :
    Agree early late R w (throw i : Eval α) (throw i : Eval β) :=
  fun _ _ hs => .error w.later_refl hs .same

theorem Agree.fault {t : Token} {f : Fault} :
    Agree early late R w (Eval.fault t f) (Eval.fault t f) :=
  .throw

theorem Agree.stuck {cause : Stuck} : Agree early late R w (Eval.stuck cause) (Eval.stuck cause) :=
  .throw

theorem Agree.hostError {e : HostError} :
    Agree early late R w (Eval.hostError e) (Eval.hostError e) :=
  .throw

/-- Attempts of steps that agree agree. -/
theorem Agree.attempt {P : Layout → α → β → Prop} {x : Eval α} {y : Eval β}
    (h : Agree early late P w x y) :
    Agree early late (fun w' => Attempted w'.view.errors (P w')) w (Eval.attempt x)
      (Eval.attempt y) := by
  intro s s' hs
  have hend := h s s' hs
  unfold Eval.attempt
  generalize x s = r at hend ⊢
  generalize y s' = r' at hend ⊢
  cases hend with
  | ok hw hs₁ hab => exact .ok hw hs₁ (.ok hab)
  | @error _ _ _ i i' hw hs₁ hi =>
      cases hi with
      | same =>
          cases i with
          | fault e => exact .ok hw hs₁ (.fault rfl)
          | host e => exact .ok hw hs₁ .host
          | _ => exact .error hw hs₁ .same
      | stray hv => exact .error hw hs₁ (.stray hv)
  | early h => exact .early h
  | late h => exact .late h

theorem Agree.map {f : α → γ} {g : β → δ} {x : Eval α} {y : Eval β} (h : Agree early late R w x y)
    (hf : ∀ {w' a b}, R w' a b → S w' (f a) (g b)) :
    Agree early late S w (f <$> x) (g <$> y) := by
  rw [map_eq_pure_bind, map_eq_pure_bind]
  exact h.bind fun _ _ _ _ hab => .pure (hf hab)

theorem Agree.modify {f g : Session → Session} {R : Layout → Unit → Unit → Prop}
    (h : ∀ s s', Session.Thins w s s' →
      ∃ w', w.Later w' ∧ Session.Thins w' (f s) (g s') ∧ R w' () ()) :
    Agree early late R w (modify f : Eval Unit) (modify g : Eval Unit) := by
  intro s s' hs
  obtain ⟨w', hw, hs', hR⟩ := h s s' hs
  exact .ok hw hs' hR

theorem Agree.modifyGet {f : Session → α × Session} {g : Session → β × Session}
    (h : ∀ s s', Session.Thins w s s' →
      ∃ w', w.Later w' ∧ Session.Thins w' (f s).2 (g s').2 ∧ R w' (f s).1 (g s').1) :
    Agree early late R w (modifyGet f : Eval α) (modifyGet g : Eval β) := by
  intro s s' hs
  obtain ⟨w', hw, hs', hR⟩ := h s s' hs
  exact .ok hw hs' hR

end

end Lox
