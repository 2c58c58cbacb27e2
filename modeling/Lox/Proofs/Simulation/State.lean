import Lox.Proofs.Simulation.Value

/-!
# Sessions that are alike

Two sessions are alike in a world if they hold values alike in the same places.  Two steps simulate
each other if they take sessions that are alike to sessions that are alike, in a later world, and end
in the same way: none of them ever gets stuck.
-/

namespace Lox

/-! ## Errors -/

/-- A fault that an operator which there is can have. -/
def Fault.Proper : Fault → Prop
  | .unknownUnary _ => False
  | .unknownBinary _ => False
  | _ => True

/-- Errors that differ at most in the token that they are reported at. -/
def RuntimeError.Alike (ℓ : Likeness) (e e' : RuntimeError) : Prop :=
  (∃ own, ℓ.token own e.token e'.token) ∧ e'.fault = e.fault ∧ e.fault.Proper

/-- What looks the same to a host function: whatever is alike. -/
def Likeness.view (ℓ : Likeness) (w : World) : View where
  values := Value.Alike ℓ w
  errors := RuntimeError.Alike ℓ

theorem RuntimeError.alike_self {ℓ : Likeness} {own : Bool} {e : RuntimeError}
    (htoken : ℓ.token own e.token e.token) (h : e.fault.Proper) : RuntimeError.Alike ℓ e e :=
  ⟨⟨own, htoken⟩, rfl, h⟩

theorem Likeness.view_mono {ℓ : Likeness} {w w' : World} (hw : w ≤ w') : ℓ.view w ≤ ℓ.view w' :=
  ⟨fun hv => hv.mono hw, fun he => he⟩

/-! ## Host functions -/

section

variable (ℓ : Likeness)

mutual

/-- What host functions do with what is alike.  They only use values that are. -/
inductive HostAction.Alike : World → HostAction → HostAction → Prop where
  | give : HostObject.Alike w o o' → (ℓ.strict → o.Convertible) →
      HostAction.Alike w (.give o) (.give o')
  | raise : RuntimeError.Alike ℓ e e' → HostAction.Alike w (.raise (.fault e)) (.raise (.fault e'))
  | raiseHost : ¬ ℓ.strict → HostAction.Alike w (.raise (.host e)) (.raise (.host e))
  | ask : ℓ.allowed step → Step.Alike w step step' →
      (∀ w' r r', w ≤ w' → Attempted (ℓ.view w').errors (Answer.Related (ℓ.view w')) r r' →
        (ℓ.strict → step.Orderly → ∀ e, r ≠ .error (.host e)) →
          HostAction.Alike w' (next r) (next' r')) →
      HostAction.Alike w (.ask step next) (.ask step' next')
  | recollect : (∀ w' fs fs', w ≤ w' → List.Forall₂ (HostForm.Related (Value.Alike ℓ w')) fs fs' →
        HostAction.Alike w' (next fs) (next' fs')) →
      HostAction.Alike w (.recollect next) (.recollect next')
  | keep : List.Forall₂ (HostForm.Related (Value.Alike ℓ w)) fs fs' → HostAction.Alike w a a' →
      HostAction.Alike w (.keep fs a) (.keep fs' a')

inductive HostObject.Alike : World → HostObject → HostObject → Prop where
  | form : HostForm.Related (Value.Alike ℓ w) f f' → HostObject.Alike w (.form f) (.form f')
  | integer : HostObject.Alike w (.integer n) (.integer n)
  | foreign : HostObject.Alike w (.foreign sort) (.foreign sort)
  | function : (∀ w' fs fs', w ≤ w' → fs.length = arity →
        List.Forall₂ (HostForm.Related (Value.Alike ℓ w')) fs fs' →
          HostAction.Alike w' (body fs) (body' fs')) →
      HostObject.Alike w (.function arity body) (.function arity body')

inductive ObjectsAlike : World → List HostObject → List HostObject → Prop where
  | nil : ObjectsAlike w [] []
  | cons : HostObject.Alike w o o' → ObjectsAlike w os os' →
      ObjectsAlike w (o :: os) (o' :: os')

inductive Step.Alike : World → Step → Step → Prop where
  | run : Step.Alike w (.run code) (.run code)
  | runOther : Step.Alike w (.runOther sort) (.runOther sort)
  | execute : Step.Alike w (.execute code) (.execute code)
  | evaluate : Step.Alike w (.evaluate code) (.evaluate code)
  | get : Step.Alike w (.get name) (.get name)
  | set : HostObject.Alike w o o' → Step.Alike w (.set name o) (.set name o')
  | call : HostForm.Related (Value.Alike ℓ w) f f' → ObjectsAlike w os os' →
      Step.Alike w (.call f os) (.call f' os')

end

inductive Native.Alike (w : World) (arity : Nat) : Native → Native → Prop where
  | clock : Native.Alike w arity .clock .clock
  | readLine : Native.Alike w arity .readLine .readLine
  | host : (∀ w' fs fs', w ≤ w' → fs.length = arity →
        List.Forall₂ (HostForm.Related (Value.Alike ℓ w')) fs fs' →
          HostAction.Alike ℓ w' (body fs) (body' fs')) →
      Native.Alike w arity (.host body) (.host body')

end

section

variable {ℓ : Likeness} {w w' : World}

theorem HostForm.Related.mono (hw : w ≤ w') {f f' : HostForm}
    (h : HostForm.Related (Value.Alike ℓ w) f f') : HostForm.Related (Value.Alike ℓ w') f f' :=
  h.imp fun hv => hv.mono hw

theorem formsAlike_mono (hw : w ≤ w') {fs fs' : List HostForm}
    (h : List.Forall₂ (HostForm.Related (Value.Alike ℓ w)) fs fs') :
    List.Forall₂ (HostForm.Related (Value.Alike ℓ w')) fs fs' :=
  h.imp fun _ _ hf => hf.mono hw

/-- The host gets forms that look the same for values alike. -/
theorem formsAlike_ofValues {vs vs' : List Value} (h : List.Forall₂ (Value.Alike ℓ w) vs vs') :
    List.Forall₂ (HostForm.Related (Value.Alike ℓ w)) (vs.map .ofValue) (vs'.map .ofValue) := by
  rw [List.forall₂_map_left_iff, List.forall₂_map_right_iff]
  exact h.imp fun _ _ hv => HostForm.related_ofValue hv hv.arity?_eq

theorem HostAction.alike_body {arity : Nat} {body body' : List HostForm → HostAction}
    (hbody : ∀ w' fs fs', w ≤ w' → fs.length = arity →
      List.Forall₂ (HostForm.Related (Value.Alike ℓ w')) fs fs' →
        HostAction.Alike ℓ w' (body fs) (body' fs'))
    {vs vs' : List Value} (hlength : vs.length = arity) (hvs : List.Forall₂ (Value.Alike ℓ w) vs vs') :
    HostAction.Alike ℓ w (body (vs.map .ofValue)) (body' (vs'.map .ofValue)) :=
  hbody w _ _ (World.le_refl w) (by rw [List.length_map, hlength]) (formsAlike_ofValues hvs)

theorem HostObject.Alike.mono (hw : w ≤ w') {o o' : HostObject} (h : HostObject.Alike ℓ w o o') :
    HostObject.Alike ℓ w' o o' := by
  cases h with
  | form hf => exact .form (hf.mono hw)
  | integer => exact .integer
  | foreign => exact .foreign
  | function hbody =>
      exact .function fun w'' fs fs' hw' => hbody w'' fs fs' (World.le_trans hw hw')

theorem ObjectsAlike.mono (hw : w ≤ w') : ∀ {os os' : List HostObject},
    ObjectsAlike ℓ w os os' → ObjectsAlike ℓ w' os os'
  | _, _, .nil => .nil
  | _, _, .cons ho hos => .cons (ho.mono hw) (hos.mono hw)

theorem ObjectsAlike.length_eq : ∀ {os os' : List HostObject},
    ObjectsAlike ℓ w os os' → os'.length = os.length
  | _, _, .nil => rfl
  | _, _, .cons _ hos => congrArg (· + 1) hos.length_eq

theorem Native.Alike.mono (hw : w ≤ w') {arity : Nat} {n n' : Native}
    (h : Native.Alike ℓ w arity n n') : Native.Alike ℓ w' arity n n' := by
  cases h with
  | clock => exact .clock
  | readLine => exact .readLine
  | host hbody => exact .host fun w'' fs fs' hw' => hbody w'' fs fs' (World.le_trans hw hw')

end

/-! ## Sessions -/

section

variable (ℓ : Likeness) (w : World)

/-- Frames alike, which bind what the world knows that they bind. -/
structure Frames.Alike (fs fs' : Frames Value) : Prop where
  size : fs.frames.size = w.frames
  size' : fs'.frames.size = w.frames
  bindings : ∀ f, Bindings.Alike (Value.Alike ℓ w) (w.rename f) (fs.bindings f) (fs'.bindings f)
  declared : ∀ {f x}, w.declared f x → (fs.bindings f).binds x = true
  renames : ∀ f, ℓ.renames (w.rename f)
  globals : 0 < w.frames
  rename_globals : w.rename Session.globalFrame = fun x => x
  fixed : ∀ {f fixture}, w.fixture f = some fixture → fs.bindings f = fixture.bindings
  fixed_lt : ∀ {f fixture}, w.fixture f = some fixture → f < w.frames
  free_globals : w.fixture Session.globalFrame = none
  free : ∀ {f}, w.fixture f = none → f ≠ Session.globalFrame → (fs.bindings f).binds "this" = false

structure FieldsAlike (fields fields' : Array (Bindings Value)) : Prop where
  size : fields'.size = fields.size
  bindings : ∀ i, Bindings.Alike (Value.Alike ℓ w) (fun x => x) (fields.getD i [])
    (fields'.getD i [])

structure NativesAlike (natives natives' : Array Native) : Prop where
  size : natives.size = w.natives.length
  size' : natives'.size = w.natives.length
  alike : ∀ {i : NativeId} {arity}, w.natives[i]? = some arity → ∃ n n', natives[i]? = some n ∧
    natives'[i]? = some n' ∧ Native.Alike ℓ w arity n n'

/-- The distances of all code are known under the numbers of its references, and nothing is known of
references yet to come. -/
structure Recorded (number : Code → NodeId → NodeId) (hops : Hops) (nextNode : NodeId) : Prop where
  table : ∀ {code}, w.code code → ∀ {id}, id ∈ code.part.ids →
    hops.find? (number code id) = code.table id
  below : ∀ {code}, w.code code → ∀ {id}, id ∈ code.part.ids → number code id < nextNode
  fresh : ∀ {id}, nextNode ≤ id → hops.find? id = none

structure Session.Alike (s s' : Session) : Prop where
  frames : Frames.Alike ℓ w s.frames s'.frames
  fields : FieldsAlike ℓ w s.fields s'.fields
  natives : NativesAlike ℓ w s.natives s'.natives
  genuine : ∀ {code}, w.code code → ℓ.genuine code.own code.part
  recorded : Recorded w (fun _ id => id) s.hops s.nextNode
  recorded' : Recorded w Code.renumber s'.hops s'.nextNode
  nextNode : ℓ.reentry → s.nextNode = s'.nextNode + w.pace.gap
  number : ℓ.reentry → ∀ id, ℓ.number (id + w.pace.gap) id
  nextObject : s'.nextObject = s.nextObject
  depth : s'.depth = s.depth
  limits : s'.limits = s.limits
  limited : ℓ.strict → s.limits.calls ≠ .blank
  output : s'.output = w.pace.ahead ++ s.output
  written : s'.written = s.written
  input : s'.input = s.input
  readings : s'.readings = s.readings
  ticks : s'.ticks = s.ticks
  memory : List.Forall₂ (HostForm.Related (Value.Alike ℓ w)) s.memory s'.memory
  staticError : w.pace.stale = false → s'.hadStaticError = s.hadStaticError
  runtimeError : w.pace.stale = false → s'.hadRuntimeError = s.hadRuntimeError

end

section

variable {ℓ : Likeness} {w w' : World}

theorem FieldsAlike.mono (hw : w ≤ w') {fields fields' : Array (Bindings Value)}
    (h : FieldsAlike ℓ w fields fields') : FieldsAlike ℓ w' fields fields' :=
  ⟨h.size, fun i => (h.bindings i).imp fun hv => hv.mono hw⟩

theorem NativesAlike.mono (hw : w ≤ w') (hsame : w'.natives = w.natives)
    {natives natives' : Array Native} (h : NativesAlike ℓ w natives natives') :
    NativesAlike ℓ w' natives natives' := by
  refine ⟨hsame ▸ h.size, hsame ▸ h.size', fun {i arity} hi => ?_⟩
  obtain ⟨n, n', hn, hn', halike⟩ := h.alike (hsame ▸ hi)
  exact ⟨n, n', hn, hn', halike.mono hw⟩

theorem Recorded.same (hsame : w'.code = w.code) {number : Code → NodeId → NodeId} {hops : Hops}
    {nextNode : NodeId} (h : Recorded w number hops nextNode) : Recorded w' number hops nextNode :=
  ⟨fun hcode => h.table (hsame ▸ hcode), fun hcode => h.below (hsame ▸ hcode), h.fresh⟩

theorem Recorded.later {number : Code → NodeId → NodeId} {hops : Hops} {nextNode nextId : NodeId}
    (h : Recorded w number hops nextNode) (hle : nextNode ≤ nextId) :
    Recorded w number hops nextId where
  table := h.table
  below hcode _ hid := Nat.lt_of_lt_of_le (h.below hcode hid) hle
  fresh hid := h.fresh (Nat.le_trans hle hid)

end

/-! ## Outcomes -/

section

variable (ℓ : Likeness) (lockstep : Prop) {α β : Type}

/-- Ends of two steps alike.  If the steps need not be taken at the same time, the first one may
have run out of fuel before the second one. -/
inductive Outcome (R : World → α → β → Prop) (w : World) :
    EStateM.Result Interrupt Session α → EStateM.Result Interrupt Session β → Prop where
  | ok : World.Later ℓ w w' → Session.Alike ℓ w' s s' → R w' a b → Outcome R w (.ok a s) (.ok b s')
  | fault : World.Later ℓ w w' → Session.Alike ℓ w' s s' → ℓ.token own t t' → f.Proper →
      Outcome R w (.error (.fault ⟨t, f⟩) s) (.error (.fault ⟨t', f⟩) s')
  | host : World.Later ℓ w w' → Session.Alike ℓ w' s s' → ¬ ℓ.strict →
      Outcome R w (.error (.host e) s) (.error (.host e) s')
  | outOfFuel : World.Later ℓ w w' → Session.Alike ℓ w' s s' →
      Outcome R w (.error .outOfFuel s) (.error .outOfFuel s')
  | slack : ¬ lockstep → Outcome R w (.error .outOfFuel s) r

def Simulates (R : World → α → β → Prop) (w : World) (x : Eval α) (y : Eval β) : Prop :=
  ∀ s s', Session.Alike ℓ w s s' → Outcome ℓ lockstep R w (x s) (y s')

end

section

variable {ℓ : Likeness} {lockstep : Prop} {α β γ δ : Type} {R : World → α → β → Prop}
  {S : World → γ → δ → Prop} {w w' : World}

theorem Outcome.mono {r : EStateM.Result Interrupt Session α}
    {r' : EStateM.Result Interrupt Session β} (hw : World.Later ℓ w w')
    (h : Outcome ℓ lockstep R w' r r') : Outcome ℓ lockstep R w r r' := by
  cases h with
  | ok hw' hs hR => exact .ok (hw.trans hw') hs hR
  | fault hw' hs ht hf => exact .fault (hw.trans hw') hs ht hf
  | host hw' hs hstrict => exact .host (hw.trans hw') hs hstrict
  | outOfFuel hw' hs => exact .outOfFuel (hw.trans hw') hs
  | slack hslack => exact .slack hslack

theorem eval_bind_apply (x : Eval α) (f : α → Eval γ) (s : Session) :
    (x >>= f) s =
      match x s with
      | .ok a s' => f a s'
      | .error i s' => .error i s' := by
  simp only [bind, EStateM.bind]
  cases x s <;> rfl

theorem eval_bind_ok {x : Eval α} {f : α → Eval γ} {s s₁ : Session} {a : α} (h : x s = .ok a s₁) :
    (x >>= f) s = f a s₁ := by
  rw [eval_bind_apply, h]

theorem eval_bind_inv {x : Eval α} {f : α → Eval γ} {b : γ} {s s₂ : Session}
    (h : (x >>= f) s = .ok b s₂) : ∃ a s₁, x s = .ok a s₁ ∧ f a s₁ = .ok b s₂ := by
  rw [eval_bind_apply] at h
  cases hx : x s with
  | ok a s₁ =>
      rw [hx] at h
      exact ⟨a, s₁, rfl, h⟩
  | error i s₁ =>
      rw [hx] at h
      cases h

theorem eval_get_bind_apply (f : Session → Eval α) (s : Session) : (get >>= f) s = f s s := rfl

theorem eval_modify_bind_apply (f : Session → Session) (g : Unit → Eval α) (s : Session) :
    (modify f >>= g) s = g () (f s) := rfl

theorem Outcome.bind_later {x : Eval α} {y : Eval β} {f : α → Eval γ} {g : β → Eval δ}
    {s s' : Session} (hout : Outcome ℓ lockstep R w (x s) (y s'))
    (hf : ∀ w' a b, World.Later ℓ w w' → R w' a b → Simulates ℓ lockstep S w' (f a) (g b)) :
    Outcome ℓ lockstep S w ((x >>= f) s) ((y >>= g) s') := by
  rw [eval_bind_apply, eval_bind_apply]
  generalize x s = r at hout
  generalize y s' = r' at hout
  cases hout with
  | ok hw hs hR => exact (hf _ _ _ hw hR _ _ hs).mono hw
  | fault hw hs ht hf => exact .fault hw hs ht hf
  | host hw hs hstrict => exact .host hw hs hstrict
  | outOfFuel hw hs => exact .outOfFuel hw hs
  | slack hslack => exact .slack hslack

theorem Outcome.bind {x : Eval α} {y : Eval β} {f : α → Eval γ} {g : β → Eval δ} {s s' : Session}
    (hout : Outcome ℓ lockstep R w (x s) (y s'))
    (hf : ∀ w' a b, w ≤ w' → R w' a b → Simulates ℓ lockstep S w' (f a) (g b)) :
    Outcome ℓ lockstep S w ((x >>= f) s) ((y >>= g) s') :=
  hout.bind_later fun w' a b hw => hf w' a b hw.le

theorem Simulates.bind {x : Eval α} {y : Eval β} {f : α → Eval γ} {g : β → Eval δ}
    (hx : Simulates ℓ lockstep R w x y)
    (hf : ∀ w' a b, w ≤ w' → R w' a b → Simulates ℓ lockstep S w' (f a) (g b)) :
    Simulates ℓ lockstep S w (x >>= f) (y >>= g) :=
  fun s s' hs => (hx s s' hs).bind hf

theorem Simulates.pure {a : α} {b : β} (h : R w a b) :
    Simulates ℓ lockstep R w (pure a) (pure b) :=
  fun _ _ hs => .ok (World.later_refl w) hs h

theorem Simulates.imp {R' : World → α → β → Prop} {x : Eval α} {y : Eval β}
    (h : Simulates ℓ lockstep R w x y) (hR : ∀ {w' a b}, w ≤ w' → R w' a b → R' w' a b) :
    Simulates ℓ lockstep R' w x y := by
  intro s s' hs
  have hout := h s s' hs
  generalize x s = r at hout ⊢
  generalize y s' = r' at hout ⊢
  cases hout with
  | ok hw hs hab => exact .ok hw hs (hR hw.le hab)
  | fault hw hs ht hf => exact .fault hw hs ht hf
  | host hw hs hstrict => exact .host hw hs hstrict
  | outOfFuel hw hs => exact .outOfFuel hw hs
  | slack hslack => exact .slack hslack

theorem Simulates.of_alike {x : Eval α} {y : Eval β}
    (h : ∀ s s', Session.Alike ℓ w s s' → Simulates ℓ lockstep R w x y) :
    Simulates ℓ lockstep R w x y :=
  fun s s' hs => h s s' hs s s' hs

theorem simulates_fault {own : Bool} {t t' : Token} {f : Fault} (ht : ℓ.token own t t')
    (hf : f.Proper) : Simulates ℓ lockstep R w (Eval.fault t f) (Eval.fault t' f) :=
  fun _ _ hs => .fault (World.later_refl w) hs ht hf

theorem simulates_hostError {e : HostError} (hstrict : ¬ ℓ.strict) :
    Simulates ℓ lockstep R w (Eval.hostError e) (Eval.hostError e) :=
  fun _ _ hs => .host (World.later_refl w) hs hstrict

theorem simulates_modify {f g : Session → Session} {R : World → Unit → Unit → Prop}
    (h : ∀ s s', Session.Alike ℓ w s s' →
      ∃ w', World.Later ℓ w w' ∧ Session.Alike ℓ w' (f s) (g s') ∧ R w' () ()) :
    Simulates ℓ lockstep R w (modify f : Eval Unit) (modify g : Eval Unit) := by
  intro s s' hs
  obtain ⟨w', hw, hs', hR⟩ := h s s' hs
  exact .ok hw hs' hR

theorem simulates_modifyGet {f : Session → α × Session} {g : Session → β × Session}
    (h : ∀ s s', Session.Alike ℓ w s s' →
      ∃ w', World.Later ℓ w w' ∧ Session.Alike ℓ w' (f s).2 (g s').2 ∧ R w' (f s).1 (g s').1) :
    Simulates ℓ lockstep R w (modifyGet f : Eval α) (modifyGet g : Eval β) := by
  intro s s' hs
  obtain ⟨w', hw, hs', hR⟩ := h s s' hs
  exact .ok hw hs' hR

end

/-! ## Attempts -/

namespace Eval

variable {α β : Type}

theorem attempt_ok {x : Eval α} {s s' : Session} {a : α} (h : x s = .ok a s') :
    attempt x s = .ok (.ok a) s' := by
  simp only [attempt, h]

theorem attempt_raised {x : Eval α} {s s' : Session} {e : Raised} (h : x s = .error e.interrupt s') :
    attempt x s = .ok (.error e) s' := by
  cases e <;> simp only [attempt, h, Raised.interrupt]

theorem attempt_inv {x : Eval α} {s s' : Session} {r : Except Raised α}
    (h : attempt x s = .ok r s') :
    (∃ a, r = .ok a ∧ x s = .ok a s') ∨ ∃ e, r = .error e ∧ x s = .error e.interrupt s' := by
  unfold attempt at h
  split at h
  · next hx =>
      cases h
      exact .inl ⟨_, rfl, hx⟩
  · next e _ hx =>
      cases h
      exact .inr ⟨.fault e, rfl, hx⟩
  · next e _ hx =>
      cases h
      exact .inr ⟨.host e, rfl, hx⟩
  · cases h

/-- Only what a program never does, and a lack of fuel, are not told. -/
theorem attempt_error {x : Eval α} {s s' : Session} {i : Interrupt}
    (h : attempt x s = .error i s') : x s = .error i s' ∧ ∀ e : Raised, i ≠ e.interrupt := by
  unfold attempt at h
  split at h
  · cases h
  · cases h
  · cases h
  · next hfault hhost hx =>
      cases h
      refine ⟨hx, fun e he => ?_⟩
      cases e with
      | fault e => exact hfault e he
      | host e => exact hhost e he

theorem attempt_hostError (e : HostError) :
    attempt (hostError e : Eval α) = pure (.error (.host e)) :=
  rfl

theorem attempt_bind (x : Eval α) (f : α → Eval β) : attempt (x >>= f) = (do
    match ← attempt x with
    | .ok a => attempt (f a)
    | .error e => pure (.error e)) := by
  funext s
  simp only [attempt, bind, EStateM.bind]
  cases x s with
  | ok a s₁ => rfl
  | error i s₁ => cases i <;> rfl

end Eval

section

variable {ℓ : Likeness} {lockstep : Prop} {α β γ δ : Type} {R : World → α → β → Prop}
  {S : World → γ → δ → Prop} {w : World} {x : Eval α} {y : Eval β}

/-- Attempts of steps alike come to the same.  A host may make mistakes in them. -/
def Tries (ℓ : Likeness) (lockstep : Prop) (R : World → α → β → Prop) (w : World) (x : Eval α)
    (y : Eval β) : Prop :=
  Simulates ℓ lockstep (fun w' => Attempted (RuntimeError.Alike ℓ) (R w')) w (Eval.attempt x)
    (Eval.attempt y)

/-- Of steps alike neither has a mistake of the host, if it must not make any. -/
theorem Outcome.attempt {s s' : Session} (hout : Outcome ℓ lockstep R w (x s) (y s')) :
    Outcome ℓ lockstep (fun w' r r' => Attempted (RuntimeError.Alike ℓ) (R w') r r' ∧
      (ℓ.strict → ∀ e, r ≠ .error (.host e))) w (Eval.attempt x s) (Eval.attempt y s') := by
  unfold Eval.attempt
  generalize x s = r at hout ⊢
  generalize y s' = r' at hout ⊢
  cases hout with
  | ok hw hs hab => exact .ok hw hs ⟨.ok hab, fun _ _ => nofun⟩
  | fault hw hs ht hf => exact .ok hw hs ⟨.fault ⟨⟨_, ht⟩, rfl, hf⟩, fun _ _ => nofun⟩
  | host hw hs hstrict => exact .ok hw hs ⟨.host, fun h => absurd h hstrict⟩
  | outOfFuel hw hs => exact .outOfFuel hw hs
  | slack hslack => exact .slack hslack

theorem Outcome.imp {R' : World → α → β → Prop} {r : EStateM.Result Interrupt Session α}
    {r' : EStateM.Result Interrupt Session β} (hout : Outcome ℓ lockstep R w r r')
    (hR : ∀ {w' a b}, R w' a b → R' w' a b) : Outcome ℓ lockstep R' w r r' := by
  cases hout with
  | ok hw hs hab => exact .ok hw hs (hR hab)
  | fault hw hs ht hf => exact .fault hw hs ht hf
  | host hw hs hstrict => exact .host hw hs hstrict
  | outOfFuel hw hs => exact .outOfFuel hw hs
  | slack hslack => exact .slack hslack

theorem Simulates.tries (h : Simulates ℓ lockstep R w x y) : Tries ℓ lockstep R w x y :=
  fun s s' hs => (h s s' hs).attempt.imp fun h => h.1

theorem tries_hostError {e : HostError} :
    Tries ℓ lockstep R w (Eval.hostError e) (Eval.hostError e) := by
  rw [Tries, Eval.attempt_hostError, Eval.attempt_hostError]
  exact .pure .host

theorem Tries.imp {R' : World → α → β → Prop} (h : Tries ℓ lockstep R w x y)
    (hR : ∀ {w' a b}, R w' a b → R' w' a b) : Tries ℓ lockstep R' w x y := by
  refine Simulates.imp h fun {w' r r'} _ hr => ?_
  cases hr with
  | ok hab => exact .ok (hR hab)
  | fault he => exact .fault he
  | host => exact .host

theorem Tries.bind {f : α → Eval γ} {g : β → Eval δ} (hx : Tries ℓ lockstep R w x y)
    (hf : ∀ w' a b, w ≤ w' → R w' a b → Tries ℓ lockstep S w' (f a) (g b)) :
    Tries ℓ lockstep S w (x >>= f) (y >>= g) := by
  rw [Tries, Eval.attempt_bind, Eval.attempt_bind]
  refine Simulates.bind hx fun w' r r' hw hr => ?_
  cases hr with
  | ok hab => exact hf w' _ _ hw hab
  | fault he => exact .pure (.fault he)
  | host => exact .pure .host

theorem Tries.map {f : α → γ} {g : β → δ} (hx : Tries ℓ lockstep R w x y)
    (hf : ∀ {w' a b}, R w' a b → S w' (f a) (g b)) :
    Tries ℓ lockstep S w (f <$> x) (g <$> y) :=
  hx.bind fun _ _ _ _ hab => (Simulates.pure (hf hab)).tries

end

end Lox
