import Lox.Proofs.Links.Chain
import Lox.Proofs.Soundness.Exact
import Lox.Proofs.Thinning.State

/-!
# Sessions and their links

A session is linked as some links say if all values in it were made with these links.  A step builds on
links if it adds to them what it makes, so that the session that it leaves is linked again.
-/

namespace Lox

/-! ## Values -/

/-- A function that was made with these links. -/
def Closure.Linked (L : Links) (f : Closure) : Prop :=
  L.objects[f.id]? = some (.function f)

def Value.Linked (L : Links) : Value → Prop
  | .native id arity => L.natives[id]? = some arity
  | .closure f => f.Linked L
  | .classObject cls => cls.Linked L
  | .object _ cls => cls.Linked L
  | _ => True

def ValuesLinked (L : Links) (vs : List Value) : Prop :=
  ∀ v ∈ vs, v.Linked L

section

variable {L L' : Links}

theorem Closure.Linked.mono (hL : L ≤ L') {f : Closure} (h : f.Linked L) : f.Linked L' :=
  Links.objects_mono hL h

theorem Class.Linked.mono (hL : L ≤ L') {cls : Class} (h : cls.Linked L) : cls.Linked L' :=
  Links.objects_mono hL h

theorem Value.Linked.mono (hL : L ≤ L') {v : Value} (h : v.Linked L) : v.Linked L' := by
  cases v with
  | native id arity => exact Links.natives_mono hL h
  | closure f => exact Closure.Linked.mono hL h
  | classObject cls => exact Class.Linked.mono hL h
  | object id cls => exact Class.Linked.mono hL h
  | _ => trivial

theorem ValuesLinked.mono (hL : L ≤ L') {vs : List Value} (h : ValuesLinked L vs) :
    ValuesLinked L' vs :=
  fun v hv => (h v hv).mono hL

theorem ValuesLinked.nil : ValuesLinked L [] :=
  List.forall_mem_nil _

theorem ValuesLinked.cons {v : Value} {vs : List Value} (hv : v.Linked L) (hvs : ValuesLinked L vs) :
    ValuesLinked L (v :: vs) :=
  List.forall_mem_cons.mpr ⟨hv, hvs⟩

theorem Value.isBasic_linked {v : Value} (h : v.isBasic) : v.Linked L := by
  cases v with
  | nil | bool _ | number _ | string _ => trivial
  | _ => cases h

theorem Value.linked_ofLiteral (literal : Literal) : (Value.ofLiteral literal).Linked L := by
  cases literal <;> trivial

theorem Class.Linked.findMethod? (hL : L.WellFounded) {cls : Class} (h : cls.Linked L)
    {name : String} {method : Closure} (hmethod : cls.findMethod? name = some method) :
    method.Linked L := by
  obtain ⟨home, hinherits, hmem⟩ := Class.home_of_findMethod? hmethod
  clear hmethod
  induction hinherits with
  | self => exact hL.methods h _ hmem
  | base _ ih => exact ih ((hL.superclass h).2 _ rfl).2

/-! ## Host functions -/

/-- What looks the same to a host that only uses values that were made with these links: such a value and
itself. -/
def Links.view (L : Links) : View where
  values := Shared (Value.Linked L)
  errors e e' := e' = e

/-- An action of the host that only uses values that were made with these links. -/
def HostAction.Linked (L : Links) (action : HostAction) : Prop :=
  HostAction.Follows (.honest False) L.view action action

def HostObject.Linked (L : Links) (o : HostObject) : Prop :=
  HostObject.Follows (.honest False) L.view o o

def ObjectsLinked (L : Links) (os : List HostObject) : Prop :=
  ObjectsFollow (.honest False) L.view os os

def Step.Linked (L : Links) (step : Step) : Prop :=
  Step.Corresponds (.honest False) L.view step step

def FormsLinked (L : Links) (fs : List HostForm) : Prop :=
  ∀ f ∈ fs, f.value.Linked L

theorem HostRules.view_linked (L : Links) : (HostRules.honest False).view L.view :=
  ⟨fun _ _ h => h.1, fun _ h => ⟨rfl, .inr h⟩, fun h => h, fun _ => rfl⟩

theorem Links.view_mono (hL : L ≤ L') : L.view ≤ L'.view :=
  ⟨fun hv => ⟨hv.1, hv.2.imp_left (·.mono hL)⟩, fun he => he⟩

theorem Shared.linked {v v' : Value} (h : Shared (Value.Linked L) v v') : v.Linked L := by
  obtain ⟨rfl, h | h⟩ := h
  · exact h
  · exact Value.isBasic_linked h

theorem Value.Linked.shared {v : Value} (h : v.Linked L) : Shared (Value.Linked L) v v :=
  ⟨rfl, .inl h⟩

theorem ObjectsLinked.mono (hL : L ≤ L') {os : List HostObject} (h : ObjectsLinked L os) :
    ObjectsLinked L' os :=
  ObjectsFollow.mono (Links.view_mono hL) h

theorem HostAction.Linked.mono (hL : L ≤ L') {action : HostAction} (h : action.Linked L) :
    action.Linked L' :=
  HostAction.Follows.mono (Links.view_mono hL) h

theorem HostForm.related_linked : ∀ {f : HostForm}, f.value.Linked L →
    HostForm.Related (Shared (Value.Linked L)) f f
  | .plain _, h => .plain h.shared
  | .wrapper _, h => .wrapper h.shared

theorem FormsLinked.related {fs : List HostForm} (h : FormsLinked L fs) :
    List.Forall₂ (HostForm.Related (Shared (Value.Linked L))) fs fs :=
  List.forall₂_same.mpr fun f hf => HostForm.related_linked (h f hf)

theorem FormsLinked.of_related {fs fs' : List HostForm}
    (h : List.Forall₂ (HostForm.Related (Shared (Value.Linked L))) fs fs') : FormsLinked L fs := by
  induction h with
  | nil => exact List.forall_mem_nil _
  | cons hf _ ih => exact List.forall_mem_cons.mpr ⟨hf.value.linked, ih⟩

theorem FormsLinked.ofValues {vs : List Value} (h : ValuesLinked L vs) :
    FormsLinked L (vs.map .ofValue) := by
  intro f hf
  obtain ⟨v, hv, rfl⟩ := List.mem_map.mp hf
  rw [HostForm.value_ofValue]
  exact h v hv

theorem FormsLinked.mono (hL : L ≤ L') {fs : List HostForm} (h : FormsLinked L fs) :
    FormsLinked L' fs :=
  fun f hf => (h f hf).mono hL

/-- What a native does with forms of arguments that were made with later links. -/
def HostBodyLinked (L : Links) (arity : Nat) (body : List HostForm → HostAction) : Prop :=
  ∀ L', L ≤ L' → ∀ fs : List HostForm, fs.length = arity → FormsLinked L' fs →
    (body fs).Linked L'

theorem HostBodyLinked.mono (hL : L ≤ L') {arity : Nat} {body : List HostForm → HostAction}
    (h : HostBodyLinked L arity body) : HostBodyLinked L' arity body :=
  fun L'' hL' => h L'' (Links.le_trans hL hL')

theorem HostObject.Linked.body {arity : Nat} {body : List HostForm → HostAction}
    (h : (HostObject.function arity body).Linked L) : HostBodyLinked L arity body := by
  intro L' hL fs hlength hfs
  cases h with
  | function hbody =>
      exact hbody _ (HostRules.view_linked L') (Links.view_mono hL) fs fs hlength hfs.related

end

/-! ## Sessions -/

/-- A session that holds no values but those that were made with these links. -/
structure Session.Holds (L : Links) (s : Session) : Prop where
  bindings : ∀ {f x v}, (x, v) ∈ s.frames.bindings f → v.Linked L
  fields : ∀ {i x v}, (x, v) ∈ s.fields.getD i [] → v.Linked L
  hosts : ∀ {i : NativeId} {body}, s.natives[i]? = some (.host body) →
    ∃ arity, L.natives[i]? = some arity ∧ HostBodyLinked L arity body
  memory : FormsLinked L s.memory

/-- A session with the links of everything that was made in it. -/
structure Session.Linked (L : Links) (s : Session) : Prop where
  wellFounded : L.WellFounded
  holds : s.Holds L
  frames : s.frames.frames.size = L.enclosing.length
  objects : s.nextObject = L.objects.length
  natives : s.natives.size = L.natives.length

theorem Session.Holds.mono {L L' : Links} (hL : L ≤ L') {s : Session} (h : s.Holds L) :
    s.Holds L' where
  bindings hmem := (h.bindings hmem).mono hL
  fields hmem := (h.fields hmem).mono hL
  hosts hi := by
    obtain ⟨arity, harity, hbody⟩ := h.hosts hi
    exact ⟨arity, Links.natives_mono hL harity, hbody.mono hL⟩
  memory := h.memory.mono hL

theorem Session.Linked.congr {L : Links} {s s' : Session} (h : s.Linked L)
    (hframes : s'.frames = s.frames) (hfields : s'.fields = s.fields)
    (hobjects : s'.nextObject = s.nextObject) (hnatives : s'.natives = s.natives)
    (hmemory : s'.memory = s.memory) : s'.Linked L := by
  refine ⟨h.wellFounded, ⟨?_, ?_, ?_, ?_⟩, hframes ▸ h.frames, hobjects ▸ h.objects,
    hnatives ▸ h.natives⟩
  · rw [hframes]
    exact h.holds.bindings
  · rw [hfields]
    exact h.holds.fields
  · rw [hnatives]
    exact h.holds.hosts
  · rw [hmemory]
    exact h.holds.memory

/-! ## Steps -/

section

variable {α β : Type}

/-- The end of a step that leaves a session linked. -/
def EndsLinked (P : Links → α → Prop) (L : Links) : EStateM.Result Interrupt Session α → Prop
  | .ok a s => s.Linked L ∧ P L a
  | .error _ s => s.Linked L

/-- A step that adds links to those that there are, and gives something that was made with them. -/
def Builds (P : Links → α → Prop) (L : Links) (x : Eval α) : Prop :=
  ∀ s : Session, s.Linked L → ∃ L', L ≤ L' ∧ EndsLinked P L' (x s)

theorem EndsLinked.bind {P : Links → α → Prop} {Q : Links → β → Prop} {L : Links} {x : Eval α}
    {f : α → Eval β} {s : Session} (hx : EndsLinked P L (x s)) (hf : ∀ {a}, P L a → Builds Q L (f a)) :
    ∃ L', L ≤ L' ∧ EndsLinked Q L' ((x >>= f) s) := by
  rw [eval_bind_apply]
  generalize x s = r at hx ⊢
  cases r with
  | ok a s₁ => exact hf hx.2 s₁ hx.1
  | error i s₁ => exact ⟨L, Links.le_refl L, hx⟩

/-- What a step comes to is gone on with in a linked session, be it an error. -/
theorem EndsLinked.attempt {P : Links → α → Prop} {L : Links} {x : Eval α} {s : Session}
    (hx : EndsLinked P L (x s)) :
    EndsLinked (fun L r => ∀ a, r = .ok a → P L a) L (Eval.attempt x s) := by
  unfold Eval.attempt
  generalize x s = r at hx ⊢
  cases r with
  | ok a s₁ =>
      refine ⟨hx.1, fun b hb => ?_⟩
      cases hb
      exact hx.2
  | error i s₁ =>
      cases i with
      | fault e => exact ⟨hx, nofun⟩
      | host e => exact ⟨hx, nofun⟩
      | _ => exact hx

namespace Builds

variable {P P' : Links → α → Prop} {Q : Links → β → Prop} {L : Links} {x : Eval α} {f : α → Eval β}

theorem bind (hx : Builds P L x) (hf : ∀ {L' a}, L ≤ L' → P L' a → Builds Q L' (f a)) :
    Builds Q L (x >>= f) := by
  intro s hs
  obtain ⟨L₁, hL₁, hend⟩ := hx s hs
  obtain ⟨L₂, hL₂, hend⟩ := hend.bind fun ha => hf hL₁ ha
  exact ⟨L₂, Links.le_trans hL₁ hL₂, hend⟩

theorem pure {a : α} (h : P L a) : Builds P L (pure a) :=
  fun _ hs => ⟨L, Links.le_refl L, hs, h⟩

theorem throw (i : Interrupt) : Builds P L (throw i : Eval α) :=
  fun _ hs => ⟨L, Links.le_refl L, hs⟩

theorem imp (hx : Builds P L x) (h : ∀ {L' a}, L ≤ L' → P L' a → P' L' a) : Builds P' L x := by
  intro s hs
  obtain ⟨L', hL, hend⟩ := hx s hs
  refine ⟨L', hL, ?_⟩
  generalize x s = r at hend ⊢
  cases r with
  | ok a s₁ => exact ⟨hend.1, h hL hend.2⟩
  | error i s₁ => exact hend

theorem attempt (hx : Builds P L x) :
    Builds (fun L r => ∀ a, r = .ok a → P L a) L (Eval.attempt x) := by
  intro s hs
  obtain ⟨L', hL, hend⟩ := hx s hs
  exact ⟨L', hL, hend.attempt⟩

theorem map {g : α → β} (hx : Builds P L x) (h : ∀ {L' a}, L ≤ L' → P L' a → Q L' (g a)) :
    Builds Q L (g <$> x) := by
  rw [map_eq_pure_bind]
  exact hx.bind fun hL ha => .pure (h hL ha)

theorem get_bind {f : Session → Eval β} (h : ∀ {s}, s.Linked L → Builds Q L (f s)) :
    Builds Q L (get >>= f) :=
  fun s hs => h hs s hs

/-- A step may rely on it that the links lead to what was made before. -/
theorem of_wellFounded (h : L.WellFounded → Builds P L x) : Builds P L x :=
  fun s hs => h hs.wellFounded s hs

theorem modifyGet {f : Session → α × Session}
    (h : ∀ {s}, s.Linked L → ∃ L', L ≤ L' ∧ (f s).2.Linked L' ∧ P L' (f s).1) :
    Builds P L (modifyGet f : Eval α) :=
  fun _ hs => h hs

theorem modify {f : Session → Session} {P : Links → Unit → Prop}
    (h : ∀ {s}, s.Linked L → (f s).Linked L) (hP : P L ()) : Builds P L (modify f : Eval Unit) :=
  fun _ hs => ⟨L, Links.le_refl L, h hs, hP⟩

end Builds

end

end Lox
