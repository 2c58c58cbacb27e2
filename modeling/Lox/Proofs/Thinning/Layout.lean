import Lox.Proofs.History.Outward
import Lox.Proofs.Thinning.Scopes

/-!
# Values with frames left out

A layout tells where the frames of a session are in another session that does without some of them.
It only grows: frames, natives and twins are added.  Values are related if they are the same, but for
the code of functions, which is that of a twin, and for their environments, which lack the frames
that are left out.
-/

namespace Lox

/-- Where the frames of a session are in a second one that does without some of them. -/
structure Layout where
  /-- The number of frames. -/
  frames : Nat
  /-- The number of frames of the second session. -/
  frames' : Nat
  /-- The frame that stands for a frame in the second session, unless it is left out. -/
  image : FrameId → Option FrameId
  bounded : ∀ {f g}, image f = some g → f < frames ∧ g < frames'
  injective : ∀ {f f' g}, image f = some g → image f' = some g → f' = f
  globals : image Session.globalFrame = some Session.globalFrame
  /-- How many arguments each native takes. -/
  natives : List Nat
  /-- The code that both sessions know. -/
  knows : Twin → Prop
  /-- Whether no frame is left out. -/
  whole : Prop
  image_whole : whole → ∀ f < frames, image f = some f
  frames_whole : whole → frames' = frames

namespace Layout

/-- A layout that may come after another one. -/
protected structure le (w w' : Layout) : Prop where
  frames : w.frames ≤ w'.frames
  image : ∀ {f}, f < w.frames → w'.image f = w.image f
  natives : w.natives <+: w'.natives
  knows : ∀ {T}, w.knows T → w'.knows T

instance : LE Layout := ⟨Layout.le⟩

variable {w w' w'' : Layout}

theorem le_refl (w : Layout) : w ≤ w :=
  ⟨Nat.le_refl _, fun _ => rfl, List.prefix_refl _, fun h => h⟩

theorem le_trans (h : w ≤ w') (h' : w' ≤ w'') : w ≤ w'' where
  frames := Nat.le_trans h.frames h'.frames
  image hf := (h'.image (Nat.lt_of_lt_of_le hf h.frames)).trans (h.image hf)
  natives := h.natives.trans h'.natives
  knows hT := h'.knows (h.knows hT)

theorem image_mono (hw : w ≤ w') {f g : FrameId} (h : w.image f = some g) :
    w'.image f = some g :=
  (hw.image (w.bounded h).1).trans h

theorem getElem?_natives (h : w ≤ w') {id : NativeId} {arity : Nat}
    (hid : w.natives[id]? = some arity) : w'.natives[id]? = some arity := by
  obtain ⟨more, hmore⟩ := h.natives
  obtain ⟨hlt, -⟩ := List.getElem?_eq_some_iff.mp hid
  rw [← hmore, List.getElem?_append_left hlt, hid]

end Layout

/-! ## Environments -/

/-- Environments without the frames that are left out. -/
inductive Environment.Thins (w : Layout) : Gaps → Environment → Environment → Prop where
  | nil : Environment.Thins w [] [] []
  | frame : w.image f = some f' → Environment.Thins w gaps env env' →
      Environment.Thins w (false :: gaps) (f :: env) (f' :: env')
  | gap : f < w.frames → w.image f = none → Environment.Thins w gaps env env' →
      Environment.Thins w (true :: gaps) (f :: env) env'

section

variable {w w' : Layout} {gaps : Gaps} {env env' : Environment}

theorem Environment.Thins.mono (hw : w ≤ w') (h : Environment.Thins w gaps env env') :
    Environment.Thins w' gaps env env' := by
  induction h with
  | nil => exact .nil
  | frame himage _ ih => exact .frame (Layout.image_mono hw himage) ih
  | gap hf himage _ ih =>
      exact .gap (Nat.lt_of_lt_of_le hf hw.frames) ((hw.image hf).trans himage) ih

theorem Environment.Thins.globals (w : Layout) :
    Environment.Thins w [false] Session.globals Session.globals :=
  .frame w.globals .nil

theorem Environment.Thins.innermost (h : Environment.Thins w (false :: gaps) env env') :
    ∃ f f' outer outer', env = f :: outer ∧ env' = f' :: outer' ∧ w.image f = some f' := by
  cases h with
  | frame himage _ => exact ⟨_, _, _, _, rfl, rfl, himage⟩

/-- Distances that meet lead to a frame and to the one that stands for it. -/
theorem Environment.Thins.drop (h : Environment.Thins w gaps env env') {k k' : Nat}
    (hmeets : Meets gaps k k') :
    ∃ f f' outer outer', env.drop k = f :: outer ∧ env'.drop k' = f' :: outer' ∧
      w.image f = some f' := by
  induction hmeets generalizing env env' with
  | here =>
      cases h with
      | frame himage _ => exact ⟨_, _, _, _, rfl, rfl, himage⟩
  | inner _ ih =>
      cases h with
      | frame _ h => exact ih h
  | gap _ ih =>
      cases h with
      | gap _ _ h => exact ih h

end

/-- Environments at places of a twin with these gaps around them. -/
structure Twin.Sited (T : Twin) (w : Layout) (gaps : Gaps) (env env' : Environment) : Prop where
  known : w.knows T
  env : Environment.Thins w gaps env env'

theorem Twin.Sited.mono {T : Twin} {w w' : Layout} {gaps : Gaps} {env env' : Environment}
    (hw : w ≤ w') (h : T.Sited w gaps env env') : T.Sited w' gaps env env' :=
  ⟨hw.knows h.known, h.env.mono hw⟩

/-! ## Functions, classes and values -/

section

variable (w : Layout)

/-- Functions whose code is that of a twin. -/
structure Closure.Thins (f f' : Closure) : Prop where
  id_eq : f'.id = f.id
  role_eq : f'.role = f.role
  placed : ∃ (T : Twin) (gaps : Gaps), T.Sited w gaps f.env f'.env ∧
    FunDecl.Thins T gaps f.decl f'.decl ∧
      (f.role = .initializer → ∃ outer, gaps = false :: outer)

/-- Methods: functions whose code also needs the frame of `this` around it. -/
structure Closure.MethodThins (f f' : Closure) : Prop where
  id_eq : f'.id = f.id
  role_eq : f'.role = f.role
  placed : ∃ (T : Twin) (gaps : Gaps), T.Sited w gaps f.env f'.env ∧
    FunDecl.Thins T (false :: gaps) f.decl f'.decl

inductive Class.Thins : Class → Class → Prop where
  | root : Bindings.Alike (Closure.MethodThins w) (fun x => x) own own' →
      Class.Thins (.mk number label none own) (.mk number label none own')
  | derived : Class.Thins base base' →
      Bindings.Alike (Closure.MethodThins w) (fun x => x) own own' →
      Class.Thins (.mk number label (some base) own) (.mk number label (some base') own')

inductive Value.Thins : Value → Value → Prop where
  | nil : Value.Thins .nil .nil
  | bool : Value.Thins (.bool b) (.bool b)
  | number : Value.Thins (.number x) (.number x)
  | string : Value.Thins (.string s) (.string s)
  | native : w.natives[i]? = some n → Value.Thins (.native i n) (.native i n)
  | closure : Closure.Thins w f f' → Value.Thins (.closure f) (.closure f')
  | classObject : Class.Thins w cls cls' → Value.Thins (.classObject cls) (.classObject cls')
  | object : Class.Thins w cls cls' → Value.Thins (.object i cls) (.object i cls')

end

variable {w w' : Layout}

theorem Closure.Thins.mono (hw : w ≤ w') {f f' : Closure} (h : Closure.Thins w f f') :
    Closure.Thins w' f f' := by
  obtain ⟨hid, hrole, T, gaps, hsited, hdecl, hinit⟩ := h
  exact ⟨hid, hrole, T, gaps, hsited.mono hw, hdecl, hinit⟩

theorem Closure.MethodThins.mono (hw : w ≤ w') {f f' : Closure} (h : Closure.MethodThins w f f') :
    Closure.MethodThins w' f f' := by
  obtain ⟨hid, hrole, T, gaps, hsited, hdecl⟩ := h
  exact ⟨hid, hrole, T, gaps, hsited.mono hw, hdecl⟩

theorem Class.Thins.mono (hw : w ≤ w') {cls cls' : Class} (h : Class.Thins w cls cls') :
    Class.Thins w' cls cls' := by
  induction h with
  | root hown => exact .root (hown.imp fun h => h.mono hw)
  | derived _ hown ih => exact .derived ih (hown.imp fun h => h.mono hw)

theorem Value.Thins.mono (hw : w ≤ w') {v v' : Value} (h : Value.Thins w v v') :
    Value.Thins w' v v' := by
  cases h with
  | nil => exact .nil
  | bool => exact .bool
  | number => exact .number
  | string => exact .string
  | native hid => exact .native (Layout.getElem?_natives hw hid)
  | closure h => exact .closure (h.mono hw)
  | classObject h => exact .classObject (h.mono hw)
  | object h => exact .object (h.mono hw)

theorem thins_mono_all (hw : w ≤ w') {vs vs' : List Value}
    (h : List.Forall₂ (Value.Thins w) vs vs') : List.Forall₂ (Value.Thins w') vs vs' :=
  h.imp fun _ _ hv => hv.mono hw

/-! ## What related values have in common -/

theorem Closure.Thins.name_eq {f f' : Closure} (h : Closure.Thins w f f') :
    f'.decl.name = f.decl.name := by
  obtain ⟨_, _, _, _, _, hdecl, _⟩ := h
  exact hdecl.name_eq

theorem Closure.Thins.arity_eq {f f' : Closure} (h : Closure.Thins w f f') :
    f'.decl.arity = f.decl.arity := by
  obtain ⟨_, _, _, _, _, hdecl, _⟩ := h
  exact hdecl.arity_eq

theorem Closure.MethodThins.arity_eq {f f' : Closure} (h : Closure.MethodThins w f f') :
    f'.decl.arity = f.decl.arity := by
  obtain ⟨_, _, _, _, _, hdecl⟩ := h
  exact hdecl.arity_eq

theorem Class.Thins.findMethod? {cls cls' : Class} (h : Class.Thins w cls cls') (name : String) :
    Option.Rel (Closure.MethodThins w) (cls.findMethod? name) (cls'.findMethod? name) := by
  induction h with
  | root hown => exact hown.find? (fun heq => heq) name
  | derived _ hown ih =>
      simp only [Class.findMethod?]
      rcases option_rel_cases (hown.find? (fun heq => heq) name) with
        ⟨hnone, hnone'⟩ | ⟨_, _, hsome, hsome', hmethod⟩
      · rw [hnone, hnone']
        exact ih
      · rw [hsome, hsome']
        exact .some hmethod

theorem Class.Thins.name_eq {cls cls' : Class} (h : Class.Thins w cls cls') :
    cls'.name = cls.name := by
  cases h <;> rfl

theorem Class.Thins.id_eq {cls cls' : Class} (h : Class.Thins w cls cls') : cls'.id = cls.id := by
  cases h <;> rfl

theorem Class.Thins.arity_eq {cls cls' : Class} (h : Class.Thins w cls cls') :
    cls'.arity = cls.arity := by
  unfold Class.arity Class.initializer?
  rcases option_rel_cases (h.findMethod? initializerName) with
    ⟨hnone, hnone'⟩ | ⟨_, _, hsome, hsome', hmethod⟩
  · rw [hnone, hnone']
  · rw [hsome, hsome']
    exact hmethod.arity_eq

section

variable {v v' u u' : Value}

theorem Value.thins_ofLiteral (literal : Literal) :
    Value.Thins w (.ofLiteral literal) (.ofLiteral literal) := by
  cases literal with
  | nil => exact .nil
  | bool b => exact .bool
  | number x => exact .number
  | string s => exact .string

theorem Value.isBasic_thins (h : v.isBasic) : Value.Thins w v v := by
  cases v with
  | nil => exact .nil
  | bool b => exact .bool
  | number x => exact .number
  | string s => exact .string
  | _ => cases h

theorem Value.Thins.isTruthy_eq (h : Value.Thins w v v') : v'.isTruthy = v.isTruthy := by
  cases h <;> rfl

theorem Value.Thins.looksLike (h : Value.Thins w v v') : v.LooksLike v' where
  display := by
    cases h with
    | closure h => simp only [Value.display, h.name_eq]
    | classObject h => exact h.name_eq
    | object h => simp only [Value.display, h.name_eq]
    | _ => rfl
  arity := by
    cases h with
    | closure h => simp only [Value.arity?, h.arity_eq]
    | classObject h => simp only [Value.arity?, h.arity_eq]
    | _ => rfl
  sort := by cases h <;> rfl
  basic hbasic := by
    cases h with
    | native _ | closure _ | classObject _ | object _ => cases hbasic
    | _ => rfl

theorem Value.Thins.equals_eq (h : Value.Thins w v v') (hu : Value.Thins w u u') :
    v'.equals u' = v.equals u := by
  cases h with
  | closure h =>
      cases hu with
      | closure hu => simp only [Value.equals, h.id_eq, hu.id_eq]
      | _ => rfl
  | classObject h =>
      cases hu with
      | classObject hu => simp only [Value.equals, h.id_eq, hu.id_eq]
      | _ => rfl
  | _ => cases hu <;> rfl

end

/-- What looks the same to a host function: values that are related, and the same errors. -/
def Layout.view (w : Layout) : View where
  values := Value.Thins w
  errors e e' := e' = e

theorem Layout.view_mono (hw : w ≤ w') : w.view ≤ w'.view :=
  ⟨fun hv => hv.mono hw, fun he => he⟩

theorem HostRules.view_thins (w : Layout) : outward.view w.view where
  left :=
    { values := fun hv => hv.looksLike
      equals := fun hv hu => hv.equals_eq hu
      basic := fun h => Value.isBasic_thins h
      faults := fun he => congrArg RuntimeError.fault he }
  right :=
    { lines := fun he => congrArg (fun e => e.token.line) he
      errors := fun _ => rfl }

end Lox
