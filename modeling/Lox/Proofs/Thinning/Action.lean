import Lox.Proofs.Simulation.Action
import Lox.Proofs.Thinning.State

/-!
# Steps on frames that are not left out

Frames are made in both sessions, or left out of the second one.  Distances that meet lead to frames
with related values, and a walk outwards passes by the frames that are left out, as they bind
nothing.
-/

namespace Lox

/-! ## Growing layouts -/

namespace Layout

variable (w : Layout)

theorem zero_lt_frames : 0 < w.frames :=
  Nat.lt_of_le_of_lt (Nat.zero_le _) (w.bounded w.globals).1

theorem image_frames : w.image w.frames = none := by
  cases h : w.image w.frames with
  | none => rfl
  | some g => exact absurd (w.bounded h).1 (Nat.lt_irrefl _)

def enter : Layout where
  frames := w.frames + 1
  frames' := w.frames' + 1
  image f := if f = w.frames then some w.frames' else w.image f
  bounded {f g} h := by
    split at h
    · next hf =>
        cases h
        exact ⟨hf ▸ Nat.lt_succ_self _, Nat.lt_succ_self _⟩
    · exact ⟨Nat.lt_succ_of_lt (w.bounded h).1, Nat.lt_succ_of_lt (w.bounded h).2⟩
  injective {f f' g} h h' := by
    split at h <;> split at h'
    · next hf hf' => rw [hf, hf']
    · cases h
      exact absurd (w.bounded h').2 (Nat.lt_irrefl _)
    · cases h'
      exact absurd (w.bounded h).2 (Nat.lt_irrefl _)
    · exact w.injective h h'
  globals := (if_neg (Nat.ne_of_lt w.zero_lt_frames)).trans w.globals
  natives := w.natives
  knows := w.knows
  whole := w.whole
  image_whole hwhole f hf := by
    split
    · next heq => rw [heq, w.frames_whole hwhole]
    · next hne => exact w.image_whole hwhole f (Nat.lt_of_le_of_ne (Nat.le_of_lt_succ hf) hne)
  frames_whole hwhole := congrArg (· + 1) (w.frames_whole hwhole)

def skip (hpartial : ¬ w.whole) : Layout where
  frames := w.frames + 1
  frames' := w.frames'
  image := w.image
  bounded h := ⟨Nat.lt_succ_of_lt (w.bounded h).1, (w.bounded h).2⟩
  injective := w.injective
  globals := w.globals
  natives := w.natives
  knows := w.knows
  whole := w.whole
  image_whole hwhole := absurd hwhole hpartial
  frames_whole hwhole := absurd hwhole hpartial

def hire (arity : Nat) : Layout :=
  { w with natives := w.natives ++ [arity] }

def learn (T : Twin) : Layout :=
  { w with knows := fun T' => T' = T ∨ w.knows T' }

/-- The layout in which frames may be left out from now on. -/
def relax : Layout :=
  { w with
    whole := False
    image_whole := False.elim
    frames_whole := False.elim }

theorem le_enter : w ≤ w.enter where
  frames := Nat.le_succ _
  image hf := if_neg (Nat.ne_of_lt hf)
  natives := List.prefix_refl _
  knows h := h

theorem later_enter : w.Later w.enter :=
  ⟨w.le_enter, rfl⟩

theorem image_enter : w.enter.image w.frames = some w.frames' :=
  if_pos rfl

theorem later_skip (hpartial : ¬ w.whole) : w.Later (w.skip hpartial) :=
  ⟨⟨Nat.le_succ _, fun _ => rfl, List.prefix_refl _, fun h => h⟩, rfl⟩

theorem later_hire (arity : Nat) : w.Later (w.hire arity) :=
  ⟨⟨Nat.le_refl _, fun _ => rfl, List.prefix_append _ _, fun h => h⟩, rfl⟩

theorem later_learn (T : Twin) : w.Later (w.learn T) :=
  ⟨⟨Nat.le_refl _, fun _ => rfl, List.prefix_refl _, .inr⟩, rfl⟩

theorem le_relax : w ≤ w.relax :=
  ⟨Nat.le_refl _, fun _ => rfl, List.prefix_refl _, fun h => h⟩

end Layout

section

variable {early late : Prop} {w w' : Layout} {gaps : Gaps} {env env' : Environment}

/-! ## Frames -/

theorem Frames.Thins.mono {fs fs' : Frames Value} (h : Frames.Thins w fs fs') (hw : w ≤ w')
    (hframes : w'.frames = w.frames) (hframes' : w'.frames' = w.frames')
    (himage : w'.image = w.image) : Frames.Thins w' fs fs' where
  size := hframes ▸ h.size
  size' := hframes' ▸ h.size'
  bindings hfg := (h.bindings (himage ▸ hfg)).imp fun hv => hv.mono hw
  empty hf hnone := h.empty (hframes ▸ hf) (himage ▸ hnone)

theorem Frames.Thins.push {fs fs' : Frames Value} (h : Frames.Thins w fs fs') :
    Frames.Thins w.enter fs.push fs'.push where
  size := by rw [Frames.size_push, h.size]; rfl
  size' := by rw [Frames.size_push, h.size']; rfl
  bindings {f g} hfg := by
    rw [Frames.bindings_push, Frames.bindings_push]
    simp only [Layout.enter] at hfg
    split at hfg
    · next hf =>
        cases hfg
        rw [hf, ← h.size, ← h.size', Frames.bindings_size, Frames.bindings_size]
        exact .nil
    · exact (h.bindings hfg).imp fun hv => hv.mono w.le_enter
  empty {f} hf hnone := by
    rw [Frames.bindings_push]
    simp only [Layout.enter] at hnone
    split at hnone
    · cases hnone
    · next hne => exact h.empty (Nat.lt_of_le_of_ne (Nat.le_of_lt_succ hf) hne) hnone

theorem Frames.Thins.skip {fs fs' : Frames Value} (h : Frames.Thins w fs fs')
    (hpartial : ¬ w.whole) : Frames.Thins (w.skip hpartial) fs.push fs' where
  size := by rw [Frames.size_push, h.size]; rfl
  size' := h.size'
  bindings hfg := by
    rw [Frames.bindings_push]
    exact (h.bindings hfg).imp fun hv => hv.mono (w.later_skip hpartial).le
  empty {f} hf hnone := by
    rw [Frames.bindings_push]
    rcases Nat.lt_or_eq_of_le (Nat.le_of_lt_succ hf) with hlt | heq
    · exact h.empty hlt hnone
    · rw [heq, ← h.size, Frames.bindings_size]

theorem Frames.Thins.update {fs fs' : Frames Value} (h : Frames.Thins w fs fs') {f g : FrameId}
    (hfg : w.image f = some g) {x : String} {v v' : Value} (hv : Value.Thins w v v') :
    Frames.Thins w (fs.update f (·.set x v)) (fs'.update g (·.set x v')) where
  size := by rw [Frames.size_update, h.size]
  size' := by rw [Frames.size_update, h.size']
  bindings {f₁ g₁} hfg₁ := by
    obtain ⟨hf, hg⟩ := w.bounded hfg
    rw [Frames.bindings_update, Frames.bindings_update, h.size, h.size']
    by_cases hsame : f = f₁
    · subst hsame
      obtain rfl := Option.some.inj (hfg.symm.trans hfg₁)
      rw [if_pos ⟨rfl, hf⟩, if_pos ⟨rfl, hg⟩]
      exact (h.bindings hfg).set (fun heq => heq) x hv
    · have hother : g ≠ g₁ := fun heq => hsame (w.injective hfg₁ (heq ▸ hfg))
      rw [if_neg fun h => hsame h.1, if_neg fun h => hother h.1]
      exact h.bindings hfg₁
  empty {f₁} hf₁ hnone := by
    rw [Frames.bindings_update, if_neg]
    · exact h.empty hf₁ hnone
    · rintro ⟨rfl, -⟩
      cases hfg.symm.trans hnone

theorem agree_enter (henv : Environment.Thins w gaps env env') :
    Agree early late (fun w' e e' => Environment.Thins w' (false :: gaps) e e') w (Eval.enter env)
      (Eval.enter env') := by
  refine .modifyGet fun s s' hs => ⟨w.enter, w.later_enter, ?_, ?_⟩
  · exact hs.withFrames w.le_enter rfl (fun h => h) hs.frames.push
  · simp only [Frames.inner, hs.frames.size, hs.frames.size']
    exact .frame w.image_enter (henv.mono w.le_enter)

theorem Session.Thins.skip {s s' : Session} (h : Session.Thins w s s') (hpartial : ¬ w.whole) :
    Session.Thins (w.skip hpartial) { s with frames := s.frames.push } s' :=
  h.withFrames (w.later_skip hpartial).le rfl (fun h => h) (h.frames.skip hpartial)

theorem agree_updateFrame {f g : FrameId} (hfg : w.image f = some g) (x : String) {v v' : Value}
    (hv : Value.Thins w v v') :
    Agree early late (fun _ _ _ => True) w (Eval.updateFrame f x v) (Eval.updateFrame g x v') :=
  .modify fun _ _ hs => ⟨w, w.later_refl,
    hs.withFrames (Layout.le_refl w) rfl (fun h => h) (hs.frames.update hfg hv), trivial⟩

theorem agree_define (henv : Environment.Thins w (false :: gaps) env env') (x : String)
    {v v' : Value} (hv : Value.Thins w v v') :
    Agree early late (fun _ _ _ => True) w (Eval.define env x v) (Eval.define env' x v') := by
  obtain ⟨f, f', outer, outer', rfl, rfl, himage⟩ := henv.innermost
  exact agree_updateFrame himage x hv

theorem agree_defineAll (henv : Environment.Thins w (false :: gaps) env env')
    (params : List Token) {args args' : List Value}
    (hargs : List.Forall₂ (Value.Thins w) args args') :
    Agree early late (fun _ _ _ => True) w (Eval.defineAll env params args)
      (Eval.defineAll env' params args') := by
  induction params generalizing w args args' with
  | nil =>
      cases hargs with
      | nil => exact .pure trivial
      | cons _ _ => exact .stuck
  | cons param params ih =>
      cases hargs with
      | nil => exact .stuck
      | cons hv hargs =>
          exact (agree_define henv param.lexeme hv).bind fun w₁ _ _ hw _ =>
            ih (henv.mono hw) (thins_mono_all hw hargs)

/-! ## Variables -/

theorem Agree.get {α β : Type} {R : Layout → α → β → Prop} {x : Session → Eval α}
    {y : Session → Eval β}
    (h : ∀ s s', Session.Thins w s s' → Agree early late R w (x s) (y s')) :
    Agree early late R w (get >>= x) (get >>= y) :=
  fun s s' hs => h s s' hs s s' hs

theorem agree_readAt (henv : Environment.Thins w gaps env env') {k k' : Nat}
    (hmeets : Meets gaps k k') (x : String) :
    Agree early late (Value.Thins) w (Eval.readAt env k x) (Eval.readAt env' k' x) := by
  obtain ⟨f, f', outer, outer', hdrop, hdrop', himage⟩ := henv.drop hmeets
  refine .get fun s s' hs => ?_
  simp only [Frames.getAt, Frames.frameAt_eq hdrop, Frames.frameAt_eq hdrop']
  rcases option_rel_cases (hs.frames.find? himage x) with ⟨hnone, hnone'⟩ | ⟨v, v', hv, hv', hthin⟩
  · rw [hnone, hnone']
    exact .stuck
  · rw [hv, hv']
    exact .pure hthin

theorem agree_writeAt (henv : Environment.Thins w gaps env env') {k k' : Nat}
    (hmeets : Meets gaps k k') (x : String) {v v' : Value} (hv : Value.Thins w v v') :
    Agree early late (fun _ _ _ => True) w (Eval.writeAt env k x v) (Eval.writeAt env' k' x v') := by
  obtain ⟨f, f', outer, outer', hdrop, hdrop', himage⟩ := henv.drop hmeets
  unfold Eval.writeAt
  rw [Frames.frameAt_eq hdrop, Frames.frameAt_eq hdrop']
  exact agree_updateFrame himage x hv

theorem Frames.Thins.find?_env {fs fs' : Frames Value} (h : Frames.Thins w fs fs')
    (henv : Environment.Thins w gaps env env') (x : String) :
    Option.Rel (Value.Thins w) (fs.find? env x) (fs'.find? env' x) := by
  induction henv with
  | nil => exact .none
  | frame himage _ ih =>
      simp only [Frames.find?]
      rcases option_rel_cases (h.find? himage x) with ⟨hnone, hnone'⟩ | ⟨v, v', hv, hv', hthin⟩
      · rw [hnone, hnone']
        exact ih
      · rw [hv, hv']
        exact .some hthin
  | gap hf himage _ ih =>
      simp only [Frames.find?, h.empty hf himage, Bindings.find?]
      exact ih

theorem Frames.Thins.home? {fs fs' : Frames Value} (h : Frames.Thins w fs fs')
    (henv : Environment.Thins w gaps env env') (x : String) :
    Option.Rel (fun f g => w.image f = some g) (fs.home? env x) (fs'.home? env' x) := by
  induction henv with
  | nil => exact .none
  | frame himage _ ih =>
      simp only [Frames.home?, (h.bindings himage).binds (fun heq => heq) x]
      split
      · exact .some himage
      · exact ih
  | gap hf himage _ ih =>
      simp only [Frames.home?, h.empty hf himage]
      exact ih

theorem agree_walk (henv : Environment.Thins w gaps env env') (name : Token) :
    Agree early late (Value.Thins) w (Eval.walk env name) (Eval.walk env' name) := by
  refine .get fun s s' hs => ?_
  rcases option_rel_cases (hs.frames.find?_env henv name.lexeme) with
    ⟨hnone, hnone'⟩ | ⟨v, v', hv, hv', hthin⟩
  · rw [hnone, hnone']
    exact .fault
  · rw [hv, hv']
    exact .pure hthin

theorem agree_walkAssign (henv : Environment.Thins w gaps env env') (name : Token) {v v' : Value}
    (hv : Value.Thins w v v') :
    Agree early late (fun _ _ _ => True) w (Eval.walkAssign env name v)
      (Eval.walkAssign env' name v') := by
  refine .get fun s s' hs => ?_
  rcases option_rel_cases (hs.frames.home? henv name.lexeme) with
    ⟨hnone, hnone'⟩ | ⟨f, g, hf, hg, himage⟩
  · rw [hnone, hnone']
    exact .fault
  · rw [hf, hg]
    exact agree_updateFrame himage name.lexeme hv

/-! ## References -/

variable {T : Twin} {id : NodeId}

theorem agree_lookUp (hsited : T.Sited w gaps env env') (hid : T.Refers gaps id) (name : Token) :
    Agree early late (Value.Thins) w (Eval.lookUp env id name)
      (Eval.lookUp env' (T.renumber id) name) := by
  refine .get fun s s' hs => ?_
  rw [(hs.recorded hsited.known).hops id hid.mem, (hs.recorded hsited.known).hops' id hid.mem]
  rcases option_rel_cases hid.meets with ⟨hnone, hnone'⟩ | ⟨k, k', hk, hk', hmeets⟩
  · rw [hnone, hnone']
    exact agree_walk (.globals w) name
  · rw [hk, hk']
    exact agree_readAt hsited.env hmeets name.lexeme

theorem agree_assign (hsited : T.Sited w gaps env env') (hid : T.Refers gaps id) (name : Token)
    {v v' : Value} (hv : Value.Thins w v v') :
    Agree early late (fun _ _ _ => True) w (Eval.assign env id name v)
      (Eval.assign env' (T.renumber id) name v') := by
  refine .get fun s s' hs => ?_
  rw [(hs.recorded hsited.known).hops id hid.mem, (hs.recorded hsited.known).hops' id hid.mem]
  rcases option_rel_cases hid.meets with ⟨hnone, hnone'⟩ | ⟨k, k', hk, hk', hmeets⟩
  · rw [hnone, hnone']
    exact agree_walkAssign (.globals w) name hv
  · rw [hk, hk']
    exact agree_writeAt hsited.env hmeets name.lexeme hv

end

end Lox
