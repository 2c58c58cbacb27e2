import Lox.Proofs.Thinning.Evaluation

/-!
# Histories with frames left out

The steps that a host takes with two sessions agree, if the second one only does without some frames.
A session that has come to a state in this way is related to itself, with no frame left out: this is
what is known of the states that the code of a host leads to.
-/

namespace Lox

variable {early late : Prop} {w : Layout}

/-! ## Steps -/

theorem evaluationsAgree_same (n : Nat) : EvaluationsAgree False False n n :=
  evaluationsAgree (.inr (Nat.le_refl n)) (.inr (Nat.le_refl n))

theorem agree_stepTake {n n' : Nat} (heval : EvaluationsAgree early late n n') {step step' : Step}
    (h : Step.Corresponds .outward w.view step step') :
    Agree early late (fun w' => Answer.Related w'.view) w (step.take n) (step'.take n') :=
  agree_take heval.proceeds h

/-! ## Histories -/

def Layout.start : Layout where
  frames := 1
  frames' := 1
  image f := if f = Session.globalFrame then some f else none
  bounded {f g} h := by
    split at h
    · next hf =>
        cases h
        exact ⟨hf ▸ Nat.one_pos, hf ▸ Nat.one_pos⟩
    · cases h
  injective {f f' g} h h' := by
    split at h <;> split at h'
    · next hf hf' => rw [hf, hf']
    all_goals contradiction
  globals := if_pos rfl
  natives := [0, 0]
  knows := fun _ => False
  whole := True
  image_whole _ f hf := if_pos (Nat.lt_one_iff.mp hf)
  frames_whole _ := rfl

theorem thins_start (limits : Limits) (input : List Char) (readings : Nat → Float) :
    Session.Thins .start (Session.start limits input readings)
      (Session.start limits input readings) := by
  have hglobals : Bindings.Alike (Value.Thins .start) (fun x => x)
      [("clock", Value.native 0 0), ("readLine", Value.native 1 0)]
      [("clock", Value.native 0 0), ("readLine", Value.native 1 0)] :=
    .cons (.native rfl) (.cons (.native rfl) .nil)
  constructor
  case frames =>
    refine ⟨rfl, rfl, fun {f g} hfg => ?_, fun {f} hf hnone => ?_⟩
    · simp only [Layout.start] at hfg
      split at hfg
      · next hf =>
          cases hfg
          subst hf
          exact hglobals
      · cases hfg
    · obtain rfl : f = 0 := Nat.lt_one_iff.mp hf
      cases hnone
  case fields => exact ⟨rfl, fun _ => .nil⟩
  case natives =>
    refine ⟨rfl, rfl, fun {i arity} hi => ?_⟩
    rcases i with _ | _ | i
    · exact ⟨_, _, rfl, rfl, .clock⟩
    · exact ⟨_, _, rfl, rfl, .readLine⟩
    · cases hi
  case recorded =>
    intro T hknows
    cases hknows
  case fresh => exact fun _ _ => rfl
  case fresh' => exact fun _ _ => rfl
  case nextNode => exact Nat.le_refl _
  case memory => exact .nil
  all_goals rfl

section

variable {s s' : Session} {known : Value → Prop} {step : Step} {fuel : Nat}

theorem Shared.thins (hknown : ∀ v, known v → Value.Thins w v v) (v v' : Value)
    (h : Shared known v v') : Value.Thins w v v' := by
  obtain ⟨rfl, h | h⟩ := h
  · exact hknown v' h
  · exact Value.isBasic_thins h

theorem View.shared_le_thins (hknown : ∀ v, known v → Value.Thins w v v) :
    View.shared known ≤ w.view :=
  ⟨fun h => Shared.thins hknown _ _ h, False.elim⟩

theorem Step.Follows.agree (hstep : step.Follows .outward known)
    (hknown : ∀ v, known v → Value.Thins w v v) (fuel : Nat) :
    Agree False False (fun w' => Answer.Related w'.view) w (step.take fuel) (step.take fuel) :=
  agree_stepTake (evaluationsAgree_same fuel) (hstep.mono (View.shared_le_thins hknown))

theorem Session.Thins.remembers (hs : Session.Thins w s s) {v : Value} (hv : s.Remembers v) :
    Value.Thins w v v := by
  obtain ⟨f, hf, rfl⟩ := hv
  exact (List.forall₂_same.mp hs.memory f hf).value

theorem Answer.Related.thins {answer : Answer} (h : Answer.Related w.view answer answer) {v : Value}
    (hv : answer.Gives v) : Value.Thins w v v := by
  cases h with
  | form hf =>
      obtain rfl := hv
      exact hf.value
  | _ => cases hv

/-- Every state of a history is related to itself with no frame left out, and so is every value that
the host knows. -/
theorem History.thins (h : History .outward s known) :
    ∃ w : Layout, w.whole ∧ Session.Thins w s s ∧ ∀ v, known v → Value.Thins w v v := by
  -- A step agrees with itself, which gives the layout of the session that it leaves.
  induction h with
  | start _ => exact ⟨.start, trivial, thins_start _ _ _, nofun⟩
  | @done s known step fuel answer s' _ hstep htake ih =>
      obtain ⟨w, hwhole, hs, hknown⟩ := ih
      have hend := hstep.agree hknown fuel s s hs
      rw [htake] at hend
      cases hend with
      | @ok w' _ _ _ _ hw hs' hanswer =>
          refine ⟨w', hw.whole.symm ▸ hwhole, hs', fun v hv => ?_⟩
          rcases hv with hv | hv | hv
          · exact hanswer.thins hv
          · exact hs'.remembers hv
          · exact (hknown v hv).mono hw.le
  | @interrupted s known step fuel interrupt s' _ hstep htake ih =>
      obtain ⟨w, hwhole, hs, hknown⟩ := ih
      have hend := hstep.agree hknown fuel s s hs
      rw [htake] at hend
      cases hend with
      | @error w' _ _ _ _ hw hs' _ =>
          exact ⟨w', hw.whole.symm ▸ hwhole, hs',
            fun v hv => hv.elim hs'.remembers fun hv => (hknown v hv).mono hw.le⟩
      | early h | late h => exact h.elim

end

end Lox
