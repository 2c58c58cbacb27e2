import Lox.Proofs.History.Growth
import Lox.Proofs.Soundness.Placement

/-!
# Frames of methods do not change

Binding a method to an instance makes a frame with `this` in it.  No evaluation that finds such a frame
changes it, whatever it calls.
-/

namespace Lox

/-- Frames with `this` in them stay as they are.  The host may give the name `this` to a global
variable, so the global frame does not count. -/
def Session.Keeps (s s' : Session) : Prop :=
  ∀ f, f ≠ Session.globalFrame → (s.frames.bindings f).binds "this" = true →
    s'.frames.bindings f = s.frames.bindings f

namespace Session.Keeps

variable {s s' s'' : Session}

theorem of_frames (h : s'.frames = s.frames) : s.Keeps s' :=
  fun _ _ _ => by rw [h]

theorem trans (h : s.Keeps s') (h' : s'.Keeps s'') : s.Keeps s'' := by
  intro f hlocal hbinds
  have hsame := h f hlocal hbinds
  rw [← hsame] at hbinds ⊢
  exact h' f hlocal hbinds

end Session.Keeps

section

variable {ℓ : Likeness} {w w' : World}

theorem Frames.Alike.fixture_of_this {fs fs' : Frames Value} (h : Frames.Alike ℓ w fs fs')
    {f : FrameId} (hlocal : f ≠ Session.globalFrame)
    (hbinds : (fs.bindings f).binds "this" = true) :
    ∃ fixture, w.fixture f = some fixture := by
  cases hfixture : w.fixture f with
  | some fixture => exact ⟨fixture, rfl⟩
  | none =>
      rw [h.free hfixture hlocal] at hbinds
      cases hbinds

theorem Session.Alike.keeps {s s' t t' : Session} (hs : Session.Alike ℓ w s s') (hw : w ≤ w')
    (ht : Session.Alike ℓ w' t t') : s.Keeps t := by
  intro f hlocal hbinds
  obtain ⟨fixture, hfixture⟩ := hs.frames.fixture_of_this hlocal hbinds
  have hlater := (hw.fixture (hs.frames.fixed_lt hfixture)).trans hfixture
  rw [hs.frames.fixed hfixture, ht.frames.fixed hlater]

theorem Simulates.left {α : Type} {R : World → α → α → Prop} {x : Eval α} {s : Session}
    (h : Simulates ℓ True R w x x) (hs : Session.Alike ℓ w s s) :
    ∃ w', w ≤ w' ∧ Session.Alike ℓ w' (leftBy (x s)) (leftBy (x s)) := by
  have hout := h s s hs
  generalize hr : x s = r at hout ⊢
  cases r with
  | ok a s₁ =>
      cases hout with
      | ok hw hs₁ _ => exact ⟨_, hw.le, hs₁⟩
  | error i s₁ =>
      cases hout with
      | fault hw hs₁ _ _ => exact ⟨_, hw.le, hs₁⟩
      | host hw hs₁ _ => exact ⟨_, hw.le, hs₁⟩
      | outOfFuel hw hs₁ => exact ⟨_, hw.le, hs₁⟩
      | slack hslack => exact absurd trivial hslack

theorem Simulates.keeps {α : Type} {R : World → α → α → Prop} {x : Eval α} {s : Session}
    (h : Simulates ℓ True R w x x) (hs : Session.Alike ℓ w s s) : s.Keeps (leftBy (x s)) := by
  obtain ⟨w', hw, hleft⟩ := h.left hs
  exact hs.keeps hw hleft

end

/-! ## Steps in a row -/

section

variable {α β : Type} {x : Eval α} {f : α → Eval β} {s : Session}

theorem leftBy_bind (x : Eval α) (f : α → Eval β) (s : Session) :
    leftBy ((x >>= f) s) =
      match x s with
      | .ok a s₁ => leftBy (f a s₁)
      | .error _ s₁ => s₁ := by
  rw [eval_bind_apply]
  cases x s <;> rfl

theorem leftBy_bind_ok {a : α} {s₁ : Session} (h : x s = .ok a s₁) :
    leftBy ((x >>= f) s) = leftBy (f a s₁) := by
  rw [eval_bind_ok h]

end

/-! ## Evaluations -/

/-- The session in which an evaluation leaves off. -/
def Task.leaves (n : Nat) (s : Session) : Task → Session
  | .eval env e => leftBy (Eval.eval n env e s)
  | .evalAll env es => leftBy (Eval.evalAll n env es s)
  | .exec env st => leftBy (Eval.exec n env st s)
  | .execAll env ss => leftBy (Eval.execAll n env ss s)
  | .invoke site callee arguments => leftBy (Eval.invoke n site callee arguments s)
  | .perform action => leftBy (Eval.perform n action s)

section

variable {ℓ : Likeness} {w : World} {n : Nat} {task task' : Task} {s s' : Session}

theorem Task.Placed.left (hs : Session.Alike ℓ w s s) (h : task.Placed ℓ w) (n : Nat) :
    ∃ w', w ≤ w' ∧ Session.Alike ℓ w' (task.leaves n s) (task.leaves n s) := by
  have heval : EvaluatesAlike ℓ True n n := evaluatesAlike_same n
  cases h with
  | eval hsited h => exact (heval.eval hsited h).left hs
  | evalAll hsited h => exact (heval.evalAll hsited h).left hs
  | exec hsited h => exact (heval.exec hsited h).left hs
  | execAll hsited h => exact (heval.execAll hsited h).left hs
  | invoke hsite hf hvs harity => exact (heval.invoke hsite hf hvs harity).left hs
  | perform h => exact (heval.perform h).left hs

theorem Task.Stands.keeps (h : task.Stands ℓ w s) (n : Nat) : s.Keeps (task.leaves n s) := by
  obtain ⟨w₁, -, hs, hplaced⟩ := h
  obtain ⟨w₂, hw, hleft⟩ := hplaced.left hs n
  exact hs.keeps hw hleft

/-- From the beginning of an evaluation to the beginning of one that it calls. -/
theorem Calls.keeps (h : Calls n task s task' s') (hstands : task.Stands ℓ w s) : s.Keeps s' := by
  obtain ⟨w₁, -, hs, hplaced⟩ := hstands
  obtain ⟨w₂, hw, hs', -⟩ := h.stands (hplaced.stands hs)
  exact hs.keeps hw hs'

theorem Calls.keeps_called (h : Calls n task s task' s') (hstands : task.Stands ℓ w s) :
    s'.Keeps (task'.leaves n s') :=
  (h.stands hstands).keeps n

/-! ## Frames that steps in between leave -/

theorem frames_nested {α : Type} {site : Token} {step : Eval α} (hroom : s.HasRoom) :
    (leftBy (Eval.nested site step s)).frames = (leftBy (step s.deeper)).frames := by
  rw [Eval.nested_of_room hroom]
  cases step s.deeper <;> rfl

theorem Eval.newInstance_apply (cls : Class) (s : Session) :
    Eval.newInstance cls s =
      .ok (.object s.fields.size cls) { s with fields := s.fields.push [] } :=
  rfl

theorem Eval.bindThis_apply (method : Closure) (this : Value) (s : Session) :
    Eval.bindThis method this s =
      .ok ⟨s.nextObject, method.decl, s.frames.frames.size :: method.env, method.role⟩
        { s with
          frames := s.frames.push.update s.frames.frames.size (·.set "this" this)
          nextObject := s.nextObject + 1 } :=
  rfl

theorem frames_runProgram {run : Environment → List Stmt → Eval Completion} {code : String}
    (h : (compile code s.nextNode).problems = []) :
    (leftBy (Eval.runProgram run code s)).frames =
      (leftBy (run Session.globals (compile code s.nextNode).statements (s.ready code))).frames := by
  rw [Eval.runProgram_accepted h, leftBy_bind]
  unfold Eval.catchFault
  cases run Session.globals (compile code s.nextNode).statements (s.ready code) with
  | ok completion t => cases completion <;> rfl
  | error interrupt t => cases interrupt <;> rfl

theorem leftBy_attempt {α : Type} (x : Eval α) (s : Session) :
    leftBy (Eval.attempt x s) = leftBy (x s) := by
  unfold Eval.attempt
  cases x s with
  | ok a t => rfl
  | error i t => cases i <;> rfl

theorem bindings_defineAll {f g : FrameId} {outer : Environment} (hne : g ≠ f) :
    ∀ {params : List Token} {args : List Value} {s s₁ : Session} {u : Unit},
      Eval.defineAll (f :: outer) params args s = .ok u s₁ →
        s₁.frames.bindings g = s.frames.bindings g
  | [], [], _, _, _, h => by
      cases h
      rfl
  | param :: params, arg :: args, s, s₁, _, h => by
      obtain ⟨_, s₂, hdefine, hmore⟩ := eval_bind_inv h
      rw [bindings_defineAll hne hmore]
      cases hdefine
      exact (Frames.bindings_update _ _ _ _).trans (if_neg fun heq => hne heq.1.symm)
  | [], _ :: _, _, _, _, h => by cases h
  | _ :: _, [], _, _, _, h => by cases h

theorem Eval.open_inv {f : Closure} (h : Eval.open f vs s = .ok env s₁) :
    env = s.frames.frames.size :: f.env ∧
      ∀ g < s.frames.frames.size, s₁.frames.bindings g = s.frames.bindings g := by
  obtain ⟨env', s', henter, hrest⟩ := eval_bind_inv h
  obtain ⟨_, s'', hdefine, hpure⟩ := eval_bind_inv hrest
  cases henter
  cases hpure
  refine ⟨rfl, fun g hg => ?_⟩
  rw [bindings_defineAll (Nat.ne_of_lt hg) hdefine]
  exact Frames.bindings_push _ _

end

end Lox
