import Lox.Proofs.Depth.Count

/-!
# Evaluations that come to an end

An evaluation settles if it ends in the same way whenever it may nest enough steps.  Steps in a row
settle if each of them does, where it begins.
-/

namespace Lox

/-- A later session with the same natives and as many calls going on. -/
structure Session.Resumes (s s' : Session) : Prop extends s.SameDepth s' where
  natives : s'.natives = s.natives

namespace Session.Resumes

variable {s s' s'' : Session}

theorem trans (h : s.Resumes s') (h' : s'.Resumes s'') : s.Resumes s'' :=
  ⟨⟨h'.depth.trans h.depth, h'.limits.trans h.limits⟩, h'.natives.trans h.natives⟩

theorem shallower (h : s.deeper.Resumes s') : s.Resumes s'.shallower where
  depth := by
    change s'.depth - 1 = s.depth
    rw [h.depth]
    exact Nat.add_sub_cancel s.depth 1
  limits := h.limits
  natives := h.natives

end Session.Resumes

namespace Eval

variable {α β : Type}

/-- With enough steps to nest, a step comes to an end, always the same one. -/
def Settles (x : Nat → Eval α) (s : Session) : Prop :=
  ∃ n r, (∀ s', r ≠ .error .outOfFuel s') ∧ s.Resumes (leftBy r) ∧ ∀ m, n ≤ m → x m s = r

namespace Settles

variable {x : Nat → Eval α} {f : Nat → α → Eval β} {s : Session}

theorem congr {y : Nat → Eval α} (h : ∀ n, x n s = y n s) (hy : Settles y s) : Settles x s := by
  obtain ⟨n, r, hends, hleft, hsame⟩ := hy
  exact ⟨n, r, hends, hleft, fun m hm => (h m).trans (hsame m hm)⟩

theorem of_ends {x : Eval α} (hends : ∀ s', x s ≠ .error .outOfFuel s')
    (hleft : s.Resumes (leftBy (x s))) : Settles (fun _ => x) s :=
  ⟨0, x s, hends, hleft, fun _ _ => rfl⟩

theorem of_local (x : Eval α) [hx : Local x] (s : Session) : Settles (fun _ => x) s := by
  refine .of_ends (hx.ends s) ?_
  obtain ⟨frames, fields, nextObject, -, hleft⟩ := Local.leftBy_eq x s
  rw [hleft]
  exact ⟨⟨rfl, rfl⟩, rfl⟩

theorem bind (hx : Settles x s)
    (hf : ∀ {n a s₁}, x n s = .ok a s₁ → s.Resumes s₁ → Settles (f · a) s₁) :
    Settles (fun n => x n >>= f n) s := by
  obtain ⟨n, r, hends, hleft, hsame⟩ := hx
  cases r with
  | ok a s₁ =>
      obtain ⟨n', r', hends', hleft', hsame'⟩ := hf (hsame n (Nat.le_refl n)) hleft
      -- The larger of the two numbers of steps is enough for both.
      refine ⟨max n n', r', hends', hleft.trans hleft', fun m hm => ?_⟩
      have hfirst := hsame m (Nat.le_trans (Nat.le_max_left n n') hm)
      exact (eval_bind_ok hfirst).trans (hsame' m (Nat.le_trans (Nat.le_max_right n n') hm))
  | error i s₁ =>
      refine ⟨n, .error i s₁, ?_, hleft, fun m hm => ?_⟩
      · rintro s' ⟨⟩
        exact hends s₁ rfl
      · change (x m >>= f m) s = _
        rw [eval_bind_apply, hsame m hm]

theorem succ (h : Settles (fun n => x (n + 1)) s) : Settles x s := by
  obtain ⟨n, r, hends, hleft, hsame⟩ := h
  refine ⟨n + 1, r, hends, hleft, fun m hm => ?_⟩
  obtain ⟨m, rfl⟩ := Nat.exists_eq_add_of_le' (Nat.le_trans (Nat.le_add_left 1 n) hm)
  exact hsame m (Nat.le_of_succ_le_succ hm)

theorem nested (hroom : s.HasRoom) (site : Token) (h : Settles x s.deeper) :
    Settles (fun n => Eval.nested site (x n)) s := by
  obtain ⟨n, r, hends, hleft, hsame⟩ := h
  refine ⟨n, endIn Session.shallower r, ?_, ?_, fun m hm => ?_⟩
  · cases r with
    | ok a t => exact fun _ => nofun
    | error i t =>
        rintro s' ⟨⟩
        exact hends t rfl
  · rw [leftBy_endIn]
    exact hleft.shallower
  · change Eval.nested site (x m) s = _
    rw [nested_of_room hroom, hsame m hm]
    cases r <;> rfl

end Settles

end Eval

end Lox
