import Lox.Proofs.Names.Evaluation

/-!
# Walks and distances

A walk outwards looks for a name in one frame after the other.  It stops at the least distance at which
a frame binds the name, so whoever knows this distance can do without the walk.  A variable that is
written to in a frame is seen from the environments whose walks meet that frame before any other one
that binds the name.
-/

namespace Lox

namespace Frames

variable {α : Type} {fs fs' : Frames α} {env outer : Environment} {name x : String} {f g : FrameId}

/-! ## Distances -/

theorem ancestor?_hops (env : Environment) (d : Nat) :
    ancestor? env d = if d ≤ env.length then some (env.drop d) else none := by
  rw [ancestor?, Int.toNat_natCast]

theorem ancestor?_add (env : Environment) (i j : Nat) :
    ancestor? env (i + j : Nat) = (ancestor? env i).bind (ancestor? · j) := by
  rw [ancestor?_hops, ancestor?_hops]
  by_cases hi : i ≤ env.length
  · rw [if_pos hi, Option.bind_some, ancestor?_hops, List.length_drop, List.drop_drop]
    exact if_congr (by omega) rfl rfl
  · rw [if_neg hi, if_neg (by omega)]
    rfl

theorem frameAt_eq_ok {d : Int} :
    frameAt env d = .ok f ↔ ∃ outer, ancestor? env d = some (f :: outer) := by
  unfold frameAt
  split
  · next g outer hancestor =>
      rw [hancestor]
      constructor
      · rintro ⟨⟩
        exact ⟨outer, rfl⟩
      · rintro ⟨_, ⟨⟩⟩
        rfl
  · next hnone =>
      constructor
      · nofun
      · rintro ⟨outer, hancestor⟩
        exact absurd hancestor (hnone f outer)

theorem drop_of_ancestor? {d : Nat} {found : Environment} (h : ancestor? env d = some found) :
    env.drop d = found := by
  rw [ancestor?_hops] at h
  split at h
  · exact Option.some.inj h
  · cases h

theorem frameAt_nil (d : Nat) : frameAt [] d ≠ .ok f := by
  intro h
  obtain ⟨outer, hancestor⟩ := frameAt_eq_ok.mp h
  have hdrop := drop_of_ancestor? hancestor
  rw [List.drop_nil] at hdrop
  cases hdrop

theorem frameAt_zero (f : FrameId) (outer : Environment) : frameAt (f :: outer) (0 : Nat) = .ok f :=
  rfl

theorem frameAt_succ (g : FrameId) (outer : Environment) (d : Nat) :
    frameAt (g :: outer) (d + 1 : Nat) = frameAt outer d := by
  have hsame : ancestor? (g :: outer) (d + 1 : Nat) = ancestor? outer d := by
    rw [ancestor?_hops, ancestor?_hops, List.length_cons, List.drop_succ_cons]
    exact if_congr Nat.add_le_add_iff_right rfl rfl
  rw [frameAt, frameAt, hsame]

/-- No frame that is nearer than a distance binds the name. -/
def Clear (fs : Frames α) (env : Environment) (name : String) (d : Nat) : Prop :=
  ∀ k < d, ∀ g, frameAt env k = .ok g → (fs.bindings g).binds name = false

/-- The least distance at which a frame binds a name, and this frame. -/
structure Nearest (fs : Frames α) (env : Environment) (name : String) (d : Nat) (f : FrameId) :
    Prop where
  frame : frameAt env d = .ok f
  binds : (fs.bindings f).binds name = true
  clear : fs.Clear env name d

/-- A walk meets a frame if no nearer one binds the name, whether the frame itself does or not. -/
def Meets (fs : Frames α) (env : Environment) (name : String) (f : FrameId) : Prop :=
  ∃ d : Nat, frameAt env d = .ok f ∧ fs.Clear env name d

/-- An environment is reached from another one before any further frame that binds the name. -/
def Reaches (fs : Frames α) (env env' : Environment) (name : String) : Prop :=
  ∃ d : Nat, ancestor? env d = some env' ∧ fs.Clear env name d

theorem clear_zero : fs.Clear env name 0 :=
  fun k hk => absurd hk (Nat.not_lt_zero k)

theorem clear_succ {d : Nat} : fs.Clear (g :: outer) name (d + 1) ↔
    (fs.bindings g).binds name = false ∧ fs.Clear outer name d := by
  constructor
  · intro h
    refine ⟨h 0 (Nat.zero_lt_succ d) g (frameAt_zero g outer), fun k hk f hf => ?_⟩
    exact h (k + 1) (Nat.succ_lt_succ hk) f ((frameAt_succ g outer k).trans hf)
  · rintro ⟨hhere, hfurther⟩ k hk f hf
    cases k with
    | zero =>
        cases hf
        exact hhere
    | succ k => exact hfurther k (Nat.lt_of_succ_lt_succ hk) f ((frameAt_succ g outer k).symm.trans hf)

theorem not_meets_nil : ¬ fs.Meets [] name f :=
  fun ⟨d, hf, _⟩ => frameAt_nil d hf

theorem meets_cons : fs.Meets (g :: outer) name f ↔
    g = f ∨ (fs.bindings g).binds name = false ∧ fs.Meets outer name f := by
  constructor
  · rintro ⟨_ | d, hf, hclear⟩
    · cases hf
      exact .inl rfl
    · obtain ⟨hhere, hclear⟩ := clear_succ.mp hclear
      exact .inr ⟨hhere, d, (frameAt_succ g outer d).symm.trans hf, hclear⟩
  · rintro (rfl | ⟨hhere, d, hf, hclear⟩)
    · exact ⟨0, frameAt_zero g outer, clear_zero⟩
    · exact ⟨d + 1, (frameAt_succ g outer d).trans hf, clear_succ.mpr ⟨hhere, hclear⟩⟩

theorem exists_nearest_iff : (∃ d, fs.Nearest env name d f) ↔
    fs.Meets env name f ∧ (fs.bindings f).binds name = true :=
  ⟨fun ⟨d, h⟩ => ⟨⟨d, h.frame, h.clear⟩, h.binds⟩, fun ⟨⟨d, hf, hclear⟩, hbinds⟩ => ⟨d, hf, hbinds, hclear⟩⟩

/-! ## Walks -/

/-- A walk stops at the frame that binds the name at the least distance. -/
theorem home?_eq_some_iff : fs.home? env name = some f ↔ ∃ d, fs.Nearest env name d f := by
  rw [exists_nearest_iff]
  induction env with
  | nil => exact iff_of_false (by rintro ⟨⟩) fun h => not_meets_nil h.1
  | cons g outer ih =>
      rw [home?, meets_cons]
      cases hhere : (fs.bindings g).binds name with
      | true =>
          rw [if_pos rfl]
          constructor
          · rintro ⟨⟩
            exact ⟨.inl rfl, hhere⟩
          · rintro ⟨rfl | ⟨⟨⟩, _⟩, _⟩
            rfl
      | false =>
          rw [if_neg Bool.false_ne_true, ih]
          constructor
          · rintro ⟨hmeets, hbinds⟩
            exact ⟨.inr ⟨rfl, hmeets⟩, hbinds⟩
          · rintro ⟨rfl | ⟨_, hmeets⟩, hbinds⟩
            · rw [hhere] at hbinds
              cases hbinds
            · exact ⟨hmeets, hbinds⟩

theorem find?_eq_bind_home? (fs : Frames α) (env : Environment) (name : String) :
    fs.find? env name = (fs.home? env name).bind fun f => (fs.bindings f).find? name := by
  induction env with
  | nil => rfl
  | cons g outer ih =>
      rw [find?, home?, Bindings.binds]
      cases hfind : (fs.bindings g).find? name with
      | some value => exact hfind.symm
      | none => exact ih

theorem Nearest.find?_eq {d : Nat} (h : fs.Nearest env name d f) :
    fs.find? env name = (fs.bindings f).find? name := by
  rw [find?_eq_bind_home?, home?_eq_some_iff.mpr ⟨d, h⟩]
  rfl

theorem Nearest.drop {d : Nat} (h : fs.Nearest env name d f) :
    ∃ outer, env.drop d = f :: outer := by
  obtain ⟨outer, hancestor⟩ := frameAt_eq_ok.mp h.frame
  exact ⟨outer, drop_of_ancestor? hancestor⟩

theorem home?_eq_none (h : ∀ d f, ¬ fs.Nearest env name d f) : fs.home? env name = none := by
  refine Option.eq_none_iff_forall_ne_some.mpr fun f hhome => ?_
  obtain ⟨d, hnearest⟩ := home?_eq_some_iff.mp hhome
  exact h d f hnearest

/-! ## Writes -/

/-- The frames differ in what one name is bound to in one of them, and in nothing else. -/
structure Rebinds (fs : Frames α) (f : FrameId) (name : String) (value : α) (fs' : Frames α) :
    Prop where
  size : fs'.frames.size = fs.frames.size
  written : (fs'.bindings f).find? name = some value
  kept : ∀ {g x}, ¬ (g = f ∧ x = name) → (fs'.bindings g).find? x = (fs.bindings g).find? x

theorem rebinds_update (hf : f < fs.frames.size) (name : String) (value : α) :
    fs.Rebinds f name value (fs.update f (·.set name value)) where
  size := size_update fs f _
  written := by rw [bindings_update, if_pos ⟨rfl, hf⟩, Bindings.find?_set_self]
  kept {g x} hother := by
    rw [bindings_update]
    split
    · next hsame =>
        obtain ⟨rfl, -⟩ := hsame
        exact Bindings.find?_set_of_ne fun h => hother ⟨rfl, h.symm⟩
    · rfl

theorem lt_size_of_binds (h : (fs.bindings f).binds name = true) : f < fs.frames.size := by
  refine Nat.lt_of_not_le fun hle => ?_
  rw [bindings, Array.getD_eq_getD_getElem?, Array.getElem?_eq_none hle] at h
  cases h

theorem Rebinds.find?_of_meets {value : α} (h : fs.Rebinds f name value fs')
    (hmeets : fs.Meets env name f) : fs'.find? env name = some value := by
  induction env with
  | nil => exact absurd hmeets not_meets_nil
  | cons g outer ih =>
      rw [find?]
      by_cases hg : g = f
      · rw [hg, h.written]
      · obtain ⟨hhere, hmeets⟩ := (meets_cons.mp hmeets).resolve_left hg
        rw [h.kept fun hsame => hg hsame.1, Bindings.binds_eq_false.mp hhere]
        exact ih hmeets

theorem Rebinds.find?_of_not_meets {value : α} (h : fs.Rebinds f name value fs')
    (hother : ¬ (x = name ∧ fs.Meets env name f)) : fs'.find? env x = fs.find? env x := by
  induction env with
  | nil => rfl
  | cons g outer ih =>
      have hkept : (fs'.bindings g).find? x = (fs.bindings g).find? x :=
        h.kept fun hhere => hother ⟨hhere.2, meets_cons.mpr (.inl hhere.1)⟩
      rw [find?, find?, hkept]
      cases hfind : (fs.bindings g).find? x with
      | some found => rfl
      | none =>
          -- The walk goes on, and whatever frame it meets from here on is met from the start.
          refine ih ?_
          rintro ⟨hx, hmeets⟩
          refine hother ⟨hx, meets_cons.mpr (.inr ⟨?_, hmeets⟩)⟩
          rw [← hx, Bindings.binds_eq_false, hfind]

end Frames

/-! ## The steps on variables -/

def givenBy {α : Type} : EStateM.Result Interrupt Session α → Except Interrupt α
  | .ok a _ => .ok a
  | .error i _ => .error i

namespace Eval

variable {s s' : Session} {env : Environment} {name : Token} {d : Nat} {f : FrameId}

theorem walk_of_some {v : Value} (h : s.frames.find? env name.lexeme = some v) :
    walk env name s = .ok v s := by
  simp only [walk, eval_get_bind_apply, h]
  rfl

theorem walk_of_none (h : s.frames.find? env name.lexeme = none) :
    walk env name s = .error (.fault ⟨name, .undefinedVariable name.lexeme⟩) s := by
  simp only [walk, eval_get_bind_apply, h]
  rfl

theorem givenBy_walk (h : s'.frames.find? env name.lexeme = s.frames.find? env name.lexeme) :
    givenBy (walk env name s') = givenBy (walk env name s) := by
  cases hfind : s.frames.find? env name.lexeme with
  | some v => rw [walk_of_some hfind, walk_of_some (h.trans hfind), givenBy, givenBy]
  | none => rw [walk_of_none hfind, walk_of_none (h.trans hfind), givenBy, givenBy]

theorem walkAssign_of_nearest (h : s.frames.Nearest env name.lexeme d f) (v : Value) :
    walkAssign env name v s = updateFrame f name.lexeme v s := by
  have hhome := Frames.home?_eq_some_iff.mpr ⟨d, h⟩
  simp only [walkAssign, eval_get_bind_apply, hhome]

theorem walkAssign_of_none (h : s.frames.home? env name.lexeme = none) (v : Value) :
    walkAssign env name v s = .error (.fault ⟨name, .undefinedVariable name.lexeme⟩) s := by
  simp only [walkAssign, eval_get_bind_apply, h]
  rfl

end Eval

end Lox
