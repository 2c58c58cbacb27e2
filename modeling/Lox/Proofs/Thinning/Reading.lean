import Lox.Proofs.Soundness.Progress
import Lox.Proofs.Thinning.Visit

/-!
# Code that is read again

Statements of an accepted program can be read a second time, under new numbers and with other scopes
around them.  If these scopes only lack ones that declare nothing, then the second reading has no
problems either, and the two readings are a twin.  So the frame of a block that declares nothing is
always empty: without it the statements of the block do the same.
-/

namespace Lox

/-! ## Places of accepted programs -/

/-- A part of an accepted program that is about to be evaluated in a session that is related to
itself. -/
structure Anchored (w : Layout) (s : Session) (env : Environment) (table : NodeId → Option Nat)
    (c : Context) (σ : Scopes) (part : Part) : Prop where
  session : Session.Whole w s
  env : Environment.Thins w (List.replicate (σ.length + 1) false) env env
  checked : Checked table c σ part
  recorded : ∀ id ∈ part.ids, s.hops.find? id = table id
  below : ∀ id ∈ part.ids, id < s.nextNode

theorem Scopes.thins_self : ∀ σ : Scopes,
    Scopes.Thins (List.replicate (σ.length + 1) false) σ σ
  | [] => .globals
  | _ :: σ => .scope (Scopes.thins_self σ)

theorem Environment.Thins.gaps_whole {w : Layout} (hwhole : w.whole) {gaps : Gaps}
    {env env' : Environment} (h : Environment.Thins w gaps env env') :
    gaps = List.replicate env.length false := by
  induction h with
  | nil => rfl
  | frame _ _ ih => rw [ih, List.length_cons, List.replicate_succ]
  | gap hf hnone _ _ => cases (w.image_whole hwhole _ hf).symm.trans hnone

theorem Likeness.exact_obeys_outward : (Likeness.exact False).Obeys .outward where
  view w := by
    have hclear : ((Likeness.exact False).view w).Clear :=
      Likeness.view_clear (fun h => h) (fun _ => rfl) w
    exact ⟨Likeness.view_outward _ w, fun he => by rw [hclear.same he], hclear.errors⟩
  strict := Iff.rfl
  allowed h := h

section

variable {s s' : Session} {known : Value → Prop} {step : Step} {fuel n : Nat} {env : Environment}
  {st : Stmt}

theorem Visits.stands_outward {task : Task} (hhistory : History .outward s known)
    (hstep : step.Follows .outward known) (h : Visits step fuel s n task s') :
    ∃ w, task.Stands (.exact False) w s' := by
  obtain ⟨w, hs, hknown⟩ := hhistory.alike Likeness.exact_obeys_outward fun h => h
  exact ⟨w, h.stands hs (fun h => h.accepted) (hstep.alike Likeness.exact_obeys_outward hknown)⟩

theorem Visits.anchored (hhistory : History .outward s known)
    (hstep : step.Follows .outward known) (h : Visits step fuel s n (.exec env st) s') :
    ∃ w table root c σ, Situated s' env (.stmt st) root c σ ∧
      Anchored w s' env table c σ (.stmt st) := by
  obtain ⟨-, world, -, halike, hplaced⟩ := h.stands_outward hhistory hstep
  obtain ⟨w, hwhole, hthin⟩ := h.stays hhistory hstep
  cases hplaced with
  | @exec code c σ ρs _ _ hsited _ =>
      cases hthin with
      | exec henv _ =>
          have hgaps := henv.env.gaps_whole hwhole.whole
          rw [hsited.covers.length_eq] at hgaps
          exact ⟨w, code.table, code.part, c, σ, halike.situated hsited, hwhole,
            hgaps ▸ henv.env, hsited.checked,
            fun id hid => halike.recorded.table hsited.accepted (hsited.id_mem hid),
            fun id hid => halike.recorded.below hsited.accepted (hsited.id_mem hid)⟩

end

/-! ## Reading again -/

/-- A session that has read more code, whose references have numbers below `next`. -/
def Session.knowing (s : Session) (references : List Reference) (next : NodeId) : Session :=
  { s with hops := s.hops.merge references, nextNode := next }

/-- Statements of a program that are read again with other scopes around them, under numbers higher
by `gap`. -/
def Twin.reading (table : NodeId → Option Nat) (c : Context) (σ : Scopes) (ss : List Stmt)
    (gap : Nat) : Twin where
  ids := bodyIds ss
  renumber := (· + gap)
  table := table
  table' := hopsOf (resolveBody c σ ss).1.references

section

variable {w : Layout} {s : Session} {table : NodeId → Option Nat} {c : Context} {σ : Scopes}
  {ss : List Stmt}

theorem Session.Thins.relax {s s' : Session} (h : Session.Thins w s s') :
    Session.Thins w.relax s s' :=
  { h with
    frames := h.frames.mono w.le_relax rfl rfl rfl
    fields := h.fields.mono w.le_relax
    natives := h.natives.mono w.le_relax rfl
    memory := formsThin_mono w.le_relax h.memory
    recorded := h.recorded }

theorem Session.Thins.reading (h : Session.Thins w s s)
    (hrecorded : ∀ id ∈ bodyIds ss, s.hops.find? id = table id)
    (hbelow : ∀ id ∈ bodyIds ss, id < s.nextNode) (c : Context) (σ : Scopes) :
    Session.Thins (w.relax.learn (.reading table c σ ss s.nextNode)) s
      (s.knowing (resolveBody c σ (movedBody 0 (· + s.nextNode) ss)).1.references
        (s.nextNode + s.nextNode)) := by
  rw [resolveBody_moved]
  have hreferences : NumberedWithin s.nextNode (s.nextNode + s.nextNode)
      ((resolveBody c σ ss).1.moved 0 (· + s.nextNode)).references := by
    intro r hr
    obtain ⟨r₀, hr₀, rfl⟩ := List.mem_map.mp hr
    exact ⟨Nat.le_add_left _ _, Nat.add_lt_add_right (hbelow r₀.id (id_mem_bodyIds hr₀)) _⟩
  have hmerged := h.relax.merge (Nat.le_refl _) (.nil _ _) (Nat.le_add_right _ _) hreferences
    (Nat.le_add_right _ _)
  refine hmerged.learn ⟨hrecorded, fun id hid => ?_, hbelow, fun id hid => ?_⟩
  · refine (Hops.find?_merge_fresh h.fresh (Nat.le_add_left _ _)).trans ?_
    exact hopsOf_moved 0 s.nextNode _ id
  · exact Nat.add_lt_add_right (hbelow id hid) _

theorem Twin.checked_reading (hproblems : (resolveBody c σ ss).1.problems = [])
    (hdistinct : (bodyIds ss).Nodup) (hformed : bodyFormed ss)
    (hplaced : Opened c.inClass σ ∧ σ.Settled) (gap : Nat) :
    Checked (Twin.reading table c σ ss gap).table' c σ (.body ss) :=
  ⟨⟨hproblems, hdistinct, fun _ _ => rfl⟩, hformed, hplaced⟩

end

/-! ## Frames that are left out -/

section

variable {early late : Prop} {w : Layout} {T : Twin} {gaps : Gaps} {env env' : Environment}

theorem Agree.stillPartial {α β : Type} {R : Layout → α → β → Prop} {x : Eval α} {y : Eval β}
    (h : Agree early late R w x y) (hpartial : ¬ w.whole) :
    Agree early late (fun w' a b => ¬ w'.whole ∧ R w' a b) w x y := by
  intro s s' hs
  have hend := h s s' hs
  generalize x s = r at hend ⊢
  generalize y s' = r' at hend ⊢
  cases hend with
  | ok hw hs hab => exact .ok hw hs ⟨hw.whole ▸ hpartial, hab⟩
  | error hw hs hi => exact .error hw hs hi
  | early h => exact .early h
  | late h => exact .late h

theorem agreedEnd_skip {x : Environment → Eval Completion} {y : Eval Completion} {s s' : Session}
    (hpartial : ¬ w.whole) (hsited : T.Sited w gaps env env')
    (h : ∀ {w₁ env₁}, T.Sited w₁ (true :: gaps) env₁ env' → ¬ w₁.whole →
      Agree early late (Completion.Thins) w₁ (x env₁) y)
    (hs : Session.Thins w s s') :
    AgreedEnd early late (Completion.Thins) (w.skip hpartial) ((Eval.enter env >>= x) s) (y s') := by
  have hinner : T.Sited (w.skip hpartial) (true :: gaps) (w.frames :: env) env' :=
    ⟨hsited.known, .gap (Nat.lt_succ_self _) w.image_frames
      (hsited.env.mono (w.later_skip hpartial).le)⟩
  have hentered := h hinner hpartial _ _ (hs.skip hpartial)
  rw [← hs.frames.size] at hentered
  exact hentered

/-- A frame that is left out is empty whenever evaluation stops. -/
theorem AgreedEnd.empty {α β : Type} {R : Layout → α → β → Prop} {f : FrameId}
    {r : EStateM.Result Interrupt Session α} {r' : EStateM.Result Interrupt Session β}
    (h : AgreedEnd False False R w r r') (hf : f < w.frames) (hnone : w.image f = none) :
    (leftBy r).frames.bindings f = [] := by
  cases h with
  | ok hw hs _ | error hw hs _ =>
      exact hs.frames.empty (Nat.lt_of_lt_of_le hf hw.le.frames) ((hw.le.image hf).trans hnone)
  | early h | late h => exact h.elim

/-- The frame of a block that declares nothing binds nothing, however far the block runs. -/
theorem Anchored.empty_of_quiet {s : Session} {table : NodeId → Option Nat} {c : Context}
    {σ : Scopes} {ss : List Stmt} (h : Anchored w s env table c σ (.stmt (.block ss)))
    (hquiet : ∀ st ∈ ss, st.declares = false) (n : Nat) :
    (leftBy (Eval.exec n env (.block ss) s)).frames.bindings s.frames.frames.size = [] := by
  cases n with
  | zero => exact s.frames.bindings_size
  | succ n =>
      have hbody := h.checked.block
      have hσ : Scopes.Thins (true :: List.replicate (σ.length + 1) false) ([] :: σ) σ :=
        .gap h.checked.placed.2 (Scopes.thins_self σ)
      have hproblems : (resolveBody c σ ss).1.problems = [] :=
        (problems_thin_body hσ hbody.formed fun _ => hquiet).trans hbody.sound.problems
      have hchecked : Checked (Twin.reading table c σ ss s.nextNode).table' c σ (.body ss) :=
        Twin.checked_reading hproblems hbody.sound.distinct hbody.formed h.checked.placed _
      have hthin : BodyThins (.reading table c σ ss s.nextNode)
          (true :: List.replicate (σ.length + 1) false) ss (movedBody 0 (· + s.nextNode) ss) :=
        bodyThins (T := .reading table c σ ss s.nextNode) hσ (fun _ => hquiet) hbody hchecked
          fun _ hid => hid
      have hs := h.session.thins.reading h.recorded h.below c σ
      have hpartial : ¬ (w.relax.learn (.reading table c σ ss s.nextNode)).whole := id
      have hend := agreedEnd_skip (x := fun inner => Eval.execAll n inner ss) hpartial
        ⟨.inl rfl, h.env.mono (Layout.le_trans w.le_relax (w.relax.later_learn _).le)⟩
        (fun hsited _ => (evaluationsAgree_same n).execAll hsited hthin) hs
      rw [h.session.thins.frames.size]
      exact hend.empty (Nat.lt_succ_self _) w.image_frames

end

end Lox
