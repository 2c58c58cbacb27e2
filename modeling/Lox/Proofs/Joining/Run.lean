import Lox.Proofs.Joining.Lowering

/-!
# Running a program line by line

A program may be run in one go or in parts, one after the other.  A part that ran to its end has left
the session as it is in the middle of the whole run, except that what it printed still counts as output
of the whole.  So the next part does the same as if it had been there from the beginning, on the lines
that it would have had.
-/

namespace Lox

variable {before after : String}

theorem Eval.execAll_append {fuel : Nat} {env : Environment} {body more : List Stmt}
    {s t : Session} (h : execAll (body.length + fuel) env body s = .ok .normal t) :
    execAll (body.length + fuel) env (body ++ more) s = execAll fuel env more t := by
  induction body generalizing s with
  | nil =>
      cases fuel with
      | zero => cases h
      | succ fuel =>
          rw [List.length_nil, Nat.zero_add] at h ⊢
          cases h
          rfl
  | cons stmt body ih =>
      rw [List.length_cons, Nat.add_right_comm] at h ⊢
      rw [execAll] at h
      rw [List.cons_append, execAll]
      obtain ⟨completion, s₁, hstmt, hrest⟩ := eval_bind_inv h
      rw [eval_bind_ok hstmt]
      cases completion with
      | normal => exact ih hrest
      | returned _ => cases hrest

theorem Eval.caught_congr {x y : Eval Completion} {s t : Session} (h : x s = y t) :
    (do let error ← catchFault x; conclude error : Eval Report) s =
      (do let error ← catchFault y; conclude error : Eval Report) t := by
  rw [eval_bind_apply, eval_bind_apply]
  unfold catchFault
  rw [h]

theorem Hops.merge_append (h : Hops) (references references' : List Reference) :
    h.merge (references ++ references') = (h.merge references).merge references' :=
  List.foldl_append

theorem problems_compile (source : String) (i j : NodeId) :
    (compile source i).problems = (compile source j).problems := by
  have hi := problems_compile_later i source 0
  have hj := problems_compile_later j source 0
  rw [Nat.zero_add] at hi hj
  rw [hi, hj]

/-! ## The first part -/

section

variable {s s₁ : Session} {fuel : Nat}

/-- A program that ran to its end has executed its statements, and they have left the flags alone. -/
theorem Session.HostsWithin.finished (hhosts : s.HostsWithin .noCode)
    (hvalid : (compile before s.nextNode).problems = [])
    (hrun : Session.run fuel before s = .ok .finished s₁) :
    Eval.execAll fuel Session.globals (compile before s.nextNode).statements (s.ready before) =
        .ok .normal s₁ ∧
      s₁.HostsWithin .noCode ∧ (s.ready before).Retains s₁ := by
  have hready : (s.ready before).HostsWithin .noCode := hhosts.ready before
  have hleft := hready.execAll fuel Session.globals (compile before s.nextNode).statements
  obtain ⟨t, ⟨hstatements, -, rfl⟩ | ⟨_, -, hfailed, -⟩⟩ := Eval.runProgram_inv hvalid hrun
  · rw [hstatements] at hleft ⊢
    have hflag : t.hadRuntimeError = false := hleft.2.runtimeError
    have hsame : { t with hadRuntimeError := false } = t := by rw [← hflag]
    rw [hsame]
    exact ⟨rfl, hleft⟩
  · cases hfailed

/-- Before anything is executed, all the difference that a second part makes is that its distances are
known. -/
theorem Session.ready_joined (hbefore : (compile before s.nextNode).problems = [])
    (hafter : (compile after (compile before s.nextNode).nextId).problems = []) :
    s.ready (joined before after) = (s.ready before).ready after := by
  simp only [Session.ready, Session.beginRun, compile_joined hbefore hafter, Hops.merge_append,
    Hops.merge_moved]

theorem Session.Alike.merge {ℓ : Likeness} {w : World} {t : Session} (hreentry : ¬ ℓ.reentry)
    (hs : Session.Alike ℓ w s t) {references : List Reference} {nextId : NodeId}
    (hle : t.nextNode ≤ nextId) (hreferences : ∀ r ∈ references, t.nextNode ≤ r.id ∧ r.id < nextId) :
    Session.Alike ℓ w s { t with nextNode := nextId, hops := t.hops.merge references } :=
  { hs with
    recorded' := hs.recorded'.merge hle hreferences
    nextNode := fun h => absurd h hreentry }

/-- The first part of a joined program does in a joined run what it does in a run of its own. -/
theorem Session.Alike.firstPart {ℓ : Likeness} {w : World} (hs : Session.Alike ℓ w s s)
    (hgenuine : ℓ.genuine false (.body (compile before s.nextNode).statements))
    (hreentry : ¬ ℓ.reentry) (hbefore : (compile before s.nextNode).problems = [])
    (hafter : (compile after (compile before s.nextNode).nextId).problems = [])
    (hstatements : Eval.execAll fuel Session.globals (compile before s.nextNode).statements
      (s.ready before) = .ok .normal s₁) {fuel' : Nat} (hle : fuel ≤ fuel') :
    ∃ w' t, w'.pace = w.pace.reset ∧ Session.Alike ℓ w' s₁ t ∧
      Eval.execAll fuel' Session.globals (compile before s.nextNode).statements
        ((s.ready before).ready after) = .ok .normal t := by
  have hself : Session.Alike ℓ (w.reset.accept (Code.ofProgram false hbefore 0)) (s.ready before)
      (s.ready before) :=
    hs.beginRun.acceptProgram_self hbefore hgenuine
  have hstart : Session.Alike ℓ (w.reset.accept (Code.ofProgram false hbefore 0)) (s.ready before)
      ((s.ready before).ready after) :=
    hself.merge hreentry (le_nextId_compile after _) (references_bounded hafter)
  have hsited : Sited (w.reset.accept (Code.ofProgram false hbefore 0)) (Code.ofProgram false hbefore 0) {} [] []
      Session.globals (.body (compile before s.nextNode).statements) :=
    .root (.inl rfl) hstart.frames.globals hstart.frames.free_globals
  have heval : EvaluatesAlike ℓ False fuel fuel' := evaluatesAlike hle False.elim
  have hout := heval.execAll hsited (Code.bodyAlike_self hbefore (ℓ.token_self hgenuine)) _ _ hstart
  rw [hstatements] at hout
  generalize Eval.execAll fuel' Session.globals (compile before s.nextNode).statements
    ((s.ready before).ready after) = r at hout
  cases hout with
  | @ok w' _ t _ _ hw ht hend =>
      cases hend with
      | normal _ =>
          have hpace := hw.pace.resolve_right fun h => hreentry h.1
          exact ⟨w', t, hpace, ht, rfl⟩

end

/-! ## The second part -/

/-- A session that was left in the middle of a run is like one in which the rest is about to run. -/
theorem Session.Alike.secondPart {ℓ : Likeness} {w : World} {s t : Session} {source : String}
    (hs : Session.Alike ℓ w s t)
    (hgenuine : ℓ.genuine true (.body (compile source s.nextNode).statements))
    (hreentry : ¬ ℓ.reentry) (hahead : w.pace.ahead = #[])
    (hvalid : (compile source s.nextNode).problems = [])
    (hretains : (s.ready source).Retains t) :
    Session.Alike ℓ ((w.paced { ahead := s.output }).accept (Code.ofProgram true hvalid 0))
      (s.ready source) t := by
  have hbegun : Session.Alike ℓ (w.paced { ahead := s.output }) s.beginRun t := by
    refine hs.paced (Nat.le_refl _) (Nat.le_refl _) (fun h => absurd h hreentry)
      (fun h => absurd h hreentry) ?_ (fun _ => hretains.staticError) fun _ => hretains.runtimeError
    rw [hs.output, hahead, Array.empty_append, Array.append_empty]
  have hrecorded : Recorded ((w.paced { ahead := s.output }).accept (Code.ofProgram true hvalid 0))
      (fun _ id => id) (s.ready source).hops (s.ready source).nextNode :=
    hbegun.recorded.accept (le_nextId_compile source s.nextNode) (compile_checked hvalid).2.bounds
      (fun _ _ => rfl) (references_bounded hvalid)
  refine hbegun.accept hgenuine hrecorded (hbegun.recorded'.add (fun id hid => ?_)
    fun id hid => ?_) fun h => absurd h hreentry
  · rw [hretains.hops]
    exact hrecorded.table (.inl rfl) hid
  · rw [hretains.nextNode]
    exact hrecorded.below (.inl rfl) hid

section

variable {s s₁ : Session} {known : Value → Prop} {log : List Entry} {fuel : Nat}

/-- The second part of a joined program does the same as in a run of its own, on the same lines. -/
theorem Session.run_joined_same (h : Chronicle .secluded s known log) (hhosts : s.HostsWithin .noCode)
    (hbefore : (compile before s.nextNode).problems = [])
    (hafter : (compile after (compile before s.nextNode).nextId).problems = [])
    (hrun : Session.run fuel before s = .ok .finished s₁) {fuel' : Nat}
    (hfuel : fuel ≤ (compile before s.nextNode).statements.length + fuel') :
    ∃ ours, EndsLowered (compile (lowered (linesOf before) after) s₁.nextNode).statements
      (⟨.run before, s.nextNode⟩ :: log) 0 s₁.output ours
      (Session.run fuel' (lowered (linesOf before) after) s₁)
      (Session.run ((compile before s.nextNode).statements.length + fuel') (joined before after) s) := by
  obtain ⟨hstatements, hwithin₁, hretains₁⟩ := hhosts.finished hbefore hrun
  have hvalid : (compile (lowered (linesOf before) after) s₁.nextNode).problems = [] := by
    rw [hretains₁.nextNode]
    exact problems_lowered hafter _
  let ℓ := Likeness.lowering (compile (lowered (linesOf before) after) s₁.nextNode).statements
    (⟨.run before, s.nextNode⟩ :: log) 0
  obtain ⟨w, hs, -⟩ := h.alike (Likeness.lowering_obeys _ _ 0 : ℓ.Obeys .secluded)
    fun hpart => .inr ⟨rfl, hpart.mono fun _ => List.mem_cons_of_mem _⟩
  obtain ⟨w', t, hpace, ht, hfirst⟩ :=
    hs.firstPart (.inr ⟨rfl, _, List.mem_cons_self, .run hbefore⟩) id hbefore hafter hstatements hfuel
  have hready : (s.ready before).HostsWithin .noCode := hhosts.ready before
  have hready' : ((s.ready before).ready after).HostsWithin .noCode := hready.ready after
  have hleft := hready'.execAll ((compile before s.nextNode).statements.length + fuel')
    Session.globals (compile before s.nextNode).statements
  rw [hfirst] at hleft
  obtain ⟨hwithin, hretains'⟩ : t.HostsWithin .noCode ∧ ((s.ready before).ready after).Retains t :=
    hleft
  have hretains : (s₁.ready (lowered (linesOf before) after)).Retains t := by
    rw [s₁.ready_lowered]
    exact (hretains₁.ready after).of_common hretains'
  have hstart := ht.secondPart (.inl ⟨rfl, rfl⟩) id (congrArg Pace.ahead hpace) hvalid hretains
  have hwhole : Session.run ((compile before s.nextNode).statements.length + fuel')
      (joined before after) s = (do
        let error ← Eval.catchFault (Eval.execAll fuel' Session.globals
          (compile (lowered (linesOf before) after) s₁.nextNode).statements)
        Eval.conclude error : Eval Report) t := by
    have hjoined := compile_joined hbefore hafter
    have hnext : s₁.nextNode = (compile before s.nextNode).nextId := hretains₁.nextNode
    unfold Session.run
    rw [Eval.runProgram_accepted (congrArg Compilation.problems hjoined),
      Session.ready_joined hbefore hafter, hnext]
    apply Eval.caught_congr
    rw [hjoined, compile_lowered]
    exact Eval.execAll_append hfirst
  rw [hwhole]
  unfold Session.run
  rw [Eval.runProgram_accepted hvalid]
  have hwithin₂ : (s₁.ready (lowered (linesOf before) after)).HostsWithin .noCode := hwithin₁.ready _
  obtain ⟨haccepted, hcaught⟩ := Eval.ends_caught (Eval.execAll fuel' Session.globals
    (compile (lowered (linesOf before) after) s₁.nextNode).statements)
    (s₁.ready (lowered (linesOf before) after))
  have hsame : EvaluatesAlike ℓ True fuel' fuel' := evaluatesAlike_same fuel'
  have hbody : BodyAlike ℓ (Code.ofProgram true hvalid 0) [] _ _ :=
    Code.bodyAlike_self hvalid fun t ht => .inl ⟨rfl, ht, t.down_zero.symm⟩
  refine (outcome_statements hsame.execAll rfl hbody hstart).endsLowered rfl ?_ ?_ haccepted hcaught
  · rw [(hwithin.retains fuel' _ _).1, (hwithin₂.retains fuel' _ _).1, hretains.hops]
  · rw [(hwithin.retains fuel' _ _).2, (hwithin₂.retains fuel' _ _).2, hretains.nextNode]

end

/-- A function that fails on what is not a number. -/
def negating : String :=
  "fun f(a) \x7b return -a; \x7d"

def finished? : EStateM.Result Interrupt Session Report → Option Session
  | .ok .finished s => some s
  | _ => none

theorem finished?_inv {r : EStateM.Result Interrupt Session Report} {s : Session}
    (h : finished? r = some s) : r = .ok .finished s := by
  unfold finished? at h
  split at h
  · cases h
    rfl
  · cases h

end Lox
