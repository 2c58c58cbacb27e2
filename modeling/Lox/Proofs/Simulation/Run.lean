import Lox.Proofs.Moving.Reading
import Lox.Proofs.Simulation.Exchange
import Lox.Proofs.Simulation.Identity

/-!
# Runs of programs

A program that is accepted becomes part of the code of a world, with the distances of its references.
Runs of the same program in sessions alike come to the same, even if one session has numbered more
references before.
-/

namespace Lox

/-! ## The course of a run -/

/-- The session in which the statements of an accepted program run. -/
def Session.ready (s : Session) (code : String) : Session :=
  { s.beginRun with
    nextNode := (compile code s.nextNode).nextId
    hops := s.hops.merge (compile code s.nextNode).references }

namespace Eval

variable {run : Environment → List Stmt → Eval Completion}

/-- Takes down how the statements of a program ended. -/
def conclude (error : Option RuntimeError) : Eval Report := do
  modify fun s => { s with hadRuntimeError := error.isSome }
  match error with
  | some e => return .failed e
  | none => return .finished

theorem runProgram_accepted {code : String} {s : Session}
    (h : (compile code s.nextNode).problems = []) :
    runProgram run code s = (do
      let error ← catchFault (run Session.globals (compile code s.nextNode).statements)
      conclude error) (s.ready code) := by
  have hnone : (compile code s.beginRun.nextNode).problems.isEmpty = true := List.isEmpty_iff.mpr h
  unfold runProgram
  rw [eval_modify_bind_apply, eval_get_bind_apply, eval_modify_bind_apply, if_pos hnone]
  rfl

theorem runProgram_rejected {code : String} {s : Session}
    (h : (compile code s.nextNode).problems ≠ []) :
    runProgram run code s = .ok (.rejected (compile code s.nextNode).problems)
      { s.beginRun with nextNode := (compile code s.nextNode).nextId, hadStaticError := true } := by
  have hsome : ¬ (compile code s.beginRun.nextNode).problems.isEmpty :=
    fun hnone => h (List.isEmpty_iff.mp hnone)
  unfold runProgram
  rw [eval_modify_bind_apply, eval_get_bind_apply, eval_modify_bind_apply, if_neg hsome,
    eval_modify_bind_apply]
  rfl

theorem runProgram_inv {code : String} {s s' : Session} {report : Report}
    (hnone : (compile code s.nextNode).problems = []) (h : runProgram run code s = .ok report s') :
    ∃ s₁ : Session,
      (run Session.globals (compile code s.nextNode).statements (s.ready code) = .ok .normal s₁ ∧
        report = .finished ∧ s' = { s₁ with hadRuntimeError := false }) ∨
      ∃ e, run Session.globals (compile code s.nextNode).statements (s.ready code) =
          .error (.fault e) s₁ ∧
        report = .failed e ∧ s' = { s₁ with hadRuntimeError := true } := by
  rw [runProgram_accepted hnone] at h
  obtain ⟨error, s₁, hcatch, hconclude⟩ := eval_bind_inv h
  refine ⟨s₁, ?_⟩
  unfold catchFault at hcatch
  split at hcatch
  · next hrun =>
      cases hcatch
      cases hconclude
      exact .inl ⟨hrun, rfl, rfl⟩
  · cases hcatch
  · next e _ hrun =>
      cases hcatch
      cases hconclude
      exact .inr ⟨e, hrun, rfl, rfl⟩
  · cases hcatch

/-- Once its statements run, a program is not rejected any more, and faults are caught. -/
theorem ends_caught (x : Eval Completion) (s : Session) :
    (∀ problems t, (do let error ← catchFault x; conclude error : Eval Report) s ≠
      .ok (.rejected problems) t) ∧
    ∀ e t, (do let error ← catchFault x; conclude error : Eval Report) s ≠ .error (.fault e) t := by
  rw [eval_bind_apply]
  unfold catchFault
  rcases x s with ⟨_ | _, t⟩ | ⟨_ | _ | _ | _, t⟩ <;> exact ⟨fun _ _ => nofun, fun _ _ => nofun⟩

end Eval

/-! ## The table of distances -/

namespace Hops

theorem find?_insert (h : Hops) (id hops other : Nat) :
    (h.insert id hops).find? other = if id = other then some hops else h.find? other := by
  unfold find? insert
  dsimp only
  rw [Array.getElem?_setIfInBounds]
  by_cases hid : id = other
  · subst hid
    have hroom : id < h.table.size + (id + 1 - h.table.size) := by omega
    simp [hroom]
  · rw [if_neg hid, if_neg hid, Array.getElem?_append]
    split
    · rfl
    · next hbound =>
        have hnone : h.table[other]? = none := Array.getElem?_eq_none (Nat.le_of_not_lt hbound)
        rw [hnone, Array.getElem?_replicate]
        split <;> rfl

theorem find?_merge (h : Hops) (references : List Reference) (id : NodeId) :
    (h.merge references).find? id = (hopsOf references id).or (h.find? id) := by
  unfold merge
  induction references generalizing h with
  | nil => rfl
  | cons r rs ih =>
      rw [List.foldl_cons, ih, find?_insert, hopsOf, Option.or_assoc]
      split <;> rfl

end Hops

variable {ℓ : Likeness} {lockstep : Prop} {w : World}

theorem Recorded.merge {number : Code → NodeId → NodeId} {hops : Hops} {nextNode nextId : NodeId}
    {references : List Reference} (h : Recorded w number hops nextNode) (hle : nextNode ≤ nextId)
    (hreferences : ∀ r ∈ references, nextNode ≤ r.id ∧ r.id < nextId) :
    Recorded w number (hops.merge references) nextId where
  table {c} hc {id} hid := by
    have hnone : hopsOf references (number c id) = none := by
      refine hopsOf_eq_none fun r hr heq => ?_
      have hlow := (hreferences r hr).1
      exact Nat.lt_irrefl _ (Nat.lt_of_lt_of_le (h.below hc hid) (heq ▸ hlow))
    rw [Hops.find?_merge, hnone, Option.none_or, h.table hc hid]
  below hc _ hid := Nat.lt_of_lt_of_le (h.below hc hid) hle
  fresh {id} hid := by
    have hnone : hopsOf references id = none := by
      refine hopsOf_eq_none fun r hr heq => ?_
      have hhigh := (hreferences r hr).2
      exact Nat.lt_irrefl id (Nat.lt_of_lt_of_le (heq ▸ hhigh) hid)
    rw [Hops.find?_merge, hnone, Option.none_or]
    exact h.fresh (Nat.le_trans hle hid)

theorem Recorded.add {number : Code → NodeId → NodeId} {hops : Hops} {nextNode : NodeId}
    {code : Code} (h : Recorded w number hops nextNode)
    (htable : ∀ id ∈ code.part.ids, hops.find? (number code id) = code.table id)
    (hbelow : ∀ id ∈ code.part.ids, number code id < nextNode) :
    Recorded (w.accept code) number hops nextNode where
  table {c} hc {id} hid := by
    rcases hc with rfl | hc
    · exact htable id hid
    · exact h.table hc hid
  below {c} hc {id} hid := by
    rcases hc with rfl | hc
    · exact hbelow id hid
    · exact h.below hc hid
  fresh := h.fresh

theorem Recorded.accept {number : Code → NodeId → NodeId} {hops : Hops} {nextNode nextId : NodeId}
    {code : Code} {references : List Reference} (h : Recorded w number hops nextNode)
    (hle : nextNode ≤ nextId)
    (hbounds : ∀ id ∈ code.part.ids, nextNode ≤ number code id ∧ number code id < nextId)
    (htable : ∀ id ∈ code.part.ids, code.table id = hopsOf references (number code id))
    (hreferences : ∀ r ∈ references, nextNode ≤ r.id ∧ r.id < nextId) :
    Recorded (w.accept code) number (hops.merge references) nextId := by
  refine (h.merge hle hreferences).add (fun id hid => ?_) fun id hid => (hbounds id hid).2
  rw [Hops.find?_merge, htable id hid, h.fresh (hbounds id hid).1, Option.or_none]

/-- Sessions alike stay alike when they get to know more code. -/
theorem Session.Alike.accept {s s' : Session} (h : Session.Alike ℓ w s s') {code : Code}
    (hgenuine : ℓ.genuine code.own code.part)
    {hops hops' : Hops} {nextNode nextNode' : NodeId}
    (hrecorded : Recorded (w.accept code) (fun _ id => id) hops nextNode)
    (hrecorded' : Recorded (w.accept code) Code.renumber hops' nextNode')
    (hnext : ℓ.reentry → nextNode = nextNode' + w.pace.gap) :
    Session.Alike ℓ (w.accept code) { s with hops := hops, nextNode := nextNode }
      { s' with hops := hops', nextNode := nextNode' } :=
  { h with
    frames := h.frames.mono (World.le_accept code) rfl rfl rfl h.frames.declared
    fields := h.fields.mono (World.le_accept code)
    natives := h.natives.mono (World.le_accept code) rfl
    memory := formsAlike_mono (World.le_accept code) h.memory
    genuine := fun hother => hother.elim (fun heq => heq ▸ hgenuine) h.genuine
    recorded := hrecorded
    recorded' := hrecorded'
    nextNode := hnext }

theorem references_bounded {source : String} {i : NodeId} (h : (compile source i).problems = []) :
    ∀ r ∈ (compile source i).references, i ≤ r.id ∧ r.id < (compile source i).nextId := by
  intro r hr
  have hmem : r.id ∈ bodyIds (compile source i).statements := by
    obtain ⟨hscan, phrases, j, hphrases, -⟩ := program_of_compile h
    rw [compile_of_program hscan hphrases] at hr ⊢
    exact id_mem_bodyIds hr
  exact (compile_checked h).2.bounds r.id hmem

/-- Numbers above a gap, with the gap taken out. -/
private theorem sub_bounds {i gap id n : Nat} (hlow : i + gap ≤ id) (hhigh : id < n + gap) :
    i ≤ id - gap ∧ id - gap < n ∧ id = id - gap + gap := by
  omega

theorem hopsOf_moved (k : Int) (d : Nat) (references : List Reference) (id : NodeId) :
    hopsOf (references.map (Reference.moved k (· + d))) (id + d) = hopsOf references id := by
  induction references with
  | nil => rfl
  | cons r rs ih =>
      simp only [List.map_cons, hopsOf, ih, Reference.moved, Nat.add_right_cancel_iff]

/-- An accepted program, whose references have lower numbers in the second run. -/
def Code.ofProgram (own : Bool) {source : String} {i : NodeId}
    (h : (compile source i).problems = []) (gap : Nat) : Code where
  part := .body (compile source i).statements
  own := own
  table := hopsOf (compile source i).references
  checked := (compile_checked h).1
  renumber := fun id => id - gap

section

variable {s s' : Session} {source : String} {i : NodeId} {gap : Nat} {own : Bool}

theorem Session.Alike.gap_eq (hs : Session.Alike ℓ w s s') (hi : s.nextNode = i + gap)
    (hi' : s'.nextNode = i) (hreentry : ℓ.reentry) : gap = w.pace.gap := by
  have hnext := hs.nextNode hreentry
  rw [hi, hi'] at hnext
  exact Nat.add_left_cancel hnext

theorem Session.Alike.acceptProgram (hs : Session.Alike ℓ w s s')
    (h : (compile source (i + gap)).problems = []) (hi : s.nextNode = i + gap)
    (hi' : s'.nextNode = i)
    (hgenuine : ℓ.genuine own (.body (compile source (i + gap)).statements)) :
    Session.Alike ℓ (w.accept (Code.ofProgram own h gap))
      { s with
        hops := s.hops.merge (compile source (i + gap)).references
        nextNode := (compile source (i + gap)).nextId }
      { s' with
        hops := s'.hops.merge (compile source i).references
        nextNode := (compile source i).nextId } := by
  have hnextId := nextId_compile_later gap source i
  have h' : (compile source i).problems = [] := (problems_compile_later gap source i).symm.trans h
  have hbounds := (compile_checked h).2.bounds
  -- In the second run the same references have numbers lower by the gap.
  have hlower : ∀ id ∈ (Code.ofProgram own h gap).part.ids, ∃ id', id = id' + gap ∧ i ≤ id' ∧
      id' < (compile source i).nextId := by
    intro id hid
    obtain ⟨hlow, hhigh⟩ := hbounds id hid
    rw [hnextId] at hhigh
    obtain ⟨hlow', hhigh', heq⟩ := sub_bounds hlow hhigh
    exact ⟨id - gap, heq, hlow', hhigh'⟩
  refine hs.accept hgenuine ?_ ?_ fun hreentry => ?_
  · apply (hi ▸ hs.recorded).accept (le_nextId_compile source (i + gap))
    · exact hbounds
    · exact fun _ _ => rfl
    · exact references_bounded h
  · apply (hi' ▸ hs.recorded').accept (le_nextId_compile source i)
    · intro id hid
      obtain ⟨id', rfl, hlow, hhigh⟩ := hlower id hid
      simp only [Code.ofProgram, Nat.add_sub_cancel]
      exact ⟨hlow, hhigh⟩
    · intro id hid
      obtain ⟨id', rfl, -, -⟩ := hlower id hid
      simp only [Code.ofProgram, Nat.add_sub_cancel, references_compile_later]
      exact hopsOf_moved 0 gap _ id'
    · exact references_bounded h'
  · rw [hnextId, hs.gap_eq hi hi' hreentry]

/-- An accepted expression.  It stands outside of all scopes. -/
def Code.ofExpression {e : Expr} (h : (compileExpression source i).tree = .ok e) (gap : Nat) :
    Code where
  part := .expr e
  own := false
  table := fun _ => none
  checked := (compileExpression_checked h).1
  renumber := fun id => id - gap

theorem Session.Alike.acceptExpression (hs : Session.Alike ℓ w s s') {e : Expr}
    (h : (compileExpression source (i + gap)).tree = .ok e) (hi : s.nextNode = i + gap)
    (hi' : s'.nextNode = i) (hgenuine : ℓ.genuine false (.expr e)) :
    Session.Alike ℓ (w.accept (Code.ofExpression h gap))
      { s with nextNode := (compileExpression source (i + gap)).nextId }
      { s' with nextNode := (compileExpression source i).nextId } := by
  have hnextId := nextId_compileExpression_later gap source i
  have hbounds := (compileExpression_checked h).2.bounds
  have hnone : ∀ hops : Hops, hops.merge [] = hops := fun _ => rfl
  refine hs.accept hgenuine ?_ ?_ fun hreentry => ?_
  · rw [← hnone s.hops]
    apply (hi ▸ hs.recorded).accept (le_nextId_compileExpression source (i + gap))
    · exact hbounds
    · exact fun _ _ => rfl
    · exact fun _ hr => absurd hr List.not_mem_nil
  · rw [← hnone s'.hops]
    apply (hi' ▸ hs.recorded').accept (le_nextId_compileExpression source i)
    · intro id hid
      obtain ⟨hlow, hhigh⟩ := hbounds id hid
      rw [hnextId] at hhigh
      exact ⟨(sub_bounds hlow hhigh).1, (sub_bounds hlow hhigh).2.1⟩
    · exact fun _ _ => rfl
    · exact fun _ hr => absurd hr List.not_mem_nil
  · rw [hnextId, hs.gap_eq hi hi' hreentry]

end

/-! ## The ends of runs -/

/-- No statement outside of functions returns. -/
theorem simulates_catchFault {c : Context} (hc : c.inFunction = none) {P : World → Prop}
    {x y : Eval Completion} (h : Simulates ℓ lockstep (Completion.Alike ℓ c P) w x y) :
    Simulates ℓ lockstep (fun _ => Option.Rel (RuntimeError.Alike ℓ)) w (Eval.catchFault x)
      (Eval.catchFault y) := by
  intro s s' hs
  have hout := h s s' hs
  unfold Eval.catchFault
  generalize x s = r at hout ⊢
  generalize y s' = r' at hout ⊢
  cases hout with
  | ok hw hs hend =>
      cases hend with
      | normal _ => exact .ok hw hs .none
      | returned hin _ => exact absurd hc hin
  | fault hw hs ht hf => exact .ok hw hs (.some ⟨⟨_, ht⟩, rfl, hf⟩)
  | host hw hs hstrict => exact .host hw hs hstrict
  | outOfFuel hw hs => exact .outOfFuel hw hs
  | slack hslack => exact .slack hslack

section

variable {run run' : Environment → List Stmt → Eval Completion} {gap : Nat} {s s' : Session}

theorem renumbers_later (code : Code) (hcode : ∀ id, code.renumber id = id - gap)
    (hnumber : ∀ id, ℓ.number (id + gap) id) : Renumbers ℓ code (· + gap) fun id => id where
  renumber id := by rw [hcode, Nat.add_sub_cancel]
  number := hnumber

/-- Tokens that stay where they are. -/
theorem shifts_zero {code : Code} {tokens : List Token}
    (htokens : ∀ t ∈ tokens, ℓ.token code.own t t) : Shifts ℓ code 0 0 tokens := by
  intro t ht
  rw [t.down_zero]
  exact ⟨htokens t ht, rfl⟩

/-- An accepted program is like itself, if its tokens are. -/
theorem Code.bodyAlike_ofProgram {own : Bool} {source : String} {i : NodeId}
    (h : (compile source (i + gap)).problems = []) (hnumber : ∀ id, ℓ.number (id + gap) id)
    (htokens : ∀ t ∈ bodyTokens (compile source (i + gap)).statements, ℓ.token own t t) :
    BodyAlike ℓ (Code.ofProgram own h gap) [] (compile source (i + gap)).statements
      (compile source i).statements := by
  have hformed : bodyFormed (compile source i).statements :=
    (compile_checked ((problems_compile_later gap source i).symm.trans h)).1.formed
  rw [statements_compile_later, bodyTokens_moved_zero] at htokens
  have hmoved := bodyAlike_moved (renumbers_later (Code.ofProgram own h gap) (fun _ => rfl) hnumber)
    .nil (shifts_zero htokens) hformed
  rwa [movedBody_zero, ← statements_compile_later] at hmoved

theorem Code.exprAlike_ofExpression {source : String} {i : NodeId} {e : Expr}
    (hread : (compileExpression source i).tree = .ok e)
    (h : (compileExpression source (i + gap)).tree = .ok (e.moved 0 (· + gap)))
    (hnumber : ∀ id, ℓ.number (id + gap) id)
    (hgenuine : ℓ.genuine false (.expr (e.moved 0 (· + gap)))) :
    Expr.Alike ℓ (Code.ofExpression h gap) [] (e.moved 0 (· + gap)) e := by
  have htokens := ℓ.token_self hgenuine
  rw [Part.tokens, Expr.tokens_moved_zero] at htokens
  have hmoved := Expr.alike_moved
    (renumbers_later (Code.ofExpression h gap) (fun _ => rfl) hnumber) .nil
    (shifts_zero htokens) (compileExpression_checked hread).1.formed
  rwa [Expr.moved_zero] at hmoved

theorem Session.Alike.acceptProgram_self {own : Bool} (hs : Session.Alike ℓ w s s)
    {source : String} (h : (compile source s.nextNode).problems = [])
    (hgenuine : ℓ.genuine own (.body (compile source s.nextNode).statements)) :
    Session.Alike ℓ (w.accept (Code.ofProgram own h 0))
      { s with
        hops := s.hops.merge (compile source s.nextNode).references
        nextNode := (compile source s.nextNode).nextId }
      { s with
        hops := s.hops.merge (compile source s.nextNode).references
        nextNode := (compile source s.nextNode).nextId } := by
  have hzero : (compile source (s.nextNode + 0)).problems = [] := h
  exact hs.acceptProgram hzero rfl rfl hgenuine

theorem Code.bodyAlike_self {own : Bool} {source : String} {i : NodeId}
    (h : (compile source i).problems = [])
    (htokens : ∀ t ∈ bodyTokens (compile source i).statements, ℓ.token own t t) :
    BodyAlike ℓ (Code.ofProgram own h 0) [] (compile source i).statements
      (compile source i).statements := by
  have hzero : (compile source (i + 0)).problems = [] := h
  exact Code.bodyAlike_ofProgram hzero ℓ.number_refl htokens

theorem Session.Alike.acceptExpression_self (hs : Session.Alike ℓ w s s) {source : String} {e : Expr}
    (h : (compileExpression source s.nextNode).tree = .ok e) (hgenuine : ℓ.genuine false (.expr e)) :
    Session.Alike ℓ (w.accept (Code.ofExpression h 0))
      { s with nextNode := (compileExpression source s.nextNode).nextId }
      { s with nextNode := (compileExpression source s.nextNode).nextId } := by
  have hzero : (compileExpression source (s.nextNode + 0)).tree = .ok e := h
  exact hs.acceptExpression hzero rfl rfl hgenuine

theorem Code.exprAlike_self {source : String} {i : NodeId} {e : Expr}
    (h : (compileExpression source i).tree = .ok e) (hgenuine : ℓ.genuine false (.expr e)) :
    Expr.Alike ℓ (Code.ofExpression h 0) [] e e := by
  have hmoved := Expr.alike_moved
    (renumbers_later (Code.ofExpression h 0) (fun _ => rfl) ℓ.number_refl) .nil
    (shifts_zero (ℓ.token_self hgenuine)) (compileExpression_checked h).1.formed
  change Expr.Alike ℓ (Code.ofExpression h 0) [] (e.moved 0 fun id => id) _ at hmoved
  rwa [Expr.moved_zero] at hmoved

theorem simulates_conclude {e e' : Option RuntimeError}
    (h : Option.Rel (RuntimeError.Alike ℓ) e e') :
    Simulates ℓ lockstep (fun _ => Report.Related (RuntimeError.Alike ℓ)) w (Eval.conclude e) (Eval.conclude e') := by
  have hsame : e'.isSome = e.isSome := by cases h <;> rfl
  unfold Eval.conclude
  rw [hsame]
  have hflag : Simulates ℓ lockstep (fun _ _ _ => True) w
      (modify fun s => { s with hadRuntimeError := e.isSome } : Eval Unit)
      (modify fun s => { s with hadRuntimeError := e.isSome } : Eval Unit) :=
    simulates_modify fun t t' ht =>
      ⟨w, World.later_refl w, { ht with runtimeError := fun _ => rfl }, trivial⟩
  refine hflag.bind fun w₁ _ _ _ _ => ?_
  cases h with
  | none => exact .pure .finished
  | some he => exact .pure (.failed he)

/-- The statements of programs alike run alike, once both are accepted. -/
theorem outcome_statements (hrun : RunsAlike ℓ lockstep run run') {code : Code}
    {ss ss' : List Stmt} (hpart : code.part = .body ss) (hbody : BodyAlike ℓ code [] ss ss')
    (hs : Session.Alike ℓ (w.accept code) s s') :
    Outcome ℓ lockstep (fun _ => Report.Related (RuntimeError.Alike ℓ)) w
      ((do let error ← Eval.catchFault (run Session.globals ss); Eval.conclude error) s)
      ((do let error ← Eval.catchFault (run' Session.globals ss'); Eval.conclude error) s') := by
  have hsited : Sited (w.accept code) code {} [] [] Session.globals (.body ss) :=
    hpart ▸ .root (.inl rfl) hs.frames.globals hs.frames.free_globals
  have hcatch := simulates_catchFault rfl (hrun hsited hbody) s s' hs
  exact (hcatch.bind fun _ _ _ _ he => simulates_conclude he).mono ⟨World.le_accept _, .inl rfl⟩

theorem outcome_runProgram (source : String) (hrun : RunsAlike ℓ lockstep run run')
    (hs : Session.Alike ℓ w s s') (hnext : s.nextNode = s'.nextNode + gap)
    (hnumber : ∀ id, ℓ.number (id + gap) id)
    (hgenuine : (compile source s.nextNode).problems = [] →
      ℓ.genuine false (.body (compile source s.nextNode).statements)) :
    Outcome ℓ lockstep (fun _ => Report.Related (RuntimeError.Alike ℓ)) w.reset (Eval.runProgram run source s)
      (Eval.runProgram run' source s') := by
  have hproblems := problems_compile_later gap source s'.nextNode
  rw [← hnext] at hproblems
  have hs := hs.beginRun
  by_cases hnone : (compile source s.nextNode).problems = []
  · have hnone' : (compile source s'.nextNode).problems = [] := hproblems.symm.trans hnone
    have hgenuine := hgenuine hnone
    rw [Eval.runProgram_accepted hnone, Eval.runProgram_accepted hnone']
    unfold Session.ready
    rw [hnext] at hnone hgenuine ⊢
    exact outcome_statements hrun rfl (Code.bodyAlike_ofProgram hnone hnumber (ℓ.token_self hgenuine))
      (hs.acceptProgram hnone hnext rfl hgenuine)
  · have hsome' : (compile source s'.nextNode).problems ≠ [] :=
      fun hnone' => hnone (hproblems.trans hnone')
    rw [Eval.runProgram_rejected hnone, Eval.runProgram_rejected hsome', hproblems]
    refine .ok (World.later_refl w.reset) ?_ .rejected
    have hle := le_nextId_compile source s.nextNode
    exact { hs with
      recorded := hs.recorded.later hle
      recorded' := hs.recorded'.later (le_nextId_compile source s'.nextNode)
      nextNode := fun hreentry => by
        rw [hnext, nextId_compile_later, hs.gap_eq hnext rfl hreentry]
      staticError := fun _ => rfl }

end

end Lox
