import Lox.Proofs.History.Growth
import Lox.Proofs.History.Log
import Lox.Proofs.History.Lookups

/-!
# Resolutions are for life

No two nodes of all that a session was ever given to read have one number.  So the distances of new
code never replace old ones, and whenever code is evaluated, in whichever later step, its references
are looked up at the distances that resolution found in its own source.
-/

namespace Lox

/-! ## What a step reads -/

namespace Step

/-- All nodes that are built for a step, whether a part of its code has them in the end or not. -/
def built (i : NodeId) : Step → List Expr
  | .run code | .execute code => ((Scan.ofSource code).readProgram i).ledger.built
  | .evaluate code => ((Scan.ofSource code).readExpression i).ledger.built
  | _ => []

/-- The nodes of the code that a step reads, also if it is refused in the end. -/
def nodes (i : NodeId) : Step → List Expr
  | .run code | .execute code => bodyNodes (compile code i).statements
  | .evaluate code => optionalNodes ((Scan.ofSource code).readExpression i).tree
  | _ => []

/-- The numbers of the references among these nodes. -/
def ids (i : NodeId) : Step → List NodeId
  | .run code | .execute code => bodyIds (compile code i).statements
  | .evaluate code => optionalIds ((Scan.ofSource code).readExpression i).tree
  | _ => []

def stop (i : NodeId) : Step → NodeId
  | .run code | .execute code => (compile code i).nextId
  | .evaluate code => (compileExpression code i).nextId
  | _ => i

def entered (i : NodeId) : Step → List Reference
  | .run code | .execute code => (compile code i).entered
  | _ => []

/-- The nodes that are built for a step have the numbers up to its last one. -/
theorem numbers_built (step : Step) (i : NodeId) :
    ∃ ids, (step.built i).map Expr.number? = ids.map some ∧ Numbered i ids (step.stop i) := by
  cases step with
  | run code | execute code =>
      rw [stop, nextId_compile]
      exact (holds_readProgram (Scan.ofSource code) i).grows.numbered
  | evaluate code =>
      rw [stop, nextId_compileExpression]
      exact (holds_readExpression (Scan.ofSource code) i).grows.numbered
  | _ => exact ⟨[], rfl, .nil i⟩

/-- No node is in the code of a step more often than it was built for it. -/
theorem nodes_subperm (step : Step) (i : NodeId) : (step.nodes i).Subperm (step.built i) := by
  cases step with
  | run code | execute code =>
      rw [nodes, statements_compile]
      exact (holds_readProgram (Scan.ofSource code) i).subperm_built
  | evaluate code => exact (holds_readExpression (Scan.ofSource code) i).subperm_built
  | _ => exact .refl []

theorem ids_sublist (step : Step) (i : NodeId) :
    (step.ids i).Sublist ((step.nodes i).filterMap Expr.number?) := by
  cases step with
  | run code | execute code => exact bodyIds_sublist _
  | evaluate code => exact optionalIds_sublist _
  | _ => exact .refl []

theorem numbered_ids (step : Step) (i : NodeId) : Numbered i (step.ids i) (step.stop i) := by
  cases step with
  | run code => exact numbered_compile code i
  | execute code => exact numbered_compile code i
  | evaluate code =>
      have h := numbered_readExpression code i
      rw [← nextId_compileExpression] at h
      exact h
  | _ => exact .nil i

theorem entered_ge {step : Step} {i : NodeId} {r : Reference} (hr : r ∈ step.entered i) :
    i ≤ r.id := by
  cases step with
  | run code => exact (entered_bounded hr).1
  | execute code => exact (entered_bounded hr).1
  | _ => cases hr

/-- The session once a step has read its source. -/
def readBy (step : Step) (s : Session) : Session :=
  { s with nextNode := step.stop s.nextNode, hops := s.hops.merge (step.entered s.nextNode) }

theorem grows_readBy (step : Step) (s : Session) : s.Grows (step.readBy s) :=
  .merge (step.numbered_ids s.nextNode).le fun _ hr => entered_ge hr

theorem grows_take (step : Step) (fuel : Nat) (s : Session) :
    (step.readBy s).Grows (leftBy (step.take fuel s)) := by
  have upheld : s.Grows (leftBy (step.take fuel s)) := Eval.Upholds.always inferInstance s
  cases step with
  | run code =>
      rw [take, Eval.take, leftBy_map]
      exact grows_runProgram fuel code s
  | execute code =>
      rw [take, Eval.take, leftBy_map]
      refine (grows_runProgram fuel code s).trans ?_
      rw [Eval.executeProgram, eval_bind_apply]
      cases Eval.runProgram (Eval.execAll fuel) code s with
      | ok report t => cases report <;> exact .refl t
      | error interrupt t => exact .refl t
  | evaluate code =>
      rw [take, Eval.take, leftBy_map]
      unfold Eval.evaluateCode
      rw [eval_get_bind_apply, eval_modify_bind_apply]
      cases (compileExpression code s.nextNode).tree with
      | error problems => exact .refl _
      | ok e =>
          dsimp only
          rw [leftBy_map]
          exact ((Eval.allUphold .all Session.Grows fuel).eval Session.globals e).always _
  | runOther | get | set | call => exact upheld

end Step

section

variable {step : Step} {i : NodeId} {part : Part}

theorem Step.Compiles.ids_eq (h : step.Compiles i part) : step.ids i = part.ids := by
  cases h with
  | run _ => rfl
  | execute _ => rfl
  | evaluate htree => exact congrArg optionalIds (read_of_compileExpression htree).1

/-- The distances that an accepted step enters are those that resolution finds. -/
theorem Step.Compiles.distance_eq (h : step.Compiles i part) {id : NodeId} (hid : id ∈ part.ids) :
    hopsOf (step.entered i) id = part.distance id := by
  have program : ∀ {code : String}, (compile code i).problems = [] →
      id ∈ bodyIds (compile code i).statements → hopsOf (compile code i).entered id =
        Part.distance (.body (compile code i).statements) id := by
    intro code hnone hid
    unfold Compilation.entered
    rw [hnone]
    exact (compile_checked hnone).1.sound.recorded id hid
  cases h with
  | run hnone => exact program hnone hid
  | execute hnone => exact program hnone hid
  | evaluate htree => exact (compileExpression_checked htree).1.sound.recorded id hid

theorem Step.entered_eq_nil (h : ∀ part, ¬ step.Compiles i part) : step.entered i = [] := by
  have program : ∀ {code : String}, (compile code i).problems ≠ [] →
      (compile code i).entered = [] := by
    intro code hsome
    unfold Compilation.entered
    rw [if_neg (fun hempty => hsome (List.isEmpty_iff.mp hempty))]
  cases step with
  | run code => exact program fun hnone => h _ (.run hnone)
  | execute code => exact program fun hnone => h _ (.execute hnone)
  | _ => rfl

end

/-! ## Chronicles -/

/-- Hosts that look into values as they like, but hand in no code while a step is taken.  So all code
comes from the steps themselves, one after the other. -/
def HostRules.withoutRuns : HostRules :=
  { HostRules.honest False with allowed := fun step => ¬ step.HandsIn }

namespace Entry

def built (entry : Entry) : List Expr :=
  entry.step.built entry.start

def nodes (entry : Entry) : List Expr :=
  entry.step.nodes entry.start

def ids (entry : Entry) : List NodeId :=
  entry.step.ids entry.start

/-- The first number after those that were given out for an entry, used or not. -/
def stop (entry : Entry) : NodeId :=
  entry.step.stop entry.start

end Entry

/-- The nodes of all entries have numbers, which are different and below `i`. -/
def NumberedBelow (i : NodeId) (log : List Entry) : Prop :=
  ∃ ids, (log.flatMap Entry.built).map Expr.number? = ids.map some ∧ Numbered 0 ids i

theorem NumberedBelow.cons {log : List Entry} {s : Session} (h : NumberedBelow s.nextNode log)
    (step : Step) : NumberedBelow (step.stop s.nextNode) (⟨step, s.nextNode⟩ :: log) := by
  obtain ⟨ids, hids, hnumbered⟩ := h
  obtain ⟨new, hnew, hnumbered'⟩ := step.numbers_built s.nextNode
  refine ⟨new ++ ids, ?_, (hnumbered.append hnumbered').perm List.perm_append_comm⟩
  rw [List.flatMap_cons, List.map_append, List.map_append, hids]
  exact congrArg (· ++ ids.map some) hnew

theorem NumberedBelow.later {log : List Entry} {i j : NodeId} (h : NumberedBelow i log)
    (hle : i ≤ j) : NumberedBelow j log := by
  obtain ⟨ids, hids, hnumbered⟩ := h
  exact ⟨ids, hids, hnumbered.later hle⟩

/-- The likeness under which nothing may differ, and code comes from the entries of a chronicle. -/
def Likeness.logged (log : List Entry) : Likeness :=
  { Likeness.exact False with
    genuine := fun _ => Standing log
    allowed := fun step => ¬ step.HandsIn
    reentry := False
    token_self := fun _ _ _ => rfl
    reentry_of_allowed := fun h => h
    genuine_of_accepted := False.elim }

theorem Likeness.logged_obeys (log : List Entry) : (Likeness.logged log).Obeys .withoutRuns where
  view w := ⟨fun _ _ h => h.eq_self ⟨fun h => h, fun h => h⟩,
    Likeness.view_clear (fun h => h) (fun _ => rfl) w⟩
  strict := Iff.rfl
  allowed h := h

namespace Chronicle

variable {s : Session} {known : Value → Prop} {log : List Entry}

/-- Nothing is known of references yet to come. -/
theorem fresh (h : Chronicle .withoutRuns s known log) {id : NodeId} (hid : s.nextNode ≤ id) :
    s.hops.find? id = none := by
  obtain ⟨w, hs, -⟩ := h.alike (Likeness.logged_obeys log) fun hpart => hpart
  exact hs.recorded.fresh hid

theorem numbered (h : Chronicle .withoutRuns s known log) : NumberedBelow s.nextNode log := by
  induction h with
  | start _ => exact ⟨[], rfl, .nil 0⟩
  | @taken s known log step fuel _ _ ih => exact (ih.cons step).later (step.grows_take fuel s).numbers

/-- The numbers of an entry are given out after those of all earlier entries. -/
theorem ordered (h : Chronicle .withoutRuns s known log) : (∀ entry ∈ log, entry.stop ≤ s.nextNode) ∧
    log.Pairwise fun later earlier => earlier.stop ≤ later.start := by
  induction h with
  | start _ => exact ⟨nofun, .nil⟩
  | @taken s known log step fuel _ _ ih =>
      have hgrows := step.grows_take fuel s
      have hle := ((step.grows_readBy s).trans hgrows).numbers
      refine ⟨fun entry hentry => ?_, .cons ih.1 ih.2⟩
      rcases List.mem_cons.mp hentry with rfl | hentry
      · exact hgrows.numbers
      · exact Nat.le_trans (ih.1 entry hentry) hle

theorem recorded (h : Chronicle .withoutRuns s known log) :
    ∀ entry ∈ log, ∀ id ∈ entry.ids,
      s.hops.find? id = hopsOf (entry.step.entered entry.start) id := by
  -- Numbers of earlier entries are below those that the step gives out, so it leaves their
  -- distances alone.
  induction h with
  | start _ => exact nofun
  | @taken s known log step fuel h _ ih =>
      intro entry hentry id hid
      have hgrows := step.grows_take fuel s
      rcases List.mem_cons.mp hentry with rfl | hentry
      · obtain ⟨hlow, hhigh⟩ := (step.numbered_ids s.nextNode).bounds id hid
        rw [hgrows.distances id hhigh]
        change (s.hops.merge (step.entered s.nextNode)).find? id = _
        rw [Hops.find?_merge, h.fresh hlow, Option.or_none]
      · have hlt := ((entry.step.numbered_ids entry.start).bounds id hid).2
        rw [((step.grows_readBy s).trans hgrows).distances id
          (Nat.lt_of_lt_of_le hlt (h.ordered.1 entry hentry))]
        exact ih entry hentry id hid

end Chronicle

/-- What holds of a session and its chronicle when a step is taken. -/
structure Session.Stable (s : Session) (log : List Entry) (step : Step) : Prop where
  /-- Every node that was ever built has a number, -/
  numbered : ∀ entry ∈ ⟨step, s.nextNode⟩ :: log, ∀ e ∈ entry.built, ∃ id, e.number? = some id
  /-- and no two have one number: also nodes of the new step, of refused sources, of statements that
  broke off, and of targets that became assignments. -/
  distinct : (((⟨step, s.nextNode⟩ :: log).flatMap Entry.built).map Expr.number?).Nodup
  /-- All code consists of these nodes, each used once. -/
  among : ∀ entry ∈ ⟨step, s.nextNode⟩ :: log, entry.nodes.Subperm entry.built
  /-- References are nodes. -/
  references : ∀ entry ∈ ⟨step, s.nextNode⟩ :: log,
    entry.ids.Sublist (entry.nodes.filterMap Expr.number?)
  /-- Each source has its numbers from a range of its own. -/
  ranges : (⟨step, s.nextNode⟩ :: log).Pairwise fun later earlier => earlier.stop ≤ later.start
  /-- The session knows the distances of all accepted code, as resolution found them. -/
  recorded : ∀ {entry part}, entry ∈ log → entry.step.Compiles entry.start part →
    ∀ id ∈ entry.ids, s.hops.find? id = part.distance id
  /-- It knows nothing of refused code. -/
  unrecorded : ∀ {entry}, entry ∈ log → (∀ part, ¬ entry.step.Compiles entry.start part) →
    ∀ id ∈ entry.ids, s.hops.find? id = none
  /-- What the step enters, if it is accepted, replaces nothing. -/
  unused : ∀ r ∈ step.entered s.nextNode, s.hops.find? r.id = none
  /-- References are looked up at the distances that resolution found in their own source. -/
  consulted : ∀ {fuel n task s₁ part id}, Visits step fuel s (n + 1) task s₁ →
    task.Refers part id → ∃ entry ∈ ⟨step, s.nextNode⟩ :: log, ∃ root c σ,
      entry.step.Compiles entry.start root ∧ Reaches root c σ part ∧ id ∈ entry.ids ∧
        task.GoesBy n s₁ (root.distance id)

theorem Chronicle.stable {s : Session} {known : Value → Prop} {log : List Entry} {step : Step}
    (h : Chronicle .withoutRuns s known log) (hstep : step.Follows .withoutRuns known) :
    s.Stable log step where
  numbered entry hentry e he := by
    obtain ⟨ids, hids, -⟩ := h.numbered.cons step
    have hmem := List.mem_map_of_mem (f := Expr.number?) (List.mem_flatMap_of_mem hentry he)
    rw [hids] at hmem
    obtain ⟨id, -, heq⟩ := List.mem_map.mp hmem
    exact ⟨id, heq.symm⟩
  distinct := by
    obtain ⟨ids, hids, hnumbered⟩ := h.numbered.cons step
    rw [hids]
    exact List.Pairwise.map some (fun _ _ hne heq => hne (Option.some.inj heq)) hnumbered.distinct
  among entry _ := entry.step.nodes_subperm entry.start
  references entry _ := entry.step.ids_sublist entry.start
  ranges := .cons h.ordered.1 h.ordered.2
  recorded hentry hcompiles id hid := by
    rw [h.recorded _ hentry id hid, hcompiles.distance_eq (hcompiles.ids_eq ▸ hid)]
  unrecorded hentry hrefused id hid := by
    rw [h.recorded _ hentry id hid, Step.entered_eq_nil hrefused]
    rfl
  unused r hr := h.fresh (Step.entered_ge hr)
  consulted hvisits hrefers := by
    obtain ⟨w, hs, hknown⟩ := h.alike (Likeness.logged_obeys (⟨step, s.nextNode⟩ :: log))
      fun hpart => hpart.mono fun _ => List.mem_cons_of_mem _
    have hstands := hvisits.stands hs (fun h => ⟨_, List.mem_cons_self, h⟩)
      (hstep.alike (Likeness.logged_obeys _) hknown)
    obtain ⟨w', code, c, σ, ρs, env, hs', hsited, hid, hgoes⟩ := hrefers.settled hstands
    obtain ⟨entry, hentry, hcompiles⟩ := hs'.genuine hsited.accepted
    refine ⟨entry, hentry, code.part, c, σ, hcompiles, hsited.reaches, ?_, hgoes⟩
    rw [Entry.ids, hcompiles.ids_eq]
    exact hsited.id_mem hid

/-- A program that keeps a closure for later. -/
def keeping : String :=
  "var keep; \x7b var a = \"x\"; fun get() \x7b return a; \x7d keep = get; \x7d"

/-- The session after that program and one that is refused. -/
def kept : Session :=
  leftBy ((Step.run "\x7b var b = b; \x7d").take 20
    (leftBy ((Step.run keeping).take 20 (.start {} [] fun _ => 0))))

theorem Chronicle.stable_kept : ∃ known,
    Chronicle .withoutRuns kept known [⟨.run "\x7b var b = b; \x7d", 5⟩, ⟨.run keeping, 0⟩] ∧
      (Step.evaluate "keep()").Follows .withoutRuns known ∧
      kept.Stable [⟨.run "\x7b var b = b; \x7d", 5⟩, ⟨.run keeping, 0⟩] (.evaluate "keep()") ∧
      kept.hops.find? 1 = some 1 := by
  have hstart : Chronicle .withoutRuns (.start {} [] fun _ => 0) (fun _ => False) [] :=
    .start False.elim
  have hkeeping := @Chronicle.taken _ _ _ _ (.run keeping) 20 hstart .run
  have hkept := @Chronicle.taken _ _ _ _ (.run "\x7b var b = b; \x7d") 20 hkeeping .run
  have hnext : (leftBy ((Step.run keeping).take 20 (.start {} [] fun _ => 0))).nextNode = 5 := by
    decide
  rw [hnext] at hkept
  have hnone : (compile keeping 0).problems = [] := by decide
  have hstable : kept.Stable _ (.evaluate "keep()") := hkept.stable .evaluate
  refine ⟨_, hkept, .evaluate, hstable, ?_⟩
  rw [hstable.recorded (List.mem_cons_of_mem _ List.mem_cons_self) (.run hnone) 1 (by decide)]
  decide

end Lox
