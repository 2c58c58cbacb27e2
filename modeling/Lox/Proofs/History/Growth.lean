import Lox.Proofs.History.Steps
import Lox.Proofs.Preservation.Upheld

/-!
# What evaluation leaves alone

Whatever is evaluated, the numbers of references that were given out are not given out again, and
the distances that are known under them stay what they are.  Programs that a host function runs in
the meantime are no exception.
-/

namespace Lox

/-- A session that may come after another one. -/
structure Session.Grows (s s' : Session) : Prop where
  numbers : s.nextNode ≤ s'.nextNode
  distances : ∀ id < s.nextNode, s'.hops.find? id = s.hops.find? id

namespace Session.Grows

variable {s s' s'' : Session}

theorem refl (s : Session) : s.Grows s :=
  ⟨Nat.le_refl _, fun _ _ => rfl⟩

theorem trans (h : s.Grows s') (h' : s'.Grows s'') : s.Grows s'' where
  numbers := Nat.le_trans h.numbers h'.numbers
  distances id hid :=
    (h'.distances id (Nat.lt_of_lt_of_le hid h.numbers)).trans (h.distances id hid)

theorem merge {references : List Reference} {i : NodeId} (hi : s.nextNode ≤ i)
    (hreferences : ∀ r ∈ references, s.nextNode ≤ r.id) :
    s.Grows { s with nextNode := i, hops := s.hops.merge references } where
  numbers := hi
  distances id hid := by
    have hnone : hopsOf references id = none := by
      refine hopsOf_eq_none fun r hr heq => ?_
      exact Nat.lt_irrefl id (Nat.lt_of_lt_of_le hid (heq ▸ hreferences r hr))
    change (s.hops.merge references).find? id = _
    rw [Hops.find?_merge, hnone, Option.none_or]

end Session.Grows

theorem entered_bounded {source : String} {i : NodeId} {r : Reference}
    (hr : r ∈ (compile source i).entered) : i ≤ r.id ∧ r.id < (compile source i).nextId := by
  unfold Compilation.entered at hr
  split at hr
  · next hnone => exact references_bounded (List.isEmpty_iff.mp hnone) r hr
  · cases hr

instance : Upheld .all Session.Grows where
  refl := .refl
  trans := .trans
  store _ _ _ _ _ := ⟨Nat.le_refl _, fun _ _ => rfl⟩
  exchange _ _ _ _ _ := ⟨Nat.le_refl _, fun _ _ => rfl⟩
  number _ s code := ⟨le_nextId_compileExpression code s.nextNode, fun _ _ => rfl⟩
  print _ _ := ⟨Nat.le_refl _, fun _ _ => rfl⟩
  call h := ⟨h.numbers, h.distances⟩
  begin _ _ := ⟨Nat.le_refl _, fun _ _ => rfl⟩
  read _ s code := .merge (le_nextId_compile code s.nextNode) fun _ hr => (entered_bounded hr).1
  flag _ _ _ _ := ⟨Nat.le_refl _, fun _ _ => rfl⟩

theorem grows_runProgram (fuel : Nat) (code : String) (s : Session) :
    (s.reading (compile code s.nextNode)).Grows
      (leftBy (Eval.runProgram (Eval.execAll fuel) code s)) := by
  have hrun := (Eval.allUphold .all Session.Grows fuel).execAll
  obtain ⟨-, h⟩ := Eval.upholds_reading trivial hrun code s.beginRun.hostsWithin_all
  exact ⟨h.numbers, h.distances⟩

/-- Whatever a step comes to, the session that it leaves behind has a history. -/
theorem History.left {rules : HostRules} {s : Session} {known : Value → Prop} {step : Step}
    (h : History rules s known) (hstep : step.Follows rules known) (fuel : Nat) :
    ∃ known', History rules (leftBy (step.take fuel s)) known' := by
  cases htake : step.take fuel s with
  | ok answer s' => exact ⟨_, h.done hstep htake⟩
  | error interrupt s' => exact ⟨_, h.interrupted hstep htake⟩

end Lox
