import Lox.Proofs.Preservation.Inherited

/-!
# What evaluation preserves

Evaluation changes a session by a few actions only.  A relation between a session and a later one that
all these actions respect holds between the beginning and the end of every evaluation, however it
ends.
-/

namespace Lox

/-! ## Relations that actions respect -/

/-- The references whose distances a run enters. -/
def Compilation.entered (program : Compilation) : List Reference :=
  if program.problems.isEmpty then program.references else []

/-- The session once a program was read and, if it is accepted, its distances were entered. -/
def Session.reading (s : Session) (program : Compilation) : Session :=
  { s with nextNode := program.nextId, hops := s.hops.merge program.entered }

def Session.numbering (s : Session) (nextId : NodeId) : Session :=
  { s with nextNode := nextId }

def Session.deeper (s : Session) : Session :=
  { s with depth := s.depth + 1 }

def Session.shallower (s : Session) : Session :=
  { s with depth := s.depth - 1 }

/-- The session after an exchange with the world around it. -/
def Session.exchanging (s : Session) (natives : Array Native) (input : List Char) (ticks : Nat)
    (memory : List HostForm) : Session :=
  { s with natives := natives, input := input, ticks := ticks, memory := memory }

def Session.flagged (s : Session) (static runtime : Bool) : Session :=
  { s with hadStaticError := static, hadRuntimeError := runtime }

/-- A relation between a session and a later one that the actions of evaluation respect.  Those that
host functions have no part in count only if they are free to. -/
class Upheld (free : Liberties) (R : Session → Session → Prop) : Prop where
  refl : ∀ s, R s s
  trans : ∀ {s s' s''}, R s s' → R s' s'' → R s s''
  store : ∀ (s : Session) {frames : Frames Value} fields nextObject,
    s.frames.frames.size ≤ frames.frames.size → R s (s.storing frames fields nextObject)
  exchange : ∀ s natives input ticks memory, R s (s.exchanging natives input ticks memory)
  print : ∀ s line, R s (s.printLine line)
  call : ∀ {s s'}, R s.deeper s' → R s s'.shallower
  number : free.evaluates → ∀ s code, R s (s.numbering (compileExpression code s.nextNode).nextId)
  begin : free.runs → ∀ s, R s s.beginRun
  read : free.runs → ∀ s code, R s (s.reading (compile code s.nextNode))
  flag : free.runs → ∀ s static runtime, R s (s.flagged static runtime)

namespace Eval

variable {α β : Type}

class Upholds (free : Liberties) (R : Session → Session → Prop) (x : Eval α) : Prop where
  upholds : ∀ s : Session, s.HostsWithin free →
    (leftBy (x s)).HostsWithin free ∧ R s (leftBy (x s))

variable {free : Liberties} {R : Session → Session → Prop}

theorem Upholds.get_bind {f : Session → Eval β}
    (hf : ∀ s : Session, s.HostsWithin free → Upholds free R (f s)) :
    Upholds free R (get >>= f) where
  upholds s hs := (hf s hs).upholds s hs

theorem Upholds.of_same {x : Eval α}
    (h : ∀ s, (leftBy (x s)).natives = s.natives ∧ R s (leftBy (x s))) : Upholds free R x where
  upholds s hs := by
    refine ⟨?_, (h s).2⟩
    unfold Session.HostsWithin
    rw [(h s).1]
    exact hs

theorem upholds_catchFault {x : Eval Completion} (hx : Upholds free R x) :
    Upholds free R (catchFault x) where
  upholds s hs := by
    have hinner := hx.upholds s hs
    unfold catchFault
    generalize x s = r at hinner ⊢
    split <;> exact hinner

variable [Upheld free R]

section

variable {x : Eval α} {f : α → Eval β}

theorem Upholds.bind [hx : Upholds free R x] (hf : ∀ a, Upholds free R (f a)) :
    Upholds free R (x >>= f) where
  upholds s hs := by
    have hfirst := hx.upholds s hs
    rw [eval_bind_apply]
    generalize x s = r at hfirst ⊢
    cases r with
    | ok a s₁ =>
        obtain ⟨hs₂, hsecond⟩ := (hf a).upholds s₁ hfirst.1
        exact ⟨hs₂, Upheld.trans free hfirst.2 hsecond⟩
    | error i s₁ => exact hfirst

instance [Upholds free R x] [hf : ∀ a, Upholds free R (f a)] : Upholds free R (x >>= f) :=
  .bind hf

end

/-- A step on variables and objects alone. -/
instance (priority := low) (x : Eval α) [Local x] : Upholds free R x :=
  .of_same fun s => by
    obtain ⟨frames, fields, nextObject, hsize, hleft⟩ := Local.leftBy_eq x s
    rw [hleft]
    exact ⟨rfl, Upheld.store free s fields nextObject hsize⟩

instance (i : Interrupt) : Upholds free R (throw i : Eval α) :=
  .of_same fun s => ⟨rfl, Upheld.refl free s⟩

instance (g : α → β) (x : Eval α) [hx : Upholds free R x] : Upholds free R (g <$> x) where
  upholds s hs := by
    rw [leftBy_map]
    exact hx.upholds s hs

instance : Upholds free R (get : Eval Session) :=
  .of_same fun s => ⟨rfl, Upheld.refl free s⟩

instance (line : String) : Upholds free R (modify (Session.printLine line) : Eval Unit) :=
  .of_same fun s => ⟨rfl, Upheld.print free s line⟩

/-! ## Exchange with the host -/

theorem Upholds.of_reading {x : Eval α}
    (h : ∀ s, ∃ input ticks, leftBy (x s) = s.exchanging s.natives input ticks s.memory) :
    Upholds free R x :=
  .of_same fun s => by
    obtain ⟨input, ticks, hleft⟩ := h s
    rw [hleft]
    exact ⟨rfl, Upheld.exchange free s s.natives input ticks s.memory⟩

instance : Upholds free R readClock :=
  .of_reading fun s => ⟨s.input, s.ticks + 1, rfl⟩

instance : Upholds free R readLine := by
  have htake : Upholds free R (modifyGet Session.takeLine : Eval (List Char)) :=
    .of_reading fun s => ⟨(Session.splitLine s.input).2, s.ticks, rfl⟩
  unfold readLine
  infer_instance

instance (things : List HostForm) :
    Upholds free R (modify fun s => { s with memory := things } : Eval Unit) :=
  .of_same fun s => ⟨rfl, Upheld.exchange free s s.natives s.input s.ticks things⟩

theorem upholds_toValue {o : HostObject} (ho : o.Within free) : Upholds free R (toValue o) := by
  obtain ⟨f, -, h⟩ | ⟨n, -, h⟩ | ⟨arity, body, rfl, h⟩ | ⟨-, h⟩ := toValue_cases o <;> rw [h]
  · infer_instance
  · infer_instance
  · cases ho with
    | function hbody =>
        exact ⟨fun s hs => ⟨hs.hire hbody,
          Upheld.exchange free s (s.natives.push (.host body)) s.input s.ticks s.memory⟩⟩
  · infer_instance

instance (x : Eval α) [hx : Upholds free R x] : Upholds free R (attempt x) where
  upholds s hs := by
    have hinner := hx.upholds s hs
    unfold attempt
    generalize x s = r at hinner ⊢
    split <;> exact hinner

/-! ## Calls and runs -/

instance (site : Token) (x : Eval α) [hx : Upholds free R x] : Upholds free R (nested site x) where
  upholds s hs := by
    have hinner := hx.upholds s.deeper hs
    unfold nested
    split
    · exact ⟨hs, Upheld.refl free s⟩
    · split
      · exact ⟨hs, Upheld.refl free s⟩
      · change (leftBy (match x s.deeper with | .ok _ _ => _ | .error _ _ => _)).HostsWithin free ∧ _
        change _ ∧ R s (leftBy (match x s.deeper with | .ok _ _ => _ | .error _ _ => _))
        generalize x s.deeper = r at hinner ⊢
        cases r with
        | ok v s₁ => exact ⟨hinner.1, Upheld.call free hinner.2⟩
        | error i s₁ => exact ⟨hinner.1, Upheld.call free hinner.2⟩

section

variable {run : Environment → List Stmt → Eval Completion}

theorem upholds_conclude (hruns : free.runs) (error : Option RuntimeError) :
    Upholds free R (conclude error) := by
  have hflag : Upholds free R
      (modify fun s => { s with hadRuntimeError := error.isSome } : Eval Unit) :=
    .of_same fun s => ⟨rfl, Upheld.flag hruns s s.hadStaticError error.isSome⟩
  unfold conclude
  refine .bind fun _ => ?_
  split <;> infer_instance

theorem upholds_reading (hruns : free.runs) (hrun : ∀ env body, Upholds free R (run env body))
    (code : String) {s : Session} (hs : s.beginRun.HostsWithin free) :
    (leftBy (runProgram run code s)).HostsWithin free ∧
      R (s.beginRun.reading (compile code s.nextNode)) (leftBy (runProgram run code s)) := by
  unfold Session.reading Compilation.entered
  by_cases hnone : (compile code s.nextNode).problems = []
  · rw [runProgram_accepted hnone, if_pos (List.isEmpty_iff.mpr hnone)]
    have hcatch := upholds_catchFault
      (hrun Session.globals (compile code s.nextNode).statements)
    have hreport : Upholds free R (do
        let error ← catchFault (run Session.globals (compile code s.nextNode).statements)
        conclude error) :=
      .bind fun error => upholds_conclude hruns error
    exact hreport.upholds (s.ready code) hs
  · rw [runProgram_rejected hnone, if_neg fun h => hnone (List.isEmpty_iff.mp h)]
    have hflag := Upheld.flag (R := R) hruns
      { s.beginRun with nextNode := (compile code s.nextNode).nextId } true
    exact ⟨hs, hflag s.beginRun.hadRuntimeError⟩

theorem upholds_runProgram (hruns : free.runs) (hrun : ∀ env body, Upholds free R (run env body))
    (code : String) : Upholds free R (runProgram run code) where
  upholds s hs := by
    obtain ⟨hleft, hrest⟩ := upholds_reading hruns hrun code hs
    have hread := Upheld.read hruns s.beginRun code (R := R)
    exact ⟨hleft, Upheld.trans free (Upheld.begin hruns s) (Upheld.trans free hread hrest)⟩

theorem upholds_executeProgram (hruns : free.runs)
    (hrun : ∀ env body, Upholds free R (run env body)) (code : String) :
    Upholds free R (executeProgram run code) := by
  have := upholds_runProgram hruns hrun code
  unfold executeProgram
  refine .bind fun report => ?_
  split <;> infer_instance

theorem upholds_runOther (hruns : free.runs) (sort : String) : Upholds free R (runOther sort) := by
  have hbegin : Upholds free R (modify Session.beginRun : Eval Unit) :=
    .of_same fun s => ⟨rfl, Upheld.begin hruns s⟩
  unfold runOther
  infer_instance

end

theorem upholds_evaluateCode {eval : Environment → Expr → Eval Value} (hevaluates : free.evaluates)
    (heval : ∀ env e, Upholds free R (eval env e)) (code : String) :
    Upholds free R (evaluateCode eval code) where
  upholds s hs := by
    unfold evaluateCode
    rw [eval_get_bind_apply, eval_modify_bind_apply]
    have hnumber := Upheld.number (R := R) hevaluates s code
    cases (compileExpression code s.nextNode).tree with
    | error problems => exact ⟨hs, hnumber⟩
    | ok e =>
        have hform : Upholds free R
            ((fun v => (.ok (.ofValue v) : Except (List Diagnostic) HostForm)) <$>
              eval Session.globals e) :=
          inferInstance
        obtain ⟨hleft, hrest⟩ :=
          hform.upholds (s.numbering (compileExpression code s.nextNode).nextId) hs
        exact ⟨hleft, Upheld.trans free hnumber hrest⟩

/-! ## Evaluation -/

variable (free R) in
theorem inherited_upholds : Inherited free (fun _ x => Upholds free R x) where
  plain _ _ _ := inferInstance
  outOfFuel := inferInstance
  bind _ hf := .bind hf
  native hf _ := .get_bind hf
  print _ := inferInstance
  clock := inferInstance
  line := inferInstance
  value := upholds_toValue
  nested _ _ := inferInstance
  raise _ := inferInstance
  attempt _ hf _ := .bind hf
  recollect hf := .get_bind fun s _ => hf s.memory
  keep _ := inferInstance
  evaluate hevaluates _ heval := upholds_evaluateCode hevaluates heval
  program hruns _ hrun := upholds_runProgram hruns hrun
  other := upholds_runOther
  execute hruns _ hrun := upholds_executeProgram hruns hrun

/-- Every evaluation upholds what the actions of evaluation respect. -/
theorem allUphold (free : Liberties) (R : Session → Session → Prop) [Upheld free R] (n : Nat) :
    AllHave free (fun _ x => Upholds free R x) n :=
  (inherited_upholds free R).all n

/-! ## Any host functions -/

omit [Upheld free R] in
theorem Upholds.always {x : Eval α} (h : Upholds .all R x) (s : Session) : R s (leftBy (x s)) :=
  (h.upholds s s.hostsWithin_all).2

section

variable [Upheld .all R]

/-- Every step upholds what the actions of evaluation respect. -/
instance (step : Step) (fuel : Nat) : Upholds .all R (step.take fuel) :=
  (inherited_upholds .all R).take (allUphold .all R fuel) (fun _ => trivial) (fun _ => trivial)
    step.within_all

end

end Eval

end Lox
