import Lox.Proofs.History.Host
import Lox.Proofs.Simulation.Evaluation

/-!
# Histories of sessions

A history is a session as the host uses it: one step after the other, with what the host learned from
earlier steps.  Every state that a history leads to is like itself, under every likeness that obeys
the rules of the host.
-/

namespace Lox

/-! ## Steps -/

/-- The value that the host learns from an answer. -/
def Answer.Gives : Answer → Value → Prop
  | .form (.ok f), v => v = f.value
  | _, _ => False

/-- The values that host functions keep in mind. -/
def Session.Remembers (s : Session) (v : Value) : Prop :=
  ∃ f ∈ s.memory, v = f.value

/-- The values that the host has: those that it learned, and those that it can make. -/
def Shared (known : Value → Prop) (v v' : Value) : Prop :=
  v' = v ∧ (known v ∨ v.isBasic)

/-- What looks the same to a host that knows some values. -/
def View.shared (known : Value → Prop) : View where
  values := Shared known
  errors _ _ := False

/-- Steps in which the host keeps to the rules, with the values that it knows. -/
def Step.Follows (rules : HostRules) (known : Value → Prop) (step : Step) : Prop :=
  step.Corresponds rules (.shared known) step

/-- The states that a session can come to, with the values that the host knows by then. -/
inductive History (rules : HostRules) : Session → (Value → Prop) → Prop where
  | start : (rules.strict → limits.calls ≠ .blank) →
      History rules (Session.start limits input readings) fun _ => False
  | done : History rules s known → Step.Follows rules known step →
      step.take fuel s = .ok answer s' →
        History rules s' fun v => answer.Gives v ∨ s'.Remembers v ∨ known v
  | interrupted : History rules s known → Step.Follows rules known step →
      step.take fuel s = .error interrupt s' → History rules s' fun v => s'.Remembers v ∨ known v

/-- The states that later steps lead to. -/
inductive Onward (rules : HostRules) : Session → (Value → Prop) → Session → Prop where
  | here : Onward rules s known s
  | done : Step.Follows rules known step → step.take fuel s = .ok answer s₁ →
      Onward rules s₁ (fun v => answer.Gives v ∨ s₁.Remembers v ∨ known v) s' →
        Onward rules s known s'
  | interrupted : Step.Follows rules known step → step.take fuel s = .error interrupt s₁ →
      Onward rules s₁ (fun v => s₁.Remembers v ∨ known v) s' → Onward rules s known s'

section

variable {ℓ : Likeness} {lockstep : Prop} {w : World} {rules : HostRules} {s : Session}
  {known : Value → Prop}

theorem evaluatesAlike_same (fuel : Nat) : EvaluatesAlike ℓ lockstep fuel fuel :=
  evaluatesAlike (Nat.le_refl fuel) fun _ => rfl

theorem Value.isBasic_alike {v : Value} (h : v.isBasic) : Value.Alike ℓ w v v := by
  cases v with
  | nil => exact .nil
  | bool b => exact .bool
  | number x => exact .number
  | string s => exact .string
  | _ => cases h

theorem Shared.alike (hknown : ∀ v, known v → Value.Alike ℓ w v v) (v v' : Value)
    (h : Shared known v v') : Value.Alike ℓ w v v' := by
  obtain ⟨rfl, h | h⟩ := h
  · exact hknown v' h
  · exact Value.isBasic_alike h

theorem View.shared_le (hknown : ∀ v, known v → Value.Alike ℓ w v v) : View.shared known ≤ ℓ.view w :=
  ⟨fun h => Shared.alike hknown _ _ h, False.elim⟩

theorem Step.Follows.alike (hℓ : ℓ.Obeys rules) (hknown : ∀ v, known v → Value.Alike ℓ w v v)
    {step : Step} (h : step.Follows rules known) : Step.Alike ℓ w step step :=
  Step.Corresponds.alike hℓ h (View.shared_le hknown)

theorem Session.Alike.remembers (hs : Session.Alike ℓ w s s) {v : Value} (hv : s.Remembers v) :
    Value.Alike ℓ w v v := by
  obtain ⟨f, hf, rfl⟩ := hv
  exact (List.forall₂_same.mp hs.memory f hf).value

/-- What is known of a session in which nothing has run. -/
def World.start : World where
  frames := 1
  rename := fun _ x => x
  declared := fun _ _ => False
  fixture := fun _ => none
  natives := [0, 0]
  code := fun _ => False
  pace := {}

theorem alike_start {limits : Limits} {input : List Char} {readings : Nat → Float}
    (hlimits : ℓ.strict → limits.calls ≠ .blank) :
    Session.Alike ℓ .start (Session.start limits input readings)
      (Session.start limits input readings) := by
  have hglobals : Bindings.Alike (Value.Alike ℓ .start) (fun x => x)
      [("clock", Value.native 0 0), ("readLine", Value.native 1 0)]
      [("clock", Value.native 0 0), ("readLine", Value.native 1 0)] :=
    .cons (.native rfl) (.cons (.native rfl) .nil)
  constructor
  case frames =>
    refine ⟨rfl, rfl, fun f => ?_, nofun, fun _ => ℓ.renames_id, Nat.one_pos, rfl, nofun, nofun, rfl,
      fun {f} _ hlocal => ?_⟩
    · cases f with
      | zero => exact hglobals
      | succ f => exact .nil
    · cases f with
      | zero => exact absurd rfl hlocal
      | succ f => rfl
  case fields => exact ⟨rfl, fun _ => .nil⟩
  case natives =>
    refine ⟨rfl, rfl, fun {i arity} hi => ?_⟩
    match i, hi with
    | 0, _ => exact ⟨_, _, rfl, rfl, .clock⟩
    | 1, _ => exact ⟨_, _, rfl, rfl, .readLine⟩
  case genuine => exact nofun
  case recorded => exact ⟨nofun, nofun, fun _ => rfl⟩
  case recorded' => exact ⟨nofun, nofun, fun _ => rfl⟩
  case number => exact fun _ => ℓ.number_refl
  case memory => exact .nil
  case limited => exact hlimits
  all_goals first | rfl | exact fun _ => rfl

theorem outcome_attempt_take_self {fuel fuel' : Nat}
    (heval : EvaluatesAlike ℓ lockstep fuel fuel') (hℓ : ℓ.Obeys rules) {step : Step}
    (hgenuine : ∀ {part}, step.Compiles s.nextNode part → ℓ.genuine false part)
    (hs : Session.Alike ℓ w s s) (hknown : ∀ v, known v → Value.Alike ℓ w v v)
    (hstep : step.Follows rules known) :
    Outcome ℓ lockstep (fun w' r r' =>
        Attempted (ℓ.view w').errors (Answer.Related (ℓ.view w')) r r' ∧
          (ℓ.strict → step.Orderly → ∀ e, r ≠ .error (.host e))) (w.before step)
      (Eval.attempt (step.take fuel) s) (Eval.attempt (step.take fuel') s) :=
  outcome_attempt_take heval.proceeds hs (fun _ => (Nat.add_zero _).symm) (fun _ => ℓ.number_refl)
    hgenuine (hstep.alike hℓ hknown)

section

variable {step : Step} {fuel : Nat} {s' : Session}

/-- A step leads from a session that is like itself to one that is, too. -/
theorem Session.Alike.done (hs : Session.Alike ℓ w s s)
    (hknown : ∀ v, known v → Value.Alike ℓ w v v) (hℓ : ℓ.Obeys rules)
    (hgenuine : ∀ {part}, step.Compiles s.nextNode part → ℓ.genuine false part)
    (hstep : step.Follows rules known) {answer : Answer}
    (htake : step.take fuel s = .ok answer s') :
    ∃ w', w ≤ w' ∧ Session.Alike ℓ w' s' s' ∧
      ∀ v, answer.Gives v ∨ s'.Remembers v ∨ known v → Value.Alike ℓ w' v v := by
  have hout := outcome_attempt_take_self (evaluatesAlike_same fuel : EvaluatesAlike ℓ True fuel fuel) hℓ
    hgenuine hs hknown hstep
  rw [Eval.attempt_ok htake] at hout
  cases hout with
  | @ok w' _ _ _ _ hw hs' hended =>
      have hlater := World.le_trans (w.le_before step) hw.le
      refine ⟨w', hlater, hs', fun v hv => ?_⟩
      rcases hv with hv | hv | hv
      · cases hended.1 with
        | ok hanswer =>
            cases hanswer with
            | form hf =>
                obtain rfl := hv
                exact hf.value
            | _ => cases hv
      · exact hs'.remembers hv
      · exact (hknown v hv).mono hlater

theorem Session.Alike.interrupted (hs : Session.Alike ℓ w s s)
    (hknown : ∀ v, known v → Value.Alike ℓ w v v) (hℓ : ℓ.Obeys rules)
    (hgenuine : ∀ {part}, step.Compiles s.nextNode part → ℓ.genuine false part)
    (hstep : step.Follows rules known) {interrupt : Interrupt}
    (htake : step.take fuel s = .error interrupt s') :
    ∃ w', w ≤ w' ∧ Session.Alike ℓ w' s' s' ∧
      ∀ v, s'.Remembers v ∨ known v → Value.Alike ℓ w' v v := by
  have left : ∀ {w'}, w.before step ≤ w' → Session.Alike ℓ w' s' s' → ∃ w', w ≤ w' ∧
      Session.Alike ℓ w' s' s' ∧ ∀ v, s'.Remembers v ∨ known v → Value.Alike ℓ w' v v :=
    fun hw hs' =>
      have hlater := World.le_trans (w.le_before step) hw
      ⟨_, hlater, hs', fun v hv => hv.elim hs'.remembers fun hv => (hknown v hv).mono hlater⟩
  have hout := outcome_attempt_take_self (evaluatesAlike_same fuel : EvaluatesAlike ℓ True fuel fuel) hℓ
    hgenuine hs hknown hstep
  unfold Eval.attempt at hout
  rw [htake] at hout
  cases interrupt with
  | fault | host =>
      cases hout with
      | ok hw hs' _ => exact left hw.le hs'
  | stuck => cases hout
  | outOfFuel =>
      cases hout with
      | outOfFuel hw hs' => exact left hw.le hs'
      | slack h => exact absurd trivial h

end

/-- Every state of a history is like itself, and so is every value that the host knows. -/
theorem History.alike (hℓ : ℓ.Obeys rules) (hgenuine : ∀ {part}, Part.Accepted part → ℓ.genuine false part)
    (h : History rules s known) :
    ∃ w : World, Session.Alike ℓ w s s ∧ ∀ v, known v → Value.Alike ℓ w v v := by
  induction h with
  | start hlimits => exact ⟨.start, alike_start fun h => hlimits (hℓ.strict.mp h), nofun⟩
  | done _ hstep htake ih =>
      obtain ⟨w, hs, hknown⟩ := ih
      obtain ⟨w', -, hs', hknown'⟩ := hs.done hknown hℓ (fun h => hgenuine h.accepted) hstep htake
      exact ⟨w', hs', hknown'⟩
  | interrupted _ hstep htake ih =>
      obtain ⟨w, hs, hknown⟩ := ih
      obtain ⟨w', -, hs', hknown'⟩ :=
        hs.interrupted hknown hℓ (fun h => hgenuine h.accepted) hstep htake
      exact ⟨w', hs', hknown'⟩

end

end Lox
