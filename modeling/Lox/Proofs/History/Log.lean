import Lox.Proofs.History.Steps
import Lox.Proofs.Preservation.Local

/-!
# What a session was given

A chronicle lists all that a session was ever given to read, refused or not.  All code that a session
has is code of one of these entries.
-/

namespace Lox

/-- Something that a session was given, and the number of the first node that is built for it. -/
structure Entry where
  step : Step
  start : NodeId

/-- Accepted code of what a session was given. -/
def Standing (log : List Entry) (part : Part) : Prop :=
  ∃ entry ∈ log, entry.step.Compiles entry.start part

theorem Standing.mono {log log' : List Entry} (hlog : ∀ entry ∈ log, entry ∈ log') {part : Part}
    (h : Standing log part) : Standing log' part := by
  obtain ⟨entry, hentry, hcompiles⟩ := h
  exact ⟨entry, hlog entry hentry, hcompiles⟩

/-- The states that a session can come to, with the values that the host knows by then and all that
the session was given, the latest first.  Steps that are interrupted count too. -/
inductive Chronicle (rules : HostRules) : Session → (Value → Prop) → List Entry → Prop where
  | start : (rules.strict → limits.calls ≠ .blank) →
      Chronicle rules (Session.start limits input readings) (fun _ => False) []
  | taken : Chronicle rules s known log → Step.Follows rules known step →
      Chronicle rules (leftBy (step.take fuel s))
        (fun v => (∃ answer s', step.take fuel s = .ok answer s' ∧ answer.Gives v) ∨
          (leftBy (step.take fuel s)).Remembers v ∨ known v)
        (⟨step, s.nextNode⟩ :: log)

/-- Every state of a chronicle is like itself, if code of its entries may be there. -/
theorem Chronicle.alike {ℓ : Likeness} {rules : HostRules} {s : Session} {known : Value → Prop}
    {log : List Entry} (h : Chronicle rules s known log) (hℓ : ℓ.Obeys rules)
    (hgenuine : ∀ {part}, Standing log part → ℓ.genuine false part) :
    ∃ w : World, Session.Alike ℓ w s s ∧ ∀ v, known v → Value.Alike ℓ w v v := by
  induction h with
  | start hlimits => exact ⟨.start, alike_start fun h => hlimits (hℓ.strict.mp h), nofun⟩
  | @taken s known log step fuel _ hstep ih =>
      obtain ⟨w, hs, hknown⟩ := ih fun hpart => hgenuine (hpart.mono fun _ => List.mem_cons_of_mem _)
      have hnew : ∀ {part}, step.Compiles s.nextNode part → ℓ.genuine false part :=
        fun hcompiles => hgenuine ⟨⟨step, s.nextNode⟩, List.mem_cons_self, hcompiles⟩
      rcases htake : step.take fuel s with ⟨answer, s'⟩ | ⟨interrupt, s'⟩
      · obtain ⟨w', -, hs', hknown'⟩ := hs.done hknown hℓ hnew hstep htake
        refine ⟨w', hs', fun v hv => hknown' v ?_⟩
        rcases hv with ⟨_, _, heq, hv⟩ | hv
        · cases heq
          exact .inl hv
        · exact .inr hv
      · obtain ⟨w', -, hs', hknown'⟩ := hs.interrupted hknown hℓ hnew hstep htake
        refine ⟨w', hs', fun v hv => hknown' v ?_⟩
        rcases hv with ⟨_, _, heq, _⟩ | hv
        · cases heq
        · exact hv

end Lox
