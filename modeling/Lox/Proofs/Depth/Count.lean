import Lox.Proofs.Depth.Plain
import Lox.Proofs.Soundness.Visit

/-!
# The depth of calls

While something is evaluated, other evaluations wait for it, as the frames of a stack do.  The depth
of a session is the number of calls of functions and classes among them, so it is back at what it was
whenever an evaluation ends, however it ends.  A call overflows the stack if and only if it would
bring this number beyond the limit.
-/

namespace Lox

/-! ## Every step restores the depth -/

/-- A later session with as many calls going on, under the same limits. -/
structure Session.SameDepth (s s' : Session) : Prop where
  depth : s'.depth = s.depth
  limits : s'.limits = s.limits

instance (free : Liberties) : Upheld free Session.SameDepth where
  refl _ := ⟨rfl, rfl⟩
  trans h h' := ⟨h'.depth.trans h.depth, h'.limits.trans h.limits⟩
  store _ _ _ _ _ := ⟨rfl, rfl⟩
  exchange _ _ _ _ _ := ⟨rfl, rfl⟩
  number _ _ _ := ⟨rfl, rfl⟩
  print _ _ := ⟨rfl, rfl⟩
  call {s s'} h := ⟨by
    change s'.depth - 1 = s.depth
    rw [h.depth]
    exact Nat.add_sub_cancel s.depth 1, h.limits⟩
  begin _ _ := ⟨rfl, rfl⟩
  read _ _ _ := ⟨rfl, rfl⟩
  flag _ _ _ _ := ⟨rfl, rfl⟩

section

open Eval

theorem Step.sameDepth_take (step : Step) (fuel : Nat) (s : Session) :
    s.SameDepth (leftBy (step.take fuel s)) :=
  Upholds.always inferInstance s

theorem Eval.Upholds.of_ok {α : Type} {free : Liberties} {R : Session → Session → Prop} {x : Eval α}
    {s s' : Session} {a : α} (h : Upholds free R x) (hs : s.HostsWithin free) (hx : x s = .ok a s') :
    s'.HostsWithin free ∧ R s s' := by
  have hleft := h.upholds s hs
  rw [hx] at hleft
  exact hleft

end

/-- The sessions that there are between steps, whatever the host does with them. -/
inductive Session.Reached (limits : Limits) : Session → Prop where
  | start {input : List Char} {readings : Nat → Float} :
      Session.Reached limits (Session.start limits input readings)
  | taken {s : Session} {step : Step} {fuel : Nat} :
      Session.Reached limits s → Session.Reached limits (leftBy (step.take fuel s))

theorem Session.Reached.idle {limits : Limits} {s : Session} (h : s.Reached limits) :
    s.depth = 0 ∧ s.limits = limits := by
  induction h with
  | start => exact ⟨rfl, rfl⟩
  | @taken s step fuel _ ih =>
      have hsame := step.sameDepth_take fuel s
      exact ⟨hsame.depth.trans ih.1, hsame.limits.trans ih.2⟩

/-! ## Evaluations that wait for others -/

/-- The evaluations of a step, each with those that wait for it, the last one to begin first. -/
inductive Stacked (step : Step) (fuel : Nat) (s : Session) :
    Nat → List Task → Task → Session → Prop where
  | starts : Starts step s task s₁ → Stacked step fuel s fuel [] task s₁
  | calls : Stacked step fuel s (n + 1) waiting task s₁ → Calls n task s₁ task' s₂ →
      Stacked step fuel s n (task :: waiting) task' s₂

/-- Functions and classes, whose calls are counted.  Those of natives are not. -/
def Value.isCounted : Value → Bool
  | .closure _ | .classObject _ => true
  | _ => false

def Task.isCall : Task → Bool
  | .invoke _ callee _ => callee.isCounted
  | _ => false

/-- The number of calls of functions and classes that are going on. -/
def activeCalls (waiting : List Task) : Nat :=
  waiting.countP Task.isCall

theorem activeCalls_cons (task : Task) (waiting : List Task) :
    activeCalls (task :: waiting) = activeCalls waiting + if task.isCall then 1 else 0 :=
  List.countP_cons

/-- A task with an action that keeps to what is free. -/
def Task.Within (free : Liberties) (told : RuntimeError → Prop) : Task → Prop
  | .perform action => action.Within free told
  | _ => True

theorem Task.within_all (told : RuntimeError → Prop) (task : Task) : task.Within .all told := by
  cases task with
  | perform action => exact action.within_all told
  | _ => trivial

section

variable {n : Nat} {task task' : Task} {s s' : Session} {free : Liberties}

open Eval

theorem Starts.upholds {step : Step} (h : Starts step s task s') (hstep : step.Within free)
    (hs : s.HostsWithin free) : s'.HostsWithin free ∧ s.SameDepth s' := by
  cases h with
  | run _ | execute _ | evaluate _ => exact ⟨hs, rfl, rfl⟩
  | call hvs =>
      cases hstep with
      | call hos =>
          exact Upholds.of_ok ((inherited_upholds free Session.SameDepth).hostArguments _ hos) hs hvs

/-- An evaluation goes on as deep as it was when it calls another one, or one call deeper. -/
theorem Calls.upholds {told : RuntimeError → Prop} (h : Calls n task s task' s')
    (htask : task.Within free told) (hs : s.HostsWithin free) : s'.HostsWithin free ∧
      if task.isCall then s.deeper.SameDepth s' else s.SameDepth s' := by
  have hall := allUphold free Session.SameDepth n
  have trans : ∀ {s₁ s₂ s₃ : Session}, s₁.SameDepth s₂ → s₃.HostsWithin free ∧ s₂.SameDepth s₃ →
      s₃.HostsWithin free ∧ s₁.SameDepth s₃ :=
    fun h h' => h'.imp_right (Upheld.trans free h)
  cases h with
  | grouping | unary | binaryLeft | logicalLeft | assigned | callee | getObject | setObject
  | firstArgument | expression | print | initial | condition | loopCondition | returned | firstStmt
  | native _ | recalled | kept => exact ⟨hs, rfl, rfl⟩
  | binaryRight hv | logicalRight hv _ | arguments hv | setValue hv | moreArguments hv | yes hv _
  | no hv _ | loopBody hv _ => exact (hall.eval _ _).of_ok hs hv
  | moreStmts hdone => exact (hall.exec _ _).of_ok hs hdone
  | call hf hvs _ =>
      obtain ⟨hs₁, hsame⟩ := (hall.eval _ _).of_ok hs hf
      exact trans hsame ((hall.evalAll _ _).of_ok hs₁ hvs)
  | loopAgain hv _ hround =>
      obtain ⟨hs₁, hsame⟩ := (hall.eval _ _).of_ok hs hv
      exact trans hsame ((hall.exec _ _).of_ok hs₁ hround)
  | block henter => exact Upholds.of_ok inferInstance hs henter
  | function _ hopen => exact Upholds.of_ok (s := s.deeper) inferInstance hs hopen
  | initializer _ _ hopen =>
      unfold openInitializer at hopen
      exact Upholds.of_ok (s := s.deeper) inferInstance hs hopen
  | asked hstarts =>
      cases htask with
      | ask _ _ hstep _ _ => exact hstarts.upholds hstep hs
  | answered hanswer =>
      cases htask with
      | ask hruns hevaluates hstep _ _ =>
          have htake : Upholds free Session.SameDepth (Step.take n _) :=
            (inherited_upholds free Session.SameDepth).take hall hruns hevaluates hstep
          exact Upholds.of_ok inferInstance hs hanswer

theorem Starts.sameDepth {step : Step} (h : Starts step s task s') : s.SameDepth s' :=
  (h.upholds step.within_all s.hostsWithin_all).2

theorem Calls.sameDepth (h : Calls n task s task' s') :
    if task.isCall then s.deeper.SameDepth s' else s.SameDepth s' :=
  (h.upholds (task.within_all fun _ => False) s.hostsWithin_all).2

theorem Calls.hasRoom (h : Calls n task s task' s') (hcall : task.isCall = true) : s.HasRoom := by
  cases h with
  | function hroom _ | initializer hroom _ _ => exact hroom
  | _ => cases hcall

end

section

variable {step : Step} {fuel n : Nat} {waiting : List Task} {task : Task} {s s' : Session}

/-- The depth is the number of calls that are going on. -/
theorem Stacked.depth_eq (h : Stacked step fuel s n waiting task s') :
    s'.depth = s.depth + activeCalls waiting ∧ s'.limits = s.limits := by
  -- `Calls.sameDepth` tells calls, which add one to the depth, from all other evaluations.
  induction h with
  | starts hstarts => exact ⟨hstarts.sameDepth.depth, hstarts.sameDepth.limits⟩
  | @calls _ waiting task s₁ _ s₂ _ hcalls ih =>
      have hsame := hcalls.sameDepth
      rw [activeCalls_cons]
      split at hsame
      · next htask =>
          have hdepth : s₂.depth = s₁.depth + 1 := hsame.depth
          exact ⟨by rw [hdepth, ih.1, if_pos htask, Nat.add_assoc], hsame.limits.trans ih.2⟩
      · next htask =>
          exact ⟨by rw [hsame.depth, ih.1, if_neg htask]; rfl, hsame.limits.trans ih.2⟩

theorem Stacked.within (h : Stacked step fuel s n waiting task s') (hcalls : activeCalls waiting ≠ 0) :
    s.limits.exceeded s'.depth = false := by
  induction h with
  | starts _ => exact absurd rfl hcalls
  | @calls _ waiting task s₁ _ s₂ hstacked hcall ih =>
      have hsame := hcall.sameDepth
      have hlimits := hstacked.depth_eq.2
      split at hsame
      · next htask =>
          have hroom := (hcall.hasRoom htask).2
          have hdepth : s₂.depth = s₁.depth + 1 := hsame.depth
          rwa [hdepth, ← hlimits]
      · next htask =>
          -- What is no call itself is as deep as the call that it belongs to.
          rw [hsame.depth]
          refine ih fun hnone => hcalls ?_
          rw [activeCalls_cons, hnone, if_neg htask]

theorem Eval.length_toValues {os : List HostObject} {vs : List Value}
    (h : Eval.toValues os s = .ok vs s') : vs.length = os.length := by
  induction os generalizing vs s with
  | nil =>
      cases h
      rfl
  | cons o os ih =>
      unfold Eval.toValues at h
      obtain ⟨v, s₁, -, hrest⟩ := eval_bind_inv h
      obtain ⟨vs', s₂, hvs, hdone⟩ := eval_bind_inv hrest
      cases hdone
      exact congrArg Nat.succ (ih hvs)

theorem Eval.arity_of_hostArguments {callee : Value} {os : List HostObject} {vs : List Value}
    (h : Eval.hostArguments callee os s = .ok vs s') : callee.arity? = some vs.length := by
  unfold Eval.hostArguments at h
  cases harity : callee.arity? with
  | none =>
      rw [harity] at h
      cases h
  | some arity =>
      rw [harity] at h
      dsimp only at h
      split at h
      · next hcount => rw [Eval.length_toValues h, hcount]
      · cases h

/-- A call has as many arguments as its callee takes.  It stands in a call expression, at whose
parenthesis it is reported, or the host makes it. -/
theorem Stacked.accepted {site : Token} {callee : Value} {arguments : List Value}
    (h : Stacked step fuel s n waiting (.invoke site callee arguments) s') :
    callee.arity? = some arguments.length ∧
      ((∃ env number e es, waiting.head? = some (.eval env (.call number e site es))) ∨ site = Eval.hostSite) := by
  cases h with
  | starts hstarts =>
      cases hstarts with
      | call hvs => exact ⟨Eval.arity_of_hostArguments hvs, .inr rfl⟩
  | calls _ hcalls =>
      cases hcalls with
      | call _ _ harity => exact ⟨harity, .inl ⟨_, _, _, _, rfl⟩⟩
      | asked hstarts =>
          cases hstarts with
          | call hvs => exact ⟨Eval.arity_of_hostArguments hvs, .inr rfl⟩

end

end Lox
