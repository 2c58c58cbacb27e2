import Lox.Proofs.Host.View

/-!
# What host functions are free to do

Host functions may use the session in any way.  Some properties of a session depend on what they leave
undone: that they begin no runs, that they do not go on after an overflow of the stack, or that the
overflows that they raise are those that they were told of.
-/

namespace Lox

/-- What host functions may do. -/
structure Liberties where
  /-- They begin runs. -/
  runs : Prop
  /-- They evaluate expressions. -/
  evaluates : Prop
  /-- They go on after an overflow of the stack. -/
  recovers : Prop
  /-- They raise overflows of the stack that they were not told of. -/
  invents : Prop

namespace Liberties

/-- Host functions may do anything. -/
def all : Liberties := ⟨True, True, True, True⟩

/-- Host functions begin no runs. -/
def noRuns : Liberties := ⟨False, True, True, True⟩

/-- Host functions hand in no code. -/
def noCode : Liberties := ⟨False, False, True, True⟩

/-- Host functions begin no runs, and let overflows through. -/
def noRecovery : Liberties := ⟨False, True, False, True⟩

/-- Host functions raise an overflow only if they were told of it. -/
def noInvention : Liberties := ⟨True, True, True, False⟩

end Liberties

def Step.BeginsRun : Step → Prop
  | .run _ | .runOther _ | .execute _ => True
  | _ => False

def Step.Evaluates : Step → Prop
  | .evaluate _ => True
  | _ => False

/-- Whether a host function is told of an error by what a step came to. -/
def Tells : Except Raised Answer → RuntimeError → Prop
  | .error (.fault e), e' => e' = e
  | .ok (.report (.failed e)), e' => e' = e
  | _, _ => False

section

variable (free : Liberties)

mutual

/-- Actions that keep to what is free, once the host function was told of some errors. -/
inductive HostAction.Within : (RuntimeError → Prop) → HostAction → Prop where
  | give : HostObject.Within o → HostAction.Within told (.give o)
  | raise : (∀ e, error = .fault e → e.fault = .stackOverflow → free.invents ∨ told e) →
      HostAction.Within told (.raise error)
  | ask : (step.BeginsRun → free.runs) → (step.Evaluates → free.evaluates) → Step.Within step →
      (¬ free.recovers → ∀ site, next (.error (.fault ⟨site, .stackOverflow⟩)) =
        .raise (.fault ⟨site, .stackOverflow⟩)) →
      (∀ r, HostAction.Within (fun e => told e ∨ Tells r e) (next r)) →
      HostAction.Within told (.ask step next)
  | recollect : (∀ fs, HostAction.Within told (next fs)) → HostAction.Within told (.recollect next)
  | keep : HostAction.Within told a → HostAction.Within told (.keep fs a)

inductive HostObject.Within : HostObject → Prop where
  | form : HostObject.Within (.form f)
  | integer : HostObject.Within (.integer n)
  | foreign : HostObject.Within (.foreign sort)
  | function : (∀ fs, HostAction.Within (fun _ => False) (body fs)) →
      HostObject.Within (.function arity body)

inductive ObjectsWithin : List HostObject → Prop where
  | nil : ObjectsWithin []
  | cons : HostObject.Within o → ObjectsWithin os → ObjectsWithin (o :: os)

inductive Step.Within : Step → Prop where
  | run : Step.Within (.run code)
  | runOther : Step.Within (.runOther sort)
  | execute : Step.Within (.execute code)
  | evaluate : Step.Within (.evaluate code)
  | get : Step.Within (.get name)
  | set : HostObject.Within o → Step.Within (.set name o)
  | call : ObjectsWithin os → Step.Within (.call f os)

end

theorem ObjectsWithin.within (h : ObjectsWithin free os) {o : HostObject} (ho : o ∈ os) :
    o.Within free := by
  induction os with
  | nil => cases ho
  | cons _ _ ih =>
      cases h with
      | cons hfirst hrest =>
          rcases List.mem_cons.mp ho with rfl | ho
          · exact hfirst
          · exact ih hrest ho

theorem HostAction.Within.mono {told told' : RuntimeError → Prop} (h : ∀ e, told e → told' e) :
    ∀ {a : HostAction}, a.Within free told → a.Within free told'
  | _, .give ho => .give ho
  | _, .raise hraise => .raise fun e he hover => (hraise e he hover).imp_right (h e)
  | _, .ask hruns hevaluates hstep hlets hnext => .ask hruns hevaluates hstep hlets fun r =>
      (hnext r).mono fun e he => he.imp_left (h e)
  | _, .recollect hnext => .recollect fun fs => (hnext fs).mono h
  | _, .keep ha => .keep (ha.mono h)

/-- A session whose host functions keep to what is free. -/
def Session.HostsWithin (s : Session) : Prop :=
  ∀ {i : NativeId} {body}, s.natives[i]? = some (.host body) → ∀ fs,
    HostAction.Within free (fun _ => False) (body fs)

end

mutual

theorem HostAction.within_all : ∀ (told : RuntimeError → Prop) (a : HostAction), a.Within .all told
  | _, .give o => .give o.within_all
  | _, .raise _ => .raise fun _ _ _ => .inl trivial
  | _, .ask step next => .ask (fun _ => trivial) (fun _ => trivial) step.within_all (fun h => absurd trivial h)
      fun r => (next r).within_all _
  | _, .recollect next => .recollect fun fs => (next fs).within_all _
  | _, .keep _ a => .keep (a.within_all _)

theorem HostObject.within_all : ∀ o : HostObject, o.Within .all
  | .form _ => .form
  | .integer _ => .integer
  | .foreign _ => .foreign
  | .function _ body => .function fun fs => (body fs).within_all _

theorem objectsWithin_all : ∀ os : List HostObject, ObjectsWithin .all os
  | [] => .nil
  | o :: os => .cons o.within_all (objectsWithin_all os)

theorem Step.within_all : ∀ step : Step, step.Within .all
  | .run _ => .run
  | .runOther _ => .runOther
  | .execute _ => .execute
  | .evaluate _ => .evaluate
  | .get _ => .get
  | .set _ o => .set o.within_all
  | .call _ os => .call (objectsWithin_all os)

end

namespace Session

variable {free : Liberties}

theorem hostsWithin_all (s : Session) : s.HostsWithin .all :=
  fun _ _ => HostAction.within_all _ _

theorem hostsWithin_start (limits : Limits) (input : List Char) (readings : Nat → Float) :
    (start limits input readings).HostsWithin free := by
  intro i body hi
  match i with
  | 0 | 1 => cases hi
  | _ + 2 => cases hi

theorem HostsWithin.hire {s : Session} (h : s.HostsWithin free)
    {body : List HostForm → HostAction}
    (hbody : ∀ fs, HostAction.Within free (fun _ => False) (body fs)) :
    HostsWithin free { s with natives := s.natives.push (.host body) } := by
  intro i other hi
  rw [Array.getElem?_push] at hi
  split at hi
  · cases hi
    exact hbody
  · exact h hi

end Session

end Lox
