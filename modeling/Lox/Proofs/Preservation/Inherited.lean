import Lox.Proofs.Depth.Plain
import Lox.Proofs.Host.Liberties

/-!
# What evaluation inherits from its parts

An evaluation is put together from steps on variables and objects, exchanges with the host, calls and
runs.  A property that all of these have, and that steps in a row have if each of them does, is one of
every evaluation, however many steps it nests.

What host functions do in the meantime makes a difference to some properties, so they may be asked to
keep to what is free.
-/

namespace Lox

namespace Eval

/-- Goes on after an overflow of the stack by raising it again, if there are steps left for that. -/
def PassesOn (f : Except Raised Answer → Eval Value) : Prop :=
  ∀ site s, ∃ i s', f (.error (.fault ⟨site, .stackOverflow⟩)) s = .error i s' ∧
    (i = .fault ⟨site, .stackOverflow⟩ ∨ i = .outOfFuel)

/-- A property that evaluation inherits from the steps that it is made of.  Runs have to have it only if
host functions may begin them. -/
structure Inherited (free : Liberties) (P : ∀ ⦃α : Type⦄, Eval α → Prop) : Prop where
  plain : ∀ {α : Type} (x : Eval α) [Local x] [Plain x], P x
  outOfFuel : ∀ {α : Type}, P (throw .outOfFuel : Eval α)
  bind : ∀ {α β : Type} {x : Eval α} {f : α → Eval β}, P x → (∀ a, P (f a)) → P (x >>= f)
  native : ∀ {f : Session → Eval Value}, (∀ s, s.HostsWithin free → P (f s)) →
    (∀ {s s'}, s.natives = s'.natives → f s = f s') → P (get >>= f)
  print : ∀ line, P (modify (Session.printLine line) : Eval Unit)
  clock : P readClock
  line : P readLine
  value : ∀ {o : HostObject}, o.Within free → P (toValue o)
  nested : ∀ {α : Type} {x : Eval α} (site : Token), P x → P (nested site x)
  raise : ∀ error : Raised, P (throw error.interrupt : Eval Value)
  attempt : ∀ {x : Eval Answer} {f : Except Raised Answer → Eval Value}, P x → (∀ r, P (f r)) →
    (¬ free.recovers → PassesOn f) → P (attempt x >>= f)
  recollect : ∀ {f : List HostForm → Eval Value}, (∀ fs, P (f fs)) → P (get >>= fun s => f s.memory)
  keep : ∀ things, P (modify fun s => { s with memory := things } : Eval Unit)
  evaluate : free.evaluates → ∀ {eval : Environment → Expr → Eval Value}, (∀ env e, P (eval env e)) →
    ∀ code, P (evaluateCode eval code)
  program : free.runs → ∀ {run : Environment → List Stmt → Eval Completion},
    (∀ env body, P (run env body)) → ∀ code, P (runProgram run code)
  other : free.runs → ∀ sort, P (runOther sort)
  execute : free.runs → ∀ {run : Environment → List Stmt → Eval Completion},
    (∀ env body, P (run env body)) → ∀ code, P (executeProgram run code)

/-- Evaluations that nest at most `n` steps have a property. -/
structure AllHave (free : Liberties) (P : ∀ ⦃α : Type⦄, Eval α → Prop) (n : Nat) : Prop where
  eval : ∀ env e, P (eval n env e)
  evalAll : ∀ env es, P (evalAll n env es)
  exec : ∀ env stmt, P (exec n env stmt)
  execAll : ∀ env body, P (execAll n env body)
  invoke : ∀ site callee arguments, P (invoke n site callee arguments)
  perform : ∀ {told action}, HostAction.Within free told action → P (perform n action)

theorem AllHave.imp {free : Liberties} {P Q : ∀ ⦃α : Type⦄, Eval α → Prop} {n : Nat}
    (h : AllHave free P n) (hPQ : ∀ {α : Type} {x : Eval α}, P x → Q x) : AllHave free Q n where
  eval env e := hPQ (h.eval env e)
  evalAll env es := hPQ (h.evalAll env es)
  exec env stmt := hPQ (h.exec env stmt)
  execAll env body := hPQ (h.execAll env body)
  invoke site callee arguments := hPQ (h.invoke site callee arguments)
  perform haction := hPQ (h.perform haction)

namespace Inherited

variable {free : Liberties} {P : ∀ ⦃α : Type⦄, Eval α → Prop} (h : Inherited free P)

include h

theorem fault {α : Type} (t : Token) {f : Fault} (hf : f ≠ .stackOverflow) :
    P (Eval.fault t f : Eval α) :=
  have : Plain (Eval.fault t f : Eval α) := plain_fault t hf
  h.plain _

theorem map {α β : Type} {g : α → β} {x : Eval α} (hx : P x) : P (g <$> x) := by
  rw [map_eq_pure_bind]
  exact h.bind hx fun a => h.plain _

theorem hostArguments (callee : Value) {os : List HostObject} (hos : ObjectsWithin free os) :
    P (Eval.hostArguments callee os) :=
  hostArguments_of_each P (fun _ => h.plain _) h.bind (fun _ ho => h.value (hos.within free ho))
    (fun _ => h.plain _) callee

section

variable {run : Environment → List Stmt → Eval Completion} (hrun : ∀ env body, P (run env body))

include hrun

theorem activate (f : Closure) (arguments : List Value) : P (Eval.activate run f arguments) := by
  rw [activate_eq]
  refine h.bind (h.plain _) fun env => h.bind (hrun env _) fun completion => ?_
  split <;> exact h.plain _

theorem instantiate (cls : Class) (arguments : List Value) :
    P (Eval.instantiate run cls arguments) := by
  unfold Eval.instantiate
  refine h.bind (h.plain _) fun made => ?_
  split
  · exact h.plain _
  · exact h.bind (h.plain _) fun f => h.bind (h.activate hrun f arguments) fun _ => h.plain _

end

/-! ## Evaluations of one step more -/

section

variable {n : Nat} (ih : AllHave free P n)

include ih

theorem eval_succ (env : Environment) (e : Expr) : P (eval (n + 1) env e) := by
  unfold eval
  cases e with
  | grouping _ inner => exact ih.eval env inner
  | unary _ op right => exact h.bind (ih.eval env right) fun v => h.plain _
  | binary _ left op right =>
      exact h.bind (ih.eval env left) fun v => h.bind (ih.eval env right) fun u => h.plain _
  | logical _ left op right =>
      refine h.bind (ih.eval env left) fun v => ?_
      split
      · exact h.plain _
      · exact ih.eval env right
  | assign id name value => exact h.bind (ih.eval env value) fun v => h.plain _
  | call _ callee paren arguments =>
      exact h.bind (ih.eval env callee) fun f => h.bind (ih.evalAll env arguments) fun vs =>
        h.bind (h.plain _) fun _ => ih.invoke paren f vs
  | get _ object name =>
      refine h.bind (ih.eval env object) fun v => ?_
      split
      · exact h.plain _
      · exact h.fault name (by decide)
  | set _ object name value =>
      refine h.bind (ih.eval env object) fun v => ?_
      split
      · exact h.bind (ih.eval env value) fun u => h.plain _
      · exact h.fault name (by decide)
  | literal | read | self | super | missing | misplaced => exact h.plain _

theorem evalAll_succ (env : Environment) (es : List Expr) : P (evalAll (n + 1) env es) := by
  unfold evalAll
  cases es with
  | nil => exact h.plain _
  | cons e es =>
      exact h.bind (ih.eval env e) fun v => h.bind (ih.evalAll env es) fun vs => h.plain _

theorem exec_succ (env : Environment) (stmt : Stmt) : P (exec (n + 1) env stmt) := by
  cases stmt with
  | expression value =>
      unfold exec
      exact h.bind (ih.eval env value) fun v => h.plain _
  | print value =>
      unfold exec
      exact h.bind (ih.eval env value) fun v => h.bind (h.print _) fun _ => h.plain _
  | var name initial =>
      cases initial with
      | none =>
          unfold exec
          exact h.plain _
      | some value =>
          unfold exec
          exact h.bind (ih.eval env value) fun v => h.plain _
  | block body =>
      unfold exec
      exact h.bind (h.plain _) fun inner => ih.execAll inner body
  | cond condition yes no =>
      unfold exec
      refine h.bind (ih.eval env condition) fun v => ?_
      split
      · exact ih.exec env yes
      · cases no with
        | none => exact h.plain _
        | some no => exact ih.exec env no
  | loop condition body =>
      unfold exec
      refine h.bind (ih.eval env condition) fun v => ?_
      split
      · refine h.bind (ih.exec env body) fun completion => ?_
        split
        · exact ih.exec env _
        · exact h.plain _
      · exact h.plain _
  | ret keyword value =>
      cases value with
      | none =>
          unfold exec
          exact h.plain _
      | some value =>
          unfold exec
          exact h.bind (ih.eval env value) fun v => h.plain _
  | function | classDecl | missing | misplaced =>
      unfold exec
      exact h.plain _

theorem execAll_succ (env : Environment) (body : List Stmt) : P (execAll (n + 1) env body) := by
  unfold execAll
  cases body with
  | nil => exact h.plain _
  | cons stmt body =>
      refine h.bind (ih.exec env stmt) fun completion => ?_
      split
      · exact ih.execAll env body
      · exact h.plain _

theorem invoke_succ (site : Token) (callee : Value) (arguments : List Value) :
    P (invoke (n + 1) site callee arguments) := by
  unfold invoke
  split
  -- The natives of the session decide what is called, and host functions among them are within
  -- bounds.
  · refine h.native (fun s hs => ?_) fun hsame => by rw [hsame]
    split
    · exact h.clock
    · exact h.line
    · next hnative => exact ih.perform (hs hnative _)
    · exact h.plain _
  · exact h.nested site (h.activate ih.execAll _ arguments)
  · exact h.nested site (h.instantiate ih.execAll _ arguments)
  · exact h.fault site (by decide)

/-- Whatever the host does with a session. -/
theorem take {step : Step} (hruns : step.BeginsRun → free.runs)
    (hevaluates : step.Evaluates → free.evaluates) (hstep : step.Within free) :
    P (Eval.take (eval n) (execAll n) (invoke n) step) := by
  cases hstep with
  | run => exact h.map (h.program (hruns trivial) ih.execAll _)
  | runOther => exact h.map (h.other (hruns trivial) _)
  | execute => exact h.map (h.execute (hruns trivial) ih.execAll _)
  | evaluate => exact h.map (h.evaluate (hevaluates trivial) ih.eval _)
  | get => exact h.map (h.plain _)
  | set ho => exact h.map (h.bind (h.value ho) fun v => h.plain _)
  | @call _ f hos =>
      refine h.map ?_
      cases f with
      | plain v => exact h.plain (hostError (.notCallable v.hostSort))
      | wrapper f =>
          exact h.bind (h.hostArguments f hos) fun vs => h.map (ih.invoke hostSite f vs)

theorem perform_succ {told : RuntimeError → Prop} {action : HostAction}
    (haction : action.Within free told) : P (perform (n + 1) action) := by
  unfold perform
  cases haction with
  | give ho => exact h.value ho
  | raise => exact h.raise _
  | ask hruns hevaluates hstep hlets hnext =>
      refine h.attempt (h.take ih hruns hevaluates hstep) (fun r => ih.perform (hnext r))
        fun hlet site s => ?_
      rw [hlets hlet site]
      cases n with
      | zero =>
          unfold perform
          exact ⟨_, s, rfl, .inr rfl⟩
      | succ n =>
          unfold perform
          exact ⟨_, s, rfl, .inl rfl⟩
  | recollect hnext => exact h.recollect fun fs => ih.perform (hnext fs)
  | keep ha => exact h.bind (h.keep _) fun _ => ih.perform ha

end

theorem zero : AllHave free P 0 := by
  constructor <;> intros
  · unfold eval; exact h.outOfFuel
  · unfold evalAll; exact h.outOfFuel
  · unfold exec; exact h.outOfFuel
  · unfold execAll; exact h.outOfFuel
  · unfold invoke; exact h.outOfFuel
  · unfold perform; exact h.outOfFuel

theorem succ {n : Nat} (ih : AllHave free P n) : AllHave free P (n + 1) :=
  ⟨h.eval_succ ih, h.evalAll_succ ih, h.exec_succ ih, h.execAll_succ ih, h.invoke_succ ih,
    h.perform_succ ih⟩

/-- Evaluations of any depth have what evaluation inherits from its parts. -/
theorem all (n : Nat) : AllHave free P n := by
  induction n with
  | zero => exact h.zero
  | succ n ih => exact h.succ ih

end Inherited

end Eval

end Lox
