import Lox.Proofs.History.Rejection
import Lox.Proofs.HostCall.Arguments
import Lox.Proofs.HostCall.Overlooking

/-!
# Calls from the host and calls in Lox

A function can be called from the host with things of the host, or in Lox with variables that were
defined with them.  Both calls end alike and leave the same session behind, apart from the variables.
-/

namespace Lox

/-! ## The place of a call -/

/-- Interrupts with the same message. -/
inductive Interrupt.SameMessage : Interrupt → Interrupt → Prop where
  | refl : Interrupt.SameMessage i i
  | fault : Interrupt.SameMessage (.fault ⟨t, f⟩) (.fault ⟨t', f⟩)

/-- Ends of an evaluation that differ at most in the place where a fault is reported. -/
inductive SameButPlace {α : Type} : EStateM.Result Interrupt Session α →
    EStateM.Result Interrupt Session α → Prop where
  | ok : SameButPlace (.ok a s) (.ok a s)
  | error : i.SameMessage i' → SameButPlace (.error i s) (.error i' s)

namespace Eval

variable {α : Type} {s : Session} (site site' : Token)

theorem nested_place (step : Eval α) (s : Session) :
    SameButPlace (nested site step s) (nested site' step s) := by
  unfold nested
  split
  · exact .error .refl
  split
  · exact .error .fault
  · split
    · exact .ok
    · exact .error .refl

/-- The place of a call makes no difference to the call. -/
theorem invoke_place (n : Nat) (callee : Value) (arguments : List Value) (s : Session) :
    SameButPlace (invoke n site callee arguments s) (invoke n site' callee arguments s) := by
  have same : ∀ r : EStateM.Result Interrupt Session Value, SameButPlace r r := by
    intro r
    cases r with
    | ok => exact .ok
    | error => exact .error .refl
  cases n with
  | zero =>
      unfold invoke
      exact same _
  | succ n =>
      unfold invoke
      cases callee with
      | native => exact same _
      | closure => exact nested_place site site' _ s
      | classObject => exact nested_place site site' _ s
      | _ => exact .error .fault

end Eval

/-! ## Sessions without the variables -/

theorem Bindings.mapValues_without {α β : Type} (f : α → β) (names : List String) (b : Bindings α) :
    (b.without names).mapValues f = (b.mapValues f).without names := by
  unfold Bindings.mapValues without
  rw [List.filter_map]
  rfl

theorem Session.SameButNumbers.without {s s' : Session} (h : s.SameButNumbers s') (names : List String) :
    (s.without names).SameButNumbers (s'.without names) :=
  { h with
    frames := fun f => by
      unfold Session.without
      rw [Frames.bindings_without, Frames.bindings_without]
      split
      · rw [Bindings.mapValues_without, Bindings.mapValues_without, h.frames]
      · exact h.frames f
    frameCount := by
      unfold Session.without
      rw [Frames.size_without, Frames.size_without, h.frameCount] }

/-! ## The two calls -/

/-- The host has a function in place of a value that can be called. -/
theorem HostForm.ofValue_of_arity {v : Value} {arity : Nat} (h : v.arity? = some arity) :
    HostForm.ofValue v = .wrapper v := by
  unfold HostForm.ofValue
  rw [h]

namespace Session

/-- How a call in Lox ends, and the call from the host. -/
inductive CallEnd (names : List String) :
    EStateM.Result Interrupt Session (Except (List Diagnostic) HostForm) →
    EStateM.Result Interrupt Session HostForm → Prop where
  | value : f'.unnumbered = f.unnumbered → (s.without names).SameButNumbers s' →
      (s.without names).SameReport s' → CallEnd names (.ok (.ok f) s) (.ok f' s')
  | interrupt : i.SameMessage i' → (s.without names).SameButNumbers s' →
      (s.without names).SameReport s' → CallEnd names (.error i s) (.error i' s')

/-- Names for the arguments of a call: different names that are not bound, and that nothing in the
call mentions. -/
structure Fresh (s : Session) (fuel : Nat) (callee : Value) (arguments : List HostObject)
    (names : List String) : Prop where
  isName : ∀ name ∈ names, IsName name
  distinct : names.Nodup
  unbound : ∀ name ∈ names, s.frames.find? globals name = none
  unmentioned : ∀ {n task t}, Visits (.call (.wrapper callee) arguments) fuel s n task t →
    ∀ name ∈ names, name ∉ task.names

theorem Fresh.overlooks {s s₁ : Session} {fuel : Nat} {callee : Value} {arguments : List HostObject}
    {vs : List Value} {names : List String} (h : s.Fresh fuel callee arguments names)
    (hvalues : Eval.hostArguments callee arguments s = .ok vs s₁) :
    Eval.Overlooks names (Eval.invoke fuel Eval.hostSite callee vs) s₁ := by
  have hthis : "this" ∉ names := fun hmem => absurd (h.isName _ hmem).2 (by decide)
  have hsuper : "super" ∉ names := fun hmem => absurd (h.isName _ hmem).2 (by decide)
  exact (Eval.allOverlook hthis hsuper fuel).invoke
    (Task.spares_of_visits h.unmentioned (.starts (.call hvalues)))

/-- A native function whose code gives its argument. -/
def ReturnsArgument (s : Session) (native : Value) : Prop :=
  ∃ id body, native = .native id 1 ∧ s.natives[id]? = some (.host body) ∧
    ∀ form, body [form] = .give (.form form)

/-- What the host has for a value is taken for the value itself, which leaves the session alone, on its
way through any number of native functions that give their argument. -/
def ReturnsUnchanged (s : Session) (v : Value) : Prop :=
  Eval.toValue (.form (.ofValue v)) s = .ok v s ∧
    ∀ natives : List Value, (∀ native ∈ natives, s.ReturnsArgument native) → ∀ n site,
      natives.foldlM (fun u native => Eval.invoke (n + 2) site native [u]) v s = .ok v s

variable {s s₁ : Session} {known : Value → Prop} {callee : String} {params : List String} {v : Value}
  {arguments : List HostObject} {vs : List Value} {fuel : Nat}

theorem hostArguments_eq (harity : v.arity? = some arguments.length)
    (hvalues : Eval.toValues arguments s = .ok vs s₁) :
    Eval.hostArguments v arguments s = .ok vs s₁ := by
  simp only [Eval.hostArguments, harity, if_true, hvalues]

theorem callGlobal_eq (hbound : s.frames.find? globals callee = some v) {arity : Nat}
    (harity : v.arity? = some arity)
    (harguments : Eval.hostArguments v arguments s = .ok vs s₁) (fuel : Nat) :
    callGlobal fuel callee arguments s =
      (HostForm.ofValue <$> Eval.invoke fuel Eval.hostSite v vs) s₁ := by
  have hget : Eval.getGlobal callee s = .ok (.ofValue v) s := by
    rw [Eval.getGlobal, eval_get_bind_apply, hbound]
    rfl
  rw [callGlobal, eval_bind_ok hget, HostForm.ofValue_of_arity harity]
  exact eval_bind_ok harguments

end Session

section

variable {w w' : World} {names : List String} {s t : Session}

/-- Sessions at the same pace, one of which has numbered more references and has variables besides. -/
theorem Session.Alike.hidden {u : Session} (h : Session.Alike .renumbering w' s t)
    (hw : World.Later .renumbering w w') (hahead : w.pace.ahead = #[]) (hstale : w.pace.stale = false)
    (hhides : u.Hides names t) :
    (s.without names).SameButNumbers u ∧ (s.without names).SameReport u := by
  obtain ⟨-, rfl⟩ := hhides
  have hpace : w'.pace.ahead = #[] ∧ w'.pace.stale = false := by
    rcases hw.pace with hsame | ⟨-, hsame⟩ <;> rw [hsame]
    · exact ⟨hahead, hstale⟩
    · exact ⟨rfl, rfl⟩
  have houtput := h.output
  rw [hpace.1, Array.empty_append] at houtput
  exact ⟨h.sameButNumbers.without names, houtput, h.staticError hpace.2, h.runtimeError hpace.2⟩

/-- Both calls end alike if the place of the call, the numbers of references and the variables make no
difference. -/
theorem callEnd_of_ends {x y : Eval Value} {r r' : EStateM.Result Interrupt Session Value}
    (hahead : w.pace.ahead = #[]) (hstale : w.pace.stale = false) (hplace : SameButPlace (x s) r)
    (hnumbers : Outcome .renumbering True (Value.Alike .renumbering) w r r')
    (hhides : Session.HidesIn names (y t) r') :
    Session.CallEnd names (((fun v => .ok (.ofValue v)) <$> x : Eval (Except (List Diagnostic) HostForm)) s)
      ((HostForm.ofValue <$> y) t) := by
  rw [map_eq_pure_bind, map_eq_pure_bind, eval_bind_apply, eval_bind_apply]
  generalize x s = first at hplace ⊢
  generalize y t = last at hhides ⊢
  cases hplace with
  | ok =>
      cases hnumbers with
      | ok hw hs hv =>
          cases hhides with
          | ok hhides =>
              obtain ⟨hsame, hreport⟩ := hs.hidden hw hahead hstale hhides
              exact .value (formsAlike_unnumbered (formsAlike_ofValue hv)) hsame hreport
  | error hmessage =>
      cases hhides with
      | ok _ =>
          cases hnumbers with
          | slack h => exact absurd trivial h
      | error hhides =>
          cases hnumbers with
          | fault hw hs htoken _ =>
              obtain ⟨hsame, hreport⟩ := hs.hidden hw hahead hstale hhides
              obtain rfl := htoken
              exact .interrupt hmessage hsame hreport
          | host hw hs _ | outOfFuel hw hs =>
              obtain ⟨hsame, hreport⟩ := hs.hidden hw hahead hstale hhides
              exact .interrupt hmessage hsame hreport
          | slack h => exact absurd trivial h

end

theorem Session.Alike.global {ℓ : Likeness} {w : World} {s : Session} {name : String} {v : Value}
    (hs : Session.Alike ℓ w s s) (hbound : s.frames.find? Session.globals name = some v) :
    Value.Alike ℓ w v v := by
  have hfound := hs.frames.find? Session.globalFrame name
  rw [hs.frames.rename_globals, ← Frames.find?_globals, hbound] at hfound
  cases hfound with
  | some hv => exact hv

theorem Session.Alike.numbering {w : World} {s : Session} (hs : Session.Alike .renumbering w s s)
    (gap : Nat) :
    Session.Alike .renumbering (w.paced ⟨#[], false, gap⟩) (s.numbering (s.nextNode + gap)) s :=
  hs.paced (Nat.le_add_right _ _) (Nat.le_refl _) (fun _ => rfl) (fun _ _ => trivial)
    (Array.empty_append).symm (fun _ => rfl) fun _ => rfl

theorem Session.Alike.withArguments {w : World} {s s₁ : Session} {arguments : List HostObject}
    {vs : List Value} (hs : Session.Alike .renumbering w s s)
    (harguments : ObjectsAlike .renumbering w arguments arguments)
    (hvalues : Eval.toValues arguments s = .ok vs s₁) (params : List String) (gap : Nat) :
    ∃ w', w ≤ w' ∧ w'.pace.ahead = #[] ∧ w'.pace.stale = false ∧
      List.Forall₂ (Value.Alike .renumbering w') vs vs ∧
      Session.Alike .renumbering w' ((s₁.bindAll params vs).numbering (s.nextNode + gap))
        (s₁.bindAll params vs) := by
  have hout : Outcome .renumbering True _ w (Eval.toValues arguments s) (Eval.toValues arguments s) :=
    simulates_toValues harguments False.elim s s hs
  rw [hvalues] at hout
  cases hout with
  | @ok w₁ _ _ _ _ hw₁ hs₁ hvs =>
      obtain ⟨hvs, -⟩ := hvs
      obtain ⟨w₂, hw₂, hs₂⟩ := hs₁.bindAll (List.forall₂_same.mp hvs) params
      have hnext : (s₁.bindAll params vs).nextNode = s.nextNode := by
        rw [Session.bindAll_eq, Eval.toValues_eq hvalues]
      have hpaced := hs₂.numbering gap
      rw [hnext] at hpaced
      have hle := World.le_trans hw₂ (w₂.le_paced ⟨#[], false, gap⟩)
      exact ⟨_, World.le_trans hw₁.le hle, rfl, rfl, hvs.imp fun _ _ hv => hv.mono hle, hpaced⟩

namespace Session

theorem returnsUnchanged {v : Value} (hv : ∀ id cls, v ≠ .object id cls) (s : Session) :
    s.ReturnsUnchanged v := by
  have hvalue : Eval.toValue (.form (.ofValue v)) s = .ok v s := by
    rw [Eval.toValue_ofValue hv]
    rfl
  refine ⟨hvalue, fun natives hnatives n site => ?_⟩
  induction natives with
  | nil => rfl
  | cons native natives ih =>
      obtain ⟨id, body, rfl, hbody, hgives⟩ := hnatives native List.mem_cons_self
      have hreturn : Eval.invoke (n + 2) site (.native id 1) [v] s = .ok v s := by
        unfold Eval.invoke
        dsimp only
        rw [eval_get_bind_apply, hbody]
        dsimp only
        rw [List.map_singleton, hgives]
        unfold Eval.perform
        exact hvalue
      rw [List.foldlM_cons, eval_bind_ok hreturn]
      exact ih fun other hother => hnatives other (List.mem_cons_of_mem _ hother)

variable {s : Session} {known : Value → Prop} {callee : String} {params : List String} {v : Value}
  {arguments : List HostObject} {fuel : Nat}

theorem fresh_of_returning {f : Closure} {keyword name : Token} {id : NodeId} {names : List String}
    (hbody : f.decl.body = [.ret keyword (some (.read id name))]) (hname : name.lexeme ∉ names)
    (hnames : ∀ other ∈ names, IsName other) (hdistinct : names.Nodup)
    (hunbound : ∀ other ∈ names, s.frames.find? globals other = none) :
    s.Fresh fuel (.closure f) arguments names := by
  refine ⟨hnames, hdistinct, hunbound, fun {n task t} hvisits => ?_⟩
  have htask : (∃ site vs, task = .invoke site (.closure f) vs) ∨
      (∃ env, task = .execAll env f.decl.body) ∨ (∃ env, task = .execAll env []) ∨
      (∃ env, task = .exec env (.ret keyword (some (.read id name)))) ∨
      ∃ env, task = .eval env (.read id name) := by
    induction hvisits with
    | starts hstarts =>
        cases hstarts with
        | call _ => exact .inl ⟨_, _, rfl⟩
    | calls _ hcalls ih =>
        rcases ih with ⟨_, _, rfl⟩ | ⟨_, rfl⟩ | ⟨_, rfl⟩ | ⟨_, rfl⟩ | ⟨_, rfl⟩
        · cases hcalls with
          | function _ _ => exact .inr (.inl ⟨_, rfl⟩)
        · rw [hbody] at hcalls
          cases hcalls with
          | firstStmt => exact .inr (.inr (.inr (.inl ⟨_, rfl⟩)))
          | moreStmts _ => exact .inr (.inr (.inl ⟨_, rfl⟩))
        · cases hcalls
        · cases hcalls with
          | returned => exact .inr (.inr (.inr (.inr ⟨_, rfl⟩)))
        · cases hcalls
  intro other hother hmem
  rcases htask with ⟨_, _, rfl⟩ | ⟨_, rfl⟩ | ⟨_, rfl⟩ | ⟨_, rfl⟩ | ⟨_, rfl⟩
  case inr.inr.inr.inr => exact hname (List.mem_singleton.mp hmem ▸ hother)
  all_goals cases hmem

end Session

/-- The variable that a function of one parameter returns, if it does nothing else. -/
def Value.returnedVariable? : Value → Option String
  | .closure ⟨_, .mk _ [_] [.ret _ (some (.read _ name))], _, _⟩ => some name.lexeme
  | _ => none

theorem Value.of_returnedVariable? {v : Value} {x : String} (h : v.returnedVariable? = some x) :
    ∃ f keyword id name, v = .closure f ∧ f.decl.arity = 1 ∧
      f.decl.body = [.ret keyword (some (.read id name))] ∧ name.lexeme = x := by
  unfold returnedVariable? at h
  split at h
  · exact ⟨_, _, _, _, rfl, rfl, rfl, Option.some.inj h⟩
  · cases h

namespace Session

def declaring : Step :=
  .run "fun same(a) \x7b return a; \x7d"

def returning : Session :=
  leftBy (declaring.take 20 (.start {} [] fun _ => 0))

end Session

end Lox
