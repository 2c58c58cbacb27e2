import Lox.Proofs.History.Log
import Lox.Proofs.History.Outward
import Lox.Proofs.Joining.Program
import Lox.Proofs.Preservation.Upheld
import Lox.Proofs.Soundness.Exact

/-!
# The same program further down

Empty lines before a program change nothing about its run but lines: those in the code of the functions
that it declares, and that of its error.  The error moves along if it is one of the program's own code.
If it is one of code that was there before, it stays where it is, however many lines are added.
-/

namespace Lox

/-! ## Functions further down -/

/-- A function declaration that stands somewhere in a program or expression. -/
def Part.Declares (part : Part) (decl : FunDecl) : Prop :=
  ∃ c σ, Reaches part c σ (.function decl)

section

variable (own : List Stmt) (log : List Entry) (k : Int)

/-- The code of a function: it stands `k` lines further down if the program `own` declares it, and where
it was if earlier code does. -/
inductive FunDecl.Lowered : FunDecl → FunDecl → Prop where
  | own : Part.Declares (.body own) decl → FunDecl.Lowered decl (decl.moved k fun id => id)
  | earlier : Standing log part → part.Declares decl → FunDecl.Lowered decl decl

structure Closure.Lowered (f f' : Closure) : Prop where
  id_eq : f'.id = f.id
  env_eq : f'.env = f.env
  role_eq : f'.role = f.role
  decl : FunDecl.Lowered own log k f.decl f'.decl

inductive Class.Lowered : Class → Class → Prop where
  | root : Bindings.Alike (Closure.Lowered own log k) (fun x => x) declared declared' →
      Class.Lowered (.mk number label none declared) (.mk number label none declared')
  | derived : Class.Lowered base base' →
      Bindings.Alike (Closure.Lowered own log k) (fun x => x) declared declared' →
      Class.Lowered (.mk number label (some base) declared) (.mk number label (some base') declared')

inductive Value.Lowered : Value → Value → Prop where
  | basic : v.isBasic → Value.Lowered v v
  | native : Value.Lowered (.native i arity) (.native i arity)
  | closure : Closure.Lowered own log k f f' → Value.Lowered (.closure f) (.closure f')
  | classObject : Class.Lowered own log k cls cls' →
      Value.Lowered (.classObject cls) (.classObject cls')
  | object : Class.Lowered own log k cls cls' → Value.Lowered (.object i cls) (.object i cls')

end

variable {own : List Stmt} {log : List Entry}

theorem FunDecl.Lowered.eq {decl decl' : FunDecl} (h : FunDecl.Lowered own log 0 decl decl') :
    decl' = decl := by
  cases h with
  | own _ => exact decl.moved_zero
  | earlier _ _ => rfl

theorem Closure.Lowered.eq {f f' : Closure} (h : Closure.Lowered own log 0 f f') : f' = f := by
  obtain ⟨id, decl, env, role⟩ := f
  obtain ⟨hid, henv, hrole, hdecl⟩ := h
  have hdecl := hdecl.eq
  cases f'
  cases hid
  cases henv
  cases hrole
  cases hdecl
  rfl

theorem Bindings.Alike.eq {α : Type} {R : α → α → Prop} (hR : ∀ {v v'}, R v v' → v' = v)
    {b b' : Bindings α} (h : Bindings.Alike R (fun x => x) b b') : b' = b := by
  induction h with
  | nil => rfl
  | cons hv _ ih => rw [hR hv, ih]

theorem Class.Lowered.eq {cls cls' : Class} (h : Class.Lowered own log 0 cls cls') : cls' = cls := by
  induction h with
  | root hmethods => rw [hmethods.eq Closure.Lowered.eq]
  | derived _ hmethods ih => rw [hmethods.eq Closure.Lowered.eq, ih]

theorem Value.Lowered.eq {v v' : Value} (h : Value.Lowered own log 0 v v') : v' = v := by
  cases h with
  | basic | native => rfl
  | closure h => rw [h.eq]
  | classObject h => rw [h.eq]
  | object h => rw [h.eq]

/-! ## The likeness -/

/-- A token that errors of earlier code are reported at: it stands in code that the session was given
before, or for the place of a call by the host. -/
def Earlier (log : List Entry) (t : Token) : Prop :=
  t = Eval.hostSite ∨ ∃ part, Standing log part ∧ t ∈ part.tokens

namespace Likeness

/-- The likeness under which the code of the program `own` may stand `k` lines further down, and all
earlier code stands where it was. -/
def lowering (own : List Stmt) (log : List Entry) (k : Int) : Likeness :=
  { Likeness.exact False with
    token := fun ours t t' =>
      (ours = true ∧ t ∈ bodyTokens own ∧ t' = t.down k) ∨ (ours = false ∧ Earlier log t ∧ t' = t)
    token_kind := by
      rintro _ t _ (⟨-, -, rfl⟩ | ⟨-, -, rfl⟩)
      · exact t.kind_down k
      · rfl
    token_site := .inr ⟨rfl, .inl rfl, rfl⟩
    genuine := fun ours part => (ours = true ∧ part = .body own) ∨ (ours = false ∧ Standing log part)
    token_self := fun {part} hpart t ht =>
      hpart.elim (fun h => absurd h.1 Bool.false_ne_true)
        fun h => .inr ⟨rfl, .inr ⟨part, h.2, ht⟩, rfl⟩
    allowed := fun step => ¬ step.HandsIn
    reentry := False
    reentry_of_allowed := fun h => h
    genuine_of_accepted := False.elim }

theorem lowering_obeys (own : List Stmt) (log : List Entry) (k : Int) :
    (lowering own log k).Obeys .secluded where
  view w := Likeness.view_outward _ w
  strict := Iff.rfl
  allowed h := h

theorem lowering_lowers (own : List Stmt) (log : List Entry) (k : Int) (ours : Bool) :
    (lowering own log k).Lowers ours (cond ours k 0) fun id => id where
  token {t t'} := by
    rintro (⟨rfl, -, rfl⟩ | ⟨rfl, -, rfl⟩)
    · rfl
    · exact t'.down_zero.symm
  number h := h

end Likeness

section

variable {k : Int} {w : World} {code : Code}

/-- Declarations of code that the world knows are of the program's own, or of earlier code. -/
theorem FunDecl.Alike.lowered
    (hcode : (Likeness.lowering own log k).genuine code.own code.part) {c : Context} {σ : Scopes}
    {ρs : List (String → String)} {decl decl' : FunDecl}
    (hreaches : Reaches code.part c σ (.function decl))
    (h : FunDecl.Alike (.lowering own log k) code ρs decl decl') :
    FunDecl.Lowered own log k decl decl' := by
  have heq := h.eq (Likeness.lowering_lowers own log k code.own)
  rw [FunDecl.moved_zero] at heq
  rcases hcode with ⟨hours, hpart⟩ | ⟨hours, hstanding⟩
  · rw [heq, hours]
    exact .own ⟨c, σ, hpart ▸ hreaches⟩
  · rw [heq, hours, cond_false, FunDecl.moved_zero]
    exact .earlier hstanding ⟨c, σ, hreaches⟩

variable (hcodes : ∀ {code}, w.code code → (Likeness.lowering own log k).genuine code.own code.part)

include hcodes

theorem Closure.MethodAlike.lowered {f f' : Closure}
    (h : Closure.MethodAlike (.lowering own log k) w f f') : Closure.Lowered own log k f f' := by
  obtain ⟨hid, henv, hrole, -, _, _, _, _, hcode, -, hreaches, -, hdecl⟩ := h
  exact ⟨hid, henv, hrole, hdecl.lowered (hcodes hcode) hreaches⟩

theorem Closure.Alike.lowered {f f' : Closure} (h : Closure.Alike (.lowering own log k) w f f') :
    Closure.Lowered own log k f f' := by
  obtain ⟨hid, henv, hrole, ⟨_, _, _, _, -, hsited, hdecl⟩, -, -⟩ := h
  exact ⟨hid, henv, hrole, hdecl.lowered (hcodes hsited.accepted) hsited.reaches⟩

theorem Class.Alike.lowered {cls cls' : Class} (h : Class.Alike (.lowering own log k) w cls cls') :
    Class.Lowered own log k cls cls' := by
  induction h with
  | root _ hmethods => exact .root (hmethods.imp fun h => h.lowered hcodes)
  | derived _ _ hmethods ih => exact .derived ih (hmethods.imp fun h => h.lowered hcodes)

theorem Value.Alike.lowered {v v' : Value} (h : Value.Alike (.lowering own log k) w v v') :
    Value.Lowered own log k v v' := by
  cases h with
  | native _ => exact .native
  | closure h => exact .closure (h.lowered hcodes)
  | classObject h => exact .classObject (h.lowered hcodes)
  | object h => exact .object (h.lowered hcodes)
  | _ => exact .basic rfl

end

/-! ## Sessions and runs -/

/-- Sessions that differ in nothing but the lines of functions, host functions and what was printed
before. -/
structure Session.Lowered (own : List Stmt) (log : List Entry) (k : Int) (ahead : Array String)
    (s s' : Session) : Prop where
  frames : s'.frames.frames.size = s.frames.frames.size
  bindings : ∀ f, Bindings.Alike (Value.Lowered own log k) (fun x => x) (s.frames.bindings f)
    (s'.frames.bindings f)
  instances : s'.fields.size = s.fields.size
  fields : ∀ i, Bindings.Alike (Value.Lowered own log k) (fun x => x) (s.fields.getD i [])
    (s'.fields.getD i [])
  natives : s'.natives.size = s.natives.size
  memory : List.Forall₂ (HostForm.Related (Value.Lowered own log k)) s.memory s'.memory
  others : s' = { s with
    frames := s'.frames
    fields := s'.fields
    natives := s'.natives
    memory := s'.memory
    output := ahead ++ s.output }

theorem HostForm.Related.eq {f f' : HostForm}
    (h : HostForm.Related (Value.Lowered own log 0) f f') : f' = f := by
  cases h with
  | plain hv => rw [hv.eq]
  | wrapper hf => rw [hf.eq]

theorem formsLowered_eq {fs fs' : List HostForm}
    (h : List.Forall₂ (HostForm.Related (Value.Lowered own log 0)) fs fs') : fs' = fs := by
  induction h with
  | nil => rfl
  | cons hf _ ih => rw [hf.eq, ih]

theorem Session.Lowered.trans {own' : List Stmt} {log' : List Entry} {k : Int}
    {ahead : Array String} {s s' s'' : Session} (h : Session.Lowered own log k #[] s s')
    (h' : Session.Lowered own' log' 0 ahead s' s'') : Session.Lowered own log k ahead s s'' where
  frames := h'.frames.trans h.frames
  bindings f := (h'.bindings f).eq Value.Lowered.eq ▸ h.bindings f
  instances := h'.instances.trans h.instances
  fields i := (h'.fields i).eq Value.Lowered.eq ▸ h.fields i
  natives := h'.natives.trans h.natives
  memory := formsLowered_eq h'.memory ▸ h.memory
  others := by
    have hothers := h'.others
    rw [h.others] at hothers
    simpa only [Array.empty_append] using hothers

/-- Runs of the program `own` that end alike.  If the error is one of its own code, it is `k` lines
further down in the second run.  One of earlier code is reported on the same line. -/
inductive EndsLowered (own : List Stmt) (log : List Entry) (k : Int) (ahead : Array String) :
    Bool → EStateM.Result Interrupt Session Report → EStateM.Result Interrupt Session Report →
      Prop where
  | finished : Session.Lowered own log k ahead s s' →
      EndsLowered own log k ahead ours (.ok .finished s) (.ok .finished s')
  | own : Session.Lowered own log k ahead s s' → t ∈ bodyTokens own →
      EndsLowered own log k ahead true (.ok (.failed ⟨t, f⟩) s) (.ok (.failed ⟨t.down k, f⟩) s')
  | earlier : Session.Lowered own log k ahead s s' → Earlier log t →
      EndsLowered own log k ahead false (.ok (.failed ⟨t, f⟩) s) (.ok (.failed ⟨t, f⟩) s')
  | raised : Session.Lowered own log k ahead s s' →
      EndsLowered own log k ahead ours (.error (.host e) s) (.error (.host e) s')
  | outOfFuel : Session.Lowered own log k ahead s s' →
      EndsLowered own log k ahead ours (.error .outOfFuel s) (.error .outOfFuel s')

/-- The line that a run reports an error at. -/
def errorLine : EStateM.Result Interrupt Session Report → Option Int
  | .ok (.failed e) _ => some e.token.line
  | _ => none

namespace EndsLowered

variable {k : Int} {ours : Bool} {ahead : Array String}
  {r r' r'' : EStateM.Result Interrupt Session Report}

theorem errorLine_eq (h : EndsLowered own log k ahead ours r r') :
    errorLine r' = (errorLine r).map (· + cond ours k 0) := by
  cases h with
  | finished | raised | outOfFuel => rfl
  | own _ _ => rfl
  | earlier _ _ => exact congrArg some (Int.add_zero _).symm

theorem trans (h : EndsLowered own log k #[] ours r r') {own' : List Stmt} {log' : List Entry}
    {ours' : Bool} (h' : EndsLowered own' log' 0 ahead ours' r' r'') :
    EndsLowered own log k ahead ours r r'' := by
  cases h with
  | finished hs =>
      cases h' with
      | finished hs' => exact .finished (hs.trans hs')
  | raised hs =>
      cases h' with
      | raised hs' => exact .raised (hs.trans hs')
  | outOfFuel hs =>
      cases h' with
      | outOfFuel hs' => exact .outOfFuel (hs.trans hs')
  | own hs ht =>
      cases h' with
      | own hs' _ =>
          rw [Token.down_zero]
          exact .own (hs.trans hs') ht
      | earlier hs' _ => exact .own (hs.trans hs') ht
  | earlier hs ht =>
      cases h' with
      | own hs' _ =>
          rw [Token.down_zero]
          exact .earlier (hs.trans hs') ht
      | earlier hs' _ => exact .earlier (hs.trans hs') ht

/-- Where there is no error, it makes no difference whose it would be. -/
theorem of_errorless (h : EndsLowered own log k ahead ours r r') (hnone : errorLine r = none)
    (ours' : Bool) : EndsLowered own log k ahead ours' r r' := by
  cases h with
  | finished hs => exact .finished hs
  | raised hs => exact .raised hs
  | outOfFuel hs => exact .outOfFuel hs
  | own | earlier => cases hnone

/-- On the same line an error may be one of the program or of earlier code, if other runs show which. -/
theorem of_unmoved (h : EndsLowered own log 0 ahead ours r r') {k' : Int} {ours' : Bool}
    (hother : EndsLowered own log k' ahead ours' r r'') : EndsLowered own log 0 ahead ours' r r' := by
  cases hother with
  | finished | raised | outOfFuel => exact h.of_errorless rfl ours'
  | @own _ _ _ f _ ht =>
      cases h with
      | own hs _ => exact .own hs ht
      | earlier hs _ =>
          have hown := EndsLowered.own (f := f) hs ht
          rwa [Token.down_zero] at hown
  | earlier _ ht =>
      cases h with
      | own hs _ =>
          rw [Token.down_zero]
          exact .earlier hs ht
      | earlier hs _ => exact .earlier hs ht

/-- Lines of which each two are as far apart as the runs that report them, or the same, are all as far
apart as the runs, or all the same. -/
theorem lines_uniform {line : Nat → Int}
    (h : ∀ n n' : Nat, line n' = line n ∨ line n' = line n + (n' - n)) :
    (∀ n n' : Nat, line n' = line n) ∨ ∀ n n' : Nat, line n' = line n + (n' - n) := by
  by_cases hstays : ∀ n n' : Nat, line n' = line n
  · exact .inl hstays
  simp only [not_forall] at hstays
  obtain ⟨a, b, hab⟩ := hstays
  have hmoved : line b = line a + (b - a) := (h a b).resolve_left hab
  -- Each line is as far from that of the run `a` as the runs are, for it is also near that of `b`.
  have hfrom : ∀ n : Nat, line n = line a + (n - a) := by
    intro n
    have ha := h a n
    have hb := h n b
    omega
  refine .inr fun n n' => ?_
  have hn := hfrom n
  have hn' := hfrom n'
  omega

/-- Runs of which each two end alike.  The error is one of the program in all of them, or one of earlier
code in all of them. -/
theorem uniform {program : Nat → List Stmt} {r : Nat → EStateM.Result Interrupt Session Report}
    (h : ∀ n n' : Nat, ∃ ours, EndsLowered (program n) log (n' - n) ahead ours (r n) (r n')) :
    ∃ ours, ∀ n n' : Nat, EndsLowered (program n) log (n' - n) ahead ours (r n) (r n') := by
  have hline : ∀ n n' : Nat, ∃ ours, errorLine (r n') =
      (errorLine (r n)).map (· + cond ours (n' - n : Int) 0) := by
    intro n n'
    obtain ⟨ours, hends⟩ := h n n'
    exact ⟨ours, hends.errorLine_eq⟩
  cases hzero : errorLine (r 0) with
  | none =>
      refine ⟨true, fun n n' => ?_⟩
      obtain ⟨_, hends⟩ := h n n'
      obtain ⟨_, hn⟩ := hline 0 n
      rw [hzero] at hn
      exact hends.of_errorless hn true
  | some _ =>
      have hsome : ∀ n, ∃ line, errorLine (r n) = some line := by
        intro n
        obtain ⟨_, hn⟩ := hline 0 n
        rw [hzero] at hn
        exact ⟨_, hn⟩
      choose line hlines using hsome
      have hpair : ∀ n n' : Nat, ∃ ours, EndsLowered (program n) log (n' - n) ahead ours (r n) (r n') ∧
          line n' = line n + cond ours (n' - n : Int) 0 := by
        intro n n'
        obtain ⟨ours, hends⟩ := h n n'
        have heq := hends.errorLine_eq
        rw [hlines, hlines] at heq
        exact ⟨ours, hends, Option.some.inj heq⟩
      have huniform : (∀ n n' : Nat, line n' = line n) ∨
          ∀ n n' : Nat, line n' = line n + (n' - n) := by
        refine lines_uniform fun n n' => ?_
        obtain ⟨_ | _, -, heq⟩ := hpair n n'
        · exact .inl (heq.trans (Int.add_zero _))
        · exact .inr heq
      -- Two runs at different places show whose error it is.
      have hshown : ∃ ours, ∀ n n' : Nat, n ≠ n' →
          EndsLowered (program n) log (n' - n) ahead ours (r n) (r n') := by
        rcases huniform with hsame | hmoved
        · refine ⟨false, fun n n' hne => ?_⟩
          obtain ⟨_ | _, hends, heq⟩ := hpair n n'
          · exact hends
          · have hfar := (hsame n n').symm.trans heq
            simp only [cond_true] at hfar
            omega
        · refine ⟨true, fun n n' hne => ?_⟩
          obtain ⟨_ | _, hends, heq⟩ := hpair n n'
          · have hfar := (hmoved n n').symm.trans heq
            simp only [cond_false] at hfar
            omega
          · exact hends
      obtain ⟨ours, hshown⟩ := hshown
      refine ⟨ours, fun n n' => ?_⟩
      by_cases hne : n = n'
      · subst hne
        obtain ⟨_, hends⟩ := h n n
        rw [Int.sub_self] at hends ⊢
        exact hends.of_unmoved (hshown n (n + 1) (Nat.ne_add_one n))
      · exact hshown n n' hne

end EndsLowered

/-- What evaluation leaves alone, if no host function hands in code. -/
structure Session.Retains (s s' : Session) : Prop where
  hops : s'.hops = s.hops
  nextNode : s'.nextNode = s.nextNode
  staticError : s'.hadStaticError = s.hadStaticError
  runtimeError : s'.hadRuntimeError = s.hadRuntimeError

namespace Session.Retains

variable {s s' s'' : Session}

theorem of_common (h : s.Retains s') (h' : s.Retains s'') : s'.Retains s'' where
  hops := h'.hops.trans h.hops.symm
  nextNode := h'.nextNode.trans h.nextNode.symm
  staticError := h'.staticError.trans h.staticError.symm
  runtimeError := h'.runtimeError.trans h.runtimeError.symm

theorem ready (h : s.Retains s') (source : String) : (s.ready source).Retains (s'.ready source) where
  hops := by simp only [Session.ready, Session.beginRun, h.hops, h.nextNode]
  nextNode := by simp only [Session.ready, h.nextNode]
  staticError := rfl
  runtimeError := rfl

end Session.Retains

instance : Upheld .noCode Session.Retains where
  refl _ := ⟨rfl, rfl, rfl, rfl⟩
  trans h h' := ⟨h'.hops.trans h.hops, h'.nextNode.trans h.nextNode,
    h'.staticError.trans h.staticError, h'.runtimeError.trans h.runtimeError⟩
  store _ _ _ _ _ := ⟨rfl, rfl, rfl, rfl⟩
  exchange _ _ _ _ _ := ⟨rfl, rfl, rfl, rfl⟩
  print _ _ := ⟨rfl, rfl, rfl, rfl⟩
  call h := ⟨h.hops, h.nextNode, h.staticError, h.runtimeError⟩
  number h := h.elim
  begin h := h.elim
  read h := h.elim
  flag h := h.elim

theorem Session.Alike.lowered {k : Int} {w : World} {s s' : Session}
    (h : Session.Alike (.lowering own log k) w s s') (hfresh : w.pace.stale = false)
    (hhops : s'.hops = s.hops) (hnext : s'.nextNode = s.nextNode) :
    Session.Lowered own log k w.pace.ahead s s' where
  frames := h.frames.size'.trans h.frames.size.symm
  bindings f := by
    have hbindings := h.frames.bindings f
    rw [h.frames.renames f] at hbindings
    exact hbindings.imp fun hv => hv.lowered h.genuine
  instances := h.fields.size
  fields i := (h.fields.bindings i).imp fun hv => hv.lowered h.genuine
  natives := h.natives.size'.trans h.natives.size.symm
  memory := h.memory.imp fun _ _ hf => hf.imp fun hv => hv.lowered h.genuine
  others := by
    have hstatic := h.staticError hfresh
    have hruntime := h.runtimeError hfresh
    rw [← h.output, ← hhops, ← hnext, ← h.nextObject, ← h.depth, ← h.limits, ← h.written, ← h.input,
      ← h.readings, ← h.ticks, ← hstatic, ← hruntime]

section

variable {k : Int} {w : World} {r r' : EStateM.Result Interrupt Session Report}

theorem Outcome.endsLowered
    (h : Outcome (.lowering own log k) True
      (fun _ => Report.Related (RuntimeError.Alike (.lowering own log k))) w r r')
    (hfresh : w.pace.stale = false) (hhops : (leftBy r').hops = (leftBy r).hops)
    (hnext : (leftBy r').nextNode = (leftBy r).nextNode)
    (haccepted : ∀ problems t, r ≠ .ok (.rejected problems) t)
    (hcaught : ∀ e t, r ≠ .error (.fault e) t) :
    ∃ ours, EndsLowered own log k w.pace.ahead ours r r' := by
  have hsessions : ∀ {w' s s'}, World.Later (.lowering own log k) w w' →
      Session.Alike (.lowering own log k) w' s s' → s'.hops = s.hops → s'.nextNode = s.nextNode →
      Session.Lowered own log k w.pace.ahead s s' := by
    intro w' s s' hw hs hhops hnext
    have hpace : w'.pace = w.pace := hw.pace.resolve_right fun h => h.1
    rw [← hpace] at hfresh ⊢
    exact hs.lowered hfresh hhops hnext
  cases h with
  | ok hw hs halike =>
      have hlowered := hsessions hw hs hhops hnext
      cases halike with
      | finished => exact ⟨true, .finished hlowered⟩
      | rejected => exact absurd rfl (haccepted _ _)
      | @failed e e' he =>
          obtain ⟨t, f⟩ := e
          obtain ⟨t', f'⟩ := e'
          obtain ⟨⟨_, ⟨-, ht, htoken⟩ | ⟨-, ht, htoken⟩⟩, hfault, -⟩ := he
          · cases htoken
            cases hfault
            exact ⟨true, .own hlowered ht⟩
          · cases htoken
            cases hfault
            exact ⟨false, .earlier hlowered ht⟩
  | fault _ _ _ _ => exact absurd rfl (hcaught _ _)
  | host hw hs _ => exact ⟨true, .raised (hsessions hw hs hhops hnext)⟩
  | outOfFuel hw hs => exact ⟨true, .outOfFuel (hsessions hw hs hhops hnext)⟩
  | slack h => exact absurd trivial h

end

/-! ## Programs further down -/

theorem Hops.merge_moved (h : Hops) (k : Int) (references : List Reference) :
    h.merge (references.map (Reference.moved k fun id => id)) = h.merge references := by
  unfold Hops.merge
  rw [List.foldl_map]
  rfl

theorem Session.ready_lowered (s : Session) (n : Nat) (source : String) :
    s.ready (lowered n source) = s.ready source := by
  unfold Session.ready
  rw [compile_lowered, Hops.merge_moved]

theorem problems_lowered {source : String} {i : NodeId} (h : (compile source i).problems = [])
    (n : Nat) : (compile (lowered n source) i).problems = [] := by
  rw [compile_lowered, h]
  rfl

theorem Session.HostsWithin.ready {s : Session} (h : s.HostsWithin .noCode) (source : String) :
    (s.ready source).HostsWithin .noCode :=
  h

theorem Session.HostsWithin.execAll {s : Session} (h : s.HostsWithin .noCode) (fuel : Nat)
    (env : Environment) (body : List Stmt) :
    (leftBy (Eval.execAll fuel env body s)).HostsWithin .noCode ∧
      s.Retains (leftBy (Eval.execAll fuel env body s)) :=
  ((Eval.allUphold .noCode Session.Retains fuel).execAll env body).upholds s h

/-- A run enters no distances and numbers no references once its statements are executed, if no host
function hands in code. -/
theorem Session.HostsWithin.retains {s : Session} (h : s.HostsWithin .noCode) (fuel : Nat)
    (env : Environment) (body : List Stmt) :
    (leftBy ((do
        let error ← Eval.catchFault (Eval.execAll fuel env body)
        Eval.conclude error : Eval Report) s)).hops = s.hops ∧
      (leftBy ((do
        let error ← Eval.catchFault (Eval.execAll fuel env body)
        Eval.conclude error : Eval Report) s)).nextNode = s.nextNode := by
  obtain ⟨-, hretains⟩ := h.execAll fuel env body
  rw [eval_bind_apply]
  unfold Eval.catchFault
  generalize Eval.execAll fuel env body s = r at hretains ⊢
  rcases r with ⟨_ | _, t⟩ | ⟨_ | _ | _ | _, t⟩ <;> exact ⟨hretains.hops, hretains.nextNode⟩

section

variable {s : Session} {known : Value → Prop} {source : String}

theorem statements_lowered (source : String) (i : NodeId) (n : Nat) :
    (compile (lowered n source) i).statements =
      movedBody n (fun id => id) (compile source i).statements := by
  rw [compile_lowered]

/-- The program behind empty lines, compared with itself behind others. -/
def Likeness.between (source : String) (i : NodeId) (log : List Entry) (n n' : Nat) : Likeness :=
  .lowering (compile (lowered n source) i).statements log (n' - n)

theorem Code.bodyAlike_lowered {i : NodeId} (h : (compile source i).problems = []) (n n' : Nat) :
    BodyAlike (.between source i log n n') (Code.ofProgram true (problems_lowered h n) 0) []
      (compile (lowered n source) i).statements (compile (lowered n' source) i).statements := by
  have hshifts : Shifts (.between source i log n n') (Code.ofProgram true (problems_lowered h n) 0) n n'
      (bodyTokens (compile source i).statements) := by
    intro t ht
    refine ⟨.inl ⟨rfl, ?_, ?_⟩, rfl⟩
    · rw [statements_lowered, bodyTokens_moved]
      exact List.mem_map_of_mem ht
    · simp only [Token.down]
      congr 1
      omega
  have hbody := bodyAlike_moved (⟨fun _ => rfl, fun _ => rfl⟩ : Renumbers _ _ (fun id => id) fun id => id)
    .nil hshifts (compile_checked h).1.formed
  rwa [← statements_lowered, ← statements_lowered] at hbody

/-- Runs of the same program behind different numbers of empty lines. -/
theorem Session.run_lowered (h : Chronicle .secluded s known log) (hhosts : s.HostsWithin .noCode)
    (hvalid : (compile source s.nextNode).problems = []) (fuel n n' : Nat) :
    ∃ ours, EndsLowered (compile (lowered n source) s.nextNode).statements log (n' - n) #[] ours
      (Session.run fuel (lowered n source) s) (Session.run fuel (lowered n' source) s) := by
  have hbefore := problems_lowered hvalid n
  have hafter := problems_lowered hvalid n'
  have hready : s.ready (lowered n' source) = s.ready (lowered n source) := by
    rw [s.ready_lowered, s.ready_lowered]
  obtain ⟨w, hs, -⟩ := h.alike (Likeness.lowering_obeys _ log (n' - n)) fun hpart => .inr ⟨rfl, hpart⟩
  have hstart : Session.Alike (.between source s.nextNode log n n')
      (w.reset.accept (Code.ofProgram true hbefore 0)) (s.ready (lowered n source))
      (s.ready (lowered n source)) :=
    hs.beginRun.acceptProgram_self hbefore (.inl ⟨rfl, rfl⟩)
  have hwithin : (s.ready (lowered n source)).HostsWithin .noCode := hhosts.ready _
  unfold Session.run
  rw [Eval.runProgram_accepted hbefore, Eval.runProgram_accepted hafter, hready]
  obtain ⟨haccepted, hcaught⟩ := Eval.ends_caught _ (s.ready (lowered n source))
  refine (outcome_statements (evaluatesAlike_same fuel).execAll rfl
    (Code.bodyAlike_lowered hvalid n n') hstart).endsLowered rfl ?_ ?_ haccepted hcaught
  · rw [(hwithin.retains fuel _ _).1, (hwithin.retains fuel _ _).1]
  · rw [(hwithin.retains fuel _ _).2, (hwithin.retains fuel _ _).2]

end

end Lox
