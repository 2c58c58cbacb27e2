import Lox.Proofs.Methods.Persistence

/-!
# Steps that take input

Only calls of `readLine` take anything from the input, and each takes one line.  All other steps are
quiet.  `Takes` says which lines a step takes, whatever it ends with; for steps in a row these are the
lines of the first one and then those of the second one, if it comes to that.
-/

namespace Lox

/-- What comes after a step that ends with a result. -/
def followed {α β : Type} (r : EStateM.Result Interrupt Session α)
    (next : α → Session → List β) : List β :=
  match r with
  | .ok a s => next a s
  | .error _ _ => []

theorem followed_nil {α β : Type} (r : EStateM.Result Interrupt Session α) :
    followed r (fun _ _ => ([] : List β)) = [] := by
  cases r <;> rfl

theorem flatMap_followed {α β γ : Type} (r : EStateM.Result Interrupt Session α)
    (next : α → Session → List β) (g : β → List γ) :
    (followed r next).flatMap g = followed r fun a s => (next a s).flatMap g := by
  cases r <;> rfl

/-- Lines cut off the front of a text, one after the other.  Off an empty text, empty lines are cut. -/
inductive CutOff : List Char → List (List Char) → List Char → Prop where
  | nil : CutOff text [] text
  | cons : Session.splitLine text = (line, rest) → CutOff rest lines rest' →
      CutOff text (line :: lines) rest'

theorem CutOff.append {text rest rest' : List Char} {lines more : List (List Char)}
    (h : CutOff text lines rest) (hmore : CutOff rest more rest') :
    CutOff text (lines ++ more) rest' := by
  induction h with
  | nil => exact hmore
  | cons hsplit _ ih => exact .cons hsplit (ih hmore)

def Session.nextLine (s : Session) : List Char :=
  s.takeLine.1

namespace Eval

variable {α β : Type}

/-! ## Steps that take nothing -/

/-- A step that leaves the input alone. -/
class Quiet (x : Eval α) : Prop where
  input : ∀ s, (leftBy (x s)).input = s.input

section

variable {x : Eval α} {f : α → Eval β}

theorem Quiet.bind [hx : Quiet x] (hf : ∀ a, Quiet (f a)) : Quiet (x >>= f) where
  input s := by
    have hfirst := hx.input s
    rw [eval_bind_apply]
    generalize x s = r at hfirst ⊢
    cases r with
    | ok a s₁ => exact ((hf a).input s₁).trans hfirst
    | error i s₁ => exact hfirst

instance [Quiet x] [hf : ∀ a, Quiet (f a)] : Quiet (x >>= f) :=
  .bind hf

end

instance (priority := low) (x : Eval α) [Local x] : Quiet x where
  input s := by
    obtain ⟨frames, fields, nextObject, -, hleft⟩ := Local.leftBy_eq x s
    rw [hleft]
    rfl

instance (i : Interrupt) : Quiet (throw i : Eval α) :=
  ⟨fun _ => rfl⟩

instance (line : String) : Quiet (modify (Session.printLine line) : Eval Unit) :=
  ⟨fun _ => rfl⟩

instance (o : HostObject) : Quiet (toValue o) := by
  obtain ⟨f, -, h⟩ | ⟨n, -, h⟩ | ⟨arity, body, -, h⟩ | ⟨-, h⟩ := toValue_cases o <;> rw [h]
  · infer_instance
  · infer_instance
  · exact ⟨fun _ => rfl⟩
  · infer_instance

instance (callee : Value) (os : List HostObject) : Quiet (hostArguments callee os) :=
  hostArguments_of_each (fun _ x => Quiet x) (fun _ => inferInstance) (fun _ hf => .bind hf)
    (fun _ _ => inferInstance) (fun _ => inferInstance) callee

instance (sort : String) : Quiet (runOther sort) := by
  have hbegin : Quiet (modify Session.beginRun : Eval Unit) := ⟨fun _ => rfl⟩
  unfold runOther
  infer_instance

/-! ## Steps that take lines -/

/-- A step that takes these lines from the input, however it ends. -/
def Takes (x : Eval α) (s : Session) (lines : List (List Char)) : Prop :=
  CutOff s.input lines (leftBy (x s)).input

namespace Takes

variable {x : Eval α} {f : α → Eval β} {s : Session} {lines : List (List Char)}
  {more : α → Session → List (List Char)}

theorem of_quiet [hx : Quiet x] : Takes x s [] := by
  unfold Takes
  rw [hx.input]
  exact .nil

theorem bind (hx : Takes x s lines) (hf : ∀ {a s₁}, x s = .ok a s₁ → Takes (f a) s₁ (more a s₁)) :
    Takes (x >>= f) s (lines ++ followed (x s) more) := by
  unfold Takes at hx ⊢
  rw [eval_bind_apply]
  cases hr : x s with
  | ok a s₁ =>
      rw [hr] at hx
      exact hx.append (hf hr)
  | error i s₁ =>
      rw [hr] at hx
      exact hx.append .nil

theorem bind_quiet (hx : Takes x s lines) (hf : ∀ a, Quiet (f a)) : Takes (x >>= f) s lines := by
  have hboth : Takes (x >>= f) s (lines ++ followed (x s) fun _ _ => []) :=
    hx.bind fun {a s₁} _ => @of_quiet _ (f a) s₁ (hf a)
  rwa [followed_nil, List.append_nil] at hboth

theorem map {g : α → β} (hx : Takes x s lines) : Takes (g <$> x) s lines := by
  unfold Takes
  rw [leftBy_map]
  exact hx

theorem attempt (hx : Takes x s lines) : Takes (attempt x) s lines := by
  unfold Takes
  rw [leftBy_attempt]
  exact hx

theorem quiet_bind [Quiet x] (hf : ∀ {a s₁}, x s = .ok a s₁ → Takes (f a) s₁ (more a s₁)) :
    Takes (x >>= f) s (followed (x s) more) :=
  of_quiet.bind hf

theorem nested {site : Token} (hx : s.HasRoom → Takes x s.deeper lines)
    (hnone : ¬ s.HasRoom → lines = []) : Takes (Eval.nested site x) s lines := by
  unfold Takes
  by_cases hroom : s.HasRoom
  · have hinner : CutOff s.input lines (leftBy (x s.deeper)).input := hx hroom
    rw [nested_of_room hroom]
    generalize x s.deeper = r at hinner ⊢
    cases r <;> exact hinner
  · obtain ⟨i, hfull⟩ := nested_of_not_room hroom site x
    rw [hnone hroom, hfull]
    exact .nil

end Takes

theorem takes_readLine (s : Session) : Takes readLine s [s.nextLine] :=
  .cons rfl .nil

end Eval

end Lox
