import Lox.Proofs.Grammar.Derivation
import Lox.Proofs.Grammar.Ledger

/-!
# Reading without a problem

`Reads p ending i ts a j rest` says that the step `p` gives `a` and notes no problem.  Its arguments
stand in the order of the relations of the grammar.  Steps only ever add to the problems found, and
add one whenever they break off; they are `Steady`.  A row of steady steps reads without a problem
exactly if each of its steps does.
-/

namespace Lox.Parse

variable {α β : Type}

/-! ## The results of single steps -/

theorem bind_apply (x : Parse α) (f : α → Parse β) (c : Cursor) :
    (x >>= f) c =
      match x c with
      | (some a, c') => f a c'
      | (none, c') => (none, c') := by
  simp only [bind, OptionT.bind, OptionT.mk, StateT.bind]
  rcases x c with ⟨a | a, c'⟩ <;> rfl

theorem pure_apply (a : α) (c : Cursor) : (pure a : Parse α) c = (some a, c) := rfl

theorem get_apply (c : Cursor) : (get : Parse Cursor) c = (some c, c) := rfl

theorem current_apply (c : Cursor) : current c = (some c.current, c) := rfl

theorem atEnd_apply (c : Cursor) : atEnd c = (some c.tokens.isEmpty, c) := rfl

theorem advance_apply (c : Cursor) :
    advance c = (some c.current, { c with tokens := c.tokens.tail }) := rfl

theorem report_apply (t : Token) (problem : Problem) (c : Cursor) :
    report t problem c =
      (some (), { c with problems := c.problems ++ [.atToken t problem] }) := rfl

theorem abort_apply (c : Cursor) : (abort : Parse α) c = (none, c) := rfl

theorem number_apply (node : NodeId → Expr) (c : Cursor) :
    number node c = (some c.ledger.nextId, { c with ledger := c.ledger.build node }) := rfl

theorem build_apply (node : NodeId → Expr) (c : Cursor) :
    build node c = (some (node c.ledger.nextId), { c with ledger := c.ledger.build node }) := rfl

def headKind (ts : List Token) : Option Token.Kind :=
  ts.head?.map Token.kind

@[simp] theorem headKind_nil : headKind [] = none := rfl

@[simp] theorem headKind_cons (t : Token) (ts : List Token) :
    headKind (t :: ts) = some t.kind := rfl

theorem check_apply (kind : Token.Kind) (c : Cursor) :
    check kind c = (some (decide (headKind c.tokens = some kind)), c) := by
  simp only [check, bind_apply, get_apply]
  cases c.tokens with
  | nil => rfl
  | cons t ts => simp [pure_apply]

theorem accept?_apply (kind : Token.Kind) (c : Cursor) :
    accept? kind c =
      if headKind c.tokens = some kind
      then (some (some c.current), { c with tokens := c.tokens.tail })
      else (some none, c) := by
  simp only [accept?, bind_apply, check_apply]
  by_cases h : headKind c.tokens = some kind
  · simp [h, bind_apply, advance_apply, pure_apply]
  · simp [h, pure_apply]

/-! ## Steady steps -/

/-- Problems found stay found, and a step that breaks off has found one.  Nodes that were built stay
entered, each under a number of its own. -/
class Steady (p : Parse α) : Prop where
  ending : ∀ c, (p c).2.ending = c.ending
  builds : ∀ c : Cursor, c.ledger.Extends (p c).2.ledger
  problems : ∀ c, c.problems <+: (p c).2.problems
  blames : ∀ c, (p c).1 = none → (p c).2.problems ≠ []

theorem Steady.bind {x : Parse α} {f : α → Parse β} [hx : Steady x]
    (hf : ∀ a, Steady (f a)) : Steady (x >>= f) where
  ending c := by
    have h := hx.ending c
    rw [bind_apply]
    rcases hstep : x c with ⟨a | a, c'⟩ <;> rw [hstep] at h
    · exact h
    · exact ((hf a).ending c').trans h
  builds c := by
    have h := hx.builds c
    rw [bind_apply]
    rcases hstep : x c with ⟨a | a, c'⟩ <;> rw [hstep] at h
    · exact h
    · exact h.trans ((hf a).builds c')
  problems c := by
    have h := hx.problems c
    rw [bind_apply]
    rcases hstep : x c with ⟨a | a, c'⟩ <;> rw [hstep] at h
    · exact h
    · exact h.trans ((hf a).problems c')
  blames c := by
    have h := hx.blames c
    rw [bind_apply]
    rcases hstep : x c with ⟨a | a, c'⟩ <;> rw [hstep] at h
    · exact fun _ => h rfl
    · exact (hf a).blames c'

instance (x : Parse α) (f : α → Parse β) [Steady x] [hf : ∀ a, Steady (f a)] :
    Steady (x >>= f) :=
  .bind hf

theorem Steady.of_quiet {p : Parse α} (value : ∀ c, (p c).1 ≠ none)
    (ending : ∀ c, (p c).2.ending = c.ending) (problems : ∀ c, (p c).2.problems = c.problems)
    (builds : ∀ c : Cursor, c.ledger.Extends (p c).2.ledger) : Steady p where
  ending := ending
  builds := builds
  problems c := problems c ▸ List.prefix_refl _
  blames c h := absurd h (value c)

instance (a : α) : Steady (pure a : Parse α) :=
  .of_quiet (fun _ => Option.some_ne_none _) (fun _ => rfl) (fun _ => rfl) fun _ => .refl

instance : Steady (get : Parse Cursor) :=
  .of_quiet (fun _ => Option.some_ne_none _) (fun _ => rfl) (fun _ => rfl) fun _ => .refl

instance : Steady current :=
  .of_quiet (fun _ => Option.some_ne_none _) (fun _ => rfl) (fun _ => rfl) fun _ => .refl

instance : Steady atEnd :=
  .of_quiet (fun _ => Option.some_ne_none _) (fun _ => rfl) (fun _ => rfl) fun _ => .refl

instance : Steady advance :=
  .of_quiet (fun _ => Option.some_ne_none _) (fun _ => rfl) (fun _ => rfl) fun _ => .refl

instance (node : NodeId → Expr) [Labelled node] : Steady (number node) :=
  .of_quiet (fun _ => Option.some_ne_none _) (fun _ => rfl) (fun _ => rfl) fun c =>
    c.ledger.extends_build node

instance (node : NodeId → Expr) [Labelled node] : Steady (build node) :=
  inferInstanceAs (Steady (number node >>= fun id => pure (node id)))

instance (kind : Token.Kind) : Steady (check kind) :=
  .of_quiet (fun c => by simp [check_apply]) (fun c => by rw [check_apply])
    (fun c => by rw [check_apply]) fun c => by rw [check_apply]; exact .refl

instance (kind : Token.Kind) : Steady (accept? kind) :=
  .of_quiet (fun c => by rw [accept?_apply]; split <;> exact Option.some_ne_none _)
    (fun c => by rw [accept?_apply]; split <;> rfl)
    (fun c => by rw [accept?_apply]; split <;> rfl)
    fun c => by rw [accept?_apply]; split <;> exact .refl

instance (t : Token) (problem : Problem) : Steady (report t problem) where
  ending _ := rfl
  builds _ := .refl
  problems c := List.prefix_append c.problems _
  blames _ h := nomatch h

instance (what : Expectation) : Steady (refuse what : Parse α) where
  ending _ := rfl
  builds _ := .refl
  problems c := List.prefix_append c.problems _
  blames c _ := List.append_ne_nil_of_right_ne_nil c.problems (List.cons_ne_nil _ _)

instance (condition : Prop) [Decidable condition] (x y : Parse α) [Steady x] [Steady y] :
    Steady (if condition then x else y) := by
  split <;> infer_instance

instance (f : α → β) (x : Parse α) [Steady x] : Steady (f <$> x) :=
  inferInstanceAs (Steady (x >>= fun a => pure (f a)))

instance (kind : Token.Kind) (what : Expectation) : Steady (expect kind what) := by
  unfold expect
  refine .bind fun found => ?_
  split <;> infer_instance

instance (what : Expectation) : Steady (expectEnd what) := by
  unfold expectEnd
  infer_instance

/-! ## Reading -/

/-- A step that gives `a` without a problem. -/
def Reads (p : Parse α) (ending : Token) (i : Ledger) (ts : List Token) (a : α) (j : Ledger)
    (rest : List Token) : Prop :=
  @Eq (Option α × Cursor) (p ⟨ts, ending, i, []⟩) (some a, ⟨rest, ending, j, []⟩)

variable {ending : Token} {i j : Ledger} {ts rest : List Token}

theorem Reads.bind {x : Parse α} {f : α → Parse β} {a : α} {b : β} {k : Ledger}
    {us : List Token} (hx : Reads x ending i ts a j us) (hf : Reads (f a) ending j us b k rest) :
    Reads (x >>= f) ending i ts b k rest := by
  unfold Reads at *
  rw [bind_apply, hx]
  exact hf

theorem Reads.of_bind_steady {x : Parse α} {f : α → Parse β} {b : β} {k : Ledger}
    [hx : Steady x] (hf : ∀ a, Steady (f a)) (h : Reads (x >>= f) ending i ts b k rest) :
    ∃ a j us, Reads x ending i ts a j us ∧ Reads (f a) ending j us b k rest := by
  unfold Reads at *
  rw [bind_apply] at h
  have hending := hx.ending ⟨ts, ending, i, []⟩
  rcases hstep : x ⟨ts, ending, i, []⟩ with ⟨a | a, c⟩
  · rw [hstep] at h
    cases h
  · rw [hstep] at h hending
    have hproblems := (hf a).problems c
    simp only at h hending
    rw [h, List.prefix_nil] at hproblems
    obtain ⟨us, e, j, problems⟩ := c
    simp only at hending hproblems
    subst hending hproblems
    exact ⟨a, j, us, rfl, h⟩

theorem Reads.of_bind {x : Parse α} {f : α → Parse β} {b : β} {k : Ledger}
    [Steady x] [hf : ∀ a, Steady (f a)] (h : Reads (x >>= f) ending i ts b k rest) :
    ∃ a j us, Reads x ending i ts a j us ∧ Reads (f a) ending j us b k rest :=
  h.of_bind_steady hf

@[simp] theorem reads_pure {a b : α} :
    Reads (pure a) ending i ts b j rest ↔ a = b ∧ i = j ∧ ts = rest := by
  simp only [Reads, pure_apply]
  grind

@[simp] theorem reads_refuse {what : Expectation} {a : α} :
    ¬ Reads (refuse what) ending i ts a j rest := by
  intro h
  exact absurd (congrArg Prod.fst h) (Option.some_ne_none a).symm

/-! ## Rows that start with a single step -/

variable {b : β} {k : Ledger}

@[simp] theorem reads_pure_bind {a : α} {f : α → Parse β} :
    Reads (pure a >>= f) ending i ts b k rest ↔ Reads (f a) ending i ts b k rest := by
  simp only [Reads, bind_apply, pure_apply]

@[simp] theorem reads_map {f : α → β} {x : Parse α} :
    Reads (f <$> x) ending i ts b k rest ↔ ∃ a, Reads x ending i ts a k rest ∧ f a = b := by
  change Reads (x >>= fun a => pure (f a)) ending i ts b k rest ↔ _
  simp only [Reads, bind_apply, pure_apply]
  rcases x ⟨ts, ending, i, []⟩ with ⟨a | a, c⟩ <;> grind

@[simp] theorem reads_get_bind {f : Cursor → Parse β} :
    Reads (get >>= f) ending i ts b k rest ↔
      Reads (f ⟨ts, ending, i, []⟩) ending i ts b k rest := by
  simp only [Reads, bind_apply, get_apply]

@[simp] theorem reads_current_bind {f : Token → Parse β} :
    Reads (current >>= f) ending i ts b k rest ↔
      Reads (f (ts.headD ending)) ending i ts b k rest := by
  simp only [Reads, bind_apply, current_apply, Cursor.current]

@[simp] theorem reads_advance_bind {f : Token → Parse β} :
    Reads (advance >>= f) ending i ts b k rest ↔
      Reads (f (ts.headD ending)) ending i ts.tail b k rest := by
  simp only [Reads, bind_apply, advance_apply, Cursor.current]

@[simp] theorem reads_atEnd_bind {f : Bool → Parse β} :
    Reads (atEnd >>= f) ending i ts b k rest ↔
      Reads (f ts.isEmpty) ending i ts b k rest := by
  simp only [Reads, bind_apply, atEnd_apply]

@[simp] theorem reads_number_bind {node : NodeId → Expr} {f : NodeId → Parse β} :
    Reads (number node >>= f) ending i ts b k rest ↔
      Reads (f i.nextId) ending (i.build node) ts b k rest := by
  simp only [Reads, bind_apply, number_apply]

@[simp] theorem reads_build_bind {node : NodeId → Expr} {f : Expr → Parse β} :
    Reads (build node >>= f) ending i ts b k rest ↔
      Reads (f (node i.nextId)) ending (i.build node) ts b k rest := by
  simp only [Reads, bind_apply, build_apply]

@[simp] theorem reads_build {node : NodeId → Expr} {e : Expr} :
    Reads (build node) ending i ts e j rest ↔ node i.nextId = e ∧ i.build node = j ∧ ts = rest := by
  simp only [Reads, build_apply]
  grind

@[simp] theorem reads_check_bind {kind : Token.Kind} {f : Bool → Parse β} :
    Reads (check kind >>= f) ending i ts b k rest ↔
      Reads (f (decide (headKind ts = some kind))) ending i ts b k rest := by
  simp only [Reads, bind_apply, check_apply]

@[simp] theorem reads_accept?_bind {kind : Token.Kind} {f : Option Token → Parse β} :
    Reads (accept? kind >>= f) ending i ts b k rest ↔
      (∃ t us, ts = t :: us ∧ t.kind = kind ∧ Reads (f (some t)) ending i us b k rest) ∨
        (headKind ts ≠ some kind ∧ Reads (f none) ending i ts b k rest) := by
  simp only [Reads, bind_apply, accept?_apply, Cursor.current]
  cases ts with
  | nil => simp
  | cons u us =>
      by_cases hkind : u.kind = kind
      · simp [hkind, and_assoc]
      · simp [hkind, and_assoc]

@[simp] theorem reads_expect_bind {kind : Token.Kind} {what : Expectation}
    {f : Token → Parse β} :
    Reads (expect kind what >>= f) ending i ts b k rest ↔
      ∃ t us, ts = t :: us ∧ t.kind = kind ∧ Reads (f t) ending i us b k rest := by
  simp only [Reads, bind_apply, expect, accept?_apply, Cursor.current]
  cases ts with
  | nil => simp [refuse, bind_apply, current_apply, report_apply, abort_apply]
  | cons u us =>
      by_cases hkind : u.kind = kind
      · simp [hkind, pure_apply, and_assoc]
      · simp [hkind, and_assoc, refuse, bind_apply, current_apply, report_apply, abort_apply]

theorem Reads.accept {t : Token} {kind : Token.Kind} {f : Option Token → Parse β}
    (hkind : t.kind = kind) (hf : Reads (f (some t)) ending i ts b k rest) :
    Reads (accept? kind >>= f) ending i (t :: ts) b k rest :=
  reads_accept?_bind.mpr (.inl ⟨t, ts, rfl, hkind, hf⟩)

theorem Reads.decline {kind : Token.Kind} {f : Option Token → Parse β}
    (hkind : headKind ts ≠ some kind) (hf : Reads (f none) ending i ts b k rest) :
    Reads (accept? kind >>= f) ending i ts b k rest :=
  reads_accept?_bind.mpr (.inr ⟨hkind, hf⟩)

theorem Reads.expect {t : Token} {kind : Token.Kind} {what : Expectation} {f : Token → Parse β}
    (hkind : t.kind = kind) (hf : Reads (f t) ending i ts b k rest) :
    Reads (expect kind what >>= f) ending i (t :: ts) b k rest :=
  reads_expect_bind.mpr ⟨t, ts, rfl, hkind, hf⟩

theorem Reads.pure (a : α) : Reads (pure a) ending i ts a i ts :=
  rfl

theorem Reads.build (node : NodeId → Expr) :
    Reads (build node) ending i ts (node i.nextId) (i.build node) ts :=
  rfl

theorem not_reads_report_bind {t : Token} {problem : Problem} {f : Unit → Parse β}
    [hf : Steady (f ())] : ¬ Reads (report t problem >>= f) ending i ts b k rest := by
  intro h
  have hproblems := hf.problems ⟨ts, ending, i, [.atToken t problem]⟩
  unfold Reads at h
  rw [bind_apply, report_apply] at h
  simp only [List.nil_append] at h
  rw [h, List.prefix_nil] at hproblems
  exact List.cons_ne_nil _ _ hproblems

end Lox.Parse
