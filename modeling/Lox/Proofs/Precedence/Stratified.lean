import Lox.Proofs.Precedence.Cascade

/-!
# Trees that keep to the levels

In every expression that is read, an operator binds no more tightly than what stands on its left,
and less tightly than what stands on its right.  Read level by level, this can be seen from the
loops.
-/

namespace Lox

/-! ## Stratified trees -/

/-- How tightly the operator at the root of a tree binds.  Assignments bind least tightly; other
trees have no operator between operands at their root. -/
def Expr.rank? : Expr → Option Nat
  | .logical _ _ op _ => op.kind.precedence?
  | .binary _ _ op _ => op.kind.precedence?
  | .assign _ _ _ => some 0
  | .set _ _ _ _ => some 0
  | _ => none

/-- The operator at the root binds at least as tightly as `least`, if there is one. -/
def Expr.BindsFrom (least : Nat) (e : Expr) : Prop :=
  ∀ rank, e.rank? = some rank → least ≤ rank

/-- Every operator groups to the left, and `and` and `or` alone are logical ones. -/
inductive Expr.Stratified : Expr → Prop where
  | literal (id : NodeId) (value : Literal) : Stratified (.literal id value)
  | read (id : NodeId) (name : Token) : Stratified (.read id name)
  | self (id : NodeId) (keyword : Token) : Stratified (.self id keyword)
  | super (id : NodeId) (keyword method : Token) : Stratified (.super id keyword method)
  | grouping {inner : Expr} : inner.Stratified → Stratified (.grouping number inner)
  | unary {op : Token} {right : Expr} : right.Stratified → right.rank? = none →
      Stratified (.unary number op right)
  | logical {left right : Expr} {op : Token} {rank : Nat} :
      op.kind = .kwAnd ∨ op.kind = .kwOr → op.kind.precedence? = some rank →
      left.Stratified → left.BindsFrom rank → right.Stratified → right.BindsFrom (rank + 1) →
      Stratified (.logical number left op right)
  | binary {left right : Expr} {op : Token} {rank : Nat} :
      ¬ (op.kind = .kwAnd ∨ op.kind = .kwOr) → op.kind.precedence? = some rank →
      left.Stratified → left.BindsFrom rank → right.Stratified → right.BindsFrom (rank + 1) →
      Stratified (.binary number left op right)
  | call {callee : Expr} {paren : Token} {arguments : List Expr} : callee.Stratified →
      (∀ argument ∈ arguments, argument.Stratified) → Stratified (.call number callee paren arguments)
  | get {object : Expr} {name : Token} : object.Stratified → Stratified (.get number object name)
  | set {object value : Expr} {name : Token} : object.Stratified → value.Stratified →
      Stratified (.set number object name value)
  | assign {id : NodeId} {name : Token} {value : Expr} : value.Stratified →
      Stratified (.assign id name value)

/-- A stratified tree that binds from a rank on. -/
structure Expr.StratifiedFrom (least : Nat) (e : Expr) : Prop where
  stratified : e.Stratified
  binds : e.BindsFrom least

/-- A stratified tree that any operator may join. -/
structure Expr.Operand (e : Expr) : Prop where
  stratified : e.Stratified
  plain : e.rank? = none

theorem Expr.Operand.from {e : Expr} (h : e.Operand) (least : Nat) : e.StratifiedFrom least :=
  ⟨h.stratified, fun _ hrank => nomatch h.plain.symm.trans hrank⟩

theorem Expr.StratifiedFrom.mono {e : Expr} {least more : Nat} (h : e.StratifiedFrom more)
    (hle : least ≤ more) : e.StratifiedFrom least :=
  ⟨h.stratified, fun rank hrank => Nat.le_trans hle (h.binds rank hrank)⟩

theorem Expr.StratifiedFrom.join {left right : Expr} {op : Token} {rank : Nat}
    (hop : op.kind.precedence? = some rank) (hleft : left.StratifiedFrom rank)
    (hright : right.StratifiedFrom (rank + 1)) (id : NodeId) :
    (left.join op right id).StratifiedFrom rank := by
  unfold Expr.join
  split
  · next hkind =>
      exact ⟨.logical hkind hop hleft.stratified hleft.binds hright.stratified hright.binds,
        fun other hother => Nat.le_of_eq (Option.some.inj (hop.symm.trans hother))⟩
  · next hkind =>
      exact ⟨.binary hkind hop hleft.stratified hleft.binds hright.stratified hright.binds,
        fun other hother => Nat.le_of_eq (Option.some.inj (hop.symm.trans hother))⟩

namespace Parse

variable {α β : Type} {P : α → Prop} {Q : β → Prop} {nested operand target : Parse Expr}

/-! ## What steps give -/

/-- Whatever the step gives has the property. -/
def Gives (P : α → Prop) (p : Parse α) : Prop :=
  ∀ c a c', @Eq (Option α × Cursor) (p c) (some a, c') → P a

theorem Gives.of_bind {x : Parse α} {f : α → Parse β} (hx : Gives P x)
    (hf : ∀ a, P a → Gives Q (f a)) : Gives Q (x >>= f) := by
  intro c b c' h
  rw [bind_apply] at h
  rcases hstep : x c with ⟨_ | a, mid⟩
  · rw [hstep] at h
    cases h
  · rw [hstep] at h
    exact hf a (hx c a mid hstep) mid b c' h

theorem Gives.skip {x : Parse α} {f : α → Parse β} (hf : ∀ a, Gives Q (f a)) :
    Gives Q (x >>= f) :=
  Gives.of_bind (P := fun _ => True) (fun _ _ _ _ => trivial) fun a _ => hf a

theorem Gives.pure {a : α} (h : P a) : Gives P (pure a) := by
  intro c b c' heq
  cases heq
  exact h

theorem Gives.refuse (what : Expectation) : Gives P (refuse what) := fun _ a _ h =>
  absurd (congrArg Prod.fst h) (Option.some_ne_none a).symm

theorem Gives.build {P : Expr → Prop} {node : NodeId → Expr} (h : ∀ id, P (node id)) :
    Gives P (build node) := by
  intro c e c' heq
  cases heq
  exact h c.ledger.nextId

theorem Gives.imp {R : α → Prop} {p : Parse α} (h : Gives P p) (himp : ∀ a, P a → R a) :
    Gives R p :=
  fun c a c' heq => himp a (h c a c' heq)

/-! ## Operands -/

theorem gives_argument (h : Gives Expr.Stratified nested) (count : Nat) :
    Gives Expr.Stratified (argument nested count) := by
  unfold argument
  split
  · exact .skip fun _ => .skip fun _ => h
  · exact h

theorem gives_arguments (h : Gives Expr.Stratified nested) :
    ∀ n count, Gives (fun es => ∀ e ∈ es, Expr.Stratified e) (arguments nested n count)
  | 0, count => (gives_argument h count).of_bind fun e he => .pure (by simpa using he)
  | n + 1, count => by
      refine (gives_argument h count).of_bind fun first hfirst => .skip fun comma => ?_
      cases comma with
      | none => exact .pure (by simpa using hfirst)
      | some _ =>
          refine (gives_arguments h n (count + 1)).of_bind fun others hothers => .pure ?_
          exact List.forall_mem_cons.mpr ⟨hfirst, hothers⟩

theorem gives_finishCall (h : Gives Expr.Stratified nested) {n : Nat} {callee : Expr}
    (hcallee : callee.Stratified) : Gives Expr.Operand (finishCall nested n callee) := by
  have hclosing (arguments : List Expr) (harguments : ∀ e ∈ arguments, Expr.Stratified e) :
      Gives Expr.Operand (do
        let paren ← expect .rightParen .argumentEnd
        build (.call · callee paren arguments)) :=
    .skip fun paren => .build fun _ => ⟨.call hcallee harguments, rfl⟩
  refine .skip fun closed => ?_
  split
  · exact hclosing [] nofun
  · exact (gives_arguments h n 0).of_bind hclosing

theorem gives_primary (h : Gives Expr.Stratified nested) :
    Gives Expr.Operand (primary nested) := by
  refine .skip fun t => ?_
  split
  · exact .skip fun _ => .build fun _ => ⟨.literal _ _, rfl⟩
  · exact .skip fun _ => .build fun _ => ⟨.literal _ _, rfl⟩
  · exact .skip fun _ => .build fun _ => ⟨.literal _ _, rfl⟩
  · exact .skip fun _ => .build fun _ => ⟨.literal _ _, rfl⟩
  · exact .skip fun _ => .build fun _ => ⟨.literal _ _, rfl⟩
  · exact .skip fun _ => .skip fun _ => .skip fun _ => .build fun _ => ⟨.super _ _ _, rfl⟩
  · exact .skip fun _ => .build fun _ => ⟨.self _ _, rfl⟩
  · exact .skip fun _ => .build fun _ => ⟨.read _ _, rfl⟩
  · refine .skip fun _ => h.of_bind fun inner hinner => .skip fun _ => ?_
    exact .build fun _ => ⟨.grouping hinner, rfl⟩
  · exact .refuse _

theorem gives_trailers (h : Gives Expr.Stratified nested) :
    ∀ n e, Expr.Operand e → Gives Expr.Operand (trailers nested n e)
  | 0, _, he => .pure he
  | n + 1, e, he => by
      refine .skip fun opening => ?_
      cases opening with
      | some _ =>
          exact (gives_finishCall h he.stratified).of_bind fun call hcall =>
            gives_trailers h n call hcall
      | none =>
          refine .skip fun dot => ?_
          cases dot with
          | some _ =>
              have hget (name : Token) : Gives Expr.Operand (build (.get · e name)) :=
                .build fun _ => ⟨.get he.stratified, rfl⟩
              exact .skip fun name => (hget name).of_bind (gives_trailers h n)
          | none => exact .pure he

theorem gives_call (h : Gives Expr.Stratified nested) (n : Nat) :
    Gives Expr.Operand (call nested n) :=
  (gives_primary h).of_bind fun e he => gives_trailers h n e he

theorem gives_unary (h : Gives Expr.Operand operand) :
    ∀ n, Gives Expr.Operand (unary operand n)
  | 0 => h
  | n + 1 => by
      have hsigned (op : Token) : Gives Expr.Operand (do
          let _ ← advance
          let right ← unary operand n
          build (.unary · op right)) :=
        .skip fun _ => (gives_unary h n).of_bind fun right hright =>
          .build fun _ => ⟨.unary hright.stratified hright.plain, rfl⟩
      refine .skip fun op => ?_
      split
      · exact hsigned op
      · exact hsigned op
      · exact h

/-! ## Operators -/

theorem gives_chain {level : Level} {rank : Nat} (hlevel : level.HasRank rank)
    (h : Gives (Expr.StratifiedFrom (rank + 1)) operand) :
    ∀ n left, Expr.StratifiedFrom rank left →
      Gives (Expr.StratifiedFrom rank) (chain level operand n left)
  | 0, _, hleft => .pure hleft
  | n + 1, left, hleft => by
      refine .skip fun op => ?_
      split
      · next hmem =>
          refine .skip fun _ => h.of_bind fun right hright => ?_
          rw [hlevel.node_eq _ _ _ hmem]
          have hjoined := Gives.build (hleft.join ((hlevel.mem_iff _).mp hmem) hright)
          exact hjoined.of_bind (gives_chain hlevel h n)
      · exact .pure hleft

theorem gives_cascade (h : Gives Expr.Operand operand) {n : Nat} :
    ∀ (levels : List Level) (rank : Nat), Level.Ranked rank levels →
      Gives (Expr.StratifiedFrom rank) (cascade operand n levels)
  | [], rank, _ => h.imp fun _ he => he.from rank
  | level :: tighter, rank, ⟨hlevel, htighter⟩ => by
      have hoperand := gives_cascade h (n := n) tighter (rank + 1) htighter
      exact hoperand.of_bind fun left hleft =>
        gives_chain hlevel hoperand n left (hleft.mono (Nat.le_succ rank))

theorem gives_assigned {least : Nat} (htarget : Gives (Expr.StratifiedFrom least) target)
    (h : Gives Expr.Stratified nested) : Gives Expr.Stratified (assigned target nested) := by
  refine htarget.of_bind fun target htarget => .skip fun equals => ?_
  cases equals with
  | none => exact .pure htarget.stratified
  | some equals =>
      refine h.of_bind fun value hvalue => ?_
      split
      · exact .build fun _ => .assign hvalue
      · next object name =>
          have := htarget.stratified
          cases this with
          | get hobject => exact .build fun _ => .set hobject hvalue
      · exact .skip fun _ => .pure htarget.stratified

theorem gives_stratified : ∀ n, Gives Expr.Stratified (stratified n)
  | 0 => .refuse _
  | n + 1 =>
      gives_assigned (gives_cascade (gives_unary (gives_call (gives_stratified n) _) _) _ 1
        Level.ranked_all) (gives_stratified n)

end Parse

/-! ## Climbing and cascading -/

/--
From every place on, climbing reads operators from the level `k + 1` on exactly as the loops of
these levels do: the same tree, up to the same token, with the same problems, or it gives up at the
same token.  Every operator in the tree groups to the left, and those at its root bind from the
level on.
-/
theorem Parse.binary_eq_cascade (c : Cursor) (hending : c.ending.kind = .ending) {n m : Nat}
    (hn : c.tokens.length ≤ n) (hm : c.tokens.length ≤ m) (k : Nat) :
    binary (unary (call (expression n) n) n) n (k + 1) c =
        cascade (unary (call (stratified m) m) m) m (Level.all.drop k) c ∧
      ∀ e c', @Eq (Option Expr × Cursor)
        (binary (unary (call (expression n) n) n) n (k + 1) c) (some e, c') →
        e.StratifiedFrom (k + 1) := by
  let row : Row := ⟨c.tokens, c.ending, hending⟩
  have hranked : Level.Ranked (k + 1) (Level.all.drop k) :=
    Nat.add_comm 1 k ▸ Level.ranked_all.drop k
  have hclimb : Row.Tracks row n 1 (Row.binary (k + 1)) _ :=
    Row.tracks_binary (Row.tracks_operand (Nat.le_refl n)) n (k + 1) (Nat.le_refl n)
  have hoperand : Row.Tracks row m 1 Row.unary _ :=
    Row.tracks_unary (Row.tracks_call (Row.tracks_stratified m) (Nat.le_succ m)) m (Nat.le_refl m)
  have hcascade := Row.tracks_cascade hoperand (Level.all.drop k) (k + 1) hranked
  have heq : binary (unary (call (expression n) n) n) n (k + 1) c =
      cascade (unary (call (stratified m) m) m) m (Level.all.drop k) c :=
    hclimb.eq hcascade ⟨0, c.ledger, c.problems⟩ (Nat.zero_le _)
      (Nat.le_trans hn (Nat.le_add_left _ _)) (Nat.le_trans hm (Nat.le_add_left _ _))
  refine ⟨heq, fun e c' h => ?_⟩
  rw [heq] at h
  exact gives_cascade (gives_unary (gives_call (gives_stratified m) m) m) _ _ hranked c e c' h

/-- An operator of each kind of level, with a tree, and with an operand that breaks off. -/
theorem Parse.binary_eq_cascade_mixed :
    let whole := (Scan.ofSource "1 - 2 < a and b;").cursor 0
    let broken := (Scan.ofSource "1 - 2 < a and (b").cursor 0
    let climbed := binary (unary (call (expression 9) 9) 9) 9 2
    let cascaded := cascade (unary (call (stratified 10) 10) 10) 10 Level.all.tail
    (whole.ending.kind = .ending ∧ whole.tokens.length ≤ 9 ∧ whole.tokens.length ≤ 10 ∧
      climbed whole = cascaded whole ∧
      ∃ e, (climbed whole).1 = some e ∧ e.StratifiedFrom 2 ∧ e.rank? = some 2) ∧
    (broken.ending.kind = .ending ∧ broken.tokens.length ≤ 9 ∧ broken.tokens.length ≤ 10 ∧
      climbed broken = cascaded broken ∧ (climbed broken).1 = none) := by
  intro whole broken climbed cascaded
  have hending : whole.ending.kind = .ending := by rfl
  have hending' : broken.ending.kind = .ending := by rfl
  have hn : whole.tokens.length ≤ 9 := by decide
  have hn' : broken.tokens.length ≤ 9 := by decide
  obtain ⟨heq, hstratified⟩ := binary_eq_cascade whole hending hn (Nat.le_succ_of_le hn) 1
  have heq' := (binary_eq_cascade broken hending' hn' (Nat.le_succ_of_le hn') 1).1
  refine ⟨⟨hending, hn, Nat.le_succ_of_le hn, heq, ?_⟩,
    hending', hn', Nat.le_succ_of_le hn', heq', rfl⟩
  cases hclimbed : climbed whole with
  | mk result after =>
      have hrank : (climbed whole).1.bind Expr.rank? = some 2 := by rfl
      rw [hclimbed] at hrank
      obtain ⟨e, rfl, hrank⟩ := Option.bind_eq_some_iff.mp hrank
      exact ⟨e, rfl, hstratified e after hclimbed, hrank⟩

end Lox
