import Lox.Proofs.Grammar.Reading

/-!
# What reading an expression takes is an expression

The functions of `Lox.Syntax.Expression` are parameterized by the one that reads inner expressions.
`ReadsOnly nested ending m Expression` says of that function what is to be shown of all of them, for
at most `m` tokens ahead.
-/

namespace Lox.Parse

open Grammar

/-! ## The functions are steady -/

section

variable (nested operand : Parse Expr) [Steady nested] [Steady operand]

instance (count : Nat) : Steady (argument nested count) := by
  unfold argument
  infer_instance

instance steady_arguments (n count : Nat) : Steady (arguments nested n count) := by
  induction n generalizing count with
  | zero =>
      unfold arguments
      infer_instance
  | succ n ih =>
      unfold arguments
      refine .bind fun first => .bind fun found => ?_
      split <;> infer_instance

instance (n : Nat) (callee : Expr) : Steady (finishCall nested n callee) := by
  unfold finishCall
  infer_instance

instance : Steady (primary nested) := by
  unfold primary
  refine .bind fun t => ?_
  split <;> infer_instance

instance steady_trailers (n : Nat) (e : Expr) : Steady (trailers nested n e) := by
  induction n generalizing e with
  | zero =>
      unfold trailers
      infer_instance
  | succ n ih =>
      unfold trailers
      refine .bind fun opening => ?_
      split
      · infer_instance
      · refine .bind fun dot => ?_
        split <;> infer_instance

instance (n : Nat) : Steady (call nested n) := by
  unfold call
  infer_instance

instance steady_unary (n : Nat) : Steady (unary operand n) := by
  induction n with
  | zero => simpa only [unary]
  | succ n ih =>
      unfold unary
      refine .bind fun op => ?_
      split <;> infer_instance

private theorem steady_binary_climb (n : Nat) :
    (∀ least, Steady (binary operand n least)) ∧
      ∀ least left, Steady (climb operand n least left) := by
  induction n with
  | zero =>
      constructor
      · intro least
        simpa only [binary]
      · intro least left
        unfold climb
        infer_instance
  | succ n ih =>
      obtain ⟨_, _⟩ := ih
      constructor
      · intro least
        unfold binary
        infer_instance
      · intro least left
        unfold climb
        refine .bind fun op => ?_
        split <;> infer_instance

instance (n least : Nat) : Steady (binary operand n least) :=
  (steady_binary_climb operand n).1 least

instance (n least : Nat) (left : Expr) : Steady (climb operand n least left) :=
  (steady_binary_climb operand n).2 least left

instance (n : Nat) : Steady (assignment nested n) := by
  unfold assignment
  refine .bind fun target => .bind fun found => ?_
  split
  · infer_instance
  · refine .bind fun value => ?_
    split <;> infer_instance

end

instance steady_expression (n : Nat) : Steady (expression n) := by
  induction n with
  | zero =>
      unfold expression
      infer_instance
  | succ n ih =>
      unfold expression
      infer_instance

/-! ## Calls and property names -/

variable {ending : Token} {i j k : Ledger} {ts us rest : List Token} {e : Expr}

/-- A function reads phrases of one sort, at least with at most `m` tokens ahead. -/
def ReadsOnly {α : Type} (p : Parse α) (ending : Token) (m : Nat)
    (sort : Ledger → List Token → α → Ledger → List Token → Prop) : Prop :=
  ∀ {i ts a j rest}, ts.length ≤ m → Reads p ending i ts a j rest → sort i ts a j rest

section

variable {nested : Parse Expr} [Steady nested]

theorem reads_argument {count : Nat} (h : Reads (argument nested count) ending i ts e j rest) :
    count < maxArguments ∧ Reads nested ending i ts e j rest := by
  unfold argument at h
  split at h
  · rw [reads_current_bind] at h
    exact absurd h not_reads_report_bind
  · exact ⟨by omega, h⟩

variable {m : Nat} (hnested : ReadsOnly nested ending m Expression)
include hnested

theorem arguments_sound {n count : Nat} {es : List Expr} (hm : ts.length ≤ m)
    (h : Reads (arguments nested n count) ending i ts es j rest) :
    Arguments i ts es j rest ∧ count + es.length ≤ maxArguments := by
  induction n generalizing count i ts es with
  | zero =>
      unfold arguments at h
      obtain ⟨first, _, _, hargument, h₁⟩ := h.of_bind
      obtain ⟨rfl, rfl, rfl⟩ := reads_pure.mp h₁
      obtain ⟨hcount, hfirst⟩ := reads_argument hargument
      exact ⟨.one (hnested hm hfirst), hcount⟩
  | succ n ih =>
      unfold arguments at h
      obtain ⟨first, _, us, hargument, h₁⟩ :=
        h.of_bind_steady fun _ => .bind fun comma => by split <;> infer_instance
      obtain ⟨hcount, hread⟩ := reads_argument hargument
      have hfirst := hnested hm hread
      rcases reads_accept?_bind.mp h₁ with ⟨comma, us, rfl, hcomma, h₂⟩ | ⟨_, h₂⟩
      · obtain ⟨others, _, _, hothers, h₃⟩ := h₂.of_bind
        obtain ⟨rfl, rfl, rfl⟩ := reads_pure.mp h₃
        have hlength := hfirst.length_lt
        simp only [List.length_cons] at hlength
        obtain ⟨hmore, htotal⟩ := ih (by omega) hothers
        refine ⟨.more hfirst hcomma hmore, ?_⟩
        simp only [List.length_cons]
        omega
      · obtain ⟨rfl, rfl, rfl⟩ := reads_pure.mp h₂
        exact ⟨.one hfirst, hcount⟩

/-- A chain goes on with the call whose opening parenthesis was just taken. -/
theorem finishCall_sound {n : Nat} {callee : Expr} {i₀ : Ledger} {ts₀ : List Token}
    {opening : Token} (hcallee : Chain i₀ ts₀ callee i (opening :: ts))
    (hopening : opening.kind = .leftParen) (hm : ts₀.length ≤ m + 1)
    (h : Reads (finishCall nested n callee) ending i ts e j rest) :
    Chain i₀ ts₀ e j rest := by
  simp only [finishCall, reads_check_bind] at h
  split at h
  · obtain ⟨paren, us, rfl, hparen, h₁⟩ := reads_expect_bind.mp h
    obtain ⟨rfl, rfl, rfl⟩ := reads_build.mp h₁
    exact .bareCall hcallee hopening hparen
  · obtain ⟨arguments, _, _, hread, h₁⟩ := h.of_bind
    have hlength := hcallee.length_lt
    simp only [List.length_cons] at hlength
    obtain ⟨harguments, htotal⟩ := arguments_sound hnested (by omega) hread
    obtain ⟨paren, us, rfl, hparen, h₂⟩ := reads_expect_bind.mp h₁
    obtain ⟨rfl, rfl, rfl⟩ := reads_build.mp h₂
    exact .call hcallee hopening harguments (by omega) hparen

theorem trailers_sound {n : Nat} {start : Expr} {i₀ : Ledger} {ts₀ : List Token}
    (hstart : Chain i₀ ts₀ start i ts) (hm : ts₀.length ≤ m + 1)
    (h : Reads (trailers nested n start) ending i ts e j rest) : Chain i₀ ts₀ e j rest := by
  induction n generalizing start i ts with
  | zero =>
      unfold trailers at h
      obtain ⟨rfl, rfl, rfl⟩ := reads_pure.mp h
      exact hstart
  | succ n ih =>
      unfold trailers at h
      rcases reads_accept?_bind.mp h with ⟨opening, us, rfl, hopening, h₁⟩ | ⟨_, h₁⟩
      · obtain ⟨called, _, _, hread, h₂⟩ := h₁.of_bind
        exact ih (finishCall_sound hnested hstart hopening hm hread) h₂
      · rcases reads_accept?_bind.mp h₁ with ⟨dot, us, rfl, hdot, h₂⟩ | ⟨_, h₂⟩
        · obtain ⟨name, us, rfl, hname, h₃⟩ := reads_expect_bind.mp h₂
          rw [reads_build_bind] at h₃
          exact ih (.get hstart hdot hname) h₃
        · obtain ⟨rfl, rfl, rfl⟩ := reads_pure.mp h₂
          exact hstart

theorem primary_sound (hending : ending.kind = .ending) (hm : ts.length ≤ m + 1)
    (h : Reads (primary nested) ending i ts e j rest) : Primary i ts e j rest := by
  simp only [primary, reads_current_bind] at h
  cases ts with
  | nil =>
      simp only [List.headD_nil, hending] at h
      exact absurd h reads_refuse
  | cons t ts =>
      simp only [List.headD_cons] at h
      split at h
      · next hkind =>
          simp only [reads_advance_bind, reads_build, List.tail_cons] at h
          obtain ⟨rfl, rfl, rfl⟩ := h
          exact .no hkind
      · next hkind =>
          simp only [reads_advance_bind, reads_build, List.tail_cons] at h
          obtain ⟨rfl, rfl, rfl⟩ := h
          exact .yes hkind
      · next hkind =>
          simp only [reads_advance_bind, reads_build, List.tail_cons] at h
          obtain ⟨rfl, rfl, rfl⟩ := h
          exact .nil hkind
      · next hkind =>
          simp only [reads_advance_bind, reads_build, List.tail_cons] at h
          obtain ⟨rfl, rfl, rfl⟩ := h
          exact .number hkind
      · next hkind =>
          simp only [reads_advance_bind, reads_build, List.tail_cons] at h
          obtain ⟨rfl, rfl, rfl⟩ := h
          exact .string hkind
      · next hkind =>
          simp only [reads_advance_bind, reads_expect_bind, reads_build,
            List.tail_cons] at h
          obtain ⟨dot, _, rfl, hdot, method, _, rfl, hmethod, rfl, rfl, rfl⟩ := h
          exact .super hkind hdot hmethod
      · next hkind =>
          simp only [reads_advance_bind, reads_build, List.tail_cons] at h
          obtain ⟨rfl, rfl, rfl⟩ := h
          exact .self hkind
      · next hkind =>
          simp only [reads_advance_bind, reads_build, List.tail_cons] at h
          obtain ⟨rfl, rfl, rfl⟩ := h
          exact .name hkind
      · next hkind =>
          rw [reads_advance_bind, List.tail_cons] at h
          obtain ⟨inner, _, _, hread, h₁⟩ := h.of_bind
          simp only [reads_expect_bind, reads_build] at h₁
          obtain ⟨closing, _, rfl, hclosing, rfl, rfl, rfl⟩ := h₁
          simp only [List.length_cons] at hm
          exact .group hkind (hnested (by omega) hread) hclosing
      · exact absurd h reads_refuse

theorem call_sound (hending : ending.kind = .ending) {n : Nat} (hm : ts.length ≤ m + 1)
    (h : Reads (call nested n) ending i ts e j rest) : Chain i ts e j rest := by
  unfold call at h
  obtain ⟨start, _, _, hread, h₁⟩ := h.of_bind
  exact trailers_sound hnested (.primary (primary_sound hnested hending hm hread)) hm h₁

end

/-! ## Operators -/

/-- The tokens do not start with an operator of a level or of one above it. -/
def Loose (level : Nat) (ts : List Token) : Prop :=
  ∀ precedence, (headKind ts).bind Token.Kind.precedence? = some precedence → precedence < level

theorem Loose.mono {level level' : Nat} (h : Loose level ts) (hle : level ≤ level') :
    Loose level' ts :=
  fun precedence hhead => Nat.lt_of_lt_of_le (h precedence hhead) hle

theorem loose_nil (level : Nat) : Loose level [] := by
  intro precedence hhead
  cases hhead

theorem loose_operandLevel (ts : List Token) : Loose operandLevel ts := by
  intro precedence hhead
  cases ts with
  | nil => cases hhead
  | cons t ts => exact precedence_lt (by simpa using hhead)

section

variable {operand : Parse Expr} [Steady operand] {m : Nat}

theorem unary_sound (hending : ending.kind = .ending)
    (hoperand : ReadsOnly operand ending m Chain) (n : Nat) :
    ReadsOnly (unary operand n) ending m Unary := by
  induction n with
  | zero => exact fun hm h => .chain (hoperand hm (by simpa only [unary] using h))
  | succ n ih =>
      intro i ts e j rest hm h
      simp only [unary, reads_current_bind] at h
      cases ts with
      | nil =>
          simp only [List.headD_nil, hending] at h
          exact .chain (hoperand hm h)
      | cons op ts =>
          simp only [List.headD_cons] at h
          simp only [List.length_cons] at hm
          split at h
          · next hkind =>
              rw [reads_advance_bind, List.tail_cons] at h
              obtain ⟨right, _, _, hread, h₁⟩ := h.of_bind
              obtain ⟨rfl, rfl, rfl⟩ := reads_build.mp h₁
              exact .signed (.inl hkind) (ih (by omega) hread)
          · next hkind =>
              rw [reads_advance_bind, List.tail_cons] at h
              obtain ⟨right, _, _, hread, h₁⟩ := h.of_bind
              obtain ⟨rfl, rfl, rfl⟩ := reads_build.mp h₁
              exact .signed (.inr hkind) (ih (by omega) hread)
          · exact .chain (hoperand hm h)

/-- The two functions that climb the levels of operators.  A left operand of a level must not be
followed by an operator of a higher one, which would have belonged to it. -/
theorem binary_climb_sound (hending : ending.kind = .ending)
    (hoperand : ReadsOnly operand ending m Unary) (n : Nat) :
    (∀ {least i ts e j rest}, ts.length ≤ n → ts.length ≤ m → least ≤ operandLevel →
      Reads (binary operand n least) ending i ts e j rest →
      Operation least i ts e j rest ∧ Loose least rest) ∧
    ∀ {least level left i₀ ts₀ i ts e j rest}, ts.length ≤ n → ts.length ≤ m →
      Operation level i₀ ts₀ left i ts → least ≤ level → Loose (level + 1) ts →
      Reads (climb operand n least left) ending i ts e j rest →
      Operation least i₀ ts₀ e j rest ∧ Loose least rest := by
  induction n with
  | zero =>
      constructor
      · intro least i ts e j rest hn hm hleast h
        have hread := hoperand hm (by simpa only [binary] using h)
        exact absurd hread.length_lt (by omega)
      · intro least level left i₀ ts₀ i ts e j rest hn hm hleft hleast hloose h
        obtain rfl := List.length_eq_zero_iff.mp (Nat.le_zero.mp hn)
        simp only [climb, reads_pure] at h
        obtain ⟨rfl, rfl, rfl⟩ := h
        exact ⟨hleft.lower hleast, loose_nil least⟩
  | succ n ih =>
      obtain ⟨ihBinary, ihClimb⟩ := ih
      constructor
      · intro least i ts e j rest hn hm hleast h
        unfold binary at h
        obtain ⟨left, _, us, hread, h₁⟩ := h.of_bind
        have hleft := hoperand hm hread
        have hlength := hleft.length_lt
        exact ihClimb (by omega) (by omega) (.operand hleft) hleast
          ((loose_operandLevel us).mono (Nat.le_succ _)) h₁
      · intro least level left i₀ ts₀ i ts e j rest hn hm hleft hleast hloose h
        simp only [climb, reads_current_bind] at h
        cases ts with
        | nil =>
            simp only [List.headD_nil, hending, Token.Kind.precedence?, reads_pure] at h
            obtain ⟨rfl, rfl, rfl⟩ := h
            exact ⟨hleft.lower hleast, loose_nil least⟩
        | cons op ts =>
            simp only [List.headD_cons] at h
            cases hop : op.kind.precedence? with
            | none =>
                simp only [hop, reads_pure] at h
                obtain ⟨rfl, rfl, rfl⟩ := h
                refine ⟨hleft.lower hleast, fun precedence hhead => ?_⟩
                simp [hop] at hhead
            | some precedence =>
                simp only [hop] at h
                split at h
                · next hlow =>
                    obtain ⟨rfl, rfl, rfl⟩ := reads_pure.mp h
                    refine ⟨hleft.lower hleast, fun p hhead => ?_⟩
                    simp only [headKind_cons, Option.bind_some, hop, Option.some.injEq] at hhead
                    omega
                · next hhigh =>
                    have hprecedence := hloose precedence (by simp [hop])
                    rw [reads_advance_bind, List.tail_cons] at h
                    simp only [List.length_cons] at hn hm
                    obtain ⟨right, _, us, hread, h₁⟩ := h.of_bind
                    obtain ⟨hright, hrightLoose⟩ :=
                      ihBinary (by omega) (by omega) (precedence_lt (by simpa using hop)) hread
                    have hlength := hright.length_lt
                    rw [reads_build_bind] at h₁
                    refine ihClimb (by omega) (by omega) ?_ (by omega) hrightLoose h₁
                    exact (hleft.lower (by omega)).join (mem_operators_iff.mpr hop) hright

end

/-! ## Assignments -/

theorem assignment_sound {nested : Parse Expr} [Steady nested] {m : Nat}
    (hending : ending.kind = .ending) (hnested : ReadsOnly nested ending m Expression) :
    ReadsOnly (assignment nested (m + 1)) ending (m + 1) Expression := by
  intro i ts e j rest hm h
  have hoperand : ReadsOnly (unary (call nested (m + 1)) (m + 1)) ending (m + 1) Unary :=
    unary_sound hending (fun hm h => call_sound hnested hending hm h) (m + 1)
  unfold assignment at h
  obtain ⟨target, _, us, hread, h₁⟩ := h.of_bind_steady fun target => by
    refine .bind fun equals => ?_
    split
    · infer_instance
    · exact .bind fun value => by split <;> infer_instance
  obtain ⟨htarget, _⟩ :=
    (binary_climb_sound hending hoperand (m + 1)).1 hm hm (by decide) hread
  rcases reads_accept?_bind.mp h₁ with ⟨equals, us, rfl, hequals, h₂⟩ | ⟨_, h₂⟩
  · obtain ⟨value, _, vs, hread, h₃⟩ := h₂.of_bind_steady fun value => by
      split <;> infer_instance
    have hlength := htarget.length_lt
    simp only [List.length_cons] at hlength
    have hvalue := hnested (by omega) hread
    split at h₃
    · next name =>
        obtain ⟨rfl, rfl, rfl⟩ := reads_build.mp h₃
        cases htarget.chain rfl with
        | primary h =>
            cases h with
            | name hname => exact .assign hname hequals hvalue
    · next object name =>
        obtain ⟨rfl, rfl, rfl⟩ := reads_build.mp h₃
        cases htarget.chain rfl with
        | primary h => cases h
        | get hobject hdot hname => exact .set hobject hdot hname hequals hvalue
    · exact absurd h₃ not_reads_report_bind
  · obtain ⟨rfl, rfl, rfl⟩ := reads_pure.mp h₂
    exact .value htarget

theorem expression_sound (hending : ending.kind = .ending) (n : Nat) :
    ReadsOnly (expression n) ending n Expression := by
  induction n with
  | zero =>
      intro i ts e j rest hn h
      unfold expression at h
      exact absurd h reads_refuse
  | succ n ih =>
      intro i ts e j rest hn h
      unfold expression at h
      exact assignment_sound hending ih hn h

end Lox.Parse
