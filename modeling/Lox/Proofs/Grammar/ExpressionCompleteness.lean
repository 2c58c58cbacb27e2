import Lox.Proofs.Grammar.ExpressionSoundness

/-!
# Every expression is read

A phrase is read as far as it goes, so the tokens after it must not be able to extend it:
`ChainEnds`, `Loose` and `ExpressionEnds` say so of them.  Rules that are recursive on the left
become loops when they are read; for them the statements say that reading a phrase from the start is
the same as entering the loop behind it.
-/

namespace Lox.Grammar

/-- The tokens do not go on with a call or a property name. -/
def ChainEnds (ts : List Token) : Prop :=
  Parse.headKind ts ≠ some .leftParen ∧ Parse.headKind ts ≠ some .dot

/-- The tokens do not go on with anything that could belong to an expression before them. -/
structure ExpressionEnds (ts : List Token) : Prop where
  chain : ChainEnds ts
  loose : Parse.Loose 1 ts
  equal : Parse.headKind ts ≠ some .equal

theorem chainEnds_cons {t : Token} {ts : List Token} (hparen : t.kind ≠ .leftParen)
    (hdot : t.kind ≠ .dot) : ChainEnds (t :: ts) := by
  simp [ChainEnds, hparen, hdot]

theorem loose_cons {t : Token} {ts : List Token} {level : Nat}
    (h : t.kind.precedence? = none) : Parse.Loose level (t :: ts) := by
  intro precedence hhead
  simp [h] at hhead

theorem ExpressionEnds.of_headKind {ts : List Token} {kind : Token.Kind}
    (h : Parse.headKind ts = some kind)
    (hkind : kind = .semicolon ∨ kind = .rightParen ∨ kind = .comma) : ExpressionEnds ts := by
  cases ts with
  | nil => cases h
  | cons t ts =>
      obtain rfl : t.kind = kind := Option.some.inj h
      rcases hkind with hkind | hkind | hkind <;>
        exact ⟨chainEnds_cons (by simp [hkind]) (by simp [hkind]),
          loose_cons (by simp [hkind, Token.Kind.precedence?]), by simp [hkind]⟩

theorem expressionEnds_semicolon {t : Token} (ts : List Token) (h : t.kind = .semicolon) :
    ExpressionEnds (t :: ts) :=
  .of_headKind (congrArg some h) (.inl rfl)

theorem expressionEnds_rightParen {t : Token} (ts : List Token) (h : t.kind = .rightParen) :
    ExpressionEnds (t :: ts) :=
  .of_headKind (congrArg some h) (.inr (.inl rfl))

def startsPrimary : Token.Kind → Bool
  | .kwFalse | .kwTrue | .kwNil | .number | .string => true
  | .kwThis | .kwSuper | .name | .leftParen => true
  | _ => false

theorem Primary.starts {i j : Ledger} {ts rest : List Token} {e : Expr}
    (h : Primary i ts e j rest) : ∃ t us, ts = t :: us ∧ startsPrimary t.kind = true := by
  cases h with
  | no h | yes h | nil h | number h | string h | self h | name h | super h _ _ | group h _ _ =>
      exact ⟨_, _, rfl, by rw [h]; rfl⟩

def startsExpression : Token.Kind → Bool
  | .bang | .minus => true
  | kind => startsPrimary kind

theorem startsExpression_of_primary {kind : Token.Kind} (h : startsPrimary kind = true) :
    startsExpression kind = true := by
  cases kind <;> first | rfl | exact h

mutual

theorem Chain.starts : ∀ {i ts e j rest}, Chain i ts e j rest →
    ∃ t us, ts = t :: us ∧ startsPrimary t.kind = true
  | _, _, _, _, _, .primary h => h.starts
  | _, _, _, _, _, .bareCall h _ _ => h.starts
  | _, _, _, _, _, .call h _ _ _ _ => h.starts
  | _, _, _, _, _, .get h _ _ => h.starts

theorem Unary.starts {i j : Ledger} {ts rest : List Token} {e : Expr}
    (h : Unary i ts e j rest) : ∃ t us, ts = t :: us ∧ startsExpression t.kind = true := by
  cases h with
  | chain h =>
      obtain ⟨t, us, hts, ht⟩ := h.starts
      exact ⟨t, us, hts, startsExpression_of_primary ht⟩
  | signed hop _ =>
      rcases hop with hop | hop <;> exact ⟨_, _, rfl, by rw [hop]; rfl⟩

theorem Operation.starts : ∀ {level i ts e j rest}, Operation level i ts e j rest →
    ∃ t us, ts = t :: us ∧ startsExpression t.kind = true
  | _, _, _, _, _, _, .operand h => h.starts
  | _, _, _, _, _, _, .tighter h => h.starts
  | _, _, _, _, _, _, .logical h _ _ _ => h.starts
  | _, _, _, _, _, _, .binary h _ _ _ => h.starts

end

theorem Expression.starts {i j : Ledger} {ts rest : List Token} {e : Expr}
    (h : Expression i ts e j rest) : ∃ t us, ts = t :: us ∧ startsExpression t.kind = true := by
  cases h with
  | value h => exact h.starts
  | assign hname _ _ => exact ⟨_, _, rfl, by rw [hname]; rfl⟩
  | set hobject _ _ _ _ =>
      obtain ⟨t, us, hts, ht⟩ := hobject.starts
      exact ⟨t, us, hts, startsExpression_of_primary ht⟩

theorem Expression.headKind_ne {i j : Ledger} {ts rest : List Token} {e : Expr}
    (h : Expression i ts e j rest) {kind : Token.Kind} (hkind : startsExpression kind = false) :
    Parse.headKind ts ≠ some kind := by
  obtain ⟨t, us, rfl, ht⟩ := h.starts
  rintro heq
  rw [Parse.headKind_cons, Option.some.injEq] at heq
  simp [heq, hkind] at ht

theorem Arguments.headKind_ne {i j : Ledger} {ts rest : List Token} {es : List Expr}
    (h : Arguments i ts es j rest) {kind : Token.Kind} (hkind : startsExpression kind = false) :
    Parse.headKind ts ≠ some kind := by
  cases h with
  | one h => exact h.headKind_ne hkind
  | more h _ _ => exact h.headKind_ne hkind

end Lox.Grammar

namespace Lox.Parse

open Grammar

variable {ending : Token} {i j k : Ledger} {ts us rest : List Token} {e : Expr}

/-! ## Where loops end -/

section

variable {nested operand : Parse Expr}

theorem reads_trailers_end (n : Nat) (h : ChainEnds ts) :
    Reads (trailers nested n e) ending i ts e i ts := by
  cases n with
  | zero => simp only [trailers, reads_pure, and_self]
  | succ n =>
      unfold trailers
      exact .decline h.1 (.decline h.2 (.pure e))

theorem reads_climb_end (hending : ending.kind = .ending) {least : Nat} (n : Nat)
    (h : Loose least ts) : Reads (climb operand n least e) ending i ts e i ts := by
  cases n with
  | zero => simp only [climb, reads_pure, and_self]
  | succ n =>
      simp only [climb, reads_current_bind]
      cases ts with
      | nil => simp [hending, Token.Kind.precedence?]
      | cons t ts =>
          simp only [List.headD_cons]
          cases hop : t.kind.precedence? with
          | none => simp
          | some precedence =>
              have hlow : precedence < least := h precedence (by simp [hop])
              simp [hlow]

end

/-! ## Entering a loop -/

/-- Reading from `ts` on is the same as entering a loop behind a phrase, with enough rounds left for
the tokens there. -/
def Enters (p : Parse Expr) (loop : Nat → Parse Expr) (ending : Token) (i : Ledger)
    (ts : List Token) (j : Ledger) (rest : List Token) : Prop :=
  ∃ n, rest.length ≤ n ∧
    @Eq (Option Expr × Cursor) (p ⟨ts, ending, i, []⟩) (loop n ⟨rest, ending, j, []⟩)

section

variable {p nested operand : Parse Expr} {loop : Nat → Parse Expr}

theorem Enters.reads (h : Enters p loop ending i ts j us)
    (hloop : ∀ n, Reads (loop n) ending j us e k rest) : Reads p ending i ts e k rest := by
  obtain ⟨n, _, hp⟩ := h
  exact hp.trans (hloop n)

theorem Reads.enters {start : Parse Expr} (h : Reads start ending i ts e j rest)
    (loop : Nat → Expr → Parse Expr) {n : Nat} (hn : rest.length ≤ n) :
    Enters (start >>= loop n) (fun n => loop n e) ending i ts j rest := by
  refine ⟨n, hn, ?_⟩
  unfold Reads at h
  rw [bind_apply, h]

/-- One round of a loop: what stands at its start is read, and the loop is entered again. -/
theorem Enters.round {loop' : Nat → Parse Expr} (h : Enters p loop ending i ts j us)
    (hshorter : rest.length < us.length)
    (hround : ∀ n, us.length ≤ n + 1 → @Eq (Option Expr × Cursor)
      (loop (n + 1) ⟨us, ending, j, []⟩) (loop' n ⟨rest, ending, k, []⟩)) :
    Enters p loop' ending i ts k rest := by
  obtain ⟨n, hn, hp⟩ := h
  obtain ⟨n, rfl⟩ : ∃ n', n = n' + 1 := ⟨n - 1, by omega⟩
  exact ⟨n, by omega, hp.trans (hround n hn)⟩

theorem Enters.bareCall {callee : Expr} {opening paren : Token}
    (h : Enters p (fun n => trailers nested n callee) ending i ts j (opening :: paren :: rest))
    (hopening : opening.kind = .leftParen) (hparen : paren.kind = .rightParen) :
    Enters p (fun n => trailers nested n (.call j.nextId callee paren [])) ending i ts
      (j.build (.call · callee paren [])) rest := by
  refine h.round (by simp only [List.length_cons]; omega) fun n _ => ?_
  have hcall : Reads (finishCall nested n callee) ending j (paren :: rest)
      (.call j.nextId callee paren []) (j.build (.call · callee paren [])) rest := by
    simp only [finishCall, reads_check_bind, headKind_cons, hparen, decide_true, if_true,
      reads_pure_bind]
    exact .expect hparen (.build _)
  unfold Reads at hcall
  simp [trailers, bind_apply, accept?_apply, hopening, hcall]

theorem Enters.call {callee : Expr} {opening paren : Token} {args : List Expr}
    (h : Enters p (fun n => trailers nested n callee) ending i ts j (opening :: us))
    (hopening : opening.kind = .leftParen) (hparen : paren.kind = .rightParen)
    (hstart : headKind us ≠ some .rightParen)
    (hshorter : (paren :: rest).length < us.length)
    (harguments : ∀ n, us.length ≤ n →
      Reads (arguments nested n 0) ending j us args k (paren :: rest)) :
    Enters p (fun n => trailers nested n (.call k.nextId callee paren args)) ending i ts
      (k.build (.call · callee paren args)) rest := by
  simp only [List.length_cons] at hshorter
  refine h.round (by simp only [List.length_cons]; omega) fun n hn => ?_
  have hcall : Reads (finishCall nested n callee) ending j us (.call k.nextId callee paren args)
      (k.build (.call · callee paren args)) rest := by
    simp only [finishCall, reads_check_bind, hstart, decide_false]
    exact (harguments n (by simpa using hn)).bind (.expect hparen (.build _))
  unfold Reads at hcall
  simp [trailers, bind_apply, accept?_apply, hopening, hcall]

theorem Enters.get {object : Expr} {dot name : Token}
    (h : Enters p (fun n => trailers nested n object) ending i ts j (dot :: name :: rest))
    (hdot : dot.kind = .dot) (hname : name.kind = .name) :
    Enters p (fun n => trailers nested n (.get j.nextId object name)) ending i ts
      (j.build (.get · object name)) rest := by
  refine h.round (by simp only [List.length_cons]; omega) fun n _ => ?_
  simp [trailers, bind_apply, accept?_apply, expect, hdot, hname, pure_apply, build_apply,
    Cursor.current]

theorem Enters.join {least level : Nat} {left right : Expr} {op : Token}
    (h : Enters p (fun n => climb operand n least left) ending i ts j (op :: us))
    (hop : op.kind ∈ operators level) (hleast : least ≤ level) (hshorter : rest.length < us.length)
    (hright : ∀ n, us.length ≤ n →
      Reads (binary operand n (level + 1)) ending j us right k rest) :
    Enters p (fun n => climb operand n least (left.join op right k.nextId)) ending i ts
      (k.build (left.join op right)) rest := by
  rw [mem_operators_iff] at hop
  refine h.round (by simp only [List.length_cons]; omega) fun n hn => ?_
  have hread := hright n (by simpa using hn)
  unfold Reads at hread
  have hhigh : ¬ level < least := by omega
  simp [climb, bind_apply, current_apply, advance_apply, build_apply, Cursor.current, hop, hhigh,
    hread]

end

end Lox.Parse

/-! ## Reading every phrase -/

namespace Lox.Grammar

open Parse

/-- The operands of operators, as the function for expressions reads them. -/
private abbrev operand (m n : Nat) : Parse Expr :=
  unary (call (expression m) n) n

private theorem ends_operator {op : Token} {level : Nat} (hop : op.kind ∈ operators level)
    (us : List Token) : ChainEnds (op :: us) ∧ Loose (level + 1) (op :: us) := by
  rw [mem_operators_iff] at hop
  refine ⟨chainEnds_cons ?_ ?_, fun precedence hhead => ?_⟩
  · intro hkind
    simp [hkind, Token.Kind.precedence?] at hop
  · intro hkind
    simp [hkind, Token.Kind.precedence?] at hop
  · simp only [headKind_cons, Option.bind_some, hop, Option.some.injEq] at hhead
    omega

/-- An expression without operators is read by the function that looks for operators. -/
private theorem reads_binary {ending : Token} (hending : ending.kind = .ending) {m : Nat}
    {i j : Ledger} {t : Token} {ts rest : List Token} {e : Expr}
    (hstarts : startsPrimary t.kind = true)
    (h : Reads (call (expression m) (m + 1)) ending i (t :: ts) e j rest) (hloose : Loose 1 rest) :
    Reads (binary (operand m (m + 1)) (m + 1) 1) ending i (t :: ts) e j rest := by
  have hunary : Reads (operand m (m + 1)) ending i (t :: ts) e j rest := by
    simp only [operand, unary, reads_current_bind, List.headD_cons]
    split
    · next hbang => simp [hbang, startsPrimary] at hstarts
    · next hminus => simp [hminus, startsPrimary] at hstarts
    · exact h
  unfold binary
  exact hunary.bind (reads_climb_end hending m hloose)

private theorem reads_argument_of_lt {nested : Parse Expr} {ending : Token} {i j : Ledger}
    {ts rest : List Token} {e : Expr} {count : Nat} (hcount : count < maxArguments)
    (h : Reads nested ending i ts e j rest) :
    Reads (argument nested count) ending i ts e j rest := by
  unfold argument
  rw [if_neg (by omega)]
  exact h

private theorem reads_primary_name (nested : Parse Expr) {ending : Token} {i : Ledger}
    {name : Token} {rest : List Token} (h : name.kind = .name) :
    Reads (primary nested) ending i (name :: rest) (.read i.nextId name) (i.build (.read · name))
      rest := by
  simp only [primary, reads_current_bind, List.headD_cons, h, reads_advance_bind, List.tail_cons]
  exact .build _

private theorem ends_equal {equals : Token} (hequals : equals.kind = .equal) (us : List Token) :
    ChainEnds (equals :: us) ∧ Loose 1 (equals :: us) :=
  ⟨chainEnds_cons (by simp [hequals]) (by simp [hequals]),
    loose_cons (by simp [hequals, Token.Kind.precedence?])⟩

mutual

theorem Expression.reads {ending : Token} (hending : ending.kind = .ending) :
    ∀ {i ts e j rest}, Expression i ts e j rest → ∀ {n}, ts.length ≤ n → ExpressionEnds rest →
      Reads (expression n) ending i ts e j rest
  | _, _, _, _, _, .value h, n, hn, hends => by
      have hlength := h.length_lt
      obtain ⟨n, rfl⟩ : ∃ n', n = n' + 1 := ⟨n - 1, by omega⟩
      unfold expression assignment
      refine .bind ((h.enters hending hn hn (Nat.le_refl 1) hends.chain
        (hends.loose.mono (by omega))).reads
          fun n => reads_climb_end hending n hends.loose) ?_
      exact .decline hends.equal (.pure _)
  | _, _, _, _, _, .assign hname hequals hvalue, n, hn, hends => by
      simp only [List.length_cons] at hn
      obtain ⟨n, rfl⟩ : ∃ n', n = n' + 1 := ⟨n - 1, by omega⟩
      obtain ⟨hchain, hloose⟩ := ends_equal hequals _
      unfold expression assignment
      refine .bind (reads_binary hending (by rw [hname]; rfl)
        (.bind (reads_primary_name _ hname) (reads_trailers_end _ hchain)) hloose) ?_
      refine .accept hequals (.bind (hvalue.reads hending (by omega) hends) ?_)
      exact .build _
  | _, _, _, _, _, .set hobject hdot hname hequals hvalue, n, hn, hends => by
      have hlength := hobject.length_lt
      simp only [List.length_cons] at hlength
      obtain ⟨n, rfl⟩ : ∃ n', n = n' + 1 := ⟨n - 1, by omega⟩
      obtain ⟨hchain, hloose⟩ := ends_equal hequals _
      have hread := ((hobject.enters hending hn hn).get hdot hname).reads
        fun n => reads_trailers_end n hchain
      obtain ⟨t, us, rfl, ht⟩ := hobject.starts
      unfold expression assignment
      refine .bind (reads_binary hending ht hread hloose) ?_
      exact .accept hequals (.bind (hvalue.reads hending (by omega) hends) (.build _))

theorem Operation.enters {ending : Token} (hending : ending.kind = .ending) :
    ∀ {level i ts e j rest}, Operation level i ts e j rest → ∀ {least m n}, ts.length ≤ m + 1 →
      ts.length ≤ n → least ≤ level → ChainEnds rest → Loose (level + 1) rest →
      Enters (binary (operand m (m + 1)) n least)
        (fun n => climb (operand m (m + 1)) n least e) ending i ts j rest
  | _, _, _, _, _, _, .operand h, _, _, n, hm, hn, _, hchain, _ => by
      have hlength := h.length_lt
      obtain ⟨n, rfl⟩ : ∃ n', n = n' + 1 := ⟨n - 1, by omega⟩
      unfold binary
      exact (h.reads hending hm hm hm hchain).enters (fun n left => climb _ n _ left)
        (Nat.le_of_lt_succ (Nat.lt_of_lt_of_le hlength hn))
  | _, _, _, _, _, _, .tighter h, _, _, _, hm, hn, hleast, hchain, hloose =>
      h.enters hending hm hn (by omega) hchain (hloose.mono (by omega))
  | _, _, _, _, _, _, .logical hleft hop hlevel hright, least, m, n, hm, hn, hleast, hchain,
      hloose => by
      have hlength := hleft.length_lt
      simp only [List.length_cons] at hlength
      obtain ⟨hopChain, hopLoose⟩ := ends_operator hop _
      have hjoin := (hleft.enters hending hm hn hleast hopChain hopLoose).join hop hleast
        hright.length_lt fun n hn => (hright.enters hending (by omega) hn (Nat.le_refl _) hchain
          (hloose.mono (by omega))).reads fun n => reads_climb_end hending n hloose
      rwa [join_logical hop hlevel] at hjoin
  | _, _, _, _, _, _, .binary hleft hop hlevel hright, least, m, n, hm, hn, hleast, hchain,
      hloose => by
      have hlength := hleft.length_lt
      simp only [List.length_cons] at hlength
      obtain ⟨hopChain, hopLoose⟩ := ends_operator hop _
      have hjoin := (hleft.enters hending hm hn hleast hopChain hopLoose).join hop hleast
        hright.length_lt fun n hn => (hright.enters hending (by omega) hn (Nat.le_refl _) hchain
          (hloose.mono (by omega))).reads fun n => reads_climb_end hending n hloose
      rwa [join_binary hop hlevel] at hjoin

theorem Unary.reads {ending : Token} (hending : ending.kind = .ending) :
    ∀ {i ts e j rest}, Unary i ts e j rest → ∀ {m n n'}, ts.length ≤ m + 1 → ts.length ≤ n →
      ts.length ≤ n' → ChainEnds rest →
      Reads (unary (call (expression m) n) n') ending i ts e j rest
  | _, _, _, _, _, .chain h, m, n, n', hm, hn, hn', hends => by
      have hread := (h.enters hending hm hn).reads fun n => reads_trailers_end n hends
      obtain ⟨t, us, rfl, ht⟩ := h.starts
      simp only [List.length_cons] at hn'
      obtain ⟨n', rfl⟩ : ∃ n, n' = n + 1 := ⟨n' - 1, by omega⟩
      simp only [unary, reads_current_bind, List.headD_cons]
      split
      · next hbang => simp [hbang, startsPrimary] at ht
      · next hminus => simp [hminus, startsPrimary] at ht
      · exact hread
  | _, _, _, _, _, .signed hop h, m, n, n', hm, hn, hn', hends => by
      simp only [List.length_cons] at hm hn hn'
      obtain ⟨n', rfl⟩ : ∃ n, n' = n + 1 := ⟨n' - 1, by omega⟩
      have hread := h.reads hending (m := m) (n := n) (by omega) (by omega)
        (Nat.le_of_succ_le_succ hn') hends
      rcases hop with hop | hop <;>
        simp only [unary, reads_current_bind, List.headD_cons, hop, reads_advance_bind,
          List.tail_cons] <;>
        exact hread.bind (by simp)

theorem Chain.enters {ending : Token} (hending : ending.kind = .ending) :
    ∀ {i ts e j rest}, Chain i ts e j rest → ∀ {m n}, ts.length ≤ m + 1 → ts.length ≤ n →
      Enters (call (expression m) n) (fun n => trailers (expression m) n e) ending i ts j rest
  | _, _, _, _, _, .primary h, m, n, hm, hn => by
      have hlength := h.length_lt
      unfold call
      exact (h.reads hending hm).enters (trailers (expression m)) (by omega)
  | _, _, _, _, _, .bareCall h hopening hparen, _, _, hm, hn =>
      (h.enters hending hm hn).bareCall hopening hparen
  | _, _, _, _, _, .call hcallee hopening harguments hcount hparen, m, n, hm, hn => by
      have hlength := hcallee.length_lt
      simp only [List.length_cons] at hlength
      refine (hcallee.enters hending hm hn).call hopening hparen
        (harguments.headKind_ne rfl) harguments.length_lt fun n hn => ?_
      exact harguments.reads hending (by omega) hn (by omega) (by simp [hparen])
  | _, _, _, _, _, .get h hdot hname, _, _, hm, hn =>
      (h.enters hending hm hn).get hdot hname

theorem Arguments.reads {ending : Token} (hending : ending.kind = .ending) :
    ∀ {i ts es j rest}, Arguments i ts es j rest → ∀ {m n count}, ts.length ≤ m →
      ts.length ≤ n → count + es.length ≤ maxArguments → headKind rest = some .rightParen →
      Reads (arguments (expression m) n count) ending i ts es j rest
  | _, _, _, _, _, .one h, m, n, count, hm, hn, hcount, hrest => by
      have hlength := h.length_lt
      obtain ⟨n, rfl⟩ : ∃ n', n = n' + 1 := ⟨n - 1, by omega⟩
      have hread := h.reads hending hm (.of_headKind hrest (.inr (.inl rfl)))
      unfold arguments
      exact .bind (reads_argument_of_lt hcount hread) (.decline (by simp [hrest]) (.pure _))
  | _, _, _, _, _, .more h hcomma hmore, m, n, count, hm, hn, hcount, hrest => by
      have hlength := h.length_lt
      simp only [List.length_cons] at hlength hcount
      obtain ⟨n, rfl⟩ : ∃ n', n = n' + 1 := ⟨n - 1, by omega⟩
      have hread := h.reads hending hm (.of_headKind (congrArg some hcomma) (.inr (.inr rfl)))
      unfold arguments
      refine .bind (reads_argument_of_lt (by omega) hread) (.accept hcomma ?_)
      exact (hmore.reads hending (by omega) (by omega) (by omega) hrest).bind (.pure _)

theorem Primary.reads {ending : Token} (hending : ending.kind = .ending) :
    ∀ {i ts e j rest}, Primary i ts e j rest → ∀ {m}, ts.length ≤ m + 1 →
      Reads (primary (expression m)) ending i ts e j rest
  | _, _, _, _, _, .no h, _, _ => by
      simp only [primary, reads_current_bind, List.headD_cons, h]
      exact reads_advance_bind.mpr (.build _)
  | _, _, _, _, _, .yes h, _, _ => by
      simp only [primary, reads_current_bind, List.headD_cons, h]
      exact reads_advance_bind.mpr (.build _)
  | _, _, _, _, _, .nil h, _, _ => by
      simp only [primary, reads_current_bind, List.headD_cons, h]
      exact reads_advance_bind.mpr (.build _)
  | _, _, _, _, _, .number h, _, _ => by
      simp only [primary, reads_current_bind, List.headD_cons, h]
      exact reads_advance_bind.mpr (.build _)
  | _, _, _, _, _, .string h, _, _ => by
      simp only [primary, reads_current_bind, List.headD_cons, h]
      exact reads_advance_bind.mpr (.build _)
  | _, _, _, _, _, .self h, _, _ => by
      simp only [primary, reads_current_bind, List.headD_cons, h, reads_advance_bind]
      exact .build _
  | _, _, _, _, _, .name h, _, _ => reads_primary_name _ h
  | _, _, _, _, _, .super h hdot hmethod, _, _ => by
      simp only [primary, reads_current_bind, List.headD_cons, h, reads_advance_bind]
      exact .expect hdot (.expect hmethod (.build _))
  | _, _, _, _, _, .group hopening h hclosing, m, hm => by
      simp only [List.length_cons] at hm
      simp only [primary, reads_current_bind, List.headD_cons, hopening, reads_advance_bind,
        List.tail_cons]
      exact (h.reads hending (by omega) (expressionEnds_rightParen _ hclosing)).bind
        (.expect hclosing (.build _))

end

end Lox.Grammar
