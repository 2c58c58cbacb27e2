import Lox.Proofs.Recovery.Row
import Lox.Proofs.Grammar.Reading

/-!
# Both ways of reading agree

`Tracks` says that a step by index ends, stays within the row, and does what a step over the tokens
ahead does, wherever the row has no more than a number of tokens ahead.  It also says how many
tokens the step takes at least, so that each rule can tell how many are ahead of its next step, and
that a step which gives up has noted a problem at the token that it stands on.
-/

namespace Lox

/-- A row of tokens with the token that closes it. -/
structure Row where
  tokens : List Token
  ending : Token
  closed : ending.kind = .ending

namespace Row

variable {α β γ : Type} {row : Row} {place after : Place} {bound taken more : Nat}

def toList (row : Row) : List Token :=
  row.tokens ++ [row.ending]

def cursor (row : Row) (place : Place) : Cursor :=
  ⟨row.tokens.drop place.index, row.ending, place.ledger, place.problems⟩

def token (row : Row) (place : Place) : Token :=
  (row.cursor place).current

/-! ## The results of single steps -/

theorem bind_apply (x : Reader α) (f : α → Reader β) (ts : List Token) (place : Place) :
    (x >>= f) ts place =
      match x ts place with
      | some (.ok a, after) => f a ts after
      | some (.error stop, after) => some (.error stop, after)
      | none => none := by
  simp only [bind, ReaderT.bind, ExceptT.bind, ExceptT.mk, StateT.bind, Option.bind]
  rcases x ts place with _ | ⟨_ | _, _⟩ <;> rfl

theorem toList_getElem? (h : place.index ≤ row.tokens.length) :
    row.toList[place.index]? = some (row.token place) := by
  simp only [toList, token, cursor, Cursor.current]
  rcases Nat.lt_or_eq_of_le h with h | h
  · rw [List.getElem?_append_left h, List.drop_eq_getElem_cons h, List.headD_cons,
      List.getElem?_eq_getElem h]
  · rw [h, List.drop_length, List.headD_nil, List.getElem?_concat_length]

/-- A token of another kind than that of the closing one has the row go on behind it. -/
theorem index_lt_of_kind (h : place.index ≤ row.tokens.length)
    (hkind : (row.token place).kind ≠ .ending) : place.index < row.tokens.length := by
  refine Nat.lt_of_le_of_ne h fun heq => hkind ?_
  simp only [token, cursor, Cursor.current, heq, List.drop_length, List.headD_nil]
  exact row.closed

theorem cursor_tokens (h : place.index < row.tokens.length) :
    (row.cursor place).tokens =
      row.token place :: (row.cursor place.next).tokens := by
  simp only [token, cursor, Cursor.current, List.drop_eq_getElem_cons h, List.headD_cons,
    Place.next]

theorem headKind_cursor {kind : Token.Kind} (hkind : kind ≠ .ending)
    (h : place.index ≤ row.tokens.length) :
    Parse.headKind (row.cursor place).tokens = some kind ↔ (row.token place).kind = kind := by
  rcases Nat.lt_or_eq_of_le h with h | h
  · rw [cursor_tokens h, Parse.headKind_cons, Option.some_inj]
  · simp only [cursor, token, Cursor.current, h, List.drop_length, Parse.headKind_nil,
      List.headD_nil, row.closed]
    exact iff_of_false (by simp) hkind.symm

theorem look_apply (here : Place) (h : place.index ≤ row.tokens.length) :
    look place.index row.toList here = some (.ok (row.token place), here) := by
  have hread : (read : Reader (List Token)) row.toList here = some (.ok row.toList, here) := rfl
  simp only [look, bind_apply, hread, toList_getElem? h]
  rfl

theorem current_apply (h : place.index ≤ row.tokens.length) :
    current row.toList place = some (.ok (row.token place), place) :=
  look_apply place h

theorem check_apply (kind : Token.Kind) (h : place.index ≤ row.tokens.length) :
    check kind row.toList place = some (.ok (decide ((row.token place).kind = kind)), place) := by
  simp only [check, bind_apply, current_apply h]
  rfl

theorem advance_apply (h : place.index ≤ row.tokens.length)
    (hkind : (row.token place).kind ≠ .ending) :
    advance row.toList place =
      some (.ok (row.token place), place.next) := by
  simp only [advance, bind_apply, current_apply h, if_pos hkind]
  rfl

theorem advance_ending (h : place.index ≤ row.tokens.length)
    (hkind : (row.token place).kind = .ending) :
    advance row.toList place = some (.ok (row.token place), place) := by
  simp only [advance, bind_apply, current_apply h, hkind]
  rfl

theorem previous_apply (h : place.index ≤ row.tokens.length) :
    previous row.toList place.next =
      some (.ok (row.token place), place.next) :=
  look_apply _ h

theorem accept?_apply (kind : Token.Kind) (hkind : kind ≠ .ending)
    (h : place.index ≤ row.tokens.length) :
    accept? kind row.toList place =
      if (row.token place).kind = kind
      then some (.ok (some (row.token place)), place.next)
      else some (.ok none, place) := by
  simp only [accept?, bind_apply, check_apply kind h]
  split
  · next hyes =>
      have hyes := of_decide_eq_true hyes
      rw [if_pos hyes]
      simp only [bind_apply, advance_apply h (hyes ▸ hkind)]
      rfl
  · next hno =>
      rw [if_neg fun heq => hno (decide_eq_true heq)]
      rfl

theorem build_apply (node : NodeId → Expr) (ts : List Token) (place : Place) :
    build node ts place = some (.ok (node place.ledger.nextId), place.build node) :=
  rfl

/-! ## Agreement at a place -/

/-- From `place` on both steps give `result`, and come to `after`. -/
structure Meets (row : Row) (place : Place) (taken : Nat) (w : Reader α) (p : Parse α)
    (result : Option α) (after : Place) : Prop where
  byIndex : w row.toList place = some (result.elim (.error .aborted) .ok, after)
  ahead : @Eq (Option α × Cursor) (p (row.cursor place)) (result, row.cursor after)
  later : place.index ≤ after.index
  within : after.index ≤ row.tokens.length
  takes : result ≠ none → place.index + taken ≤ after.index
  /-- Problems found stay found. -/
  keeps : place.problems <+: after.problems
  /-- What gives up has noted a problem at the token that it stands on. -/
  blames : result = none → ∃ found what, place.problems <+: found ∧
    after.problems = found ++ [.atToken (row.token after) (.expected what)]

theorem Meets.unique {w : Reader α} {p p' : Parse α} {result result' : Option α}
    {after' : Place} (h : Meets row place taken w p result after)
    (h' : Meets row place more w p' result' after') : result = result' ∧ after = after' := by
  have := h.byIndex.symm.trans h'.byIndex
  cases result <;> cases result' <;> simp_all

theorem Meets.value_eq {w : Reader α} {p : Parse α} {a b : α} {mid : Place}
    (h : Meets row place taken w p (some a) after)
    (hw : w row.toList place = some (.ok b, mid)) : a = b ∧ after = mid := by
  have := h.byIndex.symm.trans hw
  simpa using this

/-- The steps agree from `place` on, and take at least `taken` tokens if they give a result. -/
def Agrees (row : Row) (place : Place) (taken : Nat) (w : Reader α) (p : Parse α) : Prop :=
  ∃ result after, Meets row place taken w p result after

theorem Agrees.of_value {w : Reader α} {p : Parse α} {a : α}
    (hw : w row.toList place = some (.ok a, after))
    (hp : @Eq (Option α × Cursor) (p (row.cursor place)) (some a, row.cursor after))
    (hlater : place.index + taken ≤ after.index) (hwithin : after.index ≤ row.tokens.length)
    (hkeeps : place.problems <+: after.problems) : Agrees row place taken w p :=
  ⟨some a, after, hw, hp, by omega, hwithin, fun _ => hlater, hkeeps, nofun⟩

theorem Agrees.bind {x : Reader α} {x' : Parse α} {f : α → Reader β} {f' : α → Parse β}
    (hx : Agrees row place taken x x')
    (hf : ∀ a after, Meets row place taken x x' (some a) after →
      Agrees row after (more - taken) (f a) (f' a)) :
    Agrees row place more (x >>= f) (x' >>= f') := by
  obtain ⟨result, mid, hmid⟩ := hx
  cases result with
  | none =>
      refine ⟨none, mid, ?_, ?_, hmid.later, hmid.within, nofun, hmid.keeps,
        fun _ => hmid.blames rfl⟩
      · rw [bind_apply, hmid.byIndex]
        rfl
      · rw [Parse.bind_apply, hmid.ahead]
  | some a =>
      have htakes := hmid.takes (Option.some_ne_none a)
      obtain ⟨result, after, hafter⟩ := hf a mid hmid
      refine ⟨result, after, ?_, ?_, Nat.le_trans hmid.later hafter.later, hafter.within,
        fun h => ?_, hmid.keeps.trans hafter.keeps, fun h => ?_⟩
      · rw [bind_apply, hmid.byIndex]
        exact hafter.byIndex
      · rw [Parse.bind_apply, hmid.ahead]
        exact hafter.ahead
      · have := hafter.takes h
        omega
      · obtain ⟨found, what, hfound, hproblems⟩ := hafter.blames h
        exact ⟨found, what, hmid.keeps.trans hfound, hproblems⟩

theorem Agrees.weaken {w : Reader α} {p : Parse α} (h : Agrees row place taken w p)
    (hmore : more ≤ taken) : Agrees row place more w p := by
  obtain ⟨result, after, hmeets⟩ := h
  exact ⟨result, after, { hmeets with takes := fun h => by have := hmeets.takes h; omega }⟩

theorem Agrees.congr {w w' : Reader α} {p p' : Parse α}
    (hw : w row.toList place = w' row.toList place)
    (hp : p (row.cursor place) = p' (row.cursor place)) (h : Agrees row place taken w' p') :
    Agrees row place taken w p := by
  obtain ⟨result, after, hmeets⟩ := h
  exact ⟨result, after, { hmeets with
    byIndex := hw.trans hmeets.byIndex, ahead := hp.trans hmeets.ahead }⟩

theorem Agrees.pure (h : place.index ≤ row.tokens.length) (a : α) :
    Agrees row place 0 (pure a) (pure a) :=
  .of_value rfl rfl (Nat.le_refl _) h (List.prefix_refl _)

/-! ## Agreement wherever few tokens are ahead -/

/-- The steps agree wherever at most `bound` tokens are ahead. -/
def Tracks (row : Row) (bound taken : Nat) (w : Reader α) (p : Parse α) : Prop :=
  ∀ place : Place, place.index ≤ row.tokens.length → row.tokens.length ≤ place.index + bound →
    Agrees row place taken w p

/-- The steps agree wherever at most `bound` tokens are ahead, if `t` is the first one. -/
def TracksAt (row : Row) (t : Token) (bound taken : Nat) (w : Reader α) (p : Parse α) : Prop :=
  ∀ place : Place, place.index ≤ row.tokens.length → row.tokens.length ≤ place.index + bound →
    row.token place = t → Agrees row place taken w p

theorem Tracks.mono {w : Reader α} {p : Parse α} {b k : Nat} (h : Tracks row bound taken w p)
    (hb : b ≤ bound) (hk : k ≤ taken) : Tracks row b k w p :=
  fun place hwithin hbound => (h place hwithin (by omega)).weaken hk

theorem Tracks.facing {w : Reader α} {p : Parse α} {t : Token} (h : Tracks row bound taken w p) :
    TracksAt row t bound taken w p :=
  fun place hwithin hbound _ => h place hwithin hbound

theorem Tracks.bind {x : Reader α} {x' : Parse α} {f : α → Reader β} {f' : α → Parse β}
    (hx : Tracks row bound taken x x')
    (hf : ∀ a, Tracks row (bound - taken) (more - taken) (f a) (f' a)) :
    Tracks row bound more (x >>= f) (x' >>= f') :=
  fun place hwithin hbound => (hx place hwithin hbound).bind fun a after hmeets =>
    hf a after hmeets.within (by have := hmeets.takes nofun; omega)

theorem Tracks.then {x : Reader α} {x' : Parse α} {f : α → Reader β} {f' : α → Parse β}
    (hx : Tracks row bound taken x x') (hf : ∀ a, Tracks row bound 0 (f a) (f' a)) :
    Tracks row bound taken (x >>= f) (x' >>= f') :=
  hx.bind fun a => (hf a).mono (Nat.sub_le _ _) (Nat.le_of_eq (Nat.sub_self taken))

theorem Tracks.any {w : Reader α} {p : Parse α} (h : Tracks row bound taken w p) :
    Tracks row bound 0 w p :=
  h.mono (Nat.le_refl _) (Nat.zero_le _)

theorem Tracks.pure (a : α) : Tracks row bound 0 (pure a) (pure a) :=
  fun _ hwithin _ => .pure hwithin a

theorem Tracks.map {x : Reader α} {x' : Parse α} (hx : Tracks row bound taken x x') (f : α → β) :
    Tracks row bound taken (f <$> x) (f <$> x') :=
  (hx.then fun a => Tracks.pure (f a) : Tracks row bound taken
    (x >>= fun a => Pure.pure (f a)) (x' >>= fun a => Pure.pure (f a)))

theorem Tracks.check {kind : Token.Kind} (hkind : kind ≠ .ending) :
    Tracks row bound 0 (check kind) (Parse.check kind) := fun place hwithin _ =>
  .of_value (check_apply kind hwithin)
    (by rw [Parse.check_apply, decide_eq_decide.mpr (headKind_cursor hkind hwithin)])
    (Nat.le_refl _) hwithin (List.prefix_refl _)

theorem Tracks.number (node : NodeId → Expr) :
    Tracks row bound 0 (number node) (Parse.number node) := fun _ hwithin _ =>
  .of_value rfl rfl (Nat.le_refl _) hwithin (List.prefix_refl _)

theorem Tracks.build (node : NodeId → Expr) : Tracks row bound 0 (build node) (Parse.build node) :=
  fun _ hwithin _ => .of_value rfl rfl (Nat.le_refl _) hwithin (List.prefix_refl _)

theorem Tracks.report (t : Token) (problem : Problem) :
    Tracks row bound 0 (report t problem) (Parse.report t problem) := fun _ hwithin _ =>
  .of_value rfl rfl (Nat.le_refl _) hwithin (List.prefix_append _ _)

theorem Tracks.refuse (what : Expectation) :
    Tracks row bound taken (refuse what : Reader α) (Parse.refuse what) := fun place hwithin _ =>
  ⟨none, { place with problems := place.problems ++ [.atToken (row.token place) (.expected what)] },
    by simp only [Row.refuse, bind_apply, current_apply hwithin]; rfl, rfl, Nat.le_refl _, hwithin,
    nofun, List.prefix_append _ _, fun _ => ⟨_, what, List.prefix_refl _, rfl⟩⟩

theorem Tracks.ite {w w' : Reader α} {p p' : Parse α} {condition : Prop} [Decidable condition]
    (h : Tracks row bound taken w p) (h' : Tracks row bound taken w' p') :
    Tracks row bound taken (if condition then w else w') (if condition then p else p') := by
  split
  · exact h
  · exact h'

theorem Tracks.current {f : Token → Reader α} {f' : Token → Parse α}
    (hf : ∀ t, TracksAt row t bound taken (f t) (f' t)) :
    Tracks row bound taken (current >>= f) (Parse.current >>= f') := by
  intro place hwithin hbound
  have hcurrent : Agrees row place 0 Row.current Parse.current :=
    .of_value (current_apply hwithin) rfl (Nat.le_refl _) hwithin (List.prefix_refl _)
  refine hcurrent.bind fun t after hmeets => ?_
  obtain ⟨rfl, rfl⟩ := hmeets.value_eq (current_apply hwithin)
  exact hf _ after hwithin hbound rfl

theorem Agrees.advance {f : Token → Reader α} {f' : Token → Parse α}
    (hwithin : place.index ≤ row.tokens.length) (hkind : (row.token place).kind ≠ .ending)
    (hf : Agrees row place.next (taken - 1) (f (row.token place))
      (f' (row.token place))) :
    Agrees row place taken (advance >>= f) (Parse.advance >>= f') := by
  have hlt := index_lt_of_kind hwithin hkind
  have hadvance : Agrees row place 1 Row.advance Parse.advance := by
    refine .of_value (advance_apply hwithin hkind) ?_ (Nat.le_refl _) hlt (List.prefix_refl _)
    rw [Parse.advance_apply, cursor_tokens hlt]
    rfl
  refine hadvance.bind fun t after hmeets => ?_
  obtain ⟨rfl, rfl⟩ := hmeets.value_eq (advance_apply hwithin hkind)
  exact hf

theorem TracksAt.advance {t : Token} {f : Token → Reader α} {f' : Token → Parse α}
    (hkind : t.kind ≠ .ending) (hf : Tracks row (bound - 1) (taken - 1) (f t) (f' t)) :
    TracksAt row t bound taken (advance >>= f) (Parse.advance >>= f') := by
  rintro place hwithin hbound rfl
  refine .advance hwithin hkind (hf _ (index_lt_of_kind hwithin hkind) ?_)
  change row.tokens.length ≤ place.index + 1 + (bound - 1)
  omega

theorem TracksAt.advance_previous {t : Token} {f : Token → Reader α} {p : Parse α}
    (hkind : t.kind ≠ .ending) (hf : Tracks row (bound - 1) (taken - 1) (f t) p) :
    TracksAt row t bound taken (Row.advance >>= fun _ => previous >>= f)
      (Parse.advance >>= fun _ => p) := by
  rintro place hwithin hbound rfl
  refine .advance hwithin hkind ?_
  obtain ⟨result, after, hmeets⟩ := hf place.next
    (index_lt_of_kind hwithin hkind) (by change _ ≤ place.index + 1 + (bound - 1); omega)
  refine ⟨result, after, { hmeets with byIndex := ?_ }⟩
  rw [bind_apply, previous_apply hwithin]
  exact hmeets.byIndex

theorem Tracks.accept {kind : Token.Kind} {f : Option Token → Reader α}
    {f' : Option Token → Parse α} (hkind : kind ≠ .ending)
    (hyes : ∀ t, Tracks row (bound - 1) (taken - 1) (f (some t)) (f' (some t)))
    (hno : Tracks row bound taken (f none) (f' none)) :
    Tracks row bound taken (accept? kind >>= f) (Parse.accept? kind >>= f') := by
  intro place hwithin hbound
  have hrow := accept?_apply kind hkind hwithin
  have hahead := Parse.accept?_apply kind (row.cursor place)
  by_cases hfound : (row.token place).kind = kind
  · have hlt := index_lt_of_kind hwithin (hfound ▸ hkind)
    rw [if_pos hfound] at hrow
    rw [if_pos ((headKind_cursor hkind hwithin).mpr hfound), cursor_tokens hlt] at hahead
    have haccept : Agrees row place 1 (accept? kind) (Parse.accept? kind) :=
      .of_value hrow hahead (Nat.le_refl _) hlt (List.prefix_refl _)
    refine haccept.bind fun found after hmeets => ?_
    obtain ⟨rfl, -⟩ := hmeets.value_eq hrow
    exact hyes _ after hmeets.within (by have := hmeets.takes nofun; omega)
  · rw [if_neg hfound] at hrow
    rw [if_neg (mt (headKind_cursor hkind hwithin).mp hfound)] at hahead
    have haccept : Agrees row place 0 (accept? kind) (Parse.accept? kind) :=
      .of_value hrow hahead (Nat.le_refl _) hwithin (List.prefix_refl _)
    refine haccept.bind fun found after hmeets => ?_
    obtain ⟨rfl, rfl⟩ := hmeets.value_eq hrow
    exact hno after hwithin hbound

theorem Tracks.expect {kind : Token.Kind} (hkind : kind ≠ .ending) (what : Expectation) :
    Tracks row bound 1 (expect kind what) (Parse.expect kind what) :=
  .accept hkind (fun t => .pure t) (.refuse what)

theorem Tracks.later {w : Reader α} {p : Parse α} {a : α} (h : Tracks row bound taken w p)
    (hwithin : place.index ≤ row.tokens.length) (hbound : row.tokens.length ≤ place.index + bound)
    (hw : w row.toList place = some (.ok a, after)) :
    place.index + taken ≤ after.index ∧ after.index ≤ row.tokens.length := by
  obtain ⟨result, mid, hmeets⟩ := h place hwithin hbound
  cases result with
  | none => cases hmeets.byIndex.symm.trans hw
  | some b =>
      obtain ⟨rfl, rfl⟩ := hmeets.value_eq hw
      exact ⟨hmeets.takes nofun, hmeets.within⟩

/-- Steps over the tokens ahead that track the same step by index are the same. -/
theorem Tracks.eq {w : Reader α} {p q : Parse α} {b k : Nat} (hp : Tracks row bound taken w p)
    (hq : Tracks row b k w q) (place : Place) (hwithin : place.index ≤ row.tokens.length)
    (hbound : row.tokens.length ≤ place.index + bound)
    (hb : row.tokens.length ≤ place.index + b) : p (row.cursor place) = q (row.cursor place) := by
  obtain ⟨result, after, hmeets⟩ := hp place hwithin hbound
  obtain ⟨result', after', hmeets'⟩ := hq place hwithin hb
  obtain ⟨rfl, rfl⟩ := hmeets.unique hmeets'
  exact hmeets.ahead.trans hmeets'.ahead.symm

/-! ## No token ahead -/

theorem token_of_end (h : row.tokens.length ≤ place.index) : row.token place = row.ending := by
  simp only [token, cursor, Cursor.current, List.drop_eq_nil_of_le h, List.headD_nil]

theorem Tracks.current_end {f : Token → Reader α} {p : Parse α}
    (hf : Tracks row 0 taken (f row.ending) p) : Tracks row 0 taken (Row.current >>= f) p := by
  intro place hwithin hbound
  obtain ⟨result, after, hmeets⟩ := hf place hwithin hbound
  refine ⟨result, after, { hmeets with byIndex := ?_ }⟩
  rw [bind_apply, current_apply hwithin, token_of_end hbound]
  exact hmeets.byIndex

theorem Tracks.accept_end {kind : Token.Kind} {f : Option Token → Reader α} {p : Parse α}
    (hkind : kind ≠ .ending) (hno : Tracks row 0 taken (f none) p) :
    Tracks row 0 taken (accept? kind >>= f) p := by
  intro place hwithin hbound
  have hending : (row.token place).kind ≠ kind := by
    rw [token_of_end hbound, row.closed]
    exact hkind.symm
  obtain ⟨result, after, hmeets⟩ := hno place hwithin hbound
  refine ⟨result, after, { hmeets with byIndex := ?_ }⟩
  rw [bind_apply, accept?_apply kind hkind hwithin, if_neg hending]
  exact hmeets.byIndex

/-- A step that must take a token agrees with giving up where no token is ahead. -/
theorem Tracks.stuck {x : Reader α} {x' : Parse α} {f : α → Reader β} {f' : α → Parse β}
    (hx : Tracks row 0 1 x x') : Tracks row 0 taken (x >>= f) (x' >>= f') :=
  fun place hwithin hbound => (hx place hwithin hbound).bind fun a after hmeets => by
    have := hmeets.takes nofun
    have := hmeets.within
    omega

theorem Tracks.refused {x : Reader α} {f : α → Reader β} {what : Expectation}
    (hx : Tracks row bound taken x (Parse.refuse what)) :
    Tracks row bound taken (x >>= f) (Parse.refuse what) := by
  intro place hwithin hbound
  obtain ⟨result, after, hmeets⟩ := hx place hwithin hbound
  obtain ⟨rfl, hafter⟩ := Prod.mk.inj hmeets.ahead
  refine ⟨none, after, ?_, Prod.ext rfl hafter, hmeets.later, hmeets.within, nofun,
    hmeets.keeps, fun _ => hmeets.blames rfl⟩
  rw [bind_apply, hmeets.byIndex]
  rfl

end Row

end Lox
