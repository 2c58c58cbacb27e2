import Lox.Proofs.Grammar.Derivation
import Lox.Proofs.Recovery.Expression

/-!
# Operators level by level

Operators can be read with one loop for each level: a row of operands joined by the operators of the
level, where the operands are read by the levels that bind more tightly.  This reads what climbing
over the levels reads, also where an operand breaks off.
-/

namespace Lox

/-! ## The levels -/

/-- The operators of a level, and the nodes that join two operands there. -/
structure Level where
  kinds : List Token.Kind
  node : NodeId → Expr → Token → Expr → Expr

/-- The levels of operators, from the one that binds least tightly on. -/
def Level.all : List Level :=
  [⟨[.kwOr], .logical⟩,
   ⟨[.kwAnd], .logical⟩,
   ⟨[.equalEqual, .bangEqual], .binary⟩,
   ⟨[.greater, .greaterEqual, .less, .lessEqual], .binary⟩,
   ⟨[.plus, .minus], .binary⟩,
   ⟨[.star, .slash], .binary⟩]

namespace Parse

/-- Takes operators of a level, with an operand behind each, after a left operand. -/
def chain (level : Level) (operand : Parse Expr) : Nat → Expr → Parse Expr
  | 0, left => return left
  | n + 1, left => do
    let op ← current
    if op.kind ∈ level.kinds then
      let _ ← advance
      let right ← operand
      let joined ← build (level.node · left op right)
      chain level operand n joined
    else return left

/-- Operands joined by the operators of levels: those of the first level join what the others
read. -/
def cascade (operand : Parse Expr) (n : Nat) : List Level → Parse Expr
  | [] => operand
  | level :: tighter => do
    let left ← cascade operand n tighter
    chain level (cascade operand n tighter) n left

/-- An expression whose operators are all read level by level, with at most `n` tokens ahead. -/
def stratified : Nat → Parse Expr
  | 0 => refuse .expression
  | n + 1 =>
    assigned (cascade (unary (call (stratified n) (n + 1)) (n + 1)) (n + 1) Level.all)
      (stratified n)

section

variable {level : Level} {operand : Parse Expr} {n : Nat} {left : Expr} {c : Cursor}

theorem chain_take (h : c.current.kind ∈ level.kinds) :
    chain level operand (n + 1) left c =
      (advance >>= fun _ => operand >>= fun right =>
        build (level.node · left c.current right) >>= chain level operand n) c := by
  rw [chain, bind_apply, current_apply]
  exact congrFun (if_pos h) _

theorem chain_stop (h : c.current.kind ∉ level.kinds) :
    chain level operand (n + 1) left c = (some left, c) := by
  rw [chain, bind_apply, current_apply]
  exact congrFun (if_neg h) _

end

end Parse

/-- The level holds the operators of a precedence, and joins operands as they are joined. -/
structure Level.HasRank (level : Level) (rank : Nat) : Prop where
  mem_iff : ∀ kind, kind ∈ level.kinds ↔ kind.precedence? = some rank
  node_eq : ∀ left op right, op.kind ∈ level.kinds →
    (level.node · left op right) = Expr.join left op right

/-- The levels hold the operators of the precedences from a first one on, one level for each. -/
def Level.Ranked : Nat → List Level → Prop
  | rank, [] => ∀ kind precedence, Token.Kind.precedence? kind = some precedence → precedence < rank
  | rank, level :: tighter => level.HasRank rank ∧ Ranked (rank + 1) tighter

section

variable {left right : Expr} {op : Token} {rank : Nat} {id : NodeId}

theorem Expr.join_eq_logical (hop : op.kind.precedence? = some rank) (hrank : rank ≤ 2) :
    left.join op right id = .logical id left op right := by
  refine if_pos ?_
  revert hop
  cases op.kind <;> simp [Token.Kind.precedence?] <;> omega

theorem Expr.join_eq_binary (hop : op.kind.precedence? = some rank) (hrank : 3 ≤ rank) :
    left.join op right id = .binary id left op right := by
  refine if_neg ?_
  rintro (hkind | hkind) <;> rw [hkind] at hop <;> cases hop <;> omega

end

theorem Level.hasRank_logical (rank : Nat) (h : rank ≤ 2) :
    Level.HasRank ⟨Grammar.operators rank, .logical⟩ rank where
  mem_iff _ := Grammar.mem_operators_iff
  node_eq _ _ _ hmem := funext fun _ =>
    (Expr.join_eq_logical (Grammar.mem_operators_iff.mp hmem) h).symm

theorem Level.hasRank_binary (rank : Nat) (h : 3 ≤ rank) :
    Level.HasRank ⟨Grammar.operators rank, .binary⟩ rank where
  mem_iff _ := Grammar.mem_operators_iff
  node_eq _ _ _ hmem := funext fun _ =>
    (Expr.join_eq_binary (Grammar.mem_operators_iff.mp hmem) h).symm

theorem Level.ranked_all : Level.Ranked 1 Level.all :=
  ⟨hasRank_logical 1 (by decide), hasRank_logical 2 (by decide), hasRank_binary 3 (by decide),
    hasRank_binary 4 (by decide), hasRank_binary 5 (by decide), hasRank_binary 6 (by decide),
    fun _ _ => Grammar.precedence_lt⟩

theorem Level.Ranked.drop : ∀ {levels : List Level} {rank : Nat}, Level.Ranked rank levels →
    ∀ k, Level.Ranked (rank + k) (levels.drop k)
  | [], rank, h, k => by
      rw [List.drop_nil]
      exact fun kind precedence hkind =>
        Nat.lt_of_lt_of_le (h kind precedence hkind) (Nat.le_add_right _ _)
  | _ :: _, rank, h, 0 => h
  | _ :: _, rank, ⟨_, h⟩, k + 1 => by
      have := h.drop k
      rwa [Nat.add_assoc, Nat.add_comm 1 k] at this

namespace Row

variable {row : Row} {place after : Place} {bound n least : Nat} {left e : Expr}
  {operand : Parse Expr}

/-! ## Climbing -/

theorem climb_stop (h : place.index ≤ row.tokens.length)
    (hstop : ∀ precedence, (row.token place).kind.precedence? = some precedence →
      precedence < least) :
    climb least left row.toList place = some (.ok left, place) := by
  rw [climb, Part.read, bind_apply, current_apply h]
  dsimp only
  cases hprecedence : (row.token place).kind.precedence? with
  | none => rfl
  | some precedence =>
      dsimp only
      rw [if_pos (hstop precedence hprecedence)]
      rfl

theorem climb_take (h : place.index ≤ row.tokens.length) {precedence : Nat}
    (hprecedence : (row.token place).kind.precedence? = some precedence)
    (hle : least ≤ precedence) :
    climb least left row.toList place =
      (advance >>= fun _ => binary (precedence + 1) >>= fun right =>
        build (left.join (row.token place) right) >>= climb least) row.toList place := by
  conv => lhs; rw [climb, Part.read, bind_apply, current_apply h]
  dsimp only
  rw [hprecedence]
  dsimp only
  rw [if_neg (Nat.not_lt.mpr hle)]
  rfl

theorem stops_or_takes (kind : Token.Kind) (least : Nat) :
    (∀ precedence, kind.precedence? = some precedence → precedence < least) ∨
      ∃ precedence, kind.precedence? = some precedence ∧ least ≤ precedence := by
  cases h : kind.precedence? with
  | none => exact .inl nofun
  | some precedence =>
      rcases Nat.lt_or_ge precedence least with hlt | hge
      · exact .inl fun _ heq => Option.some.inj heq ▸ hlt
      · exact .inr ⟨precedence, rfl, hge⟩

theorem unary_later (h : place.index ≤ row.tokens.length)
    (hunary : unary row.toList place = some (.ok e, after)) :
    place.index < after.index ∧ after.index ≤ row.tokens.length :=
  (tracks_operand (Nat.le_refl row.tokens.length)).later h (Nat.le_add_left _ _) hunary

theorem binary_later (h : place.index ≤ row.tokens.length)
    (hbinary : binary least row.toList place = some (.ok e, after)) :
    place.index < after.index ∧ after.index ≤ row.tokens.length :=
  (tracks_binary (tracks_operand (Nat.le_refl row.tokens.length)) row.tokens.length least
    (Nat.le_refl _)).later h (Nat.le_add_left _ _) hbinary

/-- Climbing from a level on is climbing from the next one on, and then going on. -/
theorem climb_succ (least : Nat) (left : Expr) (place : Place)
    (h : place.index ≤ row.tokens.length) :
    climb least left row.toList place =
      (climb (least + 1) left >>= climb least) row.toList place := by
  -- If the next operator binds too loosely for the next level, that level adds nothing.  Otherwise
  -- both sides take it with its right operand and go on behind that.
  rcases stops_or_takes (row.token place).kind (least + 1) with hstop | ⟨q, hq, hle⟩
  · rw [bind_apply, climb_stop h hstop]
  · have hkind := kind_ne_ending_of_precedence hq
    have hnext : place.next.index ≤ row.tokens.length := index_lt_of_kind h hkind
    rw [climb_take h hq (Nat.le_of_succ_le hle), bind_apply, bind_apply, climb_take h hq hle,
      bind_apply, advance_apply h hkind]
    dsimp only
    rw [bind_apply, bind_apply]
    rcases hbinary : binary (q + 1) row.toList place.next with _ | ⟨_ | right, mid⟩
    · rfl
    · rfl
    · obtain ⟨hlater, hmid⟩ := binary_later hnext hbinary
      have hlt : place.index < (mid.build (left.join (row.token place) right)).index :=
        Nat.lt_of_succ_lt hlater
      dsimp only
      rw [bind_apply, bind_apply, build_apply]
      exact (climb_succ least _ (mid.build _) hmid).trans (bind_apply _ _ _ _)
termination_by row.tokens.length - place.index
decreasing_by exact Nat.sub_lt_sub_left (Nat.lt_of_lt_of_le hlt hmid) hlt

theorem climb_stops (least : Nat) (left : Expr) (place : Place)
    (h : place.index ≤ row.tokens.length)
    (hclimb : climb least left row.toList place = some (.ok e, after)) :
    ∀ precedence, (row.token after).kind.precedence? = some precedence → precedence < least := by
  rcases stops_or_takes (row.token place).kind least with hstop | ⟨q, hq, hle⟩
  · rw [climb_stop h hstop] at hclimb
    cases hclimb
    exact hstop
  · have hkind := kind_ne_ending_of_precedence hq
    have hnext : place.next.index ≤ row.tokens.length := index_lt_of_kind h hkind
    rw [climb_take h hq hle, bind_apply, advance_apply h hkind] at hclimb
    dsimp only at hclimb
    rw [bind_apply] at hclimb
    rcases hbinary : binary (q + 1) row.toList place.next with _ | ⟨_ | right, mid⟩
    · simp [hbinary] at hclimb
    · simp [hbinary] at hclimb
    · obtain ⟨hlater, hmid⟩ := binary_later hnext hbinary
      have hlt : place.index < (mid.build (left.join (row.token place) right)).index :=
        Nat.lt_of_succ_lt hlater
      rw [hbinary] at hclimb
      dsimp only at hclimb
      rw [bind_apply, build_apply] at hclimb
      exact climb_stops least _ (mid.build _) hmid hclimb
termination_by row.tokens.length - place.index
decreasing_by exact Nat.sub_lt_sub_left (Nat.lt_of_lt_of_le hlt hmid) hlt

theorem binary_stops (h : place.index ≤ row.tokens.length)
    (hbinary : binary least row.toList place = some (.ok e, after)) :
    ∀ precedence, (row.token after).kind.precedence? = some precedence → precedence < least := by
  rw [binary_eq, bind_apply] at hbinary
  rcases hunary : unary row.toList place with _ | ⟨_ | left, mid⟩
  · simp [hunary] at hbinary
  · simp [hunary] at hbinary
  · rw [hunary] at hbinary
    exact climb_stops least left mid (unary_later h hunary).2 hbinary

theorem binary_succ (least : Nat) (h : place.index ≤ row.tokens.length) :
    binary least row.toList place = (binary (least + 1) >>= climb least) row.toList place := by
  rw [bind_apply, binary_eq, bind_apply, binary_eq, bind_apply]
  rcases hunary : unary row.toList place with _ | ⟨_ | left, mid⟩
  · rfl
  · rfl
  · exact (climb_succ least left mid (unary_later h hunary).2).trans (bind_apply _ _ _ _)

/-! ## Level by level -/

/-- Behind an operand of a level, climbing takes what the loop of the level takes. -/
theorem agrees_chain {level : Level} {rank : Nat} (hlevel : level.HasRank rank)
    (hoperand : Tracks row bound 1 (binary (rank + 1)) operand) :
    ∀ n left (place : Place), n ≤ bound → place.index ≤ row.tokens.length →
      row.tokens.length ≤ place.index + n →
      (∀ precedence, (row.token place).kind.precedence? = some precedence →
        precedence < rank + 1) →
      Agrees row place 0 (climb rank left) (Parse.chain level operand n left)
  | 0, left, place, hn, hwithin, hbound, hstop => by
      have hend : ∀ precedence, (row.token place).kind.precedence? = some precedence →
          precedence < rank := by
        rw [token_of_end hbound, precedence?_eq_none_of_ending row.closed]
        exact nofun
      exact .of_value (climb_stop hwithin hend) rfl (Nat.le_refl _) hwithin (List.prefix_refl _)
  | n + 1, left, place, hn, hwithin, hbound, hstop => by
      -- Tighter operators are left out by `hstop`, looser ones end the climb: those of the level
      -- remain.
      by_cases hmem : (row.token place).kind ∈ level.kinds
      · have hrank := (hlevel.mem_iff _).mp hmem
        have hkind := kind_ne_ending_of_precedence hrank
        have hnext : place.next.index ≤ row.tokens.length := index_lt_of_kind hwithin hkind
        have hindex : place.next.index = place.index + 1 := rfl
        refine .congr (climb_take hwithin hrank (Nat.le_refl _)) (Parse.chain_take hmem)
          (.advance hwithin hkind ((hoperand place.next hnext (by omega)).bind ?_))
        intro right after hmeets
        have htakes := hmeets.takes nofun
        rw [hlevel.node_eq left (row.cursor place).current right hmem]
        have hwithin' := hmeets.within
        have hbuild : Tracks row n 0 _ _ := Tracks.build (left.join (row.token place) right)
        refine (hbuild after hmeets.within (by omega)).bind fun joined mid hbuilt => ?_
        obtain ⟨-, rfl⟩ := hbuilt.value_eq (build_apply _ _ after)
        have hstops := binary_stops hnext hmeets.byIndex
        exact agrees_chain hlevel hoperand n joined _ (by omega) hmeets.within
          (by change _ ≤ after.index + n; omega) hstops
      · have hend : ∀ precedence, (row.token place).kind.precedence? = some precedence →
            precedence < rank := fun precedence h =>
          Nat.lt_of_le_of_ne (Nat.le_of_lt_succ (hstop precedence h)) fun heq =>
            hmem ((hlevel.mem_iff _).mpr (heq ▸ h))
        exact .of_value (climb_stop hwithin hend) (Parse.chain_stop hmem) (Nat.le_refl _) hwithin
          (List.prefix_refl _)

theorem tracks_level {level : Level} {rank : Nat} (hlevel : level.HasRank rank)
    (hoperand : Tracks row n 1 (binary (rank + 1)) operand) :
    Tracks row n 1 (binary rank)
      (operand >>= fun left => Parse.chain level operand n left) := by
  intro place hwithin hbound
  refine .congr (binary_succ rank hwithin) rfl ((hoperand place hwithin hbound).bind ?_)
  intro left after hmeets
  have htakes := hmeets.takes nofun
  exact agrees_chain hlevel hoperand n left after (Nat.le_refl n) hmeets.within (by omega)
    (binary_stops hwithin hmeets.byIndex)

/-- Above all levels, operands stand alone. -/
theorem tracks_none {rank : Nat}
    (hrank : ∀ kind precedence, Token.Kind.precedence? kind = some precedence → precedence < rank)
    (hoperand : Tracks row n 1 unary operand) : Tracks row n 1 (binary rank) operand := by
  rw [binary_eq, ← bind_pure operand]
  refine hoperand.then fun left place hwithin hbound => ?_
  exact .of_value (climb_stop hwithin (hrank _)) rfl (Nat.le_refl _) hwithin (List.prefix_refl _)

theorem tracks_cascade (hoperand : Tracks row n 1 unary operand) :
    ∀ (levels : List Level) (rank : Nat), Level.Ranked rank levels →
      Tracks row n 1 (binary rank) (Parse.cascade operand n levels)
  | [], _, h => tracks_none h hoperand
  | _ :: tighter, rank, ⟨hlevel, h⟩ =>
      tracks_level hlevel (tracks_cascade hoperand tighter (rank + 1) h)

/-- Reading operators level by level reads the same expressions. -/
theorem tracks_stratified : ∀ n, Tracks row n 1 expression (Parse.stratified n)
  | 0 => tracks_expression_end
  | n + 1 => by
      have h := tracks_stratified n
      have hoperand := tracks_unary (tracks_call h (Nat.le_refl (n + 1))) (n + 1) (Nat.le_refl _)
      exact tracks_assigned (tracks_cascade hoperand _ 1 Level.ranked_all) h (Nat.le_refl _)

end Row

end Lox
