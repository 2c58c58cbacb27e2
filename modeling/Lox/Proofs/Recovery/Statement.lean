import Lox.Proofs.Recovery.Expression

/-!
# Statements and declarations by index

Reading statements by index agrees with reading them from the tokens ahead, where the row has no
closing token but its last one.  A declaration takes a token wherever one is ahead, also if it
breaks off, so that no reading of declarations goes on forever.
-/

namespace Lox.Row

variable {row : Row} {place : Place} {bound limit n : Nat} {stmt : Parse Stmt}
  {decl : Parse (Option Stmt)}

/-! ## Parts of statements -/

theorem tracks_parameter (count : Nat) :
    Tracks row bound 1 (parameter count) (Parse.parameter count) :=
  .ite (.current fun t => ((Tracks.report t _).bind fun _ => .expect (by decide) _).facing)
    (.expect (by decide) _)

theorem tracks_parameters : ∀ n count,
    Tracks row n 1 (parameters count) (Parse.parameters n count)
  | 0, count => by
      rw [parameters, Part.read]
      exact (tracks_parameter count).stuck
  | n + 1, count => by
      rw [parameters, Part.read]
      refine (tracks_parameter count).bind fun first => ?_
      refine .accept (by decide) (fun _ => ?_) (.pure _)
      exact ((tracks_parameters n (count + 1)).mono (by omega) (by omega)).map _

theorem tracks_superclass : Tracks row bound 0 superclass Parse.superclass :=
  .accept (by decide)
    (fun _ => (Tracks.expect (by decide) _).any.then fun name =>
      (Tracks.number _).then fun id => .pure _)
    (.pure _)

theorem tracks_varDecl (hn : bound ≤ n) : Tracks row bound 1 varDecl (Parse.varDecl n) := by
  have hclosing (name : Token) (initial : Option Expr) : Tracks row bound 0
      (expect .semicolon .variableEnd >>= fun _ => pure (Stmt.var name initial))
      (Parse.expect .semicolon .variableEnd >>= fun _ => pure (Stmt.var name initial)) :=
    (Tracks.expect (by decide) _).any.then fun _ => .pure _
  refine (Tracks.expect (by decide) _).then fun name => ?_
  refine .accept (by decide) (fun _ => ?_) ((Tracks.pure none).then (hclosing name))
  exact (((tracks_expression hn).map some).any.then (hclosing name)).mono (by omega)
    (Nat.le_refl _)

theorem tracks_expressionStmt (hn : bound ≤ n) :
    Tracks row bound 1 expressionStmt (Parse.expressionStmt n) :=
  (tracks_expression hn).then fun value =>
    (Tracks.expect (by decide) _).any.then fun _ => .pure _

theorem tracks_printStmt (hn : bound ≤ n) :
    Tracks row bound 1 printStmt (Parse.printStmt n) :=
  (tracks_expression hn).then fun value =>
    (Tracks.expect (by decide) _).any.then fun _ => .pure _

theorem tracks_optionalExpression {follower : Token.Kind} (hfollower : follower ≠ .ending)
    (hn : bound ≤ n) : Tracks row bound 0 (optionalExpression follower)
      (Parse.optionalExpression n follower) :=
  (Tracks.check hfollower).then fun _ => .ite (.pure _) ((tracks_expression hn).map some).any

theorem tracks_forInitial (hn : bound ≤ n) :
    Tracks row bound 1 forInitial (Parse.forInitial n) :=
  .accept (by decide) (fun _ => .pure _)
    (.accept (by decide)
      (fun _ => ((tracks_varDecl hn).map some).mono (by omega) (by omega))
      ((tracks_expressionStmt hn).map some))

theorem tracks_forCondition (condition : Option Expr) :
    Tracks row bound 0 (forCondition condition) (Parse.forCondition condition) := by
  cases condition with
  | none => exact .build _
  | some e => exact .pure e

theorem tracks_forStmt (hstmt : Tracks row bound 1 statement stmt) (hn : bound ≤ n) :
    Tracks row bound 1 forStmt (Parse.forStmt stmt n) := by
  rw [forStmt, Form.read]
  refine (Tracks.expect (by decide) _).then fun _ => ?_
  refine (tracks_forInitial hn).any.then fun initial => ?_
  refine (tracks_optionalExpression (by decide) hn).then fun condition => ?_
  refine (Tracks.expect (by decide) _).any.then fun _ => ?_
  refine (tracks_optionalExpression (by decide) hn).then fun increment => ?_
  refine (Tracks.expect (by decide) _).any.then fun _ => ?_
  refine hstmt.any.then fun body => ?_
  exact (tracks_forCondition condition).then fun completed => .pure _

theorem tracks_ifStmt (hstmt : Tracks row bound 1 statement stmt) (hn : bound ≤ n) :
    Tracks row bound 1 ifStmt (Parse.ifStmt stmt n) := by
  rw [ifStmt, Form.read]
  refine (Tracks.expect (by decide) _).then fun _ => ?_
  refine (tracks_expression hn).any.then fun condition => ?_
  refine (Tracks.expect (by decide) _).any.then fun _ => ?_
  refine hstmt.any.then fun yes => ?_
  refine .accept (by decide) (fun _ => ?_) (.pure _)
  exact (hstmt.mono (by omega) (Nat.zero_le _)).then fun no => .pure _

theorem tracks_whileStmt (hstmt : Tracks row bound 1 statement stmt) (hn : bound ≤ n) :
    Tracks row bound 1 whileStmt (Parse.whileStmt stmt n) := by
  rw [whileStmt, Form.read]
  refine (Tracks.expect (by decide) _).then fun _ => ?_
  refine (tracks_expression hn).any.then fun condition => ?_
  refine (Tracks.expect (by decide) _).any.then fun _ => ?_
  exact hstmt.any.then fun body => .pure _

theorem tracksAt_returnStmt {t : Token} (hkind : t.kind = .kwReturn) (hn : bound ≤ n) :
    TracksAt row t bound 1 (advance >>= fun _ => returnStmt)
      (Parse.advance >>= fun _ => Parse.returnStmt t n) := by
  refine .advance_previous (by rw [hkind]; decide) ?_
  refine (tracks_optionalExpression (by decide) (by omega)).then fun value => ?_
  exact (Tracks.expect (by decide) _).any.then fun _ => .pure _

/-! ## Going on after a problem -/

/-- A statement seems to start at the index: behind a semicolon, at one of the keywords that start
statements, or at the end. -/
def Resumable (row : Row) (index : Nat) : Prop :=
  (∃ before, row.toList[index - 1]? = some before ∧ before.kind = .semicolon) ∨
    ∃ t, row.toList[index]? = some t ∧ (t.kind.startsStatement = true ∨ t.kind = .ending)

/-- Reading goes on at `index` after a problem at the index `stopped`: at the first index behind it
where a statement seems to start, or at the end if the problem is there. -/
structure ResumesAt (row : Row) (stopped index : Nat) : Prop where
  resumable : row.Resumable index
  later : stopped < index ∨ stopped = row.tokens.length ∧ index = stopped
  first : ∀ k, stopped < k → k < index → ¬ row.Resumable k

/-- The closing token is the only one of its kind. -/
def Single (row : Row) : Prop :=
  ∀ t ∈ row.tokens, t.kind ≠ .ending

theorem Single.kind_eq_iff (hrow : row.Single) (h : place.index ≤ row.tokens.length) :
    (row.token place).kind = .ending ↔ place.index = row.tokens.length := by
  rcases Nat.lt_or_eq_of_le h with hlt | heq
  · have hmem : row.token place ∈ (row.cursor place).tokens := by
      rw [cursor_tokens hlt]
      exact List.mem_cons_self
    exact iff_of_false (hrow _ (List.mem_of_mem_drop hmem)) (Nat.ne_of_lt hlt)
  · rw [token_of_end (Nat.le_of_eq heq.symm)]
    exact iff_of_true row.closed heq

theorem atEnd_apply (hrow : row.Single) (h : place.index ≤ row.tokens.length) :
    atEnd row.toList place =
      some (.ok (decide (place.index = row.tokens.length)), place) := by
  rw [atEnd, check_apply _ h, decide_eq_decide.mpr (hrow.kind_eq_iff h)]

theorem resumable_next (h : place.next.index ≤ row.tokens.length) :
    row.Resumable place.next.index ↔
      (row.token place).kind = .semicolon ∨ (row.token place.next).kind.startsStatement = true ∨
        (row.token place.next).kind = .ending := by
  have hbefore : row.toList[place.next.index - 1]? = some (row.token place) :=
    toList_getElem? (Nat.le_of_lt h)
  simp only [Resumable, toList_getElem? h, hbefore, Option.some.injEq, exists_eq_left']

theorem seek_apply (hrow : row.Single) (h : place.next.index ≤ row.tokens.length) :
    seek row.toList place.next =
      if (row.token place).kind = .semicolon ∨ (row.token place.next).kind.startsStatement = true ∨
        (row.token place.next).kind = .ending
      then some (.ok (), place.next) else seek row.toList place.next.next := by
  conv => lhs; rw [seek, Part.read, bind_apply, atEnd_apply hrow h]
  dsimp only
  by_cases hend : (row.token place.next).kind = .ending
  · rw [if_pos (decide_eq_true ((hrow.kind_eq_iff h).mp hend)), if_pos (.inr (.inr hend))]
    rfl
  rw [if_neg fun heq => hend ((hrow.kind_eq_iff h).mpr (of_decide_eq_true heq)), bind_apply,
    previous_apply (Nat.le_of_lt h)]
  dsimp only
  by_cases hsemicolon : (row.token place).kind = .semicolon
  · rw [if_pos hsemicolon, if_pos (.inl hsemicolon)]
    rfl
  rw [if_neg hsemicolon, bind_apply, current_apply h]
  dsimp only
  by_cases hstarts : (row.token place.next).kind.startsStatement = true
  · rw [if_pos hstarts, if_pos (.inr (.inl hstarts))]
    rfl
  rw [if_neg hstarts, if_neg (by simp [hsemicolon, hstarts, hend]), bind_apply,
    advance_apply h hend]
  rfl

theorem nextStart_cursor (hrow : row.Single) (h : place.next.index ≤ row.tokens.length) :
    nextStart (row.token place) (row.cursor place.next).tokens =
      if (row.token place).kind = .semicolon ∨ (row.token place.next).kind.startsStatement = true ∨
        (row.token place.next).kind = .ending
      then (row.cursor place.next).tokens
      else nextStart (row.token place.next) (row.cursor place.next.next).tokens := by
  rcases Nat.lt_or_eq_of_le h with hlt | heq
  · have hend : (row.token place.next).kind ≠ .ending :=
      mt (hrow.kind_eq_iff h).mp (Nat.ne_of_lt hlt)
    simp only [cursor_tokens hlt, nextStart, hend, or_false]
  · have htokens : (row.cursor place.next).tokens = [] :=
      List.drop_eq_nil_of_le (Nat.le_of_eq heq.symm)
    rw [if_pos (.inr (.inr ((hrow.kind_eq_iff h).mpr heq))), htokens]
    rfl

theorem seek_finds (hrow : row.Single) : ∀ (ahead : Nat) (place : Place),
    place.next.index + ahead = row.tokens.length →
      ∃ j, place.index < j ∧ j ≤ row.tokens.length ∧
        seek row.toList place.next = some (.ok (), { place with index := j }) ∧
        row.Resumable j ∧ (∀ k, place.index < k → k < j → ¬ row.Resumable k) ∧
        nextStart (row.token place) (row.cursor place.next).tokens = row.tokens.drop j
  | ahead, place, hahead => by
      have hwithin : place.next.index ≤ row.tokens.length := by omega
      have hseek := seek_apply hrow hwithin
      have hnext := nextStart_cursor hrow hwithin
      -- Both searches look at the same three kinds; where they do not stop, they go on one token
      -- further.
      by_cases hresumable : row.Resumable place.next.index
      · rw [if_pos ((resumable_next hwithin).mp hresumable)] at hseek hnext
        exact ⟨place.next.index, Nat.lt_succ_self _, hwithin, hseek, hresumable,
          fun k hk hlt => absurd hlt (Nat.not_lt.mpr hk), hnext⟩
      · have hkinds := mt (resumable_next hwithin).mpr hresumable
        rw [if_neg hkinds] at hseek hnext
        have hend : place.next.index ≠ row.tokens.length := fun heq =>
          hkinds (.inr (.inr ((hrow.kind_eq_iff hwithin).mpr heq)))
        obtain ⟨ahead, rfl⟩ : ∃ m, ahead = m + 1 := ⟨ahead - 1, by omega⟩
        obtain ⟨j, hlater, hj, hfound, hresumes, hfirst, hstart⟩ :=
          seek_finds hrow ahead place.next (by change _ + 1 + _ = _; omega)
        refine ⟨j, Nat.lt_of_succ_lt hlater, hj, hseek.trans hfound, hresumes,
          fun k hk hlt => ?_, hnext.trans hstart⟩
        rcases Nat.lt_or_eq_of_le (Nat.succ_le_of_lt hk) with hk | rfl
        · exact hfirst k hk hlt
        · exact hresumable

theorem synchronize_apply (hrow : row.Single) (h : place.index ≤ row.tokens.length) :
    ∃ j, place.index ≤ j ∧ j ≤ row.tokens.length ∧ row.ResumesAt place.index j ∧
      synchronize row.toList place = some (.ok (), { place with index := j }) ∧
      recover (row.cursor place).tokens = row.tokens.drop j := by
  rcases Nat.lt_or_eq_of_le h with hlt | heq
  · have hend : (row.token place).kind ≠ .ending := mt (hrow.kind_eq_iff h).mp (Nat.ne_of_lt hlt)
    obtain ⟨j, hlater, hj, hfound, hresumable, hfirst, hstart⟩ :=
      seek_finds hrow (row.tokens.length - place.next.index) place (Nat.add_sub_cancel' hlt)
    refine ⟨j, Nat.le_of_lt hlater, hj, ⟨hresumable, .inl hlater, hfirst⟩, ?_, ?_⟩
    · rw [synchronize, bind_apply, advance_apply h hend]
      exact hfound
    · rw [cursor_tokens hlt]
      exact hstart
  · have hend : (row.token place).kind = .ending := (hrow.kind_eq_iff h).mpr heq
    have htoken : row.toList[place.index]? = some (row.token place) := toList_getElem? h
    refine ⟨place.index, Nat.le_refl _, h, ⟨.inr ⟨_, htoken, .inr hend⟩, .inr ⟨heq, rfl⟩,
      fun k hk hlt => absurd hlt (Nat.lt_asymm hk)⟩, ?_, ?_⟩
    · rw [synchronize, bind_apply, advance_ending h hend]
      dsimp only
      rw [seek, Part.read, bind_apply, atEnd_apply hrow h]
      dsimp only
      rw [if_pos (decide_eq_true heq)]
      rfl
    · simp only [cursor, heq, List.drop_length, recover]

/-! ## Rows of declarations -/

/-- The steps agree wherever at most `bound` tokens are ahead, and take a token if one is ahead. -/
def TracksOn {α : Type} (row : Row) (bound : Nat) (w : Reader α) (p : Parse α) : Prop :=
  ∀ place : Place, place.index ≤ row.tokens.length → row.tokens.length ≤ place.index + bound →
    Agrees row place (min 1 (row.tokens.length - place.index)) w p

theorem TracksOn.mono {w : Reader (Option Stmt)} {p : Parse (Option Stmt)} {b : Nat}
    (h : TracksOn row bound w p) (hb : b ≤ bound) : TracksOn row b w p :=
  fun place hwithin hbound => h place hwithin (by omega)

theorem TracksOn.bind {α β : Type} {x : Reader α} {x' : Parse α} {f : α → Reader β}
    {f' : α → Parse β} (hx : TracksOn row bound x x')
    (hf : ∀ a, Tracks row (bound - 1) 0 (f a) (f' a)) :
    Tracks row bound 0 (x >>= f) (x' >>= f') :=
  fun place hwithin hbound => (hx place hwithin hbound).bind fun a after hmeets =>
    have hahead : row.tokens.length ≤ after.index + (bound - 1) := by
      have := hmeets.takes nofun
      omega
    (hf a after hmeets.within hahead).weaken (Nat.le_of_eq (Nat.zero_sub _))

theorem isEmpty_cursor (h : place.index ≤ row.tokens.length) :
    (row.cursor place).tokens.isEmpty = decide (place.index = row.tokens.length) := by
  rw [Bool.eq_iff_iff, List.isEmpty_iff, decide_eq_true_iff, cursor, List.drop_eq_nil_iff]
  omega

theorem tracks_atEnd (hrow : row.Single) : Tracks row bound 0 atEnd Parse.atEnd := by
  intro place hwithin hbound
  refine .of_value (atEnd_apply hrow hwithin) ?_ (Nat.le_refl _) hwithin (List.prefix_refl _)
  rw [Parse.atEnd_apply, isEmpty_cursor hwithin]

theorem Tracks.atEnd_end {α : Type} {taken : Nat} {f : Bool → Reader α} {p : Parse α}
    (hf : Tracks row 0 taken (f true) p) : Tracks row 0 taken (atEnd >>= f) p := by
  intro place hwithin hbound
  obtain ⟨result, after, hmeets⟩ := hf place hwithin hbound
  refine ⟨result, after, { hmeets with byIndex := ?_ }⟩
  rw [bind_apply, atEnd, check_apply _ hwithin, token_of_end hbound, row.closed]
  exact hmeets.byIndex

theorem declarations_succ (closes : Token → Bool) (decl : Parse (Option Stmt)) (n : Nat) :
    Parse.declarations closes decl (n + 1) = do
      if ← Parse.atEnd then return []
      else if closes (← Parse.current) then return []
      else
        let first ← decl
        return first.toList ++ (← Parse.declarations closes decl n) := by
  funext c
  rw [Parse.declarations, Parse.bind_apply, Parse.bind_apply, Parse.get_apply, Parse.atEnd_apply]
  dsimp only
  cases htokens : c.tokens with
  | nil => rfl
  | cons t ts =>
      simp only [List.isEmpty_cons, Bool.false_eq_true, if_false, Parse.bind_apply,
        Parse.current_apply, Cursor.current, htokens, List.headD_cons]

theorem tracks_declarations (hrow : row.Single) (closes : Token → Bool) :
    ∀ n bound, TracksOn row bound declaration decl → bound ≤ n →
      Tracks row bound 0 (declarations closes) (Parse.declarations closes decl n)
  | 0, bound, hdecl, hn => by
      obtain rfl := Nat.le_zero.mp hn
      rw [declarations_eq]
      exact .atEnd_end (.pure [])
  | n + 1, bound, hdecl, hn => by
      have hmore := tracks_declarations hrow closes n (bound - 1) (hdecl.mono (Nat.sub_le _ _))
        (by omega)
      rw [declarations_eq, declarations_succ]
      refine (tracks_atEnd hrow).then fun done => .ite (.pure _) (.current fun t => ?_)
      exact (Tracks.ite (.pure _) (hdecl.bind fun first => hmore.map _)).facing

theorem tracks_block (hrow : row.Single) (hdecl : TracksOn row bound declaration decl)
    (hn : bound ≤ n) : Tracks row bound 1 block (Parse.block decl n) := by
  rw [block, Form.read]
  exact ((tracks_declarations hrow _ n bound hdecl hn).bind fun body =>
    (Tracks.expect (by decide) _).then fun _ => .pure _)

theorem tracks_funDecl (hrow : row.Single) (hdecl : TracksOn row bound declaration decl)
    (hn : bound ≤ n) (callee : Callee) :
    Tracks row bound 1 (funDecl callee) (Parse.funDecl callee decl n) := by
  rw [funDecl, Form.read]
  have hrest (name : Token) (params : List Token) : Tracks row bound 0
      (do
        let _ ← expect .rightParen .parameterEnd
        let _ ← expect .leftBrace (.calleeBody callee)
        let body ← block
        return FunDecl.mk name params body)
      (do
        let _ ← Parse.expect .rightParen .parameterEnd
        let _ ← Parse.expect .leftBrace (.calleeBody callee)
        let body ← Parse.block decl n
        return FunDecl.mk name params body) := by
    refine (Tracks.expect (by decide) _).any.then fun _ => ?_
    refine (Tracks.expect (by decide) _).any.then fun _ => ?_
    exact (tracks_block hrow hdecl hn).any.then fun body => .pure _
  refine (Tracks.expect (by decide) _).then fun name => ?_
  refine (Tracks.expect (by decide) _).any.then fun _ => ?_
  refine (Tracks.check (by decide)).then fun closed => ?_
  exact .ite ((Tracks.pure []).then (hrest name))
    (((tracks_parameters n 0).mono hn (Nat.zero_le _)).then (hrest name))

theorem tracks_methods (hrow : row.Single) {method : Parse FunDecl} :
    ∀ n bound, Tracks row bound 1 (funDecl .method) method → bound ≤ n →
      Tracks row bound 0 methods (Parse.methods method n)
  | 0, bound, hmethod, hn => by
      obtain rfl := Nat.le_zero.mp hn
      rw [methods, Form.read]
      exact .atEnd_end (.pure [])
  | n + 1, bound, hmethod, hn => by
      have hmore := tracks_methods hrow n (bound - 1)
        (hmethod.mono (Nat.sub_le _ _) (Nat.le_refl _)) (by omega)
      rw [methods, Form.read]
      refine (tracks_atEnd hrow).then fun done => .ite (.pure _) ?_
      refine (Tracks.check (by decide)).then fun closed => .ite (.pure _) ?_
      exact hmethod.bind fun first => hmore.map _

theorem tracks_classDecl (hrow : row.Single) (hdecl : TracksOn row bound declaration decl)
    (hn : bound ≤ n) : Tracks row bound 1 classDecl (Parse.classDecl decl n) := by
  rw [classDecl, Form.read]
  refine (Tracks.expect (by decide) _).then fun name => ?_
  refine tracks_superclass.then fun superclass => ?_
  refine (Tracks.expect (by decide) _).any.then fun _ => ?_
  refine (tracks_methods hrow n bound (tracks_funDecl hrow hdecl hn _) hn).then fun methods => ?_
  exact (Tracks.expect (by decide) _).any.then fun _ => .pure _

theorem tracks_statementForm (hrow : row.Single) (hstmt : Tracks row bound 1 statement stmt)
    (hdecl : TracksOn row bound declaration decl) :
    Tracks row (bound + 1) 1 statement (Parse.statementForm stmt decl (bound + 1)) := by
  have hn : bound ≤ bound + 1 := Nat.le_succ _
  rw [statement, Form.read]
  refine .current fun t => ?_
  cases hkind : t.kind
  case kwFor => exact .advance (by rw [hkind]; decide) (tracks_forStmt hstmt hn).any
  case kwIf => exact .advance (by rw [hkind]; decide) (tracks_ifStmt hstmt hn).any
  case kwWhile => exact .advance (by rw [hkind]; decide) (tracks_whileStmt hstmt hn).any
  case kwPrint => exact .advance (by rw [hkind]; decide) (tracks_printStmt hn).any
  case kwReturn => exact tracksAt_returnStmt hkind (Nat.le_refl _)
  case leftBrace =>
    exact .advance (by rw [hkind]; decide) ((tracks_block hrow hdecl hn).map _).any
  all_goals exact (tracks_expressionStmt (Nat.le_refl _)).facing

theorem tracks_declarationForm (hrow : row.Single) (hstmt : Tracks row bound 1 statement stmt)
    (hdecl : TracksOn row bound declaration decl) :
    Tracks row (bound + 1) 1 declarationForm (Parse.declarationForm stmt decl (bound + 1)) := by
  have hn : bound ≤ bound + 1 := Nat.le_succ _
  rw [declarationForm, Form.read]
  refine .current fun t => ?_
  cases hkind : t.kind
  case kwClass => exact .advance (by rw [hkind]; decide) (tracks_classDecl hrow hdecl hn).any
  case kwFun => exact .advance (by rw [hkind]; decide) ((tracks_funDecl hrow hdecl hn _).map _).any
  case kwVar => exact .advance (by rw [hkind]; decide) (tracks_varDecl hn).any
  all_goals exact (tracks_statementForm hrow hstmt hdecl).facing

theorem declaration_of_value {s : Stmt} {after : Place}
    (h : declarationForm row.toList place = some (.ok s, after)) :
    declaration row.toList place = some (.ok (some s), after) := by
  rw [declarationForm] at h
  rw [declaration, Form.read]
  dsimp only
  rw [h]
  rfl

theorem declaration_of_aborted {stopped after : Place}
    (h : declarationForm row.toList place = some (.error .aborted, stopped))
    (hsynchronize : synchronize row.toList stopped = some (.ok (), after)) :
    declaration row.toList place = some (.ok none, after) := by
  rw [declarationForm] at h
  rw [declaration, Form.read]
  dsimp only
  rw [h]
  change (synchronize >>= fun _ => pure none : Reader (Option Stmt)) row.toList stopped = _
  rw [bind_apply, hsynchronize]
  rfl

theorem tracksOn_recovering (hrow : row.Single) {form : Parse Stmt}
    (hform : Tracks row bound 1 declarationForm form) :
    TracksOn row bound declaration (Parse.recovering form) := by
  intro place hwithin hbound
  obtain ⟨result, stopped, hmeets⟩ := hform place hwithin hbound
  have hahead := hmeets.ahead
  cases result with
  | some s =>
      have htakes := hmeets.takes nofun
      refine .of_value (declaration_of_value hmeets.byIndex) ?_ (by omega) hmeets.within
        hmeets.keeps
      rw [Parse.recovering, hahead]
  | none =>
      have hlater := hmeets.later
      obtain ⟨j, hj, hend, hresumes, hsynchronize, hrecover⟩ := synchronize_apply hrow hmeets.within
      refine .of_value (declaration_of_aborted hmeets.byIndex hsynchronize) ?_ ?_ hend hmeets.keeps
      · rw [Parse.recovering, hahead]
        dsimp only
        rw [hrecover]
        rfl
      · change _ ≤ j
        have := hresumes.later
        omega

mutual

theorem tracks_statement (hrow : row.Single) :
    ∀ n, Tracks row n 1 statement (Parse.statement n)
  | 0 => by
      rw [statement, Form.read]
      refine .current_end ?_
      rw [row.closed]
      exact tracks_expressionStmt (Nat.le_refl _)
  | n + 1 => tracks_statementForm hrow (tracks_statement hrow n) (tracksOn_declaration hrow n)

theorem tracksOn_declaration (hrow : row.Single) :
    ∀ n, TracksOn row n declaration (Parse.declaration n)
  | 0 => by
      refine tracksOn_recovering hrow ?_
      rw [declarationForm, Form.read]
      refine .current_end ?_
      rw [row.closed]
      exact tracks_statement hrow 0
  | n + 1 => tracksOn_recovering hrow
      (tracks_declarationForm hrow (tracks_statement hrow n) (tracksOn_declaration hrow n))

end

end Lox.Row
