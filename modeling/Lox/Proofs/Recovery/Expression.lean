import Lox.Proofs.Recovery.Tracking

/-!
# Expressions by index

Reading expressions by index agrees with reading them from the tokens ahead, under any bound that is
at least the number of tokens ahead.  So the bound never shows in what is read.
-/

namespace Lox

/-- What stands before a sign of assignment, or alone, read by a step of its own. -/
def Parse.assigned (target nested : Parse Expr) : Parse Expr := do
  let target ← target
  match ← accept? .equal with
  | none => return target
  | some equals =>
    let value ← nested
    match target with
    | .read _ name => build (.assign · name value)
    | .get _ object name => build (.set · object name value)
    | _ =>
      report equals .invalidTarget
      return target

namespace Row

variable {row : Row} {bound limit n : Nat} {nested operand : Parse Expr}

/-! ## Operands -/

theorem tracks_argument (h : Tracks row limit 1 expression nested) (count : Nat) :
    Tracks row limit 1 (argument count) (Parse.argument nested count) := by
  rw [argument, Part.read]
  exact .ite (.current fun t => ((Tracks.report t _).bind fun _ => h).facing) h

theorem tracks_arguments (h : Tracks row limit 1 expression nested) :
    ∀ n count, n ≤ limit → Tracks row n 1 (arguments count) (Parse.arguments nested n count)
  | 0, count, hn => by
      rw [arguments, Part.read]
      exact ((tracks_argument h count).mono hn (Nat.le_refl _)).stuck
  | n + 1, count, hn => by
      rw [arguments, Part.read]
      refine ((tracks_argument h count).mono hn (Nat.le_refl _)).bind fun first => ?_
      refine .accept (by decide) (fun _ => ?_) (.pure _)
      exact ((tracks_arguments h n (count + 1) (by omega)).mono (by omega) (by omega)).map _

theorem tracks_finishCall (h : Tracks row limit 1 expression nested) (hn : n ≤ limit)
    (callee : Expr) : Tracks row n 1 (finishCall callee) (Parse.finishCall nested n callee) := by
  rw [finishCall, Part.read]
  have hclosing (args : List Expr) : Tracks row n 1
      (expect .rightParen .argumentEnd >>= fun paren => build (.call · callee paren args))
      (Parse.expect .rightParen .argumentEnd >>= fun paren =>
        Parse.build (.call · callee paren args)) :=
    (Tracks.expect (by decide) _).bind fun paren => .build _
  refine (Tracks.check (by decide)).bind fun closed => ?_
  refine .ite ((Tracks.pure []).bind hclosing) ?_
  exact (tracks_arguments h n 0 hn).bind fun args =>
    (hclosing args).mono (by omega) (Nat.zero_le _)

theorem tracks_trailers (h : Tracks row limit 1 expression nested) :
    ∀ n e, n ≤ limit + 1 → Tracks row n 0 (trailers e) (Parse.trailers nested n e)
  | 0, e, _ => by
      rw [trailers, Part.read]
      exact .accept_end (by decide) (.accept_end (by decide) (.pure e))
  | n + 1, e, hn => by
      rw [trailers, Part.read]
      refine .accept (by decide) (fun _ => ?_) (.accept (by decide) (fun _ => ?_) (.pure _))
      · refine ((tracks_finishCall h (by omega) e)).bind fun call => ?_
        exact (tracks_trailers h n call (by omega)).mono (by omega) (Nat.le_refl _)
      · refine (Tracks.expect (by decide) _).bind fun name => ?_
        refine (Tracks.build _).bind fun property => ?_
        exact (tracks_trailers h n property (by omega)).mono (by omega) (Nat.le_refl _)

theorem tracks_primary (h : Tracks row limit 1 expression nested) :
    Tracks row (limit + 1) 1 primary (Parse.primary nested) := by
  rw [primary, Part.read]
  refine .current fun t => ?_
  cases hkind : t.kind
  case kwFalse => exact .advance (by rw [hkind]; decide) (.build _)
  case kwTrue => exact .advance (by rw [hkind]; decide) (.build _)
  case kwNil => exact .advance (by rw [hkind]; decide) (.build _)
  case number => exact .advance (by rw [hkind]; decide) (.build _)
  case string => exact .advance (by rw [hkind]; decide) (.build _)
  case kwThis => exact .advance (by rw [hkind]; decide) (.build _)
  case name => exact .advance (by rw [hkind]; decide) (.build _)
  case kwSuper =>
    refine .advance (by rw [hkind]; decide) ?_
    refine (Tracks.expect (by decide) _).bind fun _ => ?_
    refine (Tracks.expect (by decide) _).bind fun method => ?_
    exact .build _
  case leftParen =>
    refine .advance (by rw [hkind]; decide) ?_
    refine h.bind fun inner => ?_
    exact (Tracks.expect (by decide) _).bind fun _ => .build _
  all_goals exact (Tracks.refuse _).facing

theorem tracks_call (h : Tracks row limit 1 expression nested) (hn : n ≤ limit + 1) :
    Tracks row n 1 call (Parse.call nested n) := by
  rw [call, Part.read]
  refine ((tracks_primary h).mono hn (Nat.le_refl _)).bind fun e => ?_
  exact (tracks_trailers h n e hn).mono (by omega) (Nat.le_refl _)

/-! ## Operators -/

theorem tracks_unary (h : Tracks row bound 1 call operand) :
    ∀ n, n ≤ bound → Tracks row n 1 unary (Parse.unary operand n)
  | 0, hn => by
      rw [unary, Part.read]
      refine .current_end ?_
      rw [row.closed]
      exact h.mono hn (Nat.le_refl _)
  | n + 1, hn => by
      have hmore := tracks_unary h n (by omega)
      rw [unary, Part.read]
      refine .current fun op => ?_
      cases hkind : op.kind
      case bang | minus =>
        refine .advance (by rw [hkind]; decide) ?_
        exact (hmore.mono (by omega) (by omega)).then fun right => .build _
      all_goals exact (h.mono hn (Nat.le_refl _)).facing

theorem precedence?_eq_none_of_ending {kind : Token.Kind} (h : kind = .ending) :
    kind.precedence? = none := by
  rw [h]
  rfl

theorem kind_ne_ending_of_precedence {kind : Token.Kind} {precedence : Nat}
    (h : kind.precedence? = some precedence) : kind ≠ .ending := fun hkind =>
  nomatch h.symm.trans (precedence?_eq_none_of_ending hkind)

mutual

theorem tracks_binary (h : Tracks row bound 1 unary operand) :
    ∀ n least, n ≤ bound → Tracks row n 1 (binary least) (Parse.binary operand n least)
  | 0, least, hn => by
      rw [binary_eq, Parse.binary, ← bind_pure operand]
      exact (h.mono hn (Nat.le_refl _)).stuck
  | n + 1, least, hn => by
      rw [binary_eq]
      refine (h.mono hn (Nat.le_refl _)).bind fun left => ?_
      exact tracks_climb h n least left (by omega)

theorem tracks_climb (h : Tracks row bound 1 unary operand) :
    ∀ n least left, n ≤ bound → Tracks row n 0 (climb least left) (Parse.climb operand n least left)
  | 0, least, left, _ => by
      rw [climb, Part.read]
      refine .current_end ?_
      rw [precedence?_eq_none_of_ending row.closed]
      exact .pure left
  | n + 1, least, left, hn => by
      rw [climb, Part.read, Parse.climb]
      refine .current fun op => ?_
      cases hprecedence : op.kind.precedence? with
      | none => exact (Tracks.pure left).facing
      | some precedence =>
          dsimp only
          split
          · exact (Tracks.pure left).facing
          · refine .advance (kind_ne_ending_of_precedence hprecedence) ?_
            refine (tracks_binary h n (precedence + 1) (by omega)).bind fun right => ?_
            refine (Tracks.build _).bind fun joined => ?_
            exact (tracks_climb h n least joined (by omega)).mono (by omega) (Nat.le_refl _)

end

theorem tracks_assigned {target : Parse Expr} (htarget : Tracks row n 1 (binary 1) target)
    (h : Tracks row limit 1 expression nested) (hn : n ≤ limit + 1) :
    Tracks row n 1 expression (Parse.assigned target nested) := by
  rw [expression, Part.read]
  refine htarget.bind fun target => ?_
  refine .accept (by decide) (fun equals => ?_) (.pure _)
  refine (h.mono (by omega) (Nat.zero_le _)).bind fun value => ?_
  cases target
  case read id name => exact .build _
  case get id object name => exact .build _
  all_goals exact (Tracks.report equals _).bind fun _ => .pure _

theorem tracks_assignment (h : Tracks row limit 1 expression nested) (hn : n ≤ limit + 1) :
    Tracks row n 1 expression (Parse.assignment nested n) :=
  tracks_assigned (tracks_binary (tracks_unary (tracks_call h hn) n (Nat.le_refl _)) n 1
    (Nat.le_refl _)) h hn

theorem tracks_expression_end : Tracks row 0 1 expression (Parse.refuse .expression) := by
  have hprimary : Tracks row 0 1 primary (Parse.refuse .expression) := by
    rw [primary, Part.read]
    refine .current_end ?_
    rw [row.closed]
    exact .refuse _
  have hcall : Tracks row 0 1 call (Parse.refuse .expression) := by
    rw [call, Part.read]
    exact hprimary.refused
  have hunary : Tracks row 0 1 unary (Parse.refuse .expression) := by
    rw [unary, Part.read]
    refine .current_end ?_
    rw [row.closed]
    exact hcall
  have hbinary : Tracks row 0 1 (binary 1) (Parse.refuse .expression) := by
    rw [binary_eq]
    exact hunary.refused
  rw [expression, Part.read]
  exact hbinary.refused

theorem tracks_expression_self : ∀ n, Tracks row n 1 expression (Parse.expression n)
  | 0 => tracks_expression_end
  | n + 1 => tracks_assignment (tracks_expression_self n) (Nat.le_refl _)

theorem tracks_expression (hn : bound ≤ n) : Tracks row bound 1 expression (Parse.expression n) :=
  (tracks_expression_self n).mono hn (Nat.le_refl _)

theorem tracks_operand (hn : bound ≤ n) :
    Tracks row bound 1 unary (Parse.unary (Parse.call (Parse.expression n) n) n) :=
  (tracks_unary (tracks_call (tracks_expression (Nat.le_refl n)) (Nat.le_succ n)) n
    (Nat.le_refl n)).mono hn (Nat.le_refl _)

end Row

end Lox
