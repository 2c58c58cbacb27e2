import Lox.Proofs.Printing.Shape

/-!
# Trees read back from their texts

An outline says which shape the tree has whose text it is.  So two trees of sources have the same text
exactly if they have the same shape.
-/

namespace Lox

/-! ## Shapes of outlines -/

/-- One of the kinds, told from its text. -/
def Token.Kind.ofSpelling? (kinds : List Kind) (text : String) : Option Kind :=
  kinds.find? fun kind => kind.spelling == text

def Expr.ofWord (text : String) : Expr :=
  match text.toList with
  | [] => .missing
  | c :: cs =>
      if c = '"' then .literal 0 (.string (String.ofList cs.dropLast))
      else if Decimal.isDigit c then .literal 0 (.number ((Number.ofText? text).getD 0))
      else if text = "nil" then .literal 0 .nil
      else if text = "true" then .literal 0 (.bool true)
      else if text = "false" then .literal 0 (.bool false)
      else if text = "this" then .self 0 (.fixed .kwThis)
      else .read 0 (.named text)

/-- The expression of an operator that stands before its operand or between its operands. -/
def Expr.ofOperands (op : String) : List Expr → Expr
  | [right] =>
      match Token.Kind.ofSpelling? Grammar.prefixes op with
      | some kind => .unary 0 (.fixed kind) right
      | none => .missing
  | [left, right] =>
      match Token.Kind.ofSpelling? Grammar.connectives op with
      | some kind => .logical 0 left (.fixed kind) right
      | none =>
          match Token.Kind.ofSpelling? Grammar.infixes op with
          | some kind => .binary 0 left (.fixed kind) right
          | none => .missing
  | _ => .missing

/-- The expression of a list, from its first word and the words and expressions behind it. -/
def Expr.ofParts (head : String) (words : List String) (parts : List Expr) : Expr :=
  if head = "group" then
    match parts with
    | [inner] => .grouping 0 inner
    | _ => .missing
  else if head = "=" then
    match words, parts with
    | [name, _], [_, value] => .assign 0 (.named name) value
    | [_, name, _], [object, _, value] => .set 0 object (.named name) value
    | _, _ => .missing
  else if head = "call" then
    match parts with
    | callee :: arguments => .call 0 callee (.fixed .rightParen) arguments
    | [] => .missing
  else if head = "." then
    match words, parts with
    | [_, name], [object, _] => .get 0 object (.named name)
    | _, _ => .missing
  else if head = "super" then
    match words with
    | [name] => .super 0 (.fixed .kwSuper) (.named name)
    | _ => .missing
  else .ofOperands head parts

namespace Outline

/-- The word that an outline is. -/
def text : Outline → String
  | .word text => text
  | .applied text _ => text
  | .list _ => ""

mutual

def expr : Outline → Expr
  | .word text => .ofWord text
  | .applied _ _ => .missing
  | .list [] => .missing
  | .list (head :: parts) => .ofParts head.text (parts.map text) (exprs parts)

def exprs : List Outline → List Expr
  | [] => []
  | part :: parts => part.expr :: exprs parts

end

end Outline

open Outline

/-- The statement of a list, from its first word, the parts behind it, and what these are as statements
and declarations. -/
def Stmt.ofParts (head : String) (parts : List Outline) (stmts : List Stmt) (decls : List FunDecl) :
    Stmt :=
  match head with
  | ";" =>
      match parts with
      | [value] => .expression value.expr
      | _ => .missing
  | "print" =>
      match parts with
      | [value] => .print value.expr
      | _ => .missing
  | "var" =>
      match parts with
      | [name] => .var (.named name.text) none
      | [name, _, value] => .var (.named name.text) (some value.expr)
      | _ => .missing
  | "block" => .block stmts
  | "if" =>
      match parts, stmts with
      | [condition, _], [_, yes] => .cond condition.expr yes none
      | _, _ => .missing
  | "if-else" =>
      match parts, stmts with
      | [condition, _, _], [_, yes, no] => .cond condition.expr yes (some no)
      | _, _ => .missing
  | "while" =>
      match parts, stmts with
      | [condition, _], [_, body] => .loop condition.expr body
      | _, _ => .missing
  | "return" =>
      match parts with
      | [] => .ret (.fixed .kwReturn) none
      | [value] => .ret (.fixed .kwReturn) (some value.expr)
      | _ => .missing
  | "class" =>
      match parts with
      | name :: .word _ :: superclass :: _ =>
          .classDecl (.named name.text) (some (0, .named superclass.text)) (decls.drop 3)
      | name :: _ => .classDecl (.named name.text) none (decls.drop 1)
      | [] => .missing
  | _ => .missing

/-- The function of a list, from its head, its parameters and the statements behind them. -/
def FunDecl.ofParts : List Outline → List Stmt → FunDecl
  | .applied name params :: _, _ :: body => .mk (.named name) (params.map Token.named) body
  | _, _ => .mk (.named "") [] []

namespace Outline

mutual

def stmt : Outline → Stmt
  | .word _ => .missing
  | .applied _ _ => .missing
  | .list [] => .missing
  | .list (head :: parts) =>
      if head.text = "fun" then .function (.ofParts parts (stmts parts))
      else .ofParts head.text parts (stmts parts) (decls parts)

def stmts : List Outline → List Stmt
  | [] => []
  | part :: parts => part.stmt :: stmts parts

def decl : Outline → FunDecl
  | .word _ => .ofParts [] []
  | .applied _ _ => .ofParts [] []
  | .list [] => .ofParts [] []
  | .list (_ :: parts) => .ofParts parts (stmts parts)

def decls : List Outline → List FunDecl
  | [] => []
  | part :: parts => part.decl :: decls parts

end

end Outline

/-! ## Words and operators -/

theorem ofWord_name {name : String} (h : IsName name) : Expr.ofWord name = .read 0 (.named name) := by
  obtain ⟨hword, hfree⟩ := h
  have hne : ∀ word ∈ ["nil", "true", "false", "this"], name ≠ word := by
    rintro word hmem rfl
    fin_cases hmem <;> exact absurd hfree (by decide)
  simp only [List.forall_mem_cons] at hne
  unfold Expr.ofWord
  generalize htext : name.toList = text at hword
  cases hword with
  | @mk c more hc _ =>
      have hquote : c ≠ '"' := by
        rintro rfl
        exact absurd hc (by decide)
      simp only [if_neg hquote, not_isDigit_of_isLetter hc, Bool.false_eq_true, if_false, if_neg hne.1,
        if_neg hne.2.1, if_neg hne.2.2.1, if_neg hne.2.2.2.1]

theorem ofWord_number {text : String} {word : Nat} (h : Number.Describes text.toList word) :
    Expr.ofWord text = .literal 0 (.number (Decimal.ofWord false word)) := by
  obtain ⟨⟨c, cs, htext, hc⟩, -, d, hread, hnearest⟩ := h
  have hquote : c ≠ '"' := by
    rintro rfl
    exact absurd hc (by decide)
  have hback := Number.ofText?_signed false hread
  rw [Number.signed, if_neg Bool.false_ne_true, String.ofList_toList] at hback
  unfold Expr.ofWord
  rw [htext]
  simp only [if_neg hquote, hc, if_true, hback, Option.getD_some, Decimal.toFloat, hnearest]

theorem Literal.Written.ofWord {value : Literal} (h : value.Written) :
    Expr.ofWord value.render = value.shape := by
  cases value with
  | nil => rfl
  | bool b => cases b <;> rfl
  | number x =>
      obtain ⟨text, rfl⟩ := h
      unfold Literal.render Literal.shape
      dsimp only
      rcases Number.literalText_readPositional text with ⟨word, hfinite, hdescribes, heq⟩ | ⟨hinfinite, heq⟩
      · rw [ofWord_number hdescribes, heq, (Decimal.word_ofWord hfinite.le).1, if_neg hfinite.ne]
      · rw [hinfinite, heq, (Decimal.word_ofWord (Nat.le_refl _)).1, if_pos rfl]
        rfl
  | string s =>
      have htext : (Literal.string s).render.toList = '"' :: s.toList ++ ['"'] := by
        show ("\"" ++ s ++ "\"").toList = _
        rw [String.toList_append, String.toList_append]
        rfl
      unfold Expr.ofWord
      rw [htext, List.cons_append]
      simp [Literal.shape]

section Operators

variable {op : Token} (words : List String) (left right : Expr)

theorem ofParts_prefix (h : op.Written Grammar.prefixes) :
    Expr.ofParts op.lexeme words [right] = .unary 0 op.unplaced right := by
  have hall : ∀ kind ∈ Grammar.prefixes,
      Expr.ofParts kind.spelling words [right] = .unary 0 (.fixed kind) right := by
    intro kind hkind
    fin_cases hkind <;> rfl
  obtain ⟨hlexeme, hop⟩ := h.fixed (by decide)
  rw [hlexeme, hop]
  exact hall _ h.kind

theorem ofParts_infix (h : op.Written Grammar.infixes) :
    Expr.ofParts op.lexeme words [left, right] = .binary 0 left op.unplaced right := by
  have hall : ∀ kind ∈ Grammar.infixes,
      Expr.ofParts kind.spelling words [left, right] = .binary 0 left (.fixed kind) right := by
    intro kind hkind
    fin_cases hkind <;> rfl
  obtain ⟨hlexeme, hop⟩ := h.fixed (by decide)
  rw [hlexeme, hop]
  exact hall _ h.kind

theorem ofParts_connective (h : op.Written Grammar.connectives) :
    Expr.ofParts op.lexeme words [left, right] = .logical 0 left op.unplaced right := by
  have hall : ∀ kind ∈ Grammar.connectives,
      Expr.ofParts kind.spelling words [left, right] = .logical 0 left (.fixed kind) right := by
    intro kind hkind
    fin_cases hkind <;> rfl
  obtain ⟨hlexeme, hop⟩ := h.fixed (by decide)
  rw [hlexeme, hop]
  exact hall _ h.kind

end Operators

theorem Token.Written.unplaced_name {t : Token} (h : t.Written [.name]) :
    Token.named t.lexeme = t.unplaced :=
  h.isName.2.symm

theorem Token.Written.unplaced_fixed {t : Token} {kind : Token.Kind} (h : t.Written [kind])
    (hkind : kind ≠ .number ∧ kind ≠ .string ∧ kind ≠ .name) : Token.fixed kind = t.unplaced := by
  obtain rfl : t.kind = kind := List.mem_singleton.mp h.kind
  exact (h.fixed (by simpa using hkind)).2.symm

/-! ## Trees -/

mutual

theorem Expr.expr_outline : ∀ e : Expr, e.Written → e.outline.expr = e.shape
  | .literal _ _, h => h.ofWord
  | .grouping _ inner, h => congrArg (Expr.grouping 0) (inner.expr_outline h)
  | .unary _ _ right, h => by
      rw [Expr.shape, ← right.expr_outline h.2]
      exact ofParts_prefix [right.outline.text] right.outline.expr h.1
  | .binary _ left _ right, h => by
      rw [Expr.shape, ← left.expr_outline h.1, ← right.expr_outline h.2.2]
      exact ofParts_infix [left.outline.text, right.outline.text] _ _ h.2.1
  | .logical _ left _ right, h => by
      rw [Expr.shape, ← left.expr_outline h.1, ← right.expr_outline h.2.2]
      exact ofParts_connective [left.outline.text, right.outline.text] _ _ h.2.1
  | .read _ name, h => by
      have hname : name.Written [.name] := h
      rw [Expr.shape, ← hname.unplaced_name]
      exact ofWord_name hname.isName.1
  | .assign _ _ value, h => by
      rw [Expr.shape, ← value.expr_outline h.2, ← h.1.unplaced_name]
      rfl
  | .call _ callee _ arguments, h => by
      rw [Expr.shape, ← callee.expr_outline h.1, ← exprs_argumentOutlines arguments h.2.2,
        ← h.2.1.unplaced_fixed (by decide)]
      rfl
  | .get _ object _, h => by
      rw [Expr.shape, ← object.expr_outline h.1, ← h.2.unplaced_name]
      rfl
  | .set _ object _ value, h => by
      rw [Expr.shape, ← object.expr_outline h.1, ← h.2.1.unplaced_name, ← value.expr_outline h.2.2]
      rfl
  | .self _ keyword, h => by
      have hkeyword : keyword.Written [.kwThis] := h
      rw [Expr.shape, ← hkeyword.unplaced_fixed (by decide)]
      rfl
  | .super _ _ _, h => by
      rw [Expr.shape, ← h.1.unplaced_fixed (by decide), ← h.2.unplaced_name]
      rfl
  | .missing, h => h.elim
  | .misplaced _, h => h.elim

theorem exprs_argumentOutlines : ∀ arguments : List Expr, argumentsWritten arguments →
    exprs (argumentOutlines arguments) = argumentShapes arguments
  | [], _ => rfl
  | argument :: arguments, h => by
      rw [argumentOutlines, exprs, argument.expr_outline h.1, exprs_argumentOutlines arguments h.2]
      rfl

end

/-- No method is a word, so what follows the name of a class without a superclass is no sign. -/
theorem ofParts_class (name : String) (methods : List FunDecl) (stmts : List Stmt) (decls : List FunDecl) :
    Stmt.ofParts "class" (.word name :: methodOutlines methods) stmts decls =
      .classDecl (.named name) none (decls.drop 1) := by
  cases methods with
  | nil => rfl
  | cons method methods =>
      cases method
      rfl

theorem named_params {params : List Token} (h : ∀ param ∈ params, param.Written [.name]) :
    (params.map Token.lexeme).map Token.named = params.map Token.unplaced := by
  rw [List.map_map]
  exact List.map_congr_left fun param hparam => (h param hparam).unplaced_name

mutual

theorem Stmt.stmt_outline : ∀ s : Stmt, s.Written → s.outline.stmt = s.shape
  | .expression value, h => congrArg Stmt.expression (value.expr_outline h)
  | .print value, h => congrArg Stmt.print (value.expr_outline h)
  | .var name none, h => by
      have hname : name.Written [.name] := h
      rw [Stmt.shape, ← hname.unplaced_name]
      rfl
  | .var _ (some value), h => by
      rw [Stmt.shape, ← h.1.unplaced_name, ← value.expr_outline h.2]
      rfl
  | .block body, h => congrArg Stmt.block (stmts_bodyOutlines body h)
  | .cond condition yes none, h => by
      rw [Stmt.shape, ← condition.expr_outline h.1, ← yes.stmt_outline h.2]
      rfl
  | .cond condition yes (some no), h => by
      rw [Stmt.shape, ← condition.expr_outline h.1, ← yes.stmt_outline h.2.1, ← no.stmt_outline h.2.2]
      rfl
  | .loop condition body, h => by
      rw [Stmt.shape, ← condition.expr_outline h.1, ← body.stmt_outline h.2]
      rfl
  | .function (.mk name params body), h => by
      rw [Stmt.shape, FunDecl.shape, ← stmts_bodyOutlines body h.2.2, ← h.1.unplaced_name,
        ← named_params h.2.1]
      rfl
  | .ret keyword none, h => by
      have hkeyword : keyword.Written [.kwReturn] := h
      rw [Stmt.shape, ← hkeyword.unplaced_fixed (by decide)]
      rfl
  | .ret _ (some value), h => by
      rw [Stmt.shape, ← h.1.unplaced_fixed (by decide), ← value.expr_outline h.2]
      rfl
  | .classDecl name none methods, h => by
      rw [Stmt.shape, ← h.1.unplaced_name, ← decls_methodOutlines methods h.2]
      exact ofParts_class name.lexeme methods (stmts (.word name.lexeme :: methodOutlines methods))
        (decls (.word name.lexeme :: methodOutlines methods))
  | .classDecl _ (some (_, _)) methods, h => by
      rw [Stmt.shape, ← h.1.unplaced_name, ← h.2.1.unplaced_name, ← decls_methodOutlines methods h.2.2]
      rfl
  | .missing, h => h.elim
  | .misplaced _, h => h.elim

theorem stmts_bodyOutlines : ∀ body : List Stmt, bodyWritten body →
    stmts (bodyOutlines body) = bodyShapes body
  | [], _ => rfl
  | stmt :: body, h => by
      rw [bodyOutlines, stmts, stmt.stmt_outline h.1, stmts_bodyOutlines body h.2]
      rfl

theorem decls_methodOutlines : ∀ methods : List FunDecl, methodsWritten methods →
    decls (methodOutlines methods) = methodShapes methods
  | [], _ => rfl
  | .mk name params body :: methods, h => by
      rw [methodShapes, ← decls_methodOutlines methods h.2, FunDecl.shape,
        ← stmts_bodyOutlines body h.1.2.2, ← h.1.1.unplaced_name, ← named_params h.1.2.1]
      rfl

end

/-! ## Shapes have the texts of their trees -/

theorem Literal.Written.outline_shape {value : Literal} (h : value.Written) :
    value.shape.outline = .word value.render := by
  cases value with
  | nil => rfl
  | bool b => rfl
  | number x =>
      obtain ⟨text, rfl⟩ := h
      unfold Literal.shape Literal.render
      dsimp only
      rcases Number.literalText_readPositional text with ⟨word, hfinite, -, heq⟩ | ⟨hinfinite, heq⟩
      · rw [heq, (Decimal.word_ofWord hfinite.le).1, if_neg hfinite.ne]
        rfl
      · rw [hinfinite, heq, (Decimal.word_ofWord (Nat.le_refl _)).1, if_pos rfl]
        rfl
  | string s => rfl

mutual

theorem Expr.outline_shape : ∀ e : Expr, e.Written → e.shape.outline = e.outline
  | .literal _ _, h => h.outline_shape
  | .grouping _ inner, h => by
      rw [Expr.shape, Expr.outline, Expr.outline, inner.outline_shape h]
  | .unary _ _ right, h => by
      rw [Expr.shape, Expr.outline, Expr.outline, right.outline_shape h.2]
      rfl
  | .binary _ left _ right, h => by
      rw [Expr.shape, Expr.outline, Expr.outline, left.outline_shape h.1, right.outline_shape h.2.2]
      rfl
  | .logical _ left _ right, h => by
      rw [Expr.shape, Expr.outline, Expr.outline, left.outline_shape h.1, right.outline_shape h.2.2]
      rfl
  | .read _ _, _ => rfl
  | .assign _ _ value, h => by
      rw [Expr.shape, Expr.outline, Expr.outline, value.outline_shape h.2]
      rfl
  | .call _ callee _ arguments, h => by
      rw [Expr.shape, Expr.outline, Expr.outline, callee.outline_shape h.1,
        argumentOutlines_shape arguments h.2.2]
  | .get _ object _, h => by
      rw [Expr.shape, Expr.outline, Expr.outline, object.outline_shape h.1]
      rfl
  | .set _ object _ value, h => by
      rw [Expr.shape, Expr.outline, Expr.outline, object.outline_shape h.1, value.outline_shape h.2.2]
      rfl
  | .self _ _, _ => rfl
  | .super _ _ _, _ => rfl
  | .missing, h => h.elim
  | .misplaced _, h => h.elim

theorem argumentOutlines_shape : ∀ arguments : List Expr, argumentsWritten arguments →
    argumentOutlines (argumentShapes arguments) = argumentOutlines arguments
  | [], _ => rfl
  | argument :: arguments, h => by
      rw [argumentShapes, argumentOutlines, argument.outline_shape h.1, argumentOutlines_shape arguments h.2]
      rfl

end

theorem lexemes_unplaced (params : List Token) :
    (params.map Token.unplaced).map Token.lexeme = params.map Token.lexeme := by
  rw [List.map_map]
  rfl

mutual

theorem Stmt.outline_shape : ∀ s : Stmt, s.Written → s.shape.outline = s.outline
  | .expression value, h => by
      rw [Stmt.shape, Stmt.outline, Stmt.outline, value.outline_shape h]
  | .print value, h => by
      rw [Stmt.shape, Stmt.outline, Stmt.outline, value.outline_shape h]
  | .var _ none, _ => rfl
  | .var _ (some value), h => by
      rw [Stmt.shape, Stmt.outline, Stmt.outline, value.outline_shape h.2]
      rfl
  | .block body, h => by
      rw [Stmt.shape, Stmt.outline, Stmt.outline, bodyOutlines_shape body h]
  | .cond condition yes none, h => by
      rw [Stmt.shape, Stmt.outline, Stmt.outline, condition.outline_shape h.1, yes.outline_shape h.2]
  | .cond condition yes (some no), h => by
      rw [Stmt.shape, Stmt.outline, Stmt.outline, condition.outline_shape h.1, yes.outline_shape h.2.1,
        no.outline_shape h.2.2]
  | .loop condition body, h => by
      rw [Stmt.shape, Stmt.outline, Stmt.outline, condition.outline_shape h.1, body.outline_shape h.2]
  | .function (.mk _ params body), h => by
      rw [Stmt.shape, FunDecl.shape, Stmt.outline, Stmt.outline, FunDecl.outline, FunDecl.outline,
        bodyOutlines_shape body h.2.2, lexemes_unplaced]
      rfl
  | .ret _ none, _ => rfl
  | .ret _ (some value), h => by
      rw [Stmt.shape, Stmt.outline, Stmt.outline, value.outline_shape h.2]
  | .classDecl _ none methods, h => by
      rw [Stmt.shape, Stmt.outline, Stmt.outline, methodOutlines_shape methods h.2]
      rfl
  | .classDecl _ (some (_, _)) methods, h => by
      rw [Stmt.shape, Stmt.outline, Stmt.outline, methodOutlines_shape methods h.2.2]
      rfl
  | .missing, h => h.elim
  | .misplaced _, h => h.elim

theorem bodyOutlines_shape : ∀ body : List Stmt, bodyWritten body →
    bodyOutlines (bodyShapes body) = bodyOutlines body
  | [], _ => rfl
  | stmt :: body, h => by
      rw [bodyShapes, bodyOutlines, stmt.outline_shape h.1, bodyOutlines_shape body h.2]
      rfl

theorem methodOutlines_shape : ∀ methods : List FunDecl, methodsWritten methods →
    methodOutlines (methodShapes methods) = methodOutlines methods
  | [], _ => rfl
  | .mk _ params body :: methods, h => by
      rw [methodShapes, FunDecl.shape, methodOutlines, FunDecl.outline, bodyOutlines_shape body h.1.2.2,
        methodOutlines_shape methods h.2, lexemes_unplaced]
      rfl

end

/-- Two statements as sources have them have one text exactly if they have one shape. -/
theorem Stmt.render_eq_iff_shape {s s' : Stmt} (h : s.Written) (h' : s'.Written) :
    s.render = s'.render ↔ s.shape = s'.shape := by
  have houtline := s.outline_render h
  have houtline' := s'.outline_render h'
  constructor
  · intro hrender
    have hchars : s.outline.chars = s'.outline.chars := by
      rw [← houtline.chars, ← houtline'.chars, hrender]
    rw [← s.stmt_outline h, ← s'.stmt_outline h', chars_injective houtline.proper houtline'.proper hchars]
  · intro hshape
    refine String.toList_inj.mp ?_
    rw [houtline.chars, houtline'.chars, ← s.outline_shape h, ← s'.outline_shape h', hshape]

/-! ## Statements within programs -/

/-- The statements that stand directly in a statement; the methods of a class are functions. -/
def Stmt.parts : Stmt → List Stmt
  | .block body => body
  | .cond _ yes none => [yes]
  | .cond _ yes (some no) => [yes, no]
  | .loop _ body => [body]
  | .function decl => decl.body
  | .classDecl _ _ methods => methods.map .function
  | _ => []

/-- The statement is one of the program or stands within one, however deep. -/
inductive Occurs (program : List Stmt) : Stmt → Prop where
  | outermost : s ∈ program → Occurs program s
  | within : Occurs program s → part ∈ s.parts → Occurs program part

theorem bodyWritten_mem {body : List Stmt} (h : bodyWritten body) {s : Stmt} (hs : s ∈ body) :
    s.Written := by
  induction body with
  | nil => cases hs
  | cons first body ih =>
      rcases List.mem_cons.mp hs with rfl | hs
      · exact h.1
      · exact ih h.2 hs

theorem methodsWritten_mem {methods : List FunDecl} (h : methodsWritten methods) {method : FunDecl}
    (hmethod : method ∈ methods) : method.Written := by
  induction methods with
  | nil => cases hmethod
  | cons first methods ih =>
      rcases List.mem_cons.mp hmethod with rfl | hmethod
      · exact h.1
      · exact ih h.2 hmethod

theorem Stmt.Written.parts {s part : Stmt} (h : s.Written) (hpart : part ∈ s.parts) : part.Written := by
  cases s with
  | block body => exact bodyWritten_mem h hpart
  | cond condition yes no =>
      cases no with
      | none =>
          obtain rfl := List.mem_singleton.mp hpart
          exact h.2
      | some no =>
          rcases List.mem_pair.mp hpart with rfl | rfl
          · exact h.2.1
          · exact h.2.2
  | loop condition body =>
      obtain rfl := List.mem_singleton.mp hpart
      exact h.2
  | function decl =>
      cases decl
      exact bodyWritten_mem h.2.2 hpart
  | classDecl name superclass methods =>
      obtain ⟨method, hmethod, rfl⟩ := List.mem_map.mp hpart
      cases superclass with
      | none => exact methodsWritten_mem h.2 hmethod
      | some superclass => exact methodsWritten_mem h.2.2 hmethod
  | _ => cases hpart

theorem Occurs.written {program : List Stmt} (h : bodyWritten program) {s : Stmt}
    (hs : Occurs program s) : s.Written := by
  induction hs with
  | outermost hmem => exact bodyWritten_mem h hmem
  | within _ hpart ih => exact ih.parts hpart

/-! ## Nothing is missing -/

mutual

theorem Expr.complete_of_written : ∀ e : Expr, e.Written → e.isComplete = true
  | .literal _ _, _ => rfl
  | .grouping _ inner, h => inner.complete_of_written h
  | .unary _ _ right, h => right.complete_of_written h.2
  | .binary _ left _ right, h =>
      Bool.and_eq_true_iff.mpr ⟨left.complete_of_written h.1, right.complete_of_written h.2.2⟩
  | .logical _ left _ right, h =>
      Bool.and_eq_true_iff.mpr ⟨left.complete_of_written h.1, right.complete_of_written h.2.2⟩
  | .read _ _, _ => rfl
  | .assign _ _ value, h => value.complete_of_written h.2
  | .call _ callee _ arguments, h =>
      Bool.and_eq_true_iff.mpr ⟨callee.complete_of_written h.1, argumentsComplete_of_written arguments h.2.2⟩
  | .get _ object _, h => object.complete_of_written h.1
  | .set _ object _ value, h =>
      Bool.and_eq_true_iff.mpr ⟨object.complete_of_written h.1, value.complete_of_written h.2.2⟩
  | .self _ _, _ => rfl
  | .super _ _ _, _ => rfl
  | .missing, h => h.elim
  | .misplaced _, h => h.elim

theorem argumentsComplete_of_written : ∀ arguments : List Expr, argumentsWritten arguments →
    argumentsComplete arguments = true
  | [], _ => rfl
  | argument :: arguments, h =>
      Bool.and_eq_true_iff.mpr ⟨argument.complete_of_written h.1, argumentsComplete_of_written arguments h.2⟩

end

mutual

theorem Stmt.complete_of_written : ∀ s : Stmt, s.Written → s.isComplete = true
  | .expression value, h => value.complete_of_written h
  | .print value, h => value.complete_of_written h
  | .var _ none, _ => rfl
  | .var _ (some value), h => value.complete_of_written h.2
  | .block body, h => bodyComplete_of_written body h
  | .cond condition yes none, h =>
      Bool.and_eq_true_iff.mpr ⟨condition.complete_of_written h.1, yes.complete_of_written h.2⟩
  | .cond condition yes (some no), h => by
      rw [Stmt.isComplete, condition.complete_of_written h.1, yes.complete_of_written h.2.1,
        no.complete_of_written h.2.2]
      rfl
  | .loop condition body, h =>
      Bool.and_eq_true_iff.mpr ⟨condition.complete_of_written h.1, body.complete_of_written h.2⟩
  | .function (.mk _ _ body), h => bodyComplete_of_written body h.2.2
  | .ret _ none, _ => rfl
  | .ret _ (some value), h => value.complete_of_written h.2
  | .classDecl _ none methods, h => methodsComplete_of_written methods h.2
  | .classDecl _ (some (_, _)) methods, h => methodsComplete_of_written methods h.2.2
  | .missing, h => h.elim
  | .misplaced _, h => h.elim

theorem bodyComplete_of_written : ∀ body : List Stmt, bodyWritten body → bodyComplete body = true
  | [], _ => rfl
  | stmt :: body, h =>
      Bool.and_eq_true_iff.mpr ⟨stmt.complete_of_written h.1, bodyComplete_of_written body h.2⟩

theorem methodsComplete_of_written : ∀ methods : List FunDecl, methodsWritten methods →
    methodsComplete methods = true
  | [], _ => rfl
  | .mk _ _ body :: methods, h =>
      Bool.and_eq_true_iff.mpr ⟨bodyComplete_of_written body h.1.2.2, methodsComplete_of_written methods h.2⟩

end

theorem Stmt.print_of_written {s : Stmt} (h : s.Written) : printProgram [s] = .ok [s.render] :=
  if_pos (Bool.and_eq_true_iff.mpr ⟨s.complete_of_written h, rfl⟩)

/--
Every statement that occurs in a program that is read from a source without a problem has a text, and
two of them have the same text exactly if they have the same shape.
-/
theorem printProgram_eq_iff_shape {source source' : String} {i i' : NodeId} {s s' : Stmt}
    (h : ((Scan.ofSource source).readProgram i).problems = [])
    (h' : ((Scan.ofSource source').readProgram i').problems = [])
    (hs : Occurs ((Scan.ofSource source).readProgram i).tree s)
    (hs' : Occurs ((Scan.ofSource source').readProgram i').tree s') :
    ∃ text text', printProgram [s] = .ok [text] ∧ printProgram [s'] = .ok [text'] ∧
      (text = text' ↔ s.shape = s'.shape) := by
  have hwritten := hs.written (readProgram_written h)
  have hwritten' := hs'.written (readProgram_written h')
  exact ⟨_, _, Stmt.print_of_written hwritten, Stmt.print_of_written hwritten', Stmt.render_eq_iff_shape hwritten hwritten'⟩

/-- A statement and another one of the same shape, in a block and on another line. -/
theorem printProgram_eq_iff_shape_negation :
    let s : Stmt := .print (.unary 1 ⟨.minus, "-", .nil, 1⟩ (.read 0 ⟨.name, "a", .nil, 1⟩))
    let s' : Stmt := .print (.unary 8 ⟨.minus, "-", .nil, 2⟩ (.read 7 ⟨.name, "a", .nil, 2⟩))
    ((Scan.ofSource "print -a;").readProgram 0).problems = [] ∧
      ((Scan.ofSource "\x7b\nprint - a; \x7d").readProgram 7).problems = [] ∧
      s.shape = s'.shape ∧
      ∃ text text', printProgram [s] = .ok [text] ∧ printProgram [s'] = .ok [text'] ∧
        (text = text' ↔ s.shape = s'.shape) := by
  intro s s'
  have h : ((Scan.ofSource "print -a;").readProgram 0).problems = [] := by rfl
  have h' : ((Scan.ofSource "\x7b\nprint - a; \x7d").readProgram 7).problems = [] := by rfl
  have hs : Occurs ((Scan.ofSource "print -a;").readProgram 0).tree s :=
    .outermost (List.mem_singleton.mpr rfl)
  have hs' : Occurs ((Scan.ofSource "\x7b\nprint - a; \x7d").readProgram 7).tree s' :=
    .within (.outermost (List.mem_singleton.mpr rfl)) (List.mem_singleton.mpr rfl)
  exact ⟨h, h', rfl, printProgram_eq_iff_shape h h' hs hs'⟩

end Lox
