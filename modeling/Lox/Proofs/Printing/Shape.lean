import Lox.Proofs.Decimal.Literal
import Lox.Proofs.Naming.Declaration
import Lox.Proofs.Printing.Outline
import Lox.Proofs.Printing.Written
import Lox.Syntax.Printer

/-!
# The shape of a tree and the outline of its text

The shape of a tree is the tree without lines and numbers of references; a number that is infinite has
the shape of a variable of the name `inf`.  The outline says how the text of a tree falls into words
and lists.
-/

namespace Lox

/-! ## Tokens without lines -/

namespace Token

def unplaced (t : Token) : Token :=
  { t with line := 0 }

/-- The texts of signs and keywords. -/
def spellings : List (String × Kind) :=
  keywords ++ signs.map fun entry => (String.ofList entry.1, entry.2)

/-- The one text that a sign or keyword has. -/
def Kind.spelling (kind : Kind) : String :=
  ((spellings.find? fun entry => entry.2 == kind).map Prod.fst).getD ""

def fixed (kind : Kind) : Token :=
  ⟨kind, kind.spelling, .nil, 0⟩

def named (text : String) : Token :=
  ⟨.name, text, .nil, 0⟩

variable {t : Token} {kinds : List Kind}

theorem ofWord_of_notMem {word : String} (h : ∀ kind, (word, kind) ∉ keywords) :
    Kind.ofWord word = .name := by
  have hlookup : keywords.lookup word = none := by
    rw [List.lookup_eq_none_iff]
    rintro ⟨text, kind⟩ hmem
    refine bne_iff_ne.mpr ?_
    rintro rfl
    exact h kind hmem
  rw [Kind.ofWord, hlookup]
  rfl

theorem Written.isName (h : t.Written [.name]) : IsName t.lexeme ∧ t.unplaced = named t.lexeme := by
  obtain ⟨hkind, hlexeme⟩ := h
  obtain ⟨kind, lexeme, literal, line⟩ := t
  obtain rfl : kind = .name := by simpa using hkind
  generalize htext : lexeme.toList = text at hlexeme
  cases hlexeme with
  | keyword _ hmem =>
      have hall : ∀ entry ∈ keywords, entry.2 ≠ .name := by decide
      exact absurd rfl (hall _ hmem)
  | name hword hfree =>
      subst htext
      rw [String.ofList_toList] at hfree
      exact ⟨⟨hword, ofWord_of_notMem hfree⟩, rfl⟩
  | sign hmem =>
      have hall : ∀ entry ∈ signs, entry.2 ≠ .name := by decide
      exact absurd rfl (hall _ hmem)

theorem Written.fixed (h : t.Written kinds)
    (hkinds : ∀ kind ∈ kinds, kind ≠ .number ∧ kind ≠ .string ∧ kind ≠ .name) :
    t.lexeme = t.kind.spelling ∧ t.unplaced = fixed t.kind := by
  obtain ⟨hkind, hlexeme⟩ := h
  obtain ⟨hnumber, hstring, hname⟩ := hkinds _ hkind
  obtain ⟨kind, lexeme, literal, line⟩ := t
  have hspelled : (String.ofList lexeme.toList, kind) ∈ spellings → literal = .nil →
      lexeme = kind.spelling ∧ unplaced ⟨kind, lexeme, literal, line⟩ = Token.fixed kind := by
    have hall : ∀ entry ∈ spellings, entry.2.spelling = entry.1 := by decide
    rintro hmem rfl
    rw [String.ofList_toList] at hmem
    obtain rfl : kind.spelling = lexeme := hall _ hmem
    exact ⟨rfl, rfl⟩
  generalize htext : lexeme.toList = text at hlexeme hspelled
  cases hlexeme with
  | number _ => exact absurd rfl hnumber
  | keyword _ hmem => exact hspelled (List.mem_append_left _ hmem) rfl
  | name _ _ => exact absurd rfl hname
  | string _ => exact absurd rfl hstring
  | sign hmem => exact hspelled (List.mem_append_right _ (List.mem_map_of_mem hmem)) rfl

end Token

/-! ## Shapes -/

/-- The shape of a literal, which is a variable if the number is infinite. -/
def Literal.shape : Literal → Expr
  | .number x =>
      if Decimal.word x = Decimal.infinityWord then .read 0 (.named "inf") else .literal 0 (.number x)
  | value => .literal 0 value

mutual

def Expr.shape : Expr → Expr
  | .literal _ value => value.shape
  | .grouping _ inner => .grouping 0 inner.shape
  | .unary _ op right => .unary 0 op.unplaced right.shape
  | .binary _ left op right => .binary 0 left.shape op.unplaced right.shape
  | .logical _ left op right => .logical 0 left.shape op.unplaced right.shape
  | .read _ name => .read 0 name.unplaced
  | .assign _ name value => .assign 0 name.unplaced value.shape
  | .call _ callee paren arguments =>
      .call 0 callee.shape paren.unplaced (argumentShapes arguments)
  | .get _ object name => .get 0 object.shape name.unplaced
  | .set _ object name value => .set 0 object.shape name.unplaced value.shape
  | .self _ keyword => .self 0 keyword.unplaced
  | .super _ keyword method => .super 0 keyword.unplaced method.unplaced
  | .missing => .missing
  | .misplaced stmt => .misplaced stmt.shape

def argumentShapes : List Expr → List Expr
  | [] => []
  | argument :: arguments => argument.shape :: argumentShapes arguments

def Stmt.shape : Stmt → Stmt
  | .expression value => .expression value.shape
  | .print value => .print value.shape
  | .var name none => .var name.unplaced none
  | .var name (some value) => .var name.unplaced (some value.shape)
  | .block body => .block (bodyShapes body)
  | .cond condition yes none => .cond condition.shape yes.shape none
  | .cond condition yes (some no) => .cond condition.shape yes.shape (some no.shape)
  | .loop condition body => .loop condition.shape body.shape
  | .function decl => .function decl.shape
  | .ret keyword none => .ret keyword.unplaced none
  | .ret keyword (some value) => .ret keyword.unplaced (some value.shape)
  | .classDecl name none methods => .classDecl name.unplaced none (methodShapes methods)
  | .classDecl name (some (_, superclass)) methods =>
      .classDecl name.unplaced (some (0, superclass.unplaced)) (methodShapes methods)
  | .missing => .missing
  | .misplaced expr => .misplaced expr.shape

def bodyShapes : List Stmt → List Stmt
  | [] => []
  | stmt :: body => stmt.shape :: bodyShapes body

def FunDecl.shape : FunDecl → FunDecl
  | .mk name params body => .mk name.unplaced (params.map Token.unplaced) (bodyShapes body)

def methodShapes : List FunDecl → List FunDecl
  | [] => []
  | method :: methods => method.shape :: methodShapes methods

end

/-! ## Outlines of trees -/

mutual

def Expr.outline : Expr → Outline
  | .literal _ value => .word value.render
  | .grouping _ inner => .list [.word "group", inner.outline]
  | .unary _ op right => .list [.word op.lexeme, right.outline]
  | .binary _ left op right => .list [.word op.lexeme, left.outline, right.outline]
  | .logical _ left op right => .list [.word op.lexeme, left.outline, right.outline]
  | .read _ name => .word name.lexeme
  | .assign _ name value => .list [.word "=", .word name.lexeme, value.outline]
  | .call _ callee _ arguments => .list (.word "call" :: callee.outline :: argumentOutlines arguments)
  | .get _ object name => .list [.word ".", object.outline, .word name.lexeme]
  | .set _ object name value => .list [.word "=", object.outline, .word name.lexeme, value.outline]
  | .self _ _ => .word "this"
  | .super _ _ method => .list [.word "super", .word method.lexeme]
  | .missing => .word ""
  | .misplaced stmt => stmt.outline

def argumentOutlines : List Expr → List Outline
  | [] => []
  | argument :: arguments => argument.outline :: argumentOutlines arguments

def Stmt.outline : Stmt → Outline
  | .expression value => .list [.word ";", value.outline]
  | .print value => .list [.word "print", value.outline]
  | .var name none => .list [.word "var", .word name.lexeme]
  | .var name (some value) => .list [.word "var", .word name.lexeme, .word "=", value.outline]
  | .block body => .list (.word "block" :: bodyOutlines body)
  | .cond condition yes none => .list [.word "if", condition.outline, yes.outline]
  | .cond condition yes (some no) =>
      .list [.word "if-else", condition.outline, yes.outline, no.outline]
  | .loop condition body => .list [.word "while", condition.outline, body.outline]
  | .function decl => decl.outline
  | .ret _ none => .list [.word "return"]
  | .ret _ (some value) => .list [.word "return", value.outline]
  | .classDecl name none methods =>
      .list (.word "class" :: .word name.lexeme :: methodOutlines methods)
  | .classDecl name (some (_, superclass)) methods =>
      .list (.word "class" :: .word name.lexeme :: .word "<" :: .word superclass.lexeme ::
        methodOutlines methods)
  | .missing => .word ""
  | .misplaced expr => expr.outline

def bodyOutlines : List Stmt → List Outline
  | [] => []
  | stmt :: body => stmt.outline :: bodyOutlines body

def FunDecl.outline : FunDecl → Outline
  | .mk name params body =>
      .list (.word "fun" :: .applied name.lexeme (params.map Token.lexeme) :: bodyOutlines body)

def methodOutlines : List FunDecl → List Outline
  | [] => []
  | method :: methods => method.outline :: methodOutlines methods

end

/-! ## Words -/

namespace Outline

theorem isPlain_of_class {p : Char → Bool} (hp : ([' ', '(', ')', '"'].all fun c => !p c) = true)
    {c : Char} (h : p c = true) : isPlain c = true := by
  by_contra hplain
  have hmem : c ∈ [' ', '(', ')', '"'] := by
    simp only [isPlain, Bool.and_eq_true, bne_iff_ne, ne_eq] at hplain
    simp only [List.mem_cons, List.not_mem_nil, or_false]
    tauto
  have hnot := List.all_eq_true.mp hp c hmem
  rw [h] at hnot
  cases hnot

theorem plain_name {name : String} (h : IsName name) : Plain name := by
  obtain ⟨hword, -⟩ := h
  generalize htext : name.toList = text at hword
  cases hword with
  | @mk c more hc hmore =>
      refine ⟨?_, fun d hd => isPlain_of_class (p := Piece.isWordChar) (by decide) ?_⟩
      · rintro rfl
        cases htext
      · rw [htext] at hd
        rcases List.mem_cons.mp hd with rfl | hd
        · exact isWordChar_of_isLetter hc
        · exact hmore d hd

instance (text : String) : Decidable (Plain text) :=
  decidable_of_iff (text ≠ "" ∧ text.toList.all isPlain = true) (and_congr_right' List.all_eq_true)

end Outline

open Outline

theorem Token.Written.plain {t : Token} (h : t.Written [.name]) : Outline.Plain t.lexeme :=
  plain_name h.isName.1

theorem Token.Written.plain_sign {t : Token} {kinds : List Token.Kind} (h : t.Written kinds)
    (hkinds : ∀ kind ∈ kinds, (kind ≠ .number ∧ kind ≠ .string ∧ kind ≠ .name) ∧ Outline.Plain kind.spelling) :
    Outline.Plain t.lexeme := by
  rw [(h.fixed fun kind hkind => (hkinds kind hkind).1).1]
  exact (hkinds _ h.kind).2

theorem Literal.Written.proper {value : Literal} (h : value.Written) :
    (Outline.word value.render).Proper := by
  cases value with
  | nil => exact .inl (by decide)
  | bool b => exact .inl (by cases b <;> decide)
  | number x =>
      obtain ⟨text, rfl⟩ := h
      rcases Number.literalText_readPositional text with ⟨word, -, hdescribes, -⟩ | ⟨hinfinite, -⟩
      · refine .inl ⟨fun hempty => ?_, fun c hc =>
          isPlain_of_class (by decide) (hdescribes.chars c hc)⟩
        obtain ⟨c, cs, htext, -⟩ := hdescribes.head
        have hempty : Number.literalText (Decimal.readPositional text) = "" := hempty
        rw [hempty] at htext
        cases htext
      · rw [Literal.render, hinfinite]
        exact .inl (by decide)
  | string s =>
      refine .inr ⟨s.toList, h, ?_⟩
      show ("\"" ++ s ++ "\"").toList = _
      rw [String.toList_append, String.toList_append]
      rfl

/-! ## Texts and outlines -/

namespace Outline

/-- The outline is proper and has this text. -/
structure Of (outline : Outline) (text : String) : Prop where
  proper : outline.Proper
  chars : text.toList = outline.chars

variable {heads outlines : List Outline} {head : String} {texts : List String}

theorem of_word {text : String} (h : (word text).Proper) : Of (.word text) text :=
  ⟨h, rfl⟩

theorem allProper_of (h : List.Forall₂ Of outlines texts) : AllProper outlines := by
  induction h with
  | nil => trivial
  | cons hfirst _ ih => exact ⟨hfirst.proper, ih⟩

theorem charsAll_of (h : List.Forall₂ Of outlines texts) :
    charsAll outlines = texts.map String.toList := by
  induction h with
  | nil => rfl
  | cons hfirst _ ih => rw [charsAll, List.map_cons, hfirst.chars, ih]

theorem toList_intercalate_space (texts : List String) :
    (" ".intercalate texts).toList = spaced (texts.map String.toList) := by
  rw [String.toList_intercalate]
  rfl

theorem intercalate_ne_empty (h : List.Forall₂ Of outlines texts) (hne : texts ≠ []) :
    " ".intercalate texts ≠ "" := by
  intro hempty
  cases h with
  | nil => exact hne rfl
  | @cons outline text outlines texts hfirst _ =>
      obtain ⟨c, cs, hchars, -⟩ := hfirst.proper.begins
      have hnil : spaced ((text :: texts).map String.toList) = [] := by
        rw [← toList_intercalate_space, hempty]
        rfl
      cases texts <;> simp [spaced, List.intercalate_cons_cons, hfirst.chars, hchars] at hnil

theorem allProper_append (hheads : AllProper heads) (h : AllProper outlines) :
    AllProper (heads ++ outlines) := by
  induction heads with
  | nil => exact h
  | cons first heads ih => exact ⟨hheads.1, ih hheads.2⟩

theorem spaced_append {front back : List (List Char)} (hfront : front ≠ []) (hback : back ≠ []) :
    spaced (front ++ back) = spaced front ++ ' ' :: spaced back := by
  induction front with
  | nil => exact absurd rfl hfront
  | cons first front ih =>
      cases front with
      | nil =>
          cases back with
          | nil => exact absurd rfl hback
          | cons second back => simp [spaced, List.intercalate_cons_cons]
      | cons second front =>
          have hinner := ih (List.cons_ne_nil _ _)
          unfold spaced at hinner ⊢
          rw [List.cons_append, List.cons_append, List.intercalate_cons_cons, ← List.cons_append, hinner,
            List.intercalate_cons_cons]
          simp

theorem of_parenthesize (heads : List Outline) (hheads : AllProper heads) (hne : heads ≠ [])
    (hhead : head.toList = spaced (charsAll heads)) (h : List.Forall₂ Of outlines texts) :
    Of (.list (heads ++ outlines)) (parenthesize head texts) := by
  refine ⟨allProper_append hheads (allProper_of h), ?_⟩
  have happend : charsAll (heads ++ outlines) = charsAll heads ++ charsAll outlines := by
    simp only [charsAll_eq_map, List.map_append]
  rw [Outline.chars, happend, charsAll_of h]
  unfold parenthesize
  dsimp only
  rcases eq_or_ne texts [] with rfl | htexts
  · rw [if_pos String.intercalate_nil, List.map_nil, List.append_nil, ← hhead]
    show ("(" ++ head ++ ")").toList = _
    simp
  · have hcons : charsAll heads ≠ [] := by
      rw [charsAll_eq_map]
      simpa using hne
    rw [if_neg (intercalate_ne_empty h htexts), spaced_append hcons (by simpa using htexts), ← hhead,
      ← toList_intercalate_space]
    show ("(" ++ head ++ " " ++ " ".intercalate texts ++ ")").toList = _
    simp

theorem of_list (hhead : Plain head) (h : List.Forall₂ Of outlines texts) :
    Of (.list (.word head :: outlines)) (parenthesize head texts) :=
  of_parenthesize [.word head] ⟨.inl hhead, trivial⟩ (List.cons_ne_nil _ _)
    (by simp [charsAll, Outline.chars, spaced]) h

theorem of_function {name : Token} {params : List Token} (hname : name.Written [.name])
    (hparams : ∀ param ∈ params, param.Written [.name]) (h : List.Forall₂ Of outlines texts) :
    Of (.list (.word "fun" :: .applied name.lexeme (params.map Token.lexeme) :: outlines))
      (parenthesize (functionHead name params) texts) := by
  have hwords : ∀ word ∈ params.map Token.lexeme, Plain word := by
    intro word hword
    obtain ⟨param, hparam, rfl⟩ := List.mem_map.mp hword
    exact (hparams param hparam).plain
  refine of_parenthesize [.word "fun", .applied name.lexeme (params.map Token.lexeme)]
    ⟨.inl (by decide), ⟨hname.plain, hwords⟩, trivial⟩ (List.cons_ne_nil _ _) ?_ h
  show ("fun " ++ name.lexeme ++ "(" ++ " ".intercalate (params.map Token.lexeme) ++ ")").toList = _
  simp [charsAll, Outline.chars, spaced, List.intercalate_cons_cons]

theorem of_class {name : Token} (hname : name.Written [.name]) (h : List.Forall₂ Of outlines texts) :
    Of (.list (.word "class" :: .word name.lexeme :: outlines))
      (parenthesize (classHead name none) texts) := by
  refine of_parenthesize [.word "class", .word name.lexeme]
    ⟨.inl (by decide), .inl hname.plain, trivial⟩ (List.cons_ne_nil _ _) ?_ h
  show ("class " ++ name.lexeme).toList = _
  simp [charsAll, Outline.chars, spaced, List.intercalate_cons_cons]

theorem of_subclass {name superclass : Token} {id : NodeId} (hname : name.Written [.name])
    (hsuperclass : superclass.Written [.name]) (h : List.Forall₂ Of outlines texts) :
    Of (.list (.word "class" :: .word name.lexeme :: .word "<" :: .word superclass.lexeme :: outlines))
      (parenthesize (classHead name (some (id, superclass))) texts) := by
  refine of_parenthesize [.word "class", .word name.lexeme, .word "<", .word superclass.lexeme]
    ⟨.inl (by decide), .inl hname.plain, .inl (by decide), .inl hsuperclass.plain, trivial⟩
    (List.cons_ne_nil _ _) ?_ h
  show ("class " ++ name.lexeme ++ " < " ++ superclass.lexeme).toList = _
  simp [charsAll, Outline.chars, spaced, List.intercalate_cons_cons]

end Outline

theorem Token.Written.of {t : Token} (h : t.Written [.name]) : Of (.word t.lexeme) t.lexeme :=
  of_word (.inl h.plain)

theorem plain_operators : ∀ kind ∈ Grammar.prefixes ++ Grammar.infixes ++ Grammar.connectives,
    (kind ≠ .number ∧ kind ≠ .string ∧ kind ≠ .name) ∧ Outline.Plain kind.spelling := by
  decide

theorem Token.Written.plain_unary {op : Token} (h : op.Written Grammar.prefixes) :
    Outline.Plain op.lexeme :=
  h.plain_sign fun kind hkind => plain_operators kind (by simp [hkind])

theorem Token.Written.plain_binary {op : Token} (h : op.Written Grammar.infixes) :
    Outline.Plain op.lexeme :=
  h.plain_sign fun kind hkind => plain_operators kind (by simp [hkind])

theorem Token.Written.plain_logical {op : Token} (h : op.Written Grammar.connectives) :
    Outline.Plain op.lexeme :=
  h.plain_sign fun kind hkind => plain_operators kind (by simp [hkind])

mutual

theorem Expr.outline_render : ∀ e : Expr, e.Written → Of e.outline e.render
  | .literal _ _, h => of_word h.proper
  | .grouping _ inner, h => of_list (by decide) (.cons (inner.outline_render h) .nil)
  | .unary _ _ right, h => of_list h.1.plain_unary (.cons (right.outline_render h.2) .nil)
  | .binary _ left _ right, h =>
      of_list h.2.1.plain_binary
        (.cons (left.outline_render h.1) (.cons (right.outline_render h.2.2) .nil))
  | .logical _ left _ right, h =>
      of_list h.2.1.plain_logical
        (.cons (left.outline_render h.1) (.cons (right.outline_render h.2.2) .nil))
  | .read _ _, h => Token.Written.of h
  | .assign _ _ value, h =>
      of_list (by decide) (.cons h.1.of (.cons (value.outline_render h.2) .nil))
  | .call _ callee _ arguments, h =>
      of_list (by decide) (.cons (callee.outline_render h.1) (outline_renderArguments arguments h.2.2))
  | .get _ object _, h => of_list (by decide) (.cons (object.outline_render h.1) (.cons h.2.of .nil))
  | .set _ object _ value, h =>
      of_list (by decide) (.cons (object.outline_render h.1)
        (.cons h.2.1.of (.cons (value.outline_render h.2.2) .nil)))
  | .self _ _, _ => of_word (.inl (by decide))
  | .super _ _ _, h => of_list (by decide) (.cons h.2.of .nil)
  | .missing, h => h.elim
  | .misplaced _, h => h.elim

theorem outline_renderArguments : ∀ arguments : List Expr, argumentsWritten arguments →
    List.Forall₂ Of (argumentOutlines arguments) (renderArguments arguments)
  | [], _ => .nil
  | argument :: arguments, h =>
      .cons (argument.outline_render h.1) (outline_renderArguments arguments h.2)

end

mutual

theorem Stmt.outline_render : ∀ s : Stmt, s.Written → Of s.outline s.render
  | .expression value, h => of_list (by decide) (.cons (value.outline_render h) .nil)
  | .print value, h => of_list (by decide) (.cons (value.outline_render h) .nil)
  | .var _ none, h => of_list (by decide) (.cons (Token.Written.of h) .nil)
  | .var _ (some value), h =>
      of_list (by decide) (.cons h.1.of
        (.cons (of_word (.inl (by decide))) (.cons (value.outline_render h.2) .nil)))
  | .block body, h => of_list (by decide) (outline_renderBody body h)
  | .cond condition yes none, h =>
      of_list (by decide) (.cons (condition.outline_render h.1) (.cons (yes.outline_render h.2) .nil))
  | .cond condition yes (some no), h =>
      of_list (by decide) (.cons (condition.outline_render h.1)
        (.cons (yes.outline_render h.2.1) (.cons (no.outline_render h.2.2) .nil)))
  | .loop condition body, h =>
      of_list (by decide) (.cons (condition.outline_render h.1) (.cons (body.outline_render h.2) .nil))
  | .function decl, h => decl.outline_render h
  | .ret _ none, _ => of_list (by decide) .nil
  | .ret _ (some value), h => of_list (by decide) (.cons (value.outline_render h.2) .nil)
  | .classDecl _ none methods, h => of_class h.1 (outline_renderMethods methods h.2)
  | .classDecl _ (some (_, _)) methods, h =>
      of_subclass h.1 h.2.1 (outline_renderMethods methods h.2.2)
  | .missing, h => h.elim
  | .misplaced _, h => h.elim

theorem outline_renderBody : ∀ body : List Stmt, bodyWritten body →
    List.Forall₂ Of (bodyOutlines body) (renderBody body)
  | [], _ => .nil
  | stmt :: body, h => .cons (stmt.outline_render h.1) (outline_renderBody body h.2)

theorem FunDecl.outline_render : ∀ decl : FunDecl, decl.Written → Of decl.outline decl.render
  | .mk _ _ body, h => of_function h.1 h.2.1 (outline_renderBody body h.2.2)

theorem outline_renderMethods : ∀ methods : List FunDecl, methodsWritten methods →
    List.Forall₂ Of (methodOutlines methods) (renderMethods methods)
  | [], _ => .nil
  | method :: methods, h =>
      .cons (method.outline_render h.1) (outline_renderMethods methods h.2)

end

end Lox
