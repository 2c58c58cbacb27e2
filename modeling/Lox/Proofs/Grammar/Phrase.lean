import Lox.Syntax.Statement

/-!
# Programs as they are written

The trees of `Lox.Syntax` have no `for` loops: reading turns them into `while` loops.  A phrase is a
statement or declaration before that, with everything in the order of the source.  `Phrase.desugar`
gives the tree that a phrase stands for, and `Phrase.marks` what it keeps of the tokens that it was
written with.
-/

namespace Lox

/-- The condition of a `for` loop.  One that is left out stands for `true`, with a number of its own. -/
inductive ForCondition where
  | absent (id : NodeId)
  | given (condition : Expr)

mutual

inductive Phrase where
  | expression (value : Expr)
  | print (value : Expr)
  | var (name : Token) (initial : Option Expr)
  | block (body : List Phrase)
  | cond (condition : Expr) (yes : Phrase) (no : Option Phrase)
  | loop (condition : Expr) (body : Phrase)
  | forLoop (initial : Option Phrase) (condition : ForCondition) (increment : Option Expr)
      (body : Phrase)
  | function (decl : FunPhrase)
  | ret (keyword : Token) (value : Option Expr)
  /-- A superclass comes with the sign before it and the number of the reference to it. -/
  | classDecl (name : Token) (superclass : Option (Token × NodeId × Token))
      (methods : List FunPhrase)

inductive FunPhrase where
  | mk (name : Token) (params : List Token) (body : List Phrase)

end

/-! ## The tree of a phrase -/

/-- The statement that a `for` loop repeats: its body, with the increment behind it. -/
def forBody (body : Stmt) : Option Expr → Stmt
  | none => body
  | some increment => .block [body, .expression increment]

def ForCondition.tree : ForCondition → Expr
  | .absent id => .literal id (.bool true)
  | .given condition => condition

mutual

def Phrase.desugar : Phrase → Stmt
  | .expression value => .expression value
  | .print value => .print value
  | .var name initial => .var name initial
  | .block body => .block (desugarAll body)
  | .cond condition yes none => .cond condition yes.desugar none
  | .cond condition yes (some no) => .cond condition yes.desugar (some no.desugar)
  | .loop condition body => .loop condition body.desugar
  | .forLoop none condition increment body =>
      .loop condition.tree (forBody body.desugar increment)
  | .forLoop (some initial) condition increment body =>
      .block [initial.desugar, .loop condition.tree (forBody body.desugar increment)]
  | .function decl => .function decl.desugar
  | .ret keyword value => .ret keyword value
  | .classDecl name superclass methods =>
      .classDecl name (superclass.map Prod.snd) (desugarMethods methods)

def desugarAll : List Phrase → List Stmt
  | [] => []
  | phrase :: phrases => phrase.desugar :: desugarAll phrases

def FunPhrase.desugar : FunPhrase → FunDecl
  | .mk name params body => .mk name params (desugarAll body)

def desugarMethods : List FunPhrase → List FunDecl
  | [] => []
  | method :: methods => method.desugar :: desugarMethods methods

end

/-! ## The tokens of a phrase -/

def Token.value? (t : Token) : Option Literal :=
  match t.kind with
  | .kwFalse => some (.bool false)
  | .kwTrue => some (.bool true)
  | .kwNil => some .nil
  | .number | .string => some t.literal
  | _ => none

/-- The kinds of token that are neither name nor operator nor literal, and that say nothing beyond
their kind. -/
def Token.Kind.isSign : Token.Kind → Bool
  | .leftParen | .rightParen | .leftBrace | .rightBrace | .comma | .dot | .semicolon => true
  | .equal | .kwClass | .kwElse | .kwFor | .kwFun | .kwIf | .kwPrint | .kwVar | .kwWhile => true
  | _ => false

/-- What a tree keeps of a token: all of it, the value of a literal, or only that there was a sign
of its kind. -/
inductive Mark where
  | word (t : Token)
  | literal (value : Literal)
  | sign (kind : Token.Kind)
  deriving DecidableEq

def Mark.Of : Mark → Token → Prop
  | .word t, u => u = t
  | .literal value, u => u.value? = some value
  | .sign kind, u => u.kind = kind ∧ kind.isSign = true

/-- The tokens `ts` start with one token for each mark, in order, and go on with `rest`. -/
def Spells : List Mark → List Token → List Token → Prop
  | [], ts, rest => ts = rest
  | mark :: marks, ts, rest => ∃ t us, ts = t :: us ∧ mark.Of t ∧ Spells marks us rest

/-- Pieces of marks with a comma between each two. -/
def commaSeparated : List (List Mark) → List Mark
  | [] => []
  | [marks] => marks
  | marks :: others => marks ++ .sign .comma :: commaSeparated others

mutual

def Expr.marks : Expr → List Mark
  | .literal _ value => [.literal value]
  | .grouping _ inner => .sign .leftParen :: inner.marks ++ [.sign .rightParen]
  | .unary _ op right => .word op :: right.marks
  | .binary _ left op right => left.marks ++ .word op :: right.marks
  | .logical _ left op right => left.marks ++ .word op :: right.marks
  | .read _ name => [.word name]
  | .assign _ name value => .word name :: .sign .equal :: value.marks
  | .call _ callee paren arguments =>
      callee.marks ++ .sign .leftParen :: commaSeparated (argumentMarks arguments) ++ [.word paren]
  | .get _ object name => object.marks ++ [.sign .dot, .word name]
  | .set _ object name value =>
      object.marks ++ .sign .dot :: .word name :: .sign .equal :: value.marks
  | .self _ keyword => [.word keyword]
  | .super _ keyword method => [.word keyword, .sign .dot, .word method]
  | .missing => []
  | .misplaced _ => []

def argumentMarks : List Expr → List (List Mark)
  | [] => []
  | argument :: arguments => argument.marks :: argumentMarks arguments

end

def optionalMarks : Option Expr → List Mark
  | none => []
  | some e => e.marks

def ForCondition.marks : ForCondition → List Mark
  | .absent _ => []
  | .given condition => condition.marks

/-- The marks of a value behind an equals sign that may both be absent. -/
def initialMarks : Option Expr → List Mark
  | none => []
  | some e => .sign .equal :: e.marks

def superclassMarks : Option (Token × NodeId × Token) → List Mark
  | none => []
  | some (sign, _, name) => [.word sign, .word name]

mutual

def Phrase.marks : Phrase → List Mark
  | .expression value => value.marks ++ [.sign .semicolon]
  | .print value => .sign .kwPrint :: value.marks ++ [.sign .semicolon]
  | .var name initial =>
      .sign .kwVar :: .word name :: initialMarks initial ++ [.sign .semicolon]
  | .block body => .sign .leftBrace :: marksOfAll body ++ [.sign .rightBrace]
  | .cond condition yes none =>
      .sign .kwIf :: .sign .leftParen :: condition.marks ++ .sign .rightParen :: yes.marks
  | .cond condition yes (some no) =>
      .sign .kwIf :: .sign .leftParen :: condition.marks ++ .sign .rightParen ::
        yes.marks ++ .sign .kwElse :: no.marks
  | .loop condition body =>
      .sign .kwWhile :: .sign .leftParen :: condition.marks ++ .sign .rightParen :: body.marks
  | .forLoop none condition increment body =>
      .sign .kwFor :: .sign .leftParen :: .sign .semicolon :: condition.marks ++
        .sign .semicolon :: optionalMarks increment ++ .sign .rightParen :: body.marks
  | .forLoop (some initial) condition increment body =>
      .sign .kwFor :: .sign .leftParen :: initial.marks ++ condition.marks ++
        .sign .semicolon :: optionalMarks increment ++ .sign .rightParen :: body.marks
  | .function decl => .sign .kwFun :: decl.marks
  | .ret keyword value => .word keyword :: optionalMarks value ++ [.sign .semicolon]
  | .classDecl name superclass methods =>
      .sign .kwClass :: .word name :: superclassMarks superclass ++
        .sign .leftBrace :: marksOfMethods methods ++ [.sign .rightBrace]

def marksOfAll : List Phrase → List Mark
  | [] => []
  | phrase :: phrases => phrase.marks ++ marksOfAll phrases

def FunPhrase.marks : FunPhrase → List Mark
  | .mk name params body =>
      .word name :: .sign .leftParen :: commaSeparated (params.map fun p => [.word p]) ++
        .sign .rightParen :: .sign .leftBrace :: marksOfAll body ++ [.sign .rightBrace]

def marksOfMethods : List FunPhrase → List Mark
  | [] => []
  | method :: methods => method.marks ++ marksOfMethods methods

end

end Lox
