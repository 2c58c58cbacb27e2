import Lox.Number
import Lox.Text.Quoted

/-!
The words of a Lox source: their kinds, the values that literals stand for, and where they stand.
-/

namespace Lox

/-- A value that the source can spell out. -/
inductive Literal where
  | nil
  | bool (value : Bool)
  | number (value : Float)
  | string (value : String)
  deriving DecidableEq

namespace Token

inductive Kind where
  | leftParen | rightParen | leftBrace | rightBrace
  | comma | dot | minus | plus | semicolon | slash | star
  | bang | bangEqual | equal | equalEqual
  | greater | greaterEqual | less | lessEqual
  | name | string | number
  | kwAnd | kwClass | kwElse | kwFalse | kwFun | kwFor | kwIf | kwNil | kwOr
  | kwPrint | kwReturn | kwSuper | kwThis | kwTrue | kwVar | kwWhile
  | ending
  deriving DecidableEq, Repr

/-- The words that are not names. -/
def keywords : List (String × Kind) :=
  [("and", .kwAnd), ("class", .kwClass), ("else", .kwElse), ("false", .kwFalse),
   ("for", .kwFor), ("fun", .kwFun), ("if", .kwIf), ("nil", .kwNil), ("or", .kwOr),
   ("print", .kwPrint), ("return", .kwReturn), ("super", .kwSuper), ("this", .kwThis),
   ("true", .kwTrue), ("var", .kwVar), ("while", .kwWhile)]

/-- The kind of a word of letters and digits. -/
def Kind.ofWord (word : String) : Kind :=
  (keywords.lookup word).getD .name

/-- The label of a kind in token listings. -/
def Kind.label : Kind → String
  | .leftParen => "LPAREN"
  | .rightParen => "RPAREN"
  | .leftBrace => "LBRACE"
  | .rightBrace => "RBRACE"
  | .comma => "COMMA"
  | .dot => "DOT"
  | .minus => "MINUS"
  | .plus => "PLUS"
  | .semicolon => "SEMICOLON"
  | .slash => "SLASH"
  | .star => "STAR"
  | .bang => "BANG"
  | .bangEqual => "NEQ"
  | .equal => "ASSIGN"
  | .equalEqual => "EQ"
  | .greater => "GT"
  | .greaterEqual => "GE"
  | .less => "LT"
  | .lessEqual => "LE"
  | .name => "NAME"
  | .string => "STRING"
  | .number => "NUMBER"
  | .kwAnd => "AND"
  | .kwClass => "CLASS"
  | .kwElse => "ELSE"
  | .kwFalse => "FALSE"
  | .kwFun => "FUN"
  | .kwFor => "FOR"
  | .kwIf => "IF"
  | .kwNil => "NIL"
  | .kwOr => "OR"
  | .kwPrint => "PRINT"
  | .kwReturn => "RETURN"
  | .kwSuper => "SUPER"
  | .kwThis => "THIS"
  | .kwTrue => "TRUE"
  | .kwVar => "VAR"
  | .kwWhile => "WHILE"
  | .ending => "EOF"

def Kind.all : List Kind :=
  [.leftParen, .rightParen, .leftBrace, .rightBrace, .comma, .dot, .minus, .plus, .semicolon,
   .slash, .star, .bang, .bangEqual, .equal, .equalEqual, .greater, .greaterEqual, .less,
   .lessEqual, .name, .string, .number, .kwAnd, .kwClass, .kwElse, .kwFalse, .kwFun, .kwFor,
   .kwIf, .kwNil, .kwOr, .kwPrint, .kwReturn, .kwSuper, .kwThis, .kwTrue, .kwVar, .kwWhile,
   .ending]

def Kind.ofLabel? (label : String) : Option Kind :=
  Kind.all.find? fun kind => kind.label == label

end Token

/--
A token without a value of its own has the literal `nil`.  The lines of a source are counted from
one; a token that is in no source may name any line.
-/
structure Token where
  kind : Token.Kind
  lexeme : String
  literal : Literal
  line : Int
  deriving DecidableEq

namespace Token

/-- The token that closes every source. -/
def atEnd (line : Int) : Token :=
  ⟨.ending, "", .nil, line⟩

/-- How a message refers to the place of a token. -/
def place (t : Token) : String :=
  if t.kind = .ending then " at end" else s!" at '{t.lexeme}'"

/-- A literal in a token listing. -/
def literalListing : Literal → String
  | .nil => "None"
  | .bool b => if b then "True" else "False"
  | .number x => Number.literalText x
  | .string s => Text.quoted s

/-- The entry of a token in a token listing. -/
def listing (t : Token) : String :=
  s!"Token(TK.{t.kind.label}, {Text.quoted t.lexeme}, {literalListing t.literal}, line={t.line})"

end Token

end Lox
