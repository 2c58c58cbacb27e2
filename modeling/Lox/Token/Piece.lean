import Lox.Token

/-!
The division of a source text into pieces.

Every character belongs to exactly one piece: a blank, a comment, a token, a character that starts
no token, or a string that is never closed.  Each piece is the longest of its kind at its place.
-/

namespace Lox

inductive Piece where
  | blank (c : Char)
  /-- From two slashes up to the end of the line, which is not part of it. -/
  | comment (text : List Char)
  | token (kind : Token.Kind) (lexeme : List Char)
  /-- A character that starts no token. -/
  | stray (c : Char)
  /-- From a double quote, after which there is no other, to the end of the source. -/
  | unclosed (text : List Char)
  deriving DecidableEq, Repr

namespace Piece

def text : Piece → List Char
  | .blank c => [c]
  | .comment cs => cs
  | .token _ cs => cs
  | .stray c => [c]
  | .unclosed cs => cs

def isBlank (c : Char) : Bool :=
  c == ' ' || c == '\t' || c == '\r' || c == '\n'

def isLetter (c : Char) : Bool :=
  decide ('a' ≤ c ∧ c ≤ 'z') || decide ('A' ≤ c ∧ c ≤ 'Z') || c == '_'

def isWordChar (c : Char) : Bool :=
  isLetter c || Decimal.isDigit c

/-- The tokens of one character that no second character can extend. -/
def single? : Char → Option Token.Kind
  | '(' => some .leftParen
  | ')' => some .rightParen
  | '\x7b' => some .leftBrace
  | '\x7d' => some .rightBrace
  | ',' => some .comma
  | '.' => some .dot
  | '-' => some .minus
  | '+' => some .plus
  | ';' => some .semicolon
  | '*' => some .star
  | _ => none

/-- The tokens that an equals sign extends: the kind with it and the kind without it. -/
def extensible? : Char → Option (Token.Kind × Token.Kind)
  | '!' => some (.bangEqual, .bang)
  | '=' => some (.equalEqual, .equal)
  | '<' => some (.lessEqual, .less)
  | '>' => some (.greaterEqual, .greater)
  | _ => none

/-- A string that starts with a double quote just before `cs`. -/
def string (cs : List Char) : Piece × List Char :=
  match cs.dropWhile (· != '"') with
  | [] => (.unclosed ('"' :: cs), [])
  | quote :: rest => (.token .string ('"' :: cs.takeWhile (· != '"') ++ [quote]), rest)

/-- The fraction at the front of a text: a point with at least one digit after it. -/
def fraction : List Char → List Char × List Char
  | '.' :: d :: cs =>
    if Decimal.isDigit d then
      ('.' :: d :: cs.takeWhile Decimal.isDigit, cs.dropWhile Decimal.isDigit)
    else ([], '.' :: d :: cs)
  | cs => ([], cs)

/-- A number at the front of a text; a point without a digit after it is not part of it. -/
def number (cs : List Char) : Piece × List Char :=
  let (decimals, rest) := fraction (cs.dropWhile Decimal.isDigit)
  (.token .number (cs.takeWhile Decimal.isDigit ++ decimals), rest)

/-- A name or keyword at the front of a text. -/
def word (cs : List Char) : Piece × List Char :=
  let letters := cs.takeWhile isWordChar
  (.token (Token.Kind.ofWord (String.ofList letters)) letters, cs.dropWhile isWordChar)

/-- A slash before `cs`, or the comment that it opens. -/
def slash (cs : List Char) : Piece × List Char :=
  match cs with
  | '/' :: _ => (.comment ('/' :: cs.takeWhile (· != '\n')), cs.dropWhile (· != '\n'))
  | _ => (.token .slash ['/'], cs)

/-- The operator or the stray character `c` before `cs`. -/
def symbol (c : Char) (cs : List Char) : Piece × List Char :=
  match single? c, extensible? c, cs with
  | some kind, _, _ => (.token kind [c], cs)
  | none, some (extended, _), '=' :: rest => (.token extended [c, '='], rest)
  | none, some (_, alone), _ => (.token alone [c], cs)
  | none, none, _ => (.stray c, cs)

/-- The first piece of the text `c :: cs` and the text after it. -/
def first (c : Char) (cs : List Char) : Piece × List Char :=
  if isBlank c then (.blank c, cs)
  else if c = '"' then string cs
  else if Decimal.isDigit c then number (c :: cs)
  else if isLetter c then word (c :: cs)
  else if c = '/' then slash cs
  else symbol c cs

/-- The first `n` pieces of a text. -/
def takePieces : Nat → List Char → List Piece
  | 0, _ => []
  | _ + 1, [] => []
  | n + 1, c :: cs =>
    let (piece, rest) := first c cs
    piece :: takePieces n rest

/-- All pieces of a text.  It has no more of them than characters. -/
def split (source : List Char) : List Piece :=
  takePieces source.length source

end Piece

end Lox
