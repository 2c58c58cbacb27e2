import Lox.Diagnostic
import Lox.Token.Piece

/-!
Tokens with their lines, and the problems found on the way to them.
-/

namespace Lox

/-- The tokens of a source.  The closing one, which is always there, is kept apart. -/
structure Scan where
  tokens : List Token
  ending : Token
  problems : List Diagnostic

namespace Scan

def lineBreaks (text : List Char) : Nat :=
  text.count '\n'

/-- The value that a token stands for. -/
def literal (kind : Token.Kind) (lexeme : List Char) : Literal :=
  match kind with
  | .string => .string (String.ofList (lexeme.drop 1).dropLast)
  | .number => .number (Decimal.readPositional lexeme)
  | _ => .nil

def token (line : Int) (kind : Token.Kind) (lexeme : List Char) : Token :=
  ⟨kind, String.ofList lexeme, literal kind lexeme, line⟩

/-- The tokens and problems among pieces, the first of which starts on the given line. -/
def ofPieces (line : Int) : List Piece → Scan
  | [] => ⟨[], .atEnd line, []⟩
  | piece :: pieces =>
    let later := ofPieces (line + lineBreaks piece.text) pieces
    match piece with
    | .blank _ => later
    | .comment _ => later
    | .token kind lexeme => { later with tokens := token line kind lexeme :: later.tokens }
    | .stray _ => { later with problems := ⟨line, "", .strayCharacter⟩ :: later.problems }
    | .unclosed _ => { later with problems := ⟨line, "", .unclosedString⟩ :: later.problems }

def ofSource (source : String) : Scan :=
  ofPieces 1 (Piece.split source.toList)

/-- The tokens with the closing one. -/
def all (s : Scan) : List Token :=
  s.tokens ++ [s.ending]

end Scan

end Lox
