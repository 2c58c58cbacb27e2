/-!
Texts as lines.

A source file must be UTF-8, and every way to end a line becomes a line feed in it.
-/

namespace Lox.Text

/-- A text in which carriage returns, alone or before a line feed, have become line feeds. -/
def unifyLineEnds : List Char → List Char
  | [] => []
  | '\r' :: '\n' :: rest => '\n' :: unifyLineEnds rest
  | c :: rest => (if c = '\r' then '\n' else c) :: unifyLineEnds rest

/-- The text of a file, unless its bytes are not UTF-8. -/
def ofFile? (bytes : ByteArray) : Option String :=
  (String.fromUTF8? bytes).map fun text => String.ofList (unifyLineEnds text.toList)

/-- Lines one below the other, each with its end. -/
def unlines (lines : List String) : String :=
  String.join (lines.map (· ++ "\n"))

/-- The last line of a text, without the line ends that close the text. -/
def lastLine (text : String) : String :=
  let backwards := text.toList.reverse.dropWhile (· == '\n')
  String.ofList (backwards.takeWhile (· != '\n')).reverse

end Lox.Text
