import Lox.Session.Limits
import Lox.Text.Integer
import Lox.Text.Quoted

/-!
The words after the name of the command.

Long options may be shortened as long as only one of them fits; a value stands in the next word or
behind an equals sign; after a double dash nothing is an option.  The first word that is no option
is the script.
-/

namespace Lox.CommandLine

/-- What the user asks for. -/
structure Options where
  script : Option String := none
  debug : Bool := false
  maxCallDepth : CallLimit := .unlimited
  printTree : Bool := false
  deriving DecidableEq, Repr

inductive Switch where
  | help
  | debug
  | maxCallDepth
  | printTree
  deriving DecidableEq, Repr

namespace Switch

/-- The spellings of the options. -/
def spellings : List (String × Switch) :=
  [("-h", .help), ("--help", .help), ("--debug", .debug), ("--max-call-depth", .maxCallDepth),
   ("--print-ast", .printTree)]

/-- How a message calls an option. -/
def title : Switch → String
  | .help => "-h/--help"
  | .debug => "--debug"
  | .maxCallDepth => "--max-call-depth"
  | .printTree => "--print-ast"

end Switch

/-- What is wrong with the words. -/
inductive UsageError where
  | ambiguous (word : String) (candidates : List String)
  | ignoredValue (switch : Switch) (value : String)
  | missingValue (switch : Switch)
  | invalidInteger (switch : Switch) (value : String)
  | unrecognized (words : List String)
  deriving DecidableEq, Repr

def UsageError.message : UsageError → String
  | .ambiguous word candidates =>
    let listed := ", ".intercalate candidates
    s!"ambiguous option: {word} could match {listed}"
  | .ignoredValue switch value =>
    s!"argument {switch.title}: ignored explicit argument {Text.quoted value}"
  | .missingValue switch => s!"argument {switch.title}: expected one argument"
  | .invalidInteger switch value =>
    s!"argument {switch.title}: invalid int value: {Text.quoted value}"
  | .unrecognized words =>
    let listed := " ".intercalate words
    s!"unrecognized arguments: {listed}"

/-- A word by its role. -/
inductive Word where
  /-- An option, with the value behind its equals sign or after its letter. -/
  | option (switch : Switch) (isLetter : Bool) (value : Option String)
  | unknown (text : String)
  | plain (text : String)
  /-- The double dash. -/
  | separator
  deriving DecidableEq, Repr

/-- A word up to its first equals sign, and what is behind that. -/
def splitValue (text : List Char) : List Char × Option (List Char) :=
  match text.dropWhile (· != '=') with
  | [] => (text, none)
  | _ :: value => (text.takeWhile (· != '='), some value)

/-- Digits of any script after a dash, with an optional point among or before them. -/
def isNegativeNumber (text : List Char) : Bool :=
  match text with
  | '-' :: digits =>
    let rest := digits.dropWhile Text.isDigit
    match rest with
    | [] => !digits.isEmpty
    | '.' :: decimals => !decimals.isEmpty && decimals.all Text.isDigit
    | _ => false
  | _ => false

/-- A text without the line end that closes it, if one does. -/
def withoutLastBreak (text : List Char) : List Char :=
  if text.getLast? = some '\n' then text.dropLast else text

/-- The options whose spelling starts as a word does, each with the value that the word gives it. -/
def candidates (text : List Char) : List (String × Word) :=
  if "--".toList.isPrefixOf text then
    let (start, value) := splitValue text
    Switch.spellings.filterMap fun (spelling, switch) =>
      if start.isPrefixOf spelling.toList then
        some (spelling, .option switch false (value.map String.ofList))
      else none
  else
    Switch.spellings.filterMap fun (spelling, switch) =>
      if spelling.toList = text.take 2 then
        some (spelling, .option switch true (some (String.ofList (text.drop 2))))
      else none

/-- The role of a word before any double dash. -/
def classify (word : String) : Except UsageError Word :=
  let text := word.toList
  let exact (spelling : List Char) : Option Switch :=
    Switch.spellings.lookup (String.ofList spelling)
  let isLetter := !"--".toList.isPrefixOf text
  match text with
  | [] => .ok (.plain word)
  | c :: rest =>
    if c ≠ '-' then .ok (.plain word)
    else
      match exact text, rest, splitValue text with
      | some switch, _, _ => .ok (.option switch isLetter none)
      | none, [], _ => .ok (.plain word)
      | none, _, (start, value) =>
        match value.bind fun value => (exact start).map fun switch => (switch, value) with
        | some (switch, value) => .ok (.option switch isLetter (some (String.ofList value)))
        | none =>
          match candidates text with
          | [(_, found)] => .ok found
          | [] =>
            if isNegativeNumber (withoutLastBreak text) || text.contains ' ' then .ok (.plain word)
            else .ok (.unknown word)
          | found => .error (.ambiguous word (found.map Prod.fst))

/-- The roles of all words. -/
def classifyAll : List String → Except UsageError (List Word)
  | [] => .ok []
  | word :: words =>
    if word = "--" then .ok (.separator :: words.map .plain)
    else do return (← classify word) :: (← classifyAll words)

/-- Help, or a command to carry out. -/
inductive Request where
  | help
  | start (options : Options)
  deriving DecidableEq, Repr

/-- Options with the limit that a value sets.  A double dash stands for no value at all. -/
def Options.withDepth (options : Options) (value : String) : Except UsageError Options :=
  if value = "--" then .ok { options with maxCallDepth := .blank }
  else
    match Text.integer? value with
    | some n => .ok { options with maxCallDepth := .atMost n }
    | none => .error (.invalidInteger .maxCallDepth value)

/-- Help, unless it comes with a value.  Behind its letter more such letters may follow. -/
def askHelp (isLetter : Bool) : Option String → Except UsageError Request
  | none => .ok .help
  | some value =>
    let letters := if isLetter then value.toList.takeWhile (· == 'h') else []
    let excess := String.ofList (value.toList.drop letters.length)
    if letters ≠ [] ∧ excess = "" then .ok .help else .error (.ignoredValue .help excess)

/--
Takes the words one after the other.  `rest` holds, in order, the words that nothing has a use for;
`afterScript` says that the word before was the script, which swallows a double dash behind it.
-/
def collect (options : Options) (rest : List String) (afterScript : Bool) :
    List Word → Except UsageError Request
  | [] => if rest.isEmpty then .ok (.start options) else .error (.unrecognized rest)
  | .option .help isLetter value :: _ => askHelp isLetter value
  | .option .debug _ (some value) :: _ => .error (.ignoredValue .debug value)
  | .option .debug _ none :: words => collect { options with debug := true } rest false words
  | .option .printTree _ (some value) :: _ => .error (.ignoredValue .printTree value)
  | .option .printTree _ none :: words =>
    collect { options with printTree := true } rest false words
  | .option .maxCallDepth _ (some value) :: words => do
    collect (← options.withDepth value) rest false words
  | .option .maxCallDepth _ none :: .plain value :: words => do
    collect (← options.withDepth value) rest false words
  | .option .maxCallDepth _ none :: _ => .error (.missingValue .maxCallDepth)
  | .unknown text :: words => collect options (rest ++ [text]) false words
  | .plain text :: words =>
    match options.script with
    | none => collect { options with script := some text } rest true words
    | some _ => collect options (rest ++ [text]) false words
  | .separator :: words =>
    if options.script.isNone || afterScript then collect options rest false words
    else collect options (rest ++ ["--"]) false words

/-- What the words after the name of the command ask for. -/
def parse (words : List String) : Except UsageError Request := do
  collect {} [] false (← classifyAll words)

end Lox.CommandLine
