import Highlighter.Toml.Reader

/-!
# Strings

The four forms of a string: between double quotes with escapes, or between single quotes as it
stands, each on one line or on several. Writing chooses the form that needs no escapes, if there
is one.
-/

namespace Highlighter.Toml.Quoted

/-- The value of a digit of a base up to 16. -/
def digitValue (c : Char) : Nat :=
  if c.isDigit then c.toNat - '0'.toNat else c.toLower.toNat - 'a'.toNat + 10

/-- Whether a character is a digit of base 16. -/
def isHexDigit (c : Char) : Bool :=
  c.isDigit || ('a' ≤ c && c ≤ 'f') || ('A' ≤ c && c ≤ 'F')

/-- Reads a character given by its number in base 16, with `width` digits. -/
def numbered (width : Nat) : Reader Char := do
  let digits ← Reader.exactly isHexDigit width
  let number := digits.foldl (fun value c => 16 * value + digitValue c) 0
  if number.isValidChar then return Char.ofNat number else failure

/-- The character that a letter after a backslash stands for. -/
def escaped? : Char → Option Char
  | 'b' => some '\x08'
  | 't' => some '\t'
  | 'n' => some '\n'
  | 'f' => some '\x0c'
  | 'r' => some '\r'
  | '"' => some '"'
  | '\\' => some '\\'
  | _ => none

/-- Reads an escape. -/
def escape : Reader Char := do
  Reader.char '\\'
  match ← Reader.satisfy fun _ => true with
  | 'u' => numbered 4
  | 'U' => numbered 8
  | c => match escaped? c with
    | some c => return c
    | none => failure

/-- Whether a character stands for itself between double quotes. -/
def isBasic (c : Char) : Bool :=
  isPlain c && c != '"' && c != '\\'

/-- Whether a character stands for itself between single quotes. -/
def isLiteral (c : Char) : Bool :=
  isPlain c && c != '\''

/-- Reads a string between double quotes on one line. -/
def basic : Reader String := do
  Reader.char '"'
  let body ← Reader.many (Reader.satisfy isBasic <|> escape)
  Reader.char '"'
  return String.ofList body

/-- Reads a string between single quotes on one line. -/
def literal : Reader String := do
  Reader.char '\''
  let body ← Reader.takeWhile isLiteral
  Reader.char '\''
  return String.ofList body

/-- Reads a quote that belongs to a string between three quotes: the string ends at three quotes,
where up to two more in front of them are text. -/
def innerQuote (quote : Char) : Reader Char := fun input =>
  let run := (input.takeWhile (· == quote)).length
  if run = 3 ∨ 5 < run then none else Reader.satisfy (· == quote) input

/-- Reads a backslash at the end of a line, which joins the line to the next text. -/
def lineJoin : Reader Unit := do
  Reader.char '\\'
  Reader.blanks
  Reader.lineBreak
  discard (Reader.many (discard (Reader.takeWhile1 isBlank) <|> Reader.lineBreak))

/-- Reads a line break as text. -/
def innerBreak : Reader Char := do
  Reader.lineBreak
  return '\n'

/-- Reads one piece of a string between three double quotes. -/
def basicPiece : Reader (List Char) :=
  Reader.takeWhile1 isBasic <|> (do lineJoin; return [])
    <|> (do return [← escape <|> innerBreak <|> innerQuote '"'])

/-- Reads a string between three double quotes. A line break right at the start is no text. -/
def longBasic : Reader String := do
  Reader.text ['"', '"', '"']
  discard (Reader.maybe Reader.lineBreak)
  let body ← Reader.many basicPiece
  Reader.text ['"', '"', '"']
  return String.ofList body.flatten

/-- Reads one character of a string between three single quotes. -/
def literalChar : Reader Char :=
  Reader.satisfy isLiteral <|> innerBreak <|> innerQuote '\''

/-- Reads a string between three single quotes. A line break right at the start is no text. -/
def longLiteral : Reader String := do
  Reader.text ['\'', '\'', '\'']
  discard (Reader.maybe Reader.lineBreak)
  let body ← Reader.many literalChar
  Reader.text ['\'', '\'', '\'']
  return String.ofList body

/-- Reads a string. What starts with three quotes ends with three. -/
def string : Reader String := fun input =>
  match input with
  | '"' :: '"' :: '"' :: _ => longBasic input
  | '\'' :: '\'' :: '\'' :: _ => longLiteral input
  | '"' :: _ => basic input
  | '\'' :: _ => literal input
  | _ => none

/-- A form in which a string can be written. -/
inductive Form where
  | basic
  | literal
  | longBasic
  | longLiteral
  deriving DecidableEq, Repr, Inhabited

/-- The length of the longest run of a character. -/
def longestRun (c : Char) (text : List Char) : Nat :=
  (text.foldl (fun (longest, run) d =>
    let run := if d == c then run + 1 else 0
    (max longest run, run)) (0, 0)).1

/-- Whether a character can be written only as an escape. -/
def needsEscape (c : Char) : Bool :=
  !isPlain c && c != '\n'

/-- The form in which a text is written: between double quotes, if it can stand there without
escapes, else between single quotes, else between three quotes, and with escapes if nothing else is
possible. -/
def form (text : List Char) : Form :=
  let plain := !text.any needsEscape
  let oneLine := !text.contains '\n'
  if plain && oneLine && !text.contains '\\' && !text.contains '"' then .basic
  else if plain && oneLine && !text.contains '\'' then .literal
  else if plain && !text.contains '\\' && longestRun '"' text ≤ 2 then .longBasic
  else if plain && longestRun '\'' text ≤ 2 then .longLiteral
  else if oneLine then .basic else .longBasic

/-- The number of a character in base 16, with at least four digits. -/
def hexNumber (c : Char) : List Char :=
  let digits := (Nat.toDigits 16 c.toNat).map Char.toUpper
  List.replicate (4 - digits.length) '0' ++ digits

/-- One character between double quotes. -/
def writeChar : Char → List Char
  | '\x08' => ['\\', 'b']
  | '\t' => ['\\', 't']
  | '\n' => ['\\', 'n']
  | '\x0c' => ['\\', 'f']
  | '\r' => ['\\', 'r']
  | '"' => ['\\', '"']
  | '\\' => ['\\', '\\']
  | c => if needsEscape c then '\\' :: 'u' :: hexNumber c else [c]

/-- Text between three double quotes; `quotes` double quotes stand before it. Line breaks stand as
they are, and of three quotes in a row the last is an escape. -/
def writeLong (quotes : Nat) : List Char → List Char
  | [] => []
  | '\n' :: rest => '\n' :: writeLong 0 rest
  | '"' :: rest =>
    if quotes < 2 then '"' :: writeLong (quotes + 1) rest else '\\' :: '"' :: writeLong 0 rest
  | c :: rest => writeChar c ++ writeLong 0 rest

/-- A text in a given form. A text of several lines starts on a line of its own. -/
def writeAs (form : Form) (text : List Char) : List Char :=
  let start : List Char := if text.contains '\n' then ['\n'] else []
  match form with
  | .basic => '"' :: text.flatMap writeChar ++ ['"']
  | .literal => '\'' :: text ++ ['\'']
  | .longBasic => ['"', '"', '"'] ++ start ++ writeLong 0 text ++ ['"', '"', '"']
  | .longLiteral => ['\'', '\'', '\''] ++ start ++ text ++ ['\'', '\'', '\'']

/-- A text as a string of a document. -/
def write (text : String) : String :=
  String.ofList (writeAs (form text.toList) text.toList)

end Highlighter.Toml.Quoted
