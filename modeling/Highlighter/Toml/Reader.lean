/-!
# Reading

A reader takes something from the start of a text and gives it along with the rest of the text, or
fails. Two readers are tried in turn with `<|>`; a reader that fails takes nothing.
-/

namespace Highlighter.Toml

/-- Reads something at the start of a text. -/
abbrev Reader := StateT (List Char) Option

namespace Reader

variable {α : Type}

/-- Takes a given character. -/
def char (c : Char) : Reader Unit
  | d :: rest => if d = c then some ((), rest) else none
  | [] => none

/-- Takes the characters of a given text. -/
def text : List Char → Reader Unit
  | [] => pure ()
  | c :: cs => do
    char c
    text cs

/-- Takes a character with a property. -/
def satisfy (p : Char → Bool) : Reader Char
  | c :: rest => if p c then some (c, rest) else none
  | [] => none

/-- Takes characters as long as they have a property. -/
def takeWhile (p : Char → Bool) : Reader (List Char) :=
  fun input => some (input.takeWhile p, input.dropWhile p)

/-- Takes characters as long as they have a property, at least one of them. -/
def takeWhile1 (p : Char → Bool) : Reader (List Char) := do
  let first ← satisfy p
  return first :: (← takeWhile p)

/-- Takes a given number of characters, each with a property. -/
def exactly (p : Char → Bool) : Nat → Reader (List Char)
  | 0 => pure []
  | n + 1 => do
    let first ← satisfy p
    return first :: (← exactly p n)

/-- Succeeds at the end of the text only. -/
def atEnd : Reader Unit
  | [] => some ((), [])
  | _ => none

/-- Reads items while there are any, `bound` of them at most. -/
def manyUpTo (item : Reader α) : (bound : Nat) → List Char → List α × List Char
  | 0, input => ([], input)
  | bound + 1, input =>
    match item input with
    | none => ([], input)
    | some (a, rest) =>
      let (later, rest) := manyUpTo item bound rest
      (a :: later, rest)

/-- Reads items while there are any. An item takes at least one character, so there are no more of
them than characters. -/
def many (item : Reader α) : Reader (List α) :=
  fun input => some (manyUpTo item input.length input)

/-- Reads an item if there is one. -/
def maybe (item : Reader α) : Reader (Option α) :=
  some <$> item <|> pure none

/-- Reads the whole of a text. -/
def run (reader : Reader α) (input : List Char) : Option α :=
  match reader input with
  | some (a, []) => some a
  | _ => none

end Reader

/-- Whether a character is a blank within a line. -/
def isBlank (c : Char) : Bool :=
  c == ' ' || c == '\t'

/-- Whether a character may stand in a comment, and in text between quotes unless it is one of
those that mean something there. -/
def isPlain (c : Char) : Bool :=
  c == '\t' || (0x20 ≤ c.toNat && c.toNat != 0x7f)

namespace Reader

/-- Skips blanks. -/
def blanks : Reader Unit :=
  discard (takeWhile isBlank)

/-- Reads a line break. -/
def lineBreak : Reader Unit :=
  char '\n' <|> text ['\r', '\n']

/-- Reads a comment up to the end of its line. -/
def comment : Reader Unit := do
  char '#'
  discard (takeWhile isPlain)

/-- Reads what may follow on a line after something complete, with the line break. -/
def lineEnd : Reader Unit := do
  blanks
  discard (maybe comment)
  lineBreak <|> atEnd

/-- Skips blanks, line breaks and comments that end with a line break. -/
def gap : Reader Unit :=
  discard (many (discard (takeWhile1 isBlank) <|> lineBreak <|> (do comment; lineBreak)))

end Reader

end Highlighter.Toml
