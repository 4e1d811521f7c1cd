import Highlighter.Grammar

/-!
# Parts of languages

Modes that several languages share: strings, comments, numbers and titles.
-/

namespace Highlighter.Languages

/-- The source of an identifier that starts with a letter. -/
def identifier : String := "[a-zA-Z]\\w*"

/-- The source of an identifier that starts with a letter or an underscore. -/
def underscoreIdentifier : String := "[a-zA-Z_]\\w*"

/-- The source of a decimal number. -/
def decimalNumber : String := "\\b\\d+(\\.\\d+)?"

/-- The source of a number as C writes it. -/
def cNumberSource : String :=
  "(-?)(\\b0[xX][a-fA-F0-9]+|(\\b\\d+(\\.\\d*)?|\\.\\d+)([eE][-+]?\\d+)?)"

/-- The source of a binary number. -/
def binaryNumberSource : String := "\\b(0b[01]+)"

/-- A pattern given by the source of a regular expression. -/
def re (source : String) : Option Pattern := some (.regex source)

/-- A mode that is one match of an expression. -/
def simple (scope : Option String) (source : String) (relevance : Option Nat := none) : RawMode :=
  .of { scope := scope, beginPattern := re source, relevance := relevance }

/-- A backslash and the character after it. -/
def backslashEscape : RawMode := simple none "\\\\[\\s\\S]" (some 0)

/-- A string on one line between quotes. -/
def stringBetween (quote : String) : RawMode :=
  .of { scope := some "string", beginPattern := re quote, endPattern := re quote
        illegal := re "\\n" }
    [.own backslashEscape]

/-- A string between apostrophes. -/
def apostropheString : RawMode := stringBetween "'"

/-- A string between double quotes. -/
def quoteString : RawMode := stringBetween "\""

/-- A comment, in which marks such as `TODO:` have a scope of their own. -/
def comment (start stop : String) (more : List RawChild := []) : RawMode :=
  let mark := "(TODO|FIXME|NOTE|BUG|OPTIMIZE|HACK|XXX):"
  .of { scope := some "comment", beginPattern := re start, endPattern := re stop }
    (.own (.of {
      scope := some "doctag"
      beginPattern := re ("[ ]*(?=" ++ mark ++ ")")
      endPattern := re mark
      excludeBegin := true
      relevance := some 0 }) :: more)

/-- A comment from two slashes to the end of the line. -/
def slashComment : RawMode := comment "//" "$"

/-- A comment between `/*` and `*/`. -/
def blockComment : RawMode := comment "/\\*" "\\*/"

/-- A comment from a hash to the end of the line. -/
def hashComment : RawMode := comment "#" "$"

/-- A decimal number. -/
def number : RawMode := simple (some "number") decimalNumber (some 0)

/-- A number as C writes it. -/
def cNumber : RawMode := simple (some "number") cNumberSource (some 0)

/-- A binary number. -/
def binaryNumber : RawMode := simple (some "number") binaryNumberSource (some 0)

/-- A title. -/
def title : RawMode := simple (some "title") identifier (some 0)

/-- A title that may start with an underscore. -/
def underscoreTitle : RawMode := simple (some "title") underscoreIdentifier (some 0)

/-- The line that names an interpreter, at the very start of a text. -/
def shebang : RawMode :=
  .of {
    scope := some "meta"
    beginPattern := re "^#![ ]*/.*\\b"
    endPattern := re "$"
    relevance := some 0
    onBegin := some Hook.atStart }

/-- A part by its name. `comment` is not among them, because it needs its two ends. -/
def part? : String → Option RawMode
  | "backslash_escape" => some backslashEscape
  | "apos_string" => some apostropheString
  | "quote_string" => some quoteString
  | "c_line_comment" => some slashComment
  | "c_block_comment" => some blockComment
  | "hash_comment" => some hashComment
  | "number" => some number
  | "c_number" => some cNumber
  | "binary_number" => some binaryNumber
  | "title" => some title
  | "underscore_title" => some underscoreTitle
  | "shebang" => some shebang
  | _ => none

end Highlighter.Languages
