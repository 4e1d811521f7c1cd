import Highlighter.Languages.Parts

/-!
# TOML
-/

namespace Highlighter.Languages.Toml

/-- Words that are values. -/
def literals : Keywords :=
  Keywords.byCategory.category "literal" "true false inf nan"

/-- The comment that occurs everywhere. -/
def remark : RawChild := .shared "comment" hashComment

/-- A string. -/
def string : RawChild :=
  .shared "string" (.of { scope := some "string" } []
    [.of { beginPattern := re "\"\"\"", endPattern := re "\"\"\"" } [.own backslashEscape],
      .of { beginPattern := re "'''", endPattern := re "'''" },
      .of { beginPattern := re "\"", endPattern := re "\"", illegal := re "\\n" }
        [.own backslashEscape],
      .of { beginPattern := re "'", endPattern := re "'", illegal := re "\\n" }])

/-- The source of `count` digits. -/
def digits (count : Nat) : String := "\\d\x7b" ++ toString count ++ "\x7d"

/-- The source of a time of day. -/
def time : String :=
  digits 2 ++ ":" ++ digits 2 ++ ":" ++ digits 2 ++ "(\\.\\d+)?"

/-- A number, a date or a time. -/
def number : RawChild :=
  .shared "number" (.of { scope := some "number", relevance := some 0 } []
    ([digits 4 ++ "-" ++ digits 2 ++ "-" ++ digits 2 ++ "([T ]" ++ time ++
        "(Z|[+-]" ++ digits 2 ++ ":" ++ digits 2 ++ ")?)?",
      time, "\\b0x[0-9a-fA-F_]+\\b", "\\b0b[01_]+\\b", "\\b0o[0-7_]+\\b",
      "[+-]?\\d[\\d_]*\\.\\d[\\d_]*([eE][+-]?\\d+)?\\b", "[+-]?\\d[\\d_]*\\b"].map (simple none ·)))

/-- An array, which may span lines and hold other arrays. -/
def array : RawChild :=
  .shared "array" (.of {
      beginPattern := re "\\[", endPattern := re "\\]", relevance := some 0
      keywords := some literals }
    [remark, string, number, .itself])

/-- A table in one value. -/
def inlineTable : RawMode :=
  .of {
      beginPattern := re "\\\x7b", endPattern := re "\\\x7d", relevance := some 0
      keywords := some literals }
    [.own (.of { scope := some "attr", wholePattern := re "[A-Za-z0-9_\\-]+(?=\\s*=)" }),
      string, number, array, .itself]

/-- What follows a key on its line. -/
def value : RawMode :=
  .of { endPattern := re "$", relevance := some 0, keywords := some literals }
    [remark, string, number, array, .own inlineTable]

/-- The source of one part of a key. -/
def keyPart : String := "([A-Za-z0-9_\\-]+|\"[^\"\\n]*\"|'[^'\\n]*')"

/-- A key, with its value after it. -/
def key : RawMode :=
  .of {
      scope := some "attr"
      wholePattern := re
        ("^[\\t ]*" ++ keyPart ++ "(\\s*\\.\\s*" ++ keyPart ++ ")*(?=\\s*=)") }
    [] [] (some value)

/-- The head of a table. -/
def table : RawMode :=
  .of {
    scope := some "section", beginPattern := re "^[\\t ]*\\[\\[?", endPattern := re "\\]\\]?"
    illegal := re "\\n" }

/-- The grammar. -/
def grammar : Grammar where
  name := "toml"
  root := .of { illegal := re "\\S" } [remark, .own table, .own key]

end Highlighter.Languages.Toml
