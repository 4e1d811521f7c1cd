import Highlighter.Languages.Parts

/-!
# Python
-/

namespace Highlighter.Languages.Python

/-- The keywords. -/
def keywordText : String :=
  Text.unwords
    ["and as assert async await break class continue def del elif else",
      "except finally for from global if import in is lambda nonlocal not or pass raise return try",
      "while with yield"]

/-- The functions that are always there. -/
def builtInText : String :=
  Text.unwords
    ["abs all any ascii bin bool bytearray bytes callable chr classmethod",
      "compile complex delattr dict dir divmod enumerate eval exec filter float format frozenset",
      "getattr globals hasattr hash help hex id input int isinstance issubclass iter len list",
      "locals map max memoryview min next object oct open ord pow print property range repr",
      "reversed round set setattr slice sorted staticmethod str sum super tuple type vars zip"]

/-- All words by category. -/
def keywords : Keywords :=
  (((Keywords.byCategory.category "keyword" keywordText).category "built_in" builtInText).category
    "literal" "False None True").category "variable.language" "self cls"

/-- A number. -/
def number : RawMode :=
  .of { scope := some "number", relevance := some 0 } []
    (["\\b0[xX][0-9a-fA-F_]+\\b", "\\b0[bB][01_]+\\b", "\\b0[oO][0-7_]+\\b",
      "\\b\\d[\\d_]*\\.\\d[\\d_]*([eE][+-]?\\d+)?j?\\b", "\\b\\d[\\d_]*j?\\b"].map (simple none ·))

/-- A string without substitutions. -/
def plain (start stop : String) (fields : ModeFields := {}) : RawMode :=
  .of { fields with beginPattern := re start, endPattern := re stop } [.own backslashEscape]

/-- A substitution inside a string. The modes in it are one and the same in all strings that have
the same `name`. -/
def substitution (name : String) : RawMode :=
  .of {
    scope := some "subst", beginPattern := re "\\\x7b", endPattern := re "\\\x7d"
    keywords := some keywords }
    [.shared (name ++ " number") number, .shared (name ++ " apostrophe") (plain "'" "'"),
      .shared (name ++ " quote") (plain "\"" "\"")]

/-- Doubled braces, which stand for braces. -/
def braces : RawMode := simple none "\\\x7b\\\x7b|\\\x7d\\\x7d" (some 0)

/-- A string with substitutions. -/
def formatted (name start stop : String) (fields : ModeFields := {}) : RawMode :=
  .of { fields with beginPattern := re start, endPattern := re stop }
    [.own backslashEscape, .own braces, .own (substitution name)]

/-- A string of any kind. -/
def string (name : String) : RawMode :=
  let long : ModeFields := { relevance := some 10 }
  let short : ModeFields := { illegal := re "\\n" }
  let marks := "([fF][rR]?|[rR][fF])"
  let plainMarks := "([uUbBrR]\x7b0,2\x7d)"
  .of { scope := some "string" } []
    [formatted name (marks ++ "\"\"\"") "\"\"\"" long,
      formatted name (marks ++ "'''") "'''" long,
      plain (plainMarks ++ "\"\"\"") "\"\"\"" long,
      plain (plainMarks ++ "'''") "'''" long,
      formatted name (marks ++ "\"") "\"" short,
      formatted name (marks ++ "'") "'" short,
      plain (plainMarks ++ "\"") "\"" short,
      plain (plainMarks ++ "'") "'" short]

/-- A decorator. -/
def decorator : RawMode :=
  .of { scope := some "meta", beginPattern := re "^[\\t ]*@", endPattern := re "(?=#)|$" }
    [.own number, .own (string "decorator")]

/-- The head of a definition. -/
def definition (keyword scope : String) : RawMode :=
  .of {
    wholePattern := some
      (.segments [.regex keyword, .regex "\\s+", .regex underscoreIdentifier])
    beginScope := some (.segments [(1, "keyword"), (3, scope)]) }

/-- The grammar. -/
def grammar : Grammar where
  name := "python"
  aliases := ["py", "gyp"]
  root := .of { keywords := some keywords, illegal := re "(<\\/|\\?)|=>" }
    ([shebang, hashComment, string "text", number, decorator,
      definition "\\bdef" "title.function", definition "\\bclass" "title.class"].map .own)

end Highlighter.Languages.Python
