import Highlighter.Languages.Parts

/-!
# Rust
-/

namespace Highlighter.Languages.Rust

/-- The keywords. -/
def keywords : String :=
  Text.unwords
    ["as async await break const continue crate dyn else enum extern fn for",
      "if impl in let loop match mod move mut pub ref return self Self static struct super trait",
      "type union unsafe use where while"]

/-- The literals. -/
def literals : String := "true false Some None Ok Err"

/-- The types. -/
def types : String :=
  Text.unwords
    ["bool char str u8 u16 u32 u64 u128 usize i8 i16 i32 i64 i128 isize f32 f64",
      "String Vec Box Rc Arc Option Result"]

/-- A block comment, which may hold another one. -/
def nestedComment : RawMode := comment "/\\*" "\\*/" [.itself]

/-- A string; it occurs in attributes, too, with one and the same escape inside. -/
def string : RawMode :=
  .of { scope := some "string", beginPattern := re "b?\"", endPattern := re "\"" }
    [.shared "string escape" backslashEscape]

/-- A raw string, which ends on as many hashes as it began with. -/
def rawString : RawMode :=
  (RawMode.of {
    scope := some "string", beginPattern := re "b?r(#*)\""
    endPattern := re "\"(#*)" }).endSameAsBegin

/-- A character. -/
def character : RawMode :=
  .of {
    scope := some "string"
    wholePattern := re
      "b?'(\\\\.|\\\\x[0-9a-fA-F]\x7b2\x7d|\\\\u\\\x7b[0-9a-fA-F]\x7b1,6\x7d\\\x7d|[^\\\\'])'" }

/-- A lifetime. -/
def lifetime : RawMode :=
  .of { scope := some "symbol", wholePattern := re "'[a-zA-Z_]\\w*", relevance := some 0 }

/-- A number. -/
def number : RawMode :=
  .of { scope := some "number", relevance := some 0 } []
    (["\\b0b[01_]+", "\\b0o[0-7_]+", "\\b0x[0-9a-fA-F_]+",
      "\\b\\d[\\d_]*(\\.[0-9_]+)?([eE][+-]?[0-9_]+)?([ui](8|16|32|64|128|size)|f(32|64))?"].map
      (simple none ·))

/-- An attribute. -/
def annotated : RawMode :=
  .of { scope := some "meta", beginPattern := re "#!?\\[", endPattern := re "\\]" }
    [.own string]

/-- A call with an exclamation mark, which is not the start of an inequality. -/
def bangCall : RawMode :=
  .of {
    scope := some "built_in", wholePattern := re "\\b[a-zA-Z_]\\w*!(?!=)", relevance := some 0 }

/-- The head of a function. -/
def function : RawMode :=
  .of {
    scope := some "function", beginKeywords := some "fn", endPattern := re "(\\(|<)"
    excludeEnd := true }
    [.own underscoreTitle]

/-- The declaration of a type. -/
def typeDeclaration : RawMode :=
  .of {
    wholePattern := some (.segments
      [.regex "\\b(?:struct|enum|union|trait)", .regex "\\s+", .regex underscoreIdentifier])
    beginScope := some (.segments [(1, "keyword"), (3, "title.class")]) }

/-- The grammar. -/
def grammar : Grammar where
  name := "rust"
  aliases := ["rs"]
  root := .of {
      keywords := some
        ((((Keywords.byCategory.category "keyword" keywords).category "literal" literals).category
          "type" types).withPattern "[a-zA-Z_]\\w*")
      illegal := re "</" }
    ([slashComment, nestedComment, rawString, string, character, lifetime, number, annotated,
      bangCall, function, typeDeclaration].map .own)

end Highlighter.Languages.Rust
