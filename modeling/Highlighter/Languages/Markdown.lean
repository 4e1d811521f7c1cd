import Highlighter.Languages.Parts

/-!
# Markdown
-/

namespace Highlighter.Languages.Markdown

/-- Code between fences, which ends on the run of marks it began with. -/
def fencedCode : RawMode :=
  let marks := "^[ \\t]*(`\x7b3,\x7d|~\x7b3,\x7d)"
  (RawMode.of {
    scope := some "code", beginPattern := re (marks ++ "[^\\n]*$")
    endPattern := re (marks ++ "[ \\t]*$"), relevance := some 5 }).endSameAsBegin

/-- Indented code. -/
def indentedCode : RawMode :=
  .of {
    scope := some "code", beginPattern := re "^( \x7b4\x7d|\\t)", endPattern := re "$"
    relevance := some 0 }

/-- Code within a line. -/
def inlineCode : RawMode :=
  .of { scope := some "code", wholePattern := re "`[^`\\n]+`" }

/-- Strong text. -/
def strong : RawMode :=
  .of { scope := some "strong", relevance := some 0 } []
    [simple none "\\*\\*[^*\\n]+\\*\\*", simple none "__[^_\\n]+__"]

/-- Emphasised text. -/
def emphasis : RawMode :=
  .of { scope := some "emphasis", relevance := some 0 } []
    [simple none "\\*[^*\\n]+\\*", simple none "\\b_[^_\\n]+_\\b"]

/-- A link or an image. -/
def link : RawMode :=
  .of {
    wholePattern := some (.segments
      [.regex "!?\\[", .regex "[^\\]\\n]+", .regex "\\]\\(", .regex "[^)\\n]+", .regex "\\)"])
    beginScope := some (.segments [(2, "string"), (4, "link")])
    relevance := some 2 }

/-- What occurs within a line. -/
def inline : List RawChild :=
  [inlineCode, strong, emphasis, link].map .own

/-- A heading. -/
def header : RawMode :=
  .of { scope := some "section" } inline
    [.of { beginPattern := re "^#\x7b1,6\x7d[ \\t]", endPattern := re "$" },
      simple none "^.+?\\n(=+|-+)$"]

/-- A quotation. -/
def quote : RawMode :=
  .of { scope := some "quote", beginPattern := re "^>\\s+", endPattern := re "$" } inline

/-- A rule across the page. -/
def rule : RawMode :=
  .of {
    scope := some "section"
    wholePattern := re "^(-\x7b3,\x7d|\\*\x7b3,\x7d|_\x7b3,\x7d)[ \\t]*$" }

/-- The mark of a list item. -/
def bullet : RawMode :=
  .of { scope := some "bullet", wholePattern := re "^[ \\t]*([*+-]|\\d+\\.)(?=\\s+)" }

/-- Struck text. -/
def strike : RawMode :=
  .of { scope := some "deletion", wholePattern := re "~~[^~\\n]+~~", relevance := some 0 }

/-- The grammar. -/
def grammar : Grammar where
  name := "markdown"
  aliases := ["md", "mkdown", "mkd"]
  root := .of {}
    ([fencedCode, indentedCode, header, quote, rule, bullet, strike].map .own ++ inline)

end Highlighter.Languages.Markdown
