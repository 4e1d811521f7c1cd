import Highlighter.Pattern.Source

/-!
# Patterns

A pattern is what a grammar says about text to be matched. `Pattern.source` gives the source of the
regular expression that it stands for.
-/

namespace Highlighter

/-- A pattern of a grammar. -/
inductive Pattern where
  /-- The source of a regular expression. -/
  | regex (source : String)
  /-- Text to be matched as it stands. -/
  | literal (text : String)
  /-- Adjacent patterns, each in a group of its own. -/
  | segments (parts : List Pattern)
  /-- One of several patterns. -/
  | either (choices : List Pattern)
  deriving Repr, Inhabited

namespace Pattern

/-- The characters that mean something in a regular expression. -/
def metacharacters : List Char :=
  ['\\', '.', '+', '*', '?', '(', ')', '|', '[', ']', '\x7b', '\x7d', '^', '$']

/-- One character of a literal text. -/
def escapeChar (c : Char) : List Char :=
  if metacharacters.contains c then ['\\', c] else [c]

/-- The source that matches a text as it stands. -/
def escape (text : String) : String :=
  String.ofList (text.toList.flatMap escapeChar)

/-- Sources one after the other. -/
def concat (parts : List String) : String :=
  String.join parts

/-- One of several sources. -/
def oneOf (choices : List String) : String :=
  "(?:" ++ "|".intercalate choices ++ ")"

/-- A source that must match next without being part of the match. -/
def lookahead (source : String) : String :=
  "(?=" ++ source ++ ")"

/-- A source or nothing. -/
def optional (source : String) : String :=
  "(?:" ++ source ++ ")?"

/-- Any number of copies of a source. -/
def anyNumberOf (source : String) : String :=
  "(?:" ++ source ++ ")*"

mutual
/-- The source of the regular expression that a pattern stands for. -/
def source : Pattern → String
  | .regex source => source
  | .literal text => escape text
  | .segments parts => joinGroups "" (sources parts)
  | .either choices => oneOf (sources choices)

/-- The sources of a list of patterns. -/
def sources : List Pattern → List String
  | [] => []
  | pattern :: patterns => pattern.source :: sources patterns
end

/-- The parts of an array of segments. -/
def parts? : Pattern → Option (List Pattern)
  | .segments parts => some parts
  | _ => none

/-- Whether a pattern is an array of segments. -/
def isSegments (pattern : Pattern) : Bool :=
  pattern.parts?.isSome

end Pattern

end Highlighter
