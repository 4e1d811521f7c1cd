/-!
# Unusable expressions

The reasons for which the source of a regular expression is refused.
-/

namespace Highlighter.Regex

/-- Why a source is refused. -/
inductive Error where
  | unclosedGroup
  | unexpectedClose
  | invalidGroupName
  | unknownGroup
  | unknownFlag
  | nestedTooDeep
  | nothingToRepeat
  | invalidRepeat
  | trailingBackslash
  | invalidEscape
  | invalidCodePoint
  | invalidClass
  | unknownProperty
  | mixedReferences
  | unboundedLookbehind
  deriving DecidableEq, Repr, Inhabited

namespace Error

/-- The wording of an error. -/
def message : Error → String
  | .unclosedGroup => "opening parenthesis without closing parenthesis"
  | .unexpectedClose => "closing parenthesis without opening parenthesis"
  | .invalidGroupName => "invalid group name"
  | .unknownGroup => "reference to a group that does not precede it"
  | .unknownFlag => "unknown group flag"
  | .nestedTooDeep => "groups are nested too deeply"
  | .nothingToRepeat => "there is nothing to repeat"
  | .invalidRepeat => "the bounds of a repetition are out of order"
  | .trailingBackslash => "backslash at the end"
  | .invalidEscape => "invalid escape"
  | .invalidCodePoint => "escape does not name a character"
  | .invalidClass => "invalid character class"
  | .unknownProperty => "unknown character property"
  | .mixedReferences => "numbered references cannot be mixed with named groups"
  | .unboundedLookbehind => "lookbehind does not have a fixed length"

end Error

end Highlighter.Regex
