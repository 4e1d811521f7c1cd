import Highlighter.Regex.Error

/-!
# Unusable grammars

The reasons for which a grammar is refused when it is built.
-/

namespace Highlighter

/-- The end of a mode that a complaint is about. -/
inductive Edge where
  | begin
  | finish
  deriving DecidableEq, Repr, Inhabited

/-- The name of an edge in messages. -/
def Edge.name : Edge → String
  | .begin => "begin"
  | .finish => "end"

/-- Why a grammar is refused. -/
inductive Misuse where
  | wholePatternWithEdges
  /-- Flags that cannot go with an array of segments at this edge. -/
  | flagsWithSegments (edge : Edge)
  | beforePatternWithNext
  | itselfAtTop
  | nextAtTop
  | segmentsWithoutMap (edge : Edge)
  | mapWithoutSegments (edge : Edge)
  /-- A pattern of the labelled mode that is no regular expression. -/
  | badPattern (label : String) (error : Regex.Error)
  deriving DecidableEq, Repr, Inhabited

/-- The wording of a complaint. -/
def Misuse.message : Misuse → String
  | .wholePatternWithEdges => "`match` cannot be combined with `begin` or `end`"
  | .flagsWithSegments edge =>
    "`skip`, `exclude_" ++ edge.name ++ "` and `return_" ++ edge.name ++
      "` cannot be used with an array `" ++ edge.name ++ "`"
  | .beforePatternWithNext => "`before_match` cannot be combined with `starts`"
  | .itselfAtTop => "`self` is not supported in the top-level mode"
  | .nextAtTop => "the top-level mode cannot declare `starts`"
  | .segmentsWithoutMap edge =>
    "an array `" ++ edge.name ++ "` needs a segment map in `" ++ edge.name ++ "_scope`"
  | .mapWithoutSegments edge =>
    "a segment map in `" ++ edge.name ++ "_scope` needs an array `" ++ edge.name ++ "`"
  | .badPattern label error =>
    "invalid pattern in mode `" ++ label ++ "`: " ++ error.message

end Highlighter
