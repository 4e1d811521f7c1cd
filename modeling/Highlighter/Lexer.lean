import Highlighter.Keyword.Table
import Highlighter.Lexer.Rules
import Highlighter.Mode

/-!
# Lexers

A lexer is a grammar that is ready to scan: its modes in one array, referring to each other by
number. Mode 0 is the top mode.
-/

namespace Highlighter

/-- A segment of an array of segments: its group within the rule, and its scope. -/
structure SegmentScope where
  group : Nat
  scope : Option String
  deriving DecidableEq, Repr, Inhabited

/-- The scope of the text of a begin or end match. -/
inductive EdgeScope where
  | whole (scope : String)
  | segments (segments : List SegmentScope)
  deriving DecidableEq, Repr, Inhabited

/-- The keywords of a mode: what words mean, and how words are found. -/
structure LexerKeywords where
  table : KeywordTable
  regex : Regex

/-- A mode that is ready to scan. -/
structure LexerMode where
  /-- The scope of the mode, or a stand-in for messages. -/
  label : String
  scope : Option String
  beginScope : Option EdgeScope
  endScope : Option EdgeScope
  /-- The source of the begin rule; the top mode has none. -/
  beginSource : Option String
  /-- The end pattern of the mode itself. -/
  endRegex : Option Regex
  /-- The source of the end rule: the mode's own end, and where it ends with the mode around it,
  the end rule of that mode. -/
  terminator : Option String
  illegal : Option String
  keywords : Option LexerKeywords
  relevance : Nat
  skip : Bool
  excludeBegin : Bool
  excludeEnd : Bool
  returnBegin : Bool
  returnEnd : Bool
  endsWithParent : Bool
  endsParent : Bool
  subLanguage : Option SubLanguage
  beforeBegin : Option Hook
  onBegin : Option Hook
  onEnd : Option Hook
  contains : List Nat := []
  next : Option Nat := none
  rules : RuleSet := {}

/-- The stand-in for the scope of a mode without one. -/
def LexerMode.unnamed : String := "<unnamed>"

/-- A mode that matches nothing. -/
instance : Inhabited LexerMode where
  default := {
    label := LexerMode.unnamed, scope := none, beginScope := none, endScope := none
    beginSource := none, endRegex := none, terminator := none, illegal := none, keywords := none
    relevance := 1, skip := false, excludeBegin := false, excludeEnd := false
    returnBegin := false, returnEnd := false, endsWithParent := false, endsParent := false
    subLanguage := none, beforeBegin := none, onBegin := none, onEnd := none }

/-- A grammar that is ready to scan. -/
structure Lexer where
  name : String
  ignoreCase : Bool
  scopeAliases : List (String × String)
  modes : Array LexerMode
  deriving Inhabited

namespace Lexer

/-- The number of the top mode. -/
def root : Nat := 0

/-- The mode with a number. -/
def mode (lexer : Lexer) (number : Nat) : LexerMode :=
  lexer.modes.getD number default

/-- The number of modes. -/
def modeCount (lexer : Lexer) : Nat :=
  lexer.modes.size

/-- The scope that is emitted for a scope of the grammar. -/
def scopeName (lexer : Lexer) (scope : String) : String :=
  (lexer.scopeAliases.lookup scope).getD scope

end Lexer

end Highlighter
