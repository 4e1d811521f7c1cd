import Highlighter.Regex.Match
import Highlighter.Text.Offset

/-!
# Hooks

A mode may carry hooks that are asked whenever its begin or end pattern has matched. A hook sees
the match and the data of the mode's frame; it accepts the match, or ignores it, in which case the
scan goes on as if the pattern had not matched there.
-/

namespace Highlighter

/-- The answer of a hook. -/
inductive Decision where
  | accept
  | ignore
  deriving DecidableEq, Repr, Inhabited

/-- The match that a hook is asked about. Group 0 is the whole match; the groups of the matched
pattern follow. -/
structure MatchInfo where
  input : Array Char
  index : Nat
  groups : List (Option Regex.Span)
  deriving Repr, Inhabited

namespace MatchInfo

/-- Groups without those at their end that took no part: a hook cannot tell such a group from one
that the pattern does not have. -/
def trim : List (Option Regex.Span) → List (Option Regex.Span)
  | [] => []
  | group :: groups =>
    match group, trim groups with
    | none, [] => []
    | group, rest => group :: rest

/-- The text of a group that took part in the match. -/
def group? (info : MatchInfo) (number : Nat) : Option String :=
  (info.groups[number]?.join).map (·.text info.input)

/-- The matched text. -/
def lexeme (info : MatchInfo) : String :=
  (info.group? 0).getD ""

/-- The character before the match. -/
def precedingChar? (info : MatchInfo) : Option Char :=
  if info.index = 0 then none else info.input[info.index - 1]?

/-- The offset of the match in bytes. -/
def byteIndex (info : MatchInfo) : Nat :=
  Text.byteOffset info.input info.index

/-- The length of the whole input in bytes. -/
def byteLength (info : MatchInfo) : Nat :=
  Text.byteSize info.input

end MatchInfo

/-- What the hooks of one frame remember: texts by name. -/
structure FrameData where
  entries : List (String × String) := []
  deriving DecidableEq, Repr, Inhabited

namespace FrameData

/-- The text under a name. -/
def get? (data : FrameData) (key : String) : Option String :=
  data.entries.lookup key

/-- Forgets the text under a name. -/
def erase (data : FrameData) (key : String) : FrameData :=
  ⟨data.entries.filter (·.1 != key)⟩

/-- Puts a text under a name, in the place of what stood there. -/
def set (data : FrameData) (key value : String) : FrameData :=
  ⟨(key, value) :: (data.erase key).entries⟩

end FrameData

/-- A hook. Calls of a traced hook are reported along with the result of a scan. -/
structure Hook where
  call : MatchInfo → FrameData → Decision × FrameData
  isTraced : Bool := false

instance : Inhabited Hook := ⟨{ call := fun _ data => (.accept, data) }⟩

namespace Hook

/-- Ignores a match directly after a full stop, so that a member is not taken for a keyword. -/
def notAfterStop : Hook where
  call info data := (if info.precedingChar? == some '.' then .ignore else .accept, data)

/-- Ignores a match anywhere but at the start of the input. -/
def atStart : Hook where
  call info data := (if info.index = 0 then .accept else .ignore, data)

/-- The name under which `rememberBegin` puts what it remembers. -/
def beginKey : String := "begin_match"

/-- Accepts a match and remembers its first group. -/
def rememberBegin : Hook where
  call info data := (.accept, data.set beginKey ((info.group? 1).getD ""))

/-- Accepts a match whose first group is the text that was remembered. -/
def sameAsBegin : Hook where
  call info data :=
    (if data.get? beginKey == some ((info.group? 1).getD "") then .accept else .ignore, data)

end Hook

end Highlighter
