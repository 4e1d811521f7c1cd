import Highlighter.Mode
import Highlighter.SortedEntries
import Highlighter.Text.Number
import Highlighter.Toml.Problem
import Highlighter.Toml.Value

/-!
# Modes in documents

What the values of a document say about a mode. A mode is a table with its fields by name, or an
array with its fields in a fixed order; names that mean nothing are passed over.
-/

namespace Highlighter.Stored

open Toml (Value Table Problem)

/-- What a value must be: the wanted thing, or the complaint about its key. -/
def need {α : Type} (key : String) : Option α → Except Problem α
  | some a => .ok a
  | none => .error (.unsuitable key)

mutual
/-- The pattern that a value stands for. -/
def pattern? : Value → Option Pattern
  | .string source => some (.regex source)
  | .array items => (patterns? items).map .segments
  | .table entries =>
    match (entries.lookup "literal").bind Value.string? with
    | some text => some (.literal text)
    | none => (choices? entries).map .either
  | _ => none

/-- The patterns that the values of an array stand for. -/
def patterns? : List Value → Option (List Pattern)
  | [] => some []
  | value :: values => do
    let pattern ← pattern? value
    return pattern :: (← patterns? values)

/-- The choices that a table lists. -/
def choices? : List (String × Value) → Option (List Pattern)
  | [] => none
  | (name, .array items) :: entries =>
    if name == "either" then patterns? items else choices? entries
  | _ :: entries => choices? entries
end

mutual
/-- The keyword set that a value stands for. -/
def keywordSet? : Value → Option KeywordSet
  | .string text => some (.words text)
  | .array items => (items.mapM Value.string?).map .list
  | .table entries => (categories? entries).map .categories
  | .moment text => some (.categories [(Value.momentKey, .words text)])
  | _ => none

/-- The categories of a table. -/
def categories? : List (String × Value) → Option (List (String × KeywordSet))
  | [] => some []
  | (name, value) :: entries => do
    let set ← keywordSet? value
    return (name, set) :: (← categories? entries)
end

/-- The numbered scopes of a table. Two ways of writing one number count as one key. -/
def segmentScopes? (entries : Table) : Option (List (Nat × String)) := do
  let scopes ← entries.mapM fun (key, value) => do
    return (← Text.unsigned? 64 key.toList, ← value.string?)
  return SortedEntries.ofList scopes

/-- The scopes that a value stands for. -/
def scopeSpec? : Value → Option ScopeSpec
  | .string scope => some (.whole scope)
  | value => do return .segments (← segmentScopes? (← value.entries?))

/-- The embedded language that a value stands for. -/
def subLanguage? : Value → Option SubLanguage
  | .string name => some (.named name)
  | value => value.strings?.map .candidates

/-- The largest relevance that can be written down. -/
def maxRelevance : Nat := UInt32.size - 1

/-- The fields of a mode, after one more entry. Modes below a mode are no fields. -/
def setField (fields : ModeFields) (key : String) (value : Value) : Except Problem ModeFields := do
  match key with
  | "scope" => return { fields with scope := ← need key value.string? }
  | "begin_scope" => return { fields with beginScope := ← need key (scopeSpec? value) }
  | "end_scope" => return { fields with endScope := ← need key (scopeSpec? value) }
  | "begin" => return { fields with beginPattern := ← need key (pattern? value) }
  | "end" => return { fields with endPattern := ← need key (pattern? value) }
  | "match" => return { fields with wholePattern := ← need key (pattern? value) }
  | "before_match" => return { fields with beforePattern := ← need key (pattern? value) }
  | "begin_keywords" => return { fields with beginKeywords := ← need key value.string? }
  | "keywords" =>
    return { fields with keywords := Keywords.ofSet (← need key (keywordSet? value)) }
  | "illegal" => return { fields with illegal := ← need key (pattern? value) }
  | "relevance" => return { fields with relevance := ← need key (value.natural? maxRelevance) }
  | "skip" => return { fields with skip := ← need key value.boolean? }
  | "exclude_begin" => return { fields with excludeBegin := ← need key value.boolean? }
  | "exclude_end" => return { fields with excludeEnd := ← need key value.boolean? }
  | "return_begin" => return { fields with returnBegin := ← need key value.boolean? }
  | "return_end" => return { fields with returnEnd := ← need key value.boolean? }
  | "ends_with_parent" => return { fields with endsWithParent := ← need key value.boolean? }
  | "ends_parent" => return { fields with endsParent := ← need key value.boolean? }
  | "sub_language" => return { fields with subLanguage := ← need key (subLanguage? value) }
  | _ => return fields

/-- The fields of a mode, from a table. -/
def modeFields (entries : Table) : Except Problem ModeFields :=
  entries.foldlM (fun fields (key, value) => setField fields key value) {}

/-- The order of the fields of a mode that is written as an array. -/
def fieldOrder : List String :=
  ["scope", "begin_scope", "end_scope", "begin", "end", "match", "before_match", "begin_keywords",
    "keywords", "illegal", "contains", "variants", "starts", "relevance", "skip", "exclude_begin",
    "exclude_end", "return_begin", "return_end", "ends_with_parent", "ends_parent",
    "sub_language"]

/-- A value with what it stands for where modes are expected. -/
structure ModeReading where
  value : Value
  /-- A mode. -/
  mode : Except Problem RawMode
  /-- An array of modes. -/
  modes : Except Problem (List RawMode)
  /-- An array of modes that may start inside a mode. -/
  children : Except Problem (List RawChild)

namespace ModeReading

/-- The name for the mode around a child. -/
def itselfName : String := "self"

/-- The child that a value stands for. -/
def child (reading : ModeReading) : Except Problem RawChild :=
  match reading.value with
  | .string name => if name == itselfName then .ok .itself else .error (.unsuitable name)
  | _ => RawChild.own <$> reading.mode

/-- A mode after one more entry. -/
def setEntry (mode : RawMode) (key : String) (reading : ModeReading) : Except Problem RawMode := do
  match key with
  | "contains" => return mode.withContains (← reading.children)
  | "variants" => return mode.withVariants (← reading.modes)
  | "starts" => return mode.withNext (.mode none (← reading.mode))
  | _ => return mode.withFields (← setField mode.fields key reading.value)

/-- The mode with the given entries. -/
def modeOf (entries : List (String × ModeReading)) : Except Problem RawMode :=
  entries.foldlM (fun mode (key, reading) => setEntry mode key reading) default

/-- The mode whose fields are given in their order. -/
def modeInOrder (readings : List ModeReading) : Except Problem RawMode :=
  if fieldOrder.length < readings.length then .error (.unsuitable "contains")
  else modeOf (fieldOrder.zip readings)

mutual
/-- What a value stands for. -/
def ofValue : Value → ModeReading
  | .array items =>
    let readings := ofItems items
    { value := .array items
      mode := modeInOrder readings
      modes := readings.mapM mode
      children := readings.mapM child }
  | .table entries =>
    { value := .table entries
      mode := modeOf (ofEntries entries)
      modes := .error (.unsuitable "variants")
      children := .error (.unsuitable "contains") }
  | value =>
    { value := value
      mode := if value.entries?.isSome then .ok default else .error (.unsuitable "starts")
      modes := .error (.unsuitable "variants")
      children := .error (.unsuitable "contains") }

/-- What the values of an array stand for. -/
def ofItems : List Value → List ModeReading
  | [] => []
  | value :: values => ofValue value :: ofItems values

/-- What the values of a table stand for. -/
def ofEntries : List (String × Value) → List (String × ModeReading)
  | [] => []
  | (name, value) :: entries => (name, ofValue value) :: ofEntries entries
end

end ModeReading

/-- The mode of a table. -/
def rawMode (entries : Table) : Except Problem RawMode :=
  (ModeReading.ofValue (.table entries)).mode

end Highlighter.Stored
