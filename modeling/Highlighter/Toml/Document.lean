import Highlighter.Toml.Draft
import Highlighter.Toml.Moment
import Highlighter.Toml.Number

/-!
# Documents

A TOML document is a list of statements, one a line: each opens a table, opens a further table of
an array, or gives a key of the open table its value.
-/

namespace Highlighter.Toml

/-- A statement of a document. -/
inductive Statement where
  | table (key : Key)
  | element (key : Key)
  | assign (key : Key) (value : Value)
  deriving Repr, Inhabited

/-- The number of parts that a key may have, and the depth to which arrays and inline tables may
nest. -/
def nestingLimit : Nat := 79

/-- Whether a character may stand in a key without quotes. -/
def isBareKeyChar (c : Char) : Bool :=
  c.isAlphanum || c == '-' || c == '_'

namespace Reader

/-- Reads a part of a key, which is bare or a string on one line. -/
def keyPart : Reader String := fun input =>
  match input with
  | '"' :: _ => Quoted.basic input
  | '\'' :: _ => Quoted.literal input
  | _ => (String.ofList <$> takeWhile1 isBareKeyChar) input

/-- Reads a key, with the blanks around its parts. -/
def key : Reader Key := do
  blanks
  let first ← keyPart
  blanks
  let later ← many (do char '.'; blanks; let part ← keyPart; blanks; return part)
  if nestingLimit ≤ later.length then failure
  let parts := first :: later
  return ⟨parts.dropLast, parts.getLastD first⟩

/-- Reads a key and its value. -/
def assignment (value : Reader Value) : Reader (Key × Value) := do
  let key ← key
  char '='
  blanks
  return (key, ← value)

/-- Reads items with commas between them; `after` is what may stand after an item or a comma. -/
def separated {α : Type} (item : Reader α) (after : Reader Unit) : Reader (List α) :=
  (do
    let first ← item
    after
    let later ← many (do char ','; after; let a ← item; after; return a)
    return first :: later)
  <|> pure []

/-- The table of the assignments between braces. -/
def inlineTable (assignments : List (Key × Value)) : Option Value :=
  let entries := assignments.foldlM
    (fun entries (key, value) => Draft.assign key value .opened entries) []
  match entries with
  | .ok entries => some (.table (Draft.finishEntries entries))
  | .error _ => none

/-- Reads an array. A comma may follow the last item, and line breaks and comments may stand
anywhere between items. -/
def array (value : Reader Value) : Reader Value := do
  char '['
  gap
  let items ← separated value gap
  if !items.isEmpty then
    discard (maybe (char ','))
    gap
  char ']'
  return .array items

/-- Reads a table between braces, which stands on one line. -/
def braces (value : Reader Value) : Reader Value := do
  char '\x7b'
  blanks
  let assignments ← separated (assignment value) blanks
  char '\x7d'
  match inlineTable assignments with
  | some table => return table
  | none => failure

/-- Reads a value in which arrays and inline tables nest to the given depth. -/
def value : (depth : Nat) → Reader Value
  | depth, input =>
    match input, depth with
    | '"' :: _, _ | '\'' :: _, _ => (Value.string <$> Quoted.string) input
    | '[' :: _, depth + 1 => array (value depth) input
    | '\x7b' :: _, depth + 1 => braces (value depth) input
    | 't' :: _, _ => (do text ['t', 'r', 'u', 'e']; return Value.boolean true) input
    | 'f' :: _, _ => (do text ['f', 'a', 'l', 's', 'e']; return Value.boolean false) input
    | _, _ => (Value.moment <$> Moment.moment <|> Number.float <|> Number.integer) input

/-- Reads a statement with the line break after it. -/
def statement : Reader Statement := fun input =>
  match input with
  | '[' :: '[' :: _ => (do
      text ['[', '[']
      let key ← key
      text [']', ']']
      lineEnd
      return Statement.element key) input
  | '[' :: _ => (do
      char '['
      let key ← key
      char ']'
      lineEnd
      return Statement.table key) input
  | _ => (do
      let (key, value) ← assignment (value nestingLimit)
      lineEnd
      return Statement.assign key value) input

/-- Skips lines without a statement, up to the first character of a line that has one. -/
def emptyLines : Reader Unit := do
  gap
  discard (maybe (do comment; atEnd))

/-- Reads the statements of a document. -/
def statements : Reader (List Statement) := do
  discard (maybe (char '\ufeff'))
  emptyLines
  many (do
    let statement ← statement
    emptyLines
    return statement)

end Reader

namespace Statement

/-- Carries out statements, one after the other; `header` is the path of the open table. -/
def carryOut (header : List String) (entries : Draft.Entries) :
    List Statement → Except Problem Draft.Entries
  | [] => .ok entries
  | .table key :: statements => do
    carryOut (key.owners ++ [key.name]) (← Draft.openTable key entries) statements
  | .element key :: statements => do
    carryOut (key.owners ++ [key.name]) (← Draft.openElement key entries) statements
  | .assign key value :: statements => do
    let entries ← Draft.within false (Draft.assign key value) header .opened entries
    carryOut header entries statements

end Statement

/-- Reads a document. -/
def read (document : String) : Except Problem Table :=
  match Reader.statements.run document.toList with
  | none => .error .malformed
  | some statements => do
    return Draft.finishEntries (← Statement.carryOut [] [] statements)

end Highlighter.Toml
