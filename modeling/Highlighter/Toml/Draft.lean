import Highlighter.SortedEntries
import Highlighter.Toml.Problem
import Highlighter.Toml.Value

/-!
# Tables under construction

The statements of a document build its tables up bit by bit. A draft knows of every table how it
came to be, which decides whether later statements may add to it: a value is given once, a table is
opened once, and a key with dots adds only to tables that came to be by such keys.
-/

namespace Highlighter.Toml

/-- How a table came to be. -/
inductive Origin where
  /-- It is the document itself, or a header opened it. -/
  | opened
  /-- A header opened a table inside it. -/
  | passed
  /-- A key with dots leads through it. -/
  | dotted
  deriving DecidableEq, Repr, Inhabited

/-- A table, an array of tables or a value of a document that is being read. -/
inductive Draft where
  | value (value : Value)
  | table (origin : Origin) (entries : List (String × Draft))
  /-- The tables of an array: those that are complete, the latest first, and the one that
  statements add to. -/
  | tables (complete : List (List (String × Draft))) (last : List (String × Draft))

/-- A key: the tables it leads through, and the name in the last of them. -/
structure Key where
  owners : List String
  name : String
  deriving DecidableEq, Repr, Inhabited

namespace Draft

/-- The entries of a table under construction. -/
abbrev Entries := List (String × Draft)

/-- Changes the table to which a path leads, given how that table came to be. Tables that are
missing are made on the way. A path of a key with dots cannot lead through opened tables. -/
def within (isDotted : Bool) (change : Origin → Entries → Except Problem Entries) :
    (path : List String) → Origin → Entries → Except Problem Entries
  | [], origin, entries => change origin entries
  | name :: path, _, entries => do
    let draft ← match entries.lookup name with
      | none => do
        let origin := if isDotted then Origin.dotted else .passed
        pure (Draft.table origin (← within isDotted change path origin []))
      | some (.table origin inner) =>
        if isDotted && origin == .opened then throw (.repeated name)
        else pure (.table origin (← within isDotted change path origin inner))
      | some (.tables complete last) =>
        pure (.tables complete (← within isDotted change path .opened last))
      | some (.value _) => throw (.repeated name)
    return SortedEntries.insert name draft entries

/-- Adds an entry with a new name. -/
def addNew (name : String) (draft : Draft) (entries : Entries) : Except Problem Entries :=
  if (entries.lookup name).isSome then .error (.repeated name)
  else .ok (SortedEntries.insert name draft entries)

/-- Gives a key its value. A key with dots gives it in a table that came to be by such keys. -/
def assign (key : Key) (given : Value) (origin : Origin) (entries : Entries) :
    Except Problem Entries :=
  within true (fun origin entries =>
    if (origin == .dotted) == key.owners.isEmpty then .error (.repeated key.name)
    else addNew key.name (.value given) entries) key.owners origin entries

/-- Opens the table of a header. -/
def openTable (key : Key) : Entries → Except Problem Entries :=
  within false (fun _ entries =>
    match entries.lookup key.name with
    | none => .ok (SortedEntries.insert key.name (.table .opened []) entries)
    | some (.table .passed inner) =>
      .ok (SortedEntries.insert key.name (.table .opened inner) entries)
    | some _ => .error (.repeated key.name)) key.owners .opened

/-- Opens a further table of an array of tables. -/
def openElement (key : Key) : Entries → Except Problem Entries :=
  within false (fun _ entries =>
    match entries.lookup key.name with
    | none => .ok (SortedEntries.insert key.name (.tables [] []) entries)
    | some (.tables complete last) =>
      .ok (SortedEntries.insert key.name (.tables (last :: complete) []) entries)
    | some _ => .error (.repeated key.name)) key.owners .opened

mutual
/-- The value that is complete. -/
def finish : Draft → Value
  | .value given => given
  | .table _ entries => .table (finishEntries entries)
  | .tables complete last =>
    .array ((.table (finishEntries last) :: finishTables complete).reverse)

/-- The entries that are complete. -/
def finishEntries : List (String × Draft) → Table
  | [] => []
  | (name, draft) :: entries => (name, finish draft) :: finishEntries entries

/-- The tables of an array that are complete. -/
def finishTables : List (List (String × Draft)) → List Value
  | [] => []
  | entries :: earlier => .table (finishEntries entries) :: finishTables earlier
end

end Draft

end Highlighter.Toml
