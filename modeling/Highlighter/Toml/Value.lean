/-!
# Values

The values of a TOML document.
-/

namespace Highlighter.Toml

/-- A value. -/
inductive Value where
  | string (text : String)
  | integer (value : Int)
  /-- A number with a fraction or an exponent, as it is written. -/
  | float (source : String)
  | boolean (value : Bool)
  /-- A date, a time or both, in the form `1979-05-27T07:32:00Z`. -/
  | moment (text : String)
  | array (items : List Value)
  /-- A table, in order of its keys. -/
  | table (entries : List (String × Value))
  deriving Repr, Inhabited

/-- The entries of a table, in order of their keys. -/
abbrev Table := List (String × Value)

namespace Value

/-- The text of a string. -/
def string? : Value → Option String
  | .string text => some text
  | _ => none

/-- The value of a boolean. -/
def boolean? : Value → Option Bool
  | .boolean value => some value
  | _ => none

/-- A number from 0 up to `bound`. -/
def natural? (bound : Nat) : Value → Option Nat
  | .integer (.ofNat value) => if value ≤ bound then some value else none
  | _ => none

/-- The texts of an array of strings. -/
def strings? : Value → Option (List String)
  | .array items => items.mapM string?
  | _ => none

/-- The key under which a date or time keeps its text where a table is expected. -/
def momentKey : String := "$__toml_private_datetime"

/-- The entries of a table. A date or time is a table with one entry. -/
def entries? : Value → Option Table
  | .table entries => some entries
  | .moment text => some [(momentKey, .string text)]
  | _ => none

end Value

end Highlighter.Toml
