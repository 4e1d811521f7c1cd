/-!
# Problems of documents

The reasons for which a TOML document cannot be used, or a value cannot be written.
-/

namespace Highlighter.Toml

/-- Why a document cannot be read, used or written. -/
inductive Problem where
  /-- The text is not a TOML document. -/
  | malformed
  /-- A key is given a second value, or a table is opened a second time. -/
  | repeated (key : String)
  /-- The value of a key is not what the key stands for. -/
  | unsuitable (key : String)
  /-- A number beyond those that a document can hold. -/
  | outOfRange
  deriving DecidableEq, Repr, Inhabited

/-- The wording of a problem. -/
def Problem.message : Problem → String
  | .malformed => "the text is not a document"
  | .repeated key => "the key `" ++ key ++ "` is given twice"
  | .unsuitable key => "the value of `" ++ key ++ "` has the wrong type"
  | .outOfRange => "the number is too large"

end Highlighter.Toml
