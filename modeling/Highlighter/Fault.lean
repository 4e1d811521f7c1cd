import Highlighter.Misuse
import Highlighter.Text.Quoted
import Highlighter.Toml.Problem

/-!
# Faults

Everything that can go wrong, by cause, and the wording of each.
-/

namespace Highlighter

/-- Where and why a scan met illegal text. -/
structure IllegalContext where
  message : String
  /-- The offset of the match in bytes. -/
  index : Nat
  /-- The text around the match. -/
  context : String
  /-- The label of the mode in which the match is illegal. -/
  mode : String
  language : String
  /-- The HTML of everything highlighted before the match. -/
  resultSoFar : String
  deriving DecidableEq, Repr, Inhabited

/-- The wording of an illegal match. -/
def IllegalContext.describe (context : IllegalContext) : String :=
  context.message ++ " at byte " ++ toString context.index ++ " in " ++ context.language ++
    " (near " ++ Text.Quoted.encode context.context ++ ")"

/-- Why a scan cannot go on. -/
inductive ScanFault where
  /-- The rules that are left cannot be joined. -/
  | badRules (error : Regex.Error)
  | tooManyIterations
  /-- A mode begins and ends without text at one position. -/
  | zeroWidth
  /-- Embedded languages nest without end. -/
  | tooDeep
  deriving DecidableEq, Repr, Inhabited

/-- The wording of a fault of a scan. -/
def ScanFault.message : ScanFault → String
  | .badRules error => "matcher failed: " ++ error.message
  | .tooManyIterations => "potential infinite loop, way more iterations than matches"
  | .zeroWidth => "0 width match regex"
  | .tooDeep => "embedded languages are nested too deeply"

/-- Why a file cannot be read. -/
inductive FileError where
  | notFound
  | notDirectory
  | isDirectory
  | notUtf8
  | other (text : String)
  deriving DecidableEq, Repr, Inhabited

/-- The wording of a file error. -/
def FileError.message : FileError → String
  | .notFound => "No such file or directory (os error 2)"
  | .notDirectory => "Not a directory (os error 20)"
  | .isDirectory => "Is a directory (os error 21)"
  | .notUtf8 => "stream did not contain valid UTF-8"
  | .other text => text

/-- What can go wrong. -/
inductive Fault where
  | configuration (language : String) (misuse : Misuse)
  | illegalToken (context : IllegalContext)
  /-- A fault of a scan, with the label of the mode it is about, if any. -/
  | engine (language : String) (cause : ScanFault) (rule : Option String)
  | unknownLanguage (name : String)
  | file (error : FileError)
  /-- A TOML document that cannot be read. -/
  | toml (problem : Toml.Problem)
  /-- Settings that cannot be written as TOML. -/
  | tomlOutput (problem : Toml.Problem)
  deriving DecidableEq, Repr, Inhabited

/-- The wording of a fault. -/
def Fault.message : Fault → String
  | .configuration language misuse => "Invalid grammar " ++ language ++ ": " ++ misuse.message
  | .illegalToken context => "Illegal lexeme: " ++ context.describe
  | .engine language cause _ => "Engine fault in " ++ language ++ ": " ++ cause.message
  | .unknownLanguage name => "Unknown language: " ++ name
  | .file error => "I/O error: " ++ error.message
  | .toml problem => "TOML error: " ++ problem.message
  | .tomlOutput problem => "TOML serialization error: " ++ problem.message

end Highlighter
