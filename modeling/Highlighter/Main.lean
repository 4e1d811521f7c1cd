import Highlighter.CommandLine

/-!
# The program

Runs the command line on the arguments, files and streams of a process.
-/

namespace Highlighter.CommandLine

/-- The cause of an error of the operating system. -/
def fileError : IO.Error → FileError
  | .noFileOrDirectory .. => .notFound
  | .inappropriateType _ 20 _ => .notDirectory
  | .inappropriateType _ 21 _ => .isDirectory
  | error => .other (toString error)

/-- The text of bytes that have been read. -/
def decode (bytes : ByteArray) : Except FileError String :=
  match String.fromUTF8? bytes with
  | some text => .ok text
  | none => .error .notUtf8

/-- The bytes that an action reads, as a text. -/
def readText (action : IO ByteArray) : IO (Except FileError String) := do
  match ← action.toBaseIO with
  | .ok bytes => return decode bytes
  | .error error => return .error (fileError error)

/-- The surroundings of a process. -/
def surroundings : IO (Surroundings IO) := do
  return {
    home := ← IO.getEnv "HOME"
    file := fun path => readText (IO.FS.readBinFile path)
    input := readText (do (← IO.getStdin).readBinToEnd) }

end Highlighter.CommandLine

open Highlighter in
/-- Runs the program. -/
def main (arguments : List String) : IO UInt32 := do
  let outcome ← CommandLine.run (← CommandLine.surroundings) arguments
  IO.print outcome.console.out
  IO.eprint outcome.console.err
  return outcome.status.toUInt32
