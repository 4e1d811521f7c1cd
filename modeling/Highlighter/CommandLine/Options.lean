/-!
# Options

What the arguments of the program ask for, and what it says about itself.
-/

namespace Highlighter.CommandLine

/-- The options of a run. -/
structure Options where
  language : Option String := none
  /-- The files of further grammars. -/
  grammars : List String := []
  /-- The file to highlight; the standard input when missing. -/
  file : Option String := none
  classPrefix : Option String := none
  isStrict : Bool := false
  isList : Bool := false
  isVerbose : Bool := false
  deriving DecidableEq, Repr, Inhabited

/-- What the arguments ask for. -/
inductive Task where
  | help
  | version
  | work (options : Options)
  deriving DecidableEq, Repr, Inhabited

/-- What is wrong with the arguments. -/
inductive Complaint where
  /-- An option stands last that needs an argument after it. -/
  | missing (option wanted : String)
  | unknownOption (option : String)
  | secondFile
  deriving DecidableEq, Repr, Inhabited

/-- The wording of a complaint. -/
def Complaint.message : Complaint → String
  | .missing option wanted => option ++ " needs a " ++ wanted
  | .unknownOption option => "unknown option '" ++ option ++ "'"
  | .secondFile => "only one input file may be given"

/-- What is written about a complaint. -/
def Complaint.text (complaint : Complaint) : String :=
  "Error: " ++ complaint.message ++ "\nTry 'glint --help' for more information.\n"

namespace Options

/-- What an argument is. -/
inductive Argument where
  | help
  | version
  /-- An option with an argument after it: its name, what it needs and what it then does. -/
  | takesValue (name wanted : String) (apply : String → Options → Options)
  | flag (apply : Options → Options)
  | unknownOption
  /-- The standard input, in the place of a file. -/
  | input
  | file

/-- Tells what an argument is. -/
def classify (argument : String) : Argument :=
  match argument with
  | "--help" | "-h" => .help
  | "--version" | "-V" => .version
  | "--language" | "-l" =>
    .takesValue "--language" "value" fun value options => { options with language := some value }
  | "--grammar" | "-g" =>
    .takesValue "--grammar" "path" fun value options =>
      { options with grammars := options.grammars ++ [value] }
  | "--prefix" =>
    .takesValue "--prefix" "value" fun value options => { options with classPrefix := some value }
  | "--list" => .flag fun options => { options with isList := true }
  | "--strict" => .flag fun options => { options with isStrict := true }
  | "--verbose" | "-v" => .flag fun options => { options with isVerbose := true }
  | "-" => .input
  | other => if other.startsWith "-" then .unknownOption else .file

/-- What arguments ask for, after those before them have been put into `options`. A request for
help or for the version takes effect at once. -/
def parseFrom (options : Options) : List String → Except Complaint Task
  | [] => .ok (.work options)
  | argument :: rest =>
    match classify argument with
    | .help => .ok .help
    | .version => .ok .version
    | .takesValue name wanted apply =>
      match rest with
      | [] => .error (.missing name wanted)
      | value :: rest => parseFrom (apply value options) rest
    | .flag apply => parseFrom (apply options) rest
    | .unknownOption => .error (.unknownOption argument)
    | .input => if options.file.isSome then .error .secondFile else parseFrom options rest
    | .file =>
      if options.file.isSome then .error .secondFile
      else parseFrom { options with file := some argument } rest

/-- What the arguments of the program ask for. -/
def parse (arguments : List String) : Except Complaint Task :=
  parseFrom {} arguments

end Options

/-- The name and the version of the program. -/
def programName : String := "glint 0.1.0"

/-- What is written for the version. -/
def versionText : String := programName ++ "\n"

/-- What is written for help; `settingsPath` is where settings are read from. -/
def helpText (settingsPath : Option String) : String :=
  programName ++ " - grammar-driven syntax highlighter

Usage: glint [OPTIONS] [FILE]

Reads FILE (or stdin when FILE is missing or '-') and prints HTML.

Options:
  -l, --language NAME  Highlight as NAME instead of auto-detecting
  -g, --grammar PATH   Load a TOML grammar file (repeatable)
      --list           List the registered languages
      --strict         Fail on illegal input and engine faults
      --prefix PREFIX  CSS class prefix (default from config, else hljs-)
  -v, --verbose        Log debug output to stderr
  -h, --help           Show this help message
  -V, --version        Show version information

" ++ (match settingsPath with
    | some path => "Configuration is read from " ++ path ++ "\n"
    | none => "")

end Highlighter.CommandLine
