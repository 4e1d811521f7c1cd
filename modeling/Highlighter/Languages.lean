import Highlighter.Languages.C
import Highlighter.Languages.Markdown
import Highlighter.Languages.Python
import Highlighter.Languages.Rust
import Highlighter.Languages.Toml
import Highlighter.Registry

/-!
# The languages that come with the library
-/

namespace Highlighter

namespace Languages

/-- Text without any highlighting, which is never detected. -/
def plaintext : Grammar where
  name := "plaintext"
  aliases := ["text", "txt"]
  disableAutodetect := true

/-- All grammars, in the order in which they are tried. -/
def grammars : List Grammar :=
  [plaintext, Rust.grammar, C.grammar, C.plusGrammar, Python.grammar, Toml.grammar,
    Markdown.grammar]

end Languages

/-- The registry of the languages that come with the library, and the trace of building it. -/
def Registry.builtIn : Registry × Trace :=
  (Registry.empty.registerAll Languages.grammars).run {}

end Highlighter
