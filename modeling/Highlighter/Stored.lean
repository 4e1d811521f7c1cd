import Highlighter.Registry
import Highlighter.Stored.Settings

/-!
# Grammars from files

Registering the grammar of a file.
-/

namespace Highlighter.Registry

/-- Registers the grammar of a file and gives its name. A file that holds no grammar leaves the
registry as it is. -/
def loadGrammar (registry : Registry) (path : String) (file : Except FileError String) :
    Traced (Except Fault String × Registry) := do
  match Grammar.ofFile path file with
  | .error fault => return (.error fault, registry)
  | .ok grammar =>
    let (outcome, registry) ← registry.registerGrammar grammar
    return (outcome.map fun _ => grammar.name, registry)

end Highlighter.Registry
