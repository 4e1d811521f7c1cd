import Highlighter.Text.Replace

/-!
# Scope names

A scope is a dotted name such as `title.function`. In HTML its first part becomes a class with the
reader's class prefix, and every later part a class that ends in one more underscore than the
one before it: `title.function.invoke` gives `hljs-title function_ invoke__`. A scope that starts
with `language:` marks the root of an embedded language.
-/

namespace Highlighter.Scope

/-- What the scope of an embedded root starts with. -/
def languageMark : String := "language:"

/-- The scope that marks the root of an embedded language. -/
def ofLanguage (language : String) : String :=
  languageMark ++ language

/-- `mark` taken off the front of `text`, if it stands there. -/
def dropFront? (mark text : List Char) : Option (List Char) :=
  if mark.isPrefixOf text then some (text.drop mark.length) else none

/-- The language whose embedded root a scope marks. -/
def language? (scope : String) : Option String :=
  (dropFront? languageMark.toList scope.toList).map String.ofList

/-- The classes of the later parts of a scope; `depth` is the number of underscores of the first. -/
def laterClasses : Nat → List (List Char) → List Char
  | _, [] => []
  | depth, part :: parts =>
    ' ' :: part ++ List.replicate depth '_' ++ laterClasses (depth + 1) parts

/-- The value of the HTML class attribute for a scope. -/
def cssClass (scope classPrefix : String) : String :=
  match language? scope with
  | some language => "language-" ++ language
  | none =>
    match Text.splitAt '.' scope.toList with
    | [] => classPrefix
    | first :: later => String.ofList (classPrefix.toList ++ first ++ laterClasses 1 later)

end Highlighter.Scope
