import Highlighter.Scope
import Highlighter.Text.Html

/-!
# Token trees

Scanning a text yields a stream of events: a scope opens, a scope closes, text is added. A
`TokenTree` collects them. Scopes may stay open while the tree is built; `finish` closes them, and
a close with nothing open does nothing, so every stream of events gives a tree.
-/

namespace Highlighter

/-- A piece of highlighted text: plain text, or a run of tokens under a scope. A node without a
scope shows its children in place. -/
inductive Token where
  | text (content : String)
  | node (scope : Option String) (children : List Token)

instance : Inhabited Token := ⟨.text ""⟩

namespace Token

mutual
/-- The plain text of a token. -/
def plain : Token → String
  | .text content => content
  | .node _ children => plainList children

/-- The plain text of a run of tokens. -/
def plainList : List Token → String
  | [] => ""
  | token :: tokens => token.plain ++ plainList tokens
end

mutual
/-- The HTML of a token: one `span` per scoped node, text with its entities. -/
def html (classPrefix : String) : Token → String
  | .text content => Text.Html.escape content
  | .node none children => htmlList classPrefix children
  | .node (some scope) children =>
    "<span class=\"" ++ Scope.cssClass scope classPrefix ++ "\">" ++
      htmlList classPrefix children ++ "</span>"

/-- The HTML of a run of tokens. -/
def htmlList (classPrefix : String) : List Token → String
  | [] => ""
  | token :: tokens => token.html classPrefix ++ htmlList classPrefix tokens
end

end Token

/-- A scope that is open: the tokens added to it so far, the latest first. -/
structure OpenNode where
  scope : String
  latest : List Token

/-- A tree under construction: the tokens of its root, the latest first, and the open scopes, the
innermost first. A token belongs to the innermost open scope, or to the root. -/
structure TokenTree where
  latest : List Token := []
  openNodes : List OpenNode := []

namespace TokenTree

/-- The tree before any event. -/
def empty : TokenTree := {}

/-- Text after the tokens `latest`: it joins a text token that stands last. -/
def pushText (content : String) : List Token → List Token
  | .text last :: rest => .text (last ++ content) :: rest
  | latest => .text content :: latest

/-- Applies `f` to the tokens of the innermost open scope, or of the root. -/
def onInnermost (f : List Token → List Token) (tree : TokenTree) : TokenTree :=
  match tree.openNodes with
  | [] => { tree with latest := f tree.latest }
  | node :: outer => { tree with openNodes := { node with latest := f node.latest } :: outer }

/-- Adds a finished token. -/
def addToken (token : Token) (tree : TokenTree) : TokenTree :=
  tree.onInnermost (token :: ·)

/-- Adds text; empty text leaves no token. -/
def addText (content : String) (tree : TokenTree) : TokenTree :=
  if content.isEmpty then tree else tree.onInnermost (pushText content)

/-- Opens a scope. -/
def openNode (scope : String) (tree : TokenTree) : TokenTree :=
  { tree with openNodes := ⟨scope, []⟩ :: tree.openNodes }

/-- Closes the innermost open scope, if there is one. -/
def closeNode (tree : TokenTree) : TokenTree :=
  match tree.openNodes with
  | [] => tree
  | node :: outer =>
    addToken (.node (some node.scope) node.latest.reverse) { tree with openNodes := outer }

/-- Adds text under a scope of its own; empty text leaves no node. -/
def addScoped (content scope : String) (tree : TokenTree) : TokenTree :=
  if content.isEmpty then tree else ((tree.openNode scope).addText content).closeNode

/-- Closes open scopes one by one, at most `count` of them. -/
def closeMany : Nat → TokenTree → TokenTree
  | 0, tree => tree
  | count + 1, tree => closeMany count tree.closeNode

/-- Closes every open scope. -/
def finish (tree : TokenTree) : TokenTree :=
  closeMany tree.openNodes.length tree

/-- The tokens of the root, without the scopes that are still open. -/
def children (tree : TokenTree) : List Token :=
  tree.latest.reverse

/-- Adds a finished tree as one node: the root of the named language, or a node without a scope
when no language is known. -/
def addEmbedded (tree inner : TokenTree) (language : Option String) : TokenTree :=
  tree.addToken (.node (language.map Scope.ofLanguage) inner.finish.children)

/-- The plain text of the root. -/
def plain (tree : TokenTree) : String :=
  Token.plainList tree.children

/-- The HTML of the root. -/
def html (classPrefix : String) (tree : TokenTree) : String :=
  Token.htmlList classPrefix tree.children

end TokenTree

end Highlighter
