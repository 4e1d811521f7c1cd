import Highlighter.TokenTree

/-!
# The text and the nodes of a tree under construction

While a tree is built, some of its tokens lie in scopes that are still open. Read from the root
inwards, everything added so far forms one text, to which every event of the builder only adds at
the end. The nodes that have been closed are listed in the order in which they were closed, each
with the offset at which it starts and with its text; that is also the order in which a finished
tree lists its nodes, children first.
-/

namespace Highlighter

/-- A node of a tree, with the number of characters before it and its text. -/
structure PlacedNode where
  scope : Option String
  start : Nat
  text : String
  deriving DecidableEq, Repr

namespace Token

@[simp] theorem plain_text (content : String) : (Token.text content).plain = content :=
  rfl

@[simp] theorem plain_node (scope : Option String) (children : List Token) :
    (Token.node scope children).plain = plainList children :=
  rfl

@[simp] theorem plainList_nil : plainList [] = "" :=
  rfl

@[simp] theorem plainList_cons (token : Token) (tokens : List Token) :
    plainList (token :: tokens) = token.plain ++ plainList tokens :=
  rfl

@[simp] theorem plainList_append (first second : List Token) :
    plainList (first ++ second) = plainList first ++ plainList second := by
  induction first with
  | nil => simp
  | cons token first ih => simp [ih, String.append_assoc]

section

variable (classPrefix : String)

theorem html_text (content : String) :
    (Token.text content).html classPrefix = Text.Html.escape content :=
  rfl

theorem html_node_none (children : List Token) :
    (Token.node none children).html classPrefix = htmlList classPrefix children :=
  rfl

theorem html_node_some (scope : String) (children : List Token) :
    (Token.node (some scope) children).html classPrefix =
      "<span class=\"" ++ Scope.cssClass scope classPrefix ++ "\">" ++
        htmlList classPrefix children ++ "</span>" :=
  rfl

end

mutual
/-- The nodes of a token that starts at an offset, children before their parents. -/
def placed (start : Nat) : Token → List PlacedNode
  | .text _ => []
  | .node scope children => placedList start children ++ [⟨scope, start, plainList children⟩]

/-- The nodes of a run of tokens that starts at an offset. -/
def placedList (start : Nat) : List Token → List PlacedNode
  | [] => []
  | token :: tokens => token.placed start ++ placedList (start + token.plain.length) tokens
end

@[simp] theorem placed_text (start : Nat) (content : String) :
    (Token.text content).placed start = [] :=
  rfl

@[simp] theorem placed_node (start : Nat) (scope : Option String) (children : List Token) :
    (Token.node scope children).placed start =
      placedList start children ++ [⟨scope, start, plainList children⟩] :=
  rfl

@[simp] theorem placedList_nil (start : Nat) : placedList start [] = [] :=
  rfl

@[simp] theorem placedList_cons (start : Nat) (token : Token) (tokens : List Token) :
    placedList start (token :: tokens) =
      token.placed start ++ placedList (start + token.plain.length) tokens :=
  rfl

@[simp] theorem placedList_append (start : Nat) (first second : List Token) :
    placedList start (first ++ second) =
      placedList start first ++ placedList (start + (plainList first).length) second := by
  induction first generalizing start with
  | nil => simp
  | cons token first ih => simp [ih, Nat.add_assoc]

end Token

namespace TokenTree

/-- The text of the root's tokens and of the tokens in the given open scopes. -/
def textWithin (latest : List Token) : List OpenNode → String
  | [] => Token.plainList latest.reverse
  | node :: outer => textWithin latest outer ++ Token.plainList node.latest.reverse

/-- The nodes that have been closed at the root and in the given open scopes. -/
def placedWithin (latest : List Token) : List OpenNode → List PlacedNode
  | [] => Token.placedList 0 latest.reverse
  | node :: outer =>
    placedWithin latest outer ++
      Token.placedList (textWithin latest outer).length node.latest.reverse

/-- The given open scopes with the offsets at which they were opened, the innermost first. -/
def startsWithin (latest : List Token) : List OpenNode → List (String × Nat)
  | [] => []
  | node :: outer => (node.scope, (textWithin latest outer).length) :: startsWithin latest outer

/-- Everything added to a tree so far, open scopes included. -/
def content (tree : TokenTree) : String :=
  textWithin tree.latest tree.openNodes

/-- The nodes closed so far, in the order in which they were closed. -/
def placed (tree : TokenTree) : List PlacedNode :=
  placedWithin tree.latest tree.openNodes

/-- The open scopes with the offsets at which they were opened, the innermost first. -/
def starts (tree : TokenTree) : List (String × Nat) :=
  startsWithin tree.latest tree.openNodes

theorem plainList_pushText (content : String) (latest : List Token) :
    Token.plainList (pushText content latest).reverse =
      Token.plainList latest.reverse ++ content := by
  unfold pushText
  split <;> simp [String.append_assoc]

theorem placedList_pushText (start : Nat) (content : String) (latest : List Token) :
    Token.placedList start (pushText content latest).reverse =
      Token.placedList start latest.reverse := by
  unfold pushText
  split <;> simp

@[simp] theorem content_empty : empty.content = "" := by
  simp [empty, content, textWithin]

@[simp] theorem placed_empty : empty.placed = [] := by
  simp [empty, placed, placedWithin]

@[simp] theorem starts_empty : empty.starts = [] := rfl

@[simp] theorem content_addToken (token : Token) (tree : TokenTree) :
    (tree.addToken token).content = tree.content ++ token.plain := by
  unfold addToken onInnermost
  split <;> simp [content, textWithin, *, String.append_assoc]

@[simp] theorem starts_addToken (token : Token) (tree : TokenTree) :
    (tree.addToken token).starts = tree.starts := by
  unfold addToken onInnermost
  split <;> simp [starts, startsWithin, *]

theorem placed_addToken (token : Token) (tree : TokenTree) :
    (tree.addToken token).placed = tree.placed ++ token.placed tree.content.length := by
  unfold addToken onInnermost
  split <;> simp [placed, placedWithin, content, textWithin, *]

@[simp] theorem content_addText (content : String) (tree : TokenTree) :
    (tree.addText content).content = tree.content ++ content := by
  unfold addText
  split
  · next hempty => simp [String.isEmpty_iff.mp hempty]
  · unfold onInnermost
    split <;> simp [TokenTree.content, textWithin, plainList_pushText, *, String.append_assoc]

@[simp] theorem starts_addText (content : String) (tree : TokenTree) :
    (tree.addText content).starts = tree.starts := by
  unfold addText
  split
  · rfl
  · unfold onInnermost
    split <;> simp [starts, startsWithin, *]

@[simp] theorem placed_addText (content : String) (tree : TokenTree) :
    (tree.addText content).placed = tree.placed := by
  unfold addText
  split
  · rfl
  · unfold onInnermost
    split <;> simp [placed, placedWithin, placedList_pushText, *]

@[simp] theorem content_openNode (scope : String) (tree : TokenTree) :
    (tree.openNode scope).content = tree.content := by
  simp [openNode, content, textWithin]

@[simp] theorem starts_openNode (scope : String) (tree : TokenTree) :
    (tree.openNode scope).starts = (scope, tree.content.length) :: tree.starts := rfl

@[simp] theorem placed_openNode (scope : String) (tree : TokenTree) :
    (tree.openNode scope).placed = tree.placed := by
  simp [openNode, placed, placedWithin]

@[simp] theorem content_closeNode (tree : TokenTree) : tree.closeNode.content = tree.content := by
  unfold closeNode
  split
  · rfl
  · next node outer hopen =>
    rw [content_addToken]
    simp [content, textWithin, hopen]

@[simp] theorem starts_closeNode (tree : TokenTree) : tree.closeNode.starts = tree.starts.tail := by
  unfold closeNode
  split
  · next hopen => simp [starts, startsWithin, hopen]
  · next node outer hopen =>
    rw [starts_addToken]
    simp [starts, startsWithin, hopen]

/-- The innermost open scope becomes a node, which reaches from the offset where the scope was
opened to the end of the text. -/
theorem placed_closeNode {tree : TokenTree} {scope : String} {start : Nat}
    {outer : List (String × Nat)} (hstarts : tree.starts = (scope, start) :: outer) :
    ∃ before text, tree.content = before ++ text ∧ before.length = start ∧
      tree.closeNode.placed = tree.placed ++ [⟨some scope, start, text⟩] := by
  unfold closeNode
  split
  · next hopen => simp [starts, startsWithin, hopen] at hstarts
  · next node nodes hopen =>
    simp only [starts, hopen, startsWithin, List.cons.injEq, Prod.mk.injEq] at hstarts
    obtain ⟨⟨rfl, rfl⟩, -⟩ := hstarts
    refine ⟨textWithin tree.latest nodes, Token.plainList node.latest.reverse, ?_, rfl, ?_⟩
    · simp [content, hopen, textWithin]
    · rw [placed_addToken]
      simp [placed, placedWithin, hopen, content]

@[simp] theorem content_addScoped (content scope : String) (tree : TokenTree) :
    (tree.addScoped content scope).content = tree.content ++ content := by
  unfold addScoped
  split
  · next hempty => simp [String.isEmpty_iff.mp hempty]
  · simp

@[simp] theorem starts_addScoped (content scope : String) (tree : TokenTree) :
    (tree.addScoped content scope).starts = tree.starts := by
  unfold addScoped
  split <;> simp

theorem placed_addScoped (content scope : String) (tree : TokenTree) :
    tree.placed <+: (tree.addScoped content scope).placed := by
  unfold addScoped
  split
  · exact List.prefix_rfl
  · have hstarts : ((tree.openNode scope).addText content).starts =
        (scope, tree.content.length) :: tree.starts := by simp
    obtain ⟨_, text, _, _, hplaced⟩ := placed_closeNode hstarts
    rw [hplaced]
    simp

theorem closeMany_length_openNodes (count : Nat) (tree : TokenTree) :
    (closeMany count tree).openNodes.length = tree.openNodes.length - count := by
  induction count generalizing tree with
  | zero => rfl
  | succ count ih =>
    have hclose : tree.closeNode.openNodes.length = tree.openNodes.length - 1 := by
      unfold closeNode
      split
      · next hopen => simp [hopen]
      · next node outer hopen =>
        unfold addToken onInnermost
        split <;> simp_all
    rw [closeMany, ih, hclose]
    omega

@[simp] theorem content_closeMany (count : Nat) (tree : TokenTree) :
    (closeMany count tree).content = tree.content := by
  induction count generalizing tree with
  | zero => rfl
  | succ count ih => rw [closeMany, ih, content_closeNode]

@[simp] theorem openNodes_finish (tree : TokenTree) : tree.finish.openNodes = [] := by
  apply List.eq_nil_of_length_eq_zero
  rw [finish, closeMany_length_openNodes]
  omega

@[simp] theorem content_finish (tree : TokenTree) : tree.finish.content = tree.content :=
  content_closeMany _ _

/-- Without open scopes, the text of the root is all there is. -/
theorem plain_eq_content {tree : TokenTree} (hopen : tree.openNodes = []) :
    tree.plain = tree.content := by
  simp [plain, children, content, hopen, textWithin]

@[simp] theorem plain_finish (tree : TokenTree) : tree.finish.plain = tree.content := by
  rw [plain_eq_content (openNodes_finish tree), content_finish]

theorem finish_of_openNodes_eq_nil {tree : TokenTree} (hopen : tree.openNodes = []) :
    tree.finish = tree := by
  simp [finish, hopen, closeMany]

@[simp] theorem content_addEmbedded (tree inner : TokenTree) (language : Option String) :
    (tree.addEmbedded inner language).content = tree.content ++ inner.content := by
  have hplain : Token.plainList inner.finish.children = inner.content := plain_finish inner
  simp [addEmbedded, hplain]

@[simp] theorem starts_addEmbedded (tree inner : TokenTree) (language : Option String) :
    (tree.addEmbedded inner language).starts = tree.starts := by
  simp [addEmbedded]

theorem placed_addEmbedded (tree inner : TokenTree) (language : Option String) :
    tree.placed <+: (tree.addEmbedded inner language).placed := by
  rw [addEmbedded, placed_addToken]
  exact List.prefix_append _ _

end TokenTree

end Highlighter
