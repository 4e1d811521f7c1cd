import Highlighter.Proofs.TokenTree

/-!
# Trees from streams of events

A stream of events need not be well nested: it may close scopes that nobody has opened and leave
others open. Once the surplus closes are dropped and the missing ones added, the events are well
nested and stand for one run of tokens, text next to text being one token. That run is what the
builder makes of the events, though it keeps its open scopes on a stack and attaches a node only
when it closes. It loses no text and leaves no empty token.
-/

namespace Highlighter

/-- An event that a tree under construction is told of. -/
inductive TreeEvent where
  | opens (scope : String)
  | closes
  | text (content : String)
  /-- Text under a scope of its own. -/
  | inScope (content scope : String)
  /-- The tree of an embedded language. -/
  | embedded (inner : TokenTree) (language : Option String)
  /-- Every open scope closes. The end of a stream is told in the same way. -/
  | closesAll

namespace TreeEvent

/-- A tree after an event. -/
def apply (tree : TokenTree) : TreeEvent → TokenTree
  | .opens scope => tree.openNode scope
  | .closes => tree.closeNode
  | .text content => tree.addText content
  | .inScope content scope => tree.addScoped content scope
  | .embedded inner language => tree.addEmbedded inner language
  | .closesAll => tree.finish

/-- The text that an event adds. -/
def plain : TreeEvent → String
  | .text content | .inScope content _ => content
  | .embedded inner _ => inner.finish.plain
  | .opens _ | .closes | .closesAll => ""

/-- The events with every scope closed once, when `depth` scopes are open before them: a close with
nothing open is dropped, and the missing ones are added where all scopes close and at the end. -/
def balanced : (depth : Nat) → List TreeEvent → List TreeEvent
  | depth, [] => List.replicate depth .closes
  | depth, .opens scope :: events => .opens scope :: balanced (depth + 1) events
  | 0, .closes :: events => balanced 0 events
  | depth + 1, .closes :: events => .closes :: balanced depth events
  | depth, .closesAll :: events => List.replicate depth .closes ++ balanced 0 events
  | depth, event :: events => event :: balanced depth events

end TreeEvent

namespace Token

/-- Text in front of tokens. It joins a text token that stands first; empty text leaves no token. -/
def consText (content : String) : List Token → List Token
  | .text next :: rest => .text (content ++ next) :: rest
  | tokens => if content.isEmpty then tokens else .text content :: tokens

/-- Whether a run of tokens starts with text. -/
def startsWithText : List Token → Bool
  | .text _ :: _ => true
  | _ => false

/-- No text token of a run is empty, and no two of them stand next to each other. -/
def Merged : List Token → Prop
  | [] => True
  | .text content :: tokens => content ≠ "" ∧ startsWithText tokens = false ∧ Merged tokens
  | .node _ _ :: tokens => Merged tokens

mutual
/-- The children of every node in a token are merged. -/
def Canonical : Token → Prop
  | .text _ => True
  | .node _ children => Merged children ∧ CanonicalList children

/-- The children of every node in a run of tokens are merged. -/
def CanonicalList : List Token → Prop
  | [] => True
  | token :: tokens => token.Canonical ∧ CanonicalList tokens
end

end Token

open Token (consText Merged)

/-- Well-nested events, and the run of tokens that they stand for. -/
inductive Denotes : List TreeEvent → List Token → Prop where
  | nil : Denotes [] []
  | text (content : String) {events : List TreeEvent} {tokens : List Token}
      (h : Denotes events tokens) : Denotes (.text content :: events) (consText content tokens)
  | inScope (content scope : String) {events : List TreeEvent} {tokens : List Token}
      (h : Denotes events tokens) :
      Denotes (.inScope content scope :: events)
        (if content.isEmpty then tokens else .node (some scope) [.text content] :: tokens)
  | embedded (inner : TokenTree) (language : Option String) {events : List TreeEvent}
      {tokens : List Token} (h : Denotes events tokens) :
      Denotes (.embedded inner language :: events)
        (.node (language.map Scope.ofLanguage) inner.finish.children :: tokens)
  | nested (scope : String) {inside events : List TreeEvent} {children tokens : List Token}
      (hinside : Denotes inside children) (h : Denotes events tokens) :
      Denotes (.opens scope :: (inside ++ .closes :: events))
        (.node (some scope) children :: tokens)

/-! ## Merged text -/

namespace Token

theorem merged_consText {tokens : List Token} (h : Merged tokens) (content : String) :
    Merged (consText content tokens) := by
  unfold consText
  split
  · next next rest =>
    obtain ⟨hnext, hrest⟩ := h
    refine ⟨fun hempty => hnext ?_, hrest⟩
    exact (String.append_eq_empty_iff.mp hempty).2
  · next hfirst =>
    split
    · exact h
    · next hcontent =>
      refine ⟨fun hempty => hcontent (String.isEmpty_iff.mpr hempty), ?_, h⟩
      cases tokens with
      | nil => rfl
      | cons token rest =>
        cases token with
        | text next => exact absurd rfl (hfirst next rest)
        | node scope children => rfl

theorem canonicalList_consText {tokens : List Token} (h : CanonicalList tokens)
    (content : String) : CanonicalList (consText content tokens) := by
  unfold consText
  split
  · simp only [CanonicalList] at h ⊢
    exact ⟨by simp only [Canonical], h.2⟩
  · split
    · exact h
    · simp only [CanonicalList]
      exact ⟨by simp only [Canonical], h⟩

end Token

theorem Denotes.merged {events : List TreeEvent} {tokens : List Token} (h : Denotes events tokens) :
    Merged tokens := by
  induction h with
  | nil => trivial
  | text content _ ih => exact Token.merged_consText ih content
  | inScope content scope _ ih =>
    split
    · exact ih
    · exact ih
  | embedded inner language _ ih => exact ih
  | nested scope _ _ _ ih => exact ih

/-! ## Building what events stand for -/

namespace TokenTree

/-- A tree after events. -/
def runEvents (tree : TokenTree) (events : List TreeEvent) : TokenTree :=
  events.foldl TreeEvent.apply tree

/-- The tree that events build from nothing. -/
def build (events : List TreeEvent) : TokenTree :=
  empty.runEvents events

/-- Tokens after the tokens `latest`, text joining text. -/
def pushAll : List Token → List Token → List Token
  | [], latest => latest
  | .text content :: tokens, latest => pushAll tokens (pushText content latest)
  | .node scope children :: tokens, latest => pushAll tokens (.node scope children :: latest)

theorem pushText_pushText (first second : String) (latest : List Token) :
    pushText second (pushText first latest) = pushText (first ++ second) latest := by
  cases latest with
  | nil => rfl
  | cons token latest =>
    cases token with
    | text last => simp only [pushText, String.append_assoc]
    | node scope children => rfl

theorem pushAll_consText (content : String) (tokens latest : List Token) :
    pushAll (consText content tokens) latest =
      pushAll tokens (if content.isEmpty then latest else pushText content latest) := by
  unfold consText
  split
  · next next rest =>
    rw [pushAll, pushAll]
    split
    · next hempty => rw [String.isEmpty_iff.mp hempty, String.empty_append]
    · rw [pushText_pushText]
  · split
    · rfl
    · rw [pushAll]

/-- Merged tokens come to stand one by one behind tokens that do not end with text. -/
theorem pushAll_of_merged {tokens : List Token} (h : Merged tokens) {latest : List Token}
    (hseam : Token.startsWithText tokens = true → Token.startsWithText latest = false) :
    pushAll tokens latest = tokens.reverse ++ latest := by
  induction tokens generalizing latest with
  | nil => rfl
  | cons token tokens ih =>
    rw [List.reverse_cons, List.append_assoc, List.singleton_append]
    cases token with
    | text content =>
      obtain ⟨_, hnext, htokens⟩ := h
      have hlatest : pushText content latest = .text content :: latest := by
        have hseam := hseam rfl
        cases latest with
        | nil => rfl
        | cons token latest =>
          cases token with
          | text last => cases hseam
          | node scope children => rfl
      rw [pushAll, hlatest]
      refine ih htokens fun hfirst => ?_
      rw [hnext] at hfirst
      cases hfirst
    | node scope children =>
      rw [pushAll]
      exact ih h fun _ => rfl

theorem reverse_pushAll {tokens : List Token} (h : Merged tokens) :
    (pushAll tokens []).reverse = tokens := by
  rw [pushAll_of_merged h fun _ => rfl, List.append_nil, List.reverse_reverse]

theorem onInnermost_onInnermost (f g : List Token → List Token) (tree : TokenTree) :
    (tree.onInnermost f).onInnermost g = tree.onInnermost fun latest => g (f latest) := by
  unfold onInnermost
  cases tree.openNodes <;> rfl

theorem onInnermost_id (tree : TokenTree) : (tree.onInnermost fun latest => latest) = tree := by
  obtain ⟨latest, nodes⟩ := tree
  cases nodes <;> rfl

/-- What is added inside of a scope becomes one node when the scope closes. -/
theorem closeNode_onInnermost (scope : String) (f : List Token → List Token) (tree : TokenTree) :
    ((tree.openNode scope).onInnermost f).closeNode =
      tree.onInnermost (.node (some scope) (f []).reverse :: ·) := rfl

theorem addText_eq (content : String) (tree : TokenTree) :
    tree.addText content = tree.onInnermost fun latest =>
      if content.isEmpty then latest else pushText content latest := by
  cases hempty : content.isEmpty with
  | false => simp only [addText, hempty, Bool.false_eq_true, if_false]
  | true => simp only [addText, hempty, if_true, onInnermost_id]

theorem addScoped_eq (content scope : String) (tree : TokenTree) :
    tree.addScoped content scope = tree.onInnermost fun latest =>
      if content.isEmpty then latest else .node (some scope) [.text content] :: latest := by
  cases hempty : content.isEmpty with
  | false =>
    simp only [addScoped, addText, hempty, Bool.false_eq_true, if_false, closeNode_onInnermost]
    rfl
  | true => simp only [addScoped, hempty, if_true, onInnermost_id]

/-- Well-nested events add the tokens that they stand for to the innermost open scope. -/
theorem runEvents_of_denotes {events : List TreeEvent} {tokens : List Token}
    (h : Denotes events tokens) (tree : TokenTree) :
    tree.runEvents events = tree.onInnermost (pushAll tokens) := by
  induction h generalizing tree with
  | nil => exact (onInnermost_id tree).symm
  | text content _ ih =>
    refine (ih (tree.addText content)).trans ?_
    rw [addText_eq, onInnermost_onInnermost]
    exact congrArg (tree.onInnermost ·) (funext fun latest => (pushAll_consText _ _ latest).symm)
  | inScope content scope _ ih =>
    refine (ih (tree.addScoped content scope)).trans ?_
    rw [addScoped_eq, onInnermost_onInnermost]
    refine congrArg (tree.onInnermost ·) (funext fun latest => ?_)
    split <;> rfl
  | embedded inner language _ ih =>
    refine (ih (tree.addEmbedded inner language)).trans ?_
    rw [addEmbedded, addToken, onInnermost_onInnermost]
    rfl
  | @nested scope inside events children tokens hinside _ ihinside ih =>
    have hnode : (tree.openNode scope).runEvents inside =
        (tree.openNode scope).onInnermost (pushAll children) := ihinside _
    have hsplit : tree.runEvents (.opens scope :: (inside ++ .closes :: events)) =
        (((tree.openNode scope).runEvents inside).closeNode).runEvents events := by
      simp only [runEvents, List.foldl_cons, List.foldl_append, TreeEvent.apply]
    rw [hsplit, hnode, closeNode_onInnermost, reverse_pushAll hinside.merged, ih,
      onInnermost_onInnermost]
    rfl

/-- From nothing, well-nested events build just the tokens that they stand for. -/
theorem build_of_denotes {events : List TreeEvent} {tokens : List Token}
    (h : Denotes events tokens) : build events = ⟨tokens.reverse, []⟩ := by
  have hlatest : pushAll tokens [] = tokens.reverse := by
    rw [← List.reverse_inj, reverse_pushAll h.merged, List.reverse_reverse]
  rw [build, runEvents_of_denotes h, ← hlatest]
  rfl

/-! ## Balancing events -/

theorem starts_length (tree : TokenTree) : tree.starts.length = tree.openNodes.length := by
  have hstarts : ∀ nodes : List OpenNode, (startsWithin tree.latest nodes).length = nodes.length := by
    intro nodes
    induction nodes with
    | nil => rfl
    | cons node nodes ih => rw [startsWithin, List.length_cons, List.length_cons, ih]
  exact hstarts tree.openNodes

theorem runEvents_closes (count : Nat) (tree : TokenTree) :
    tree.runEvents (List.replicate count .closes) = closeMany count tree := by
  induction count generalizing tree with
  | zero => rfl
  | succ count ih => exact ih tree.closeNode

/-- The balanced events build what the events themselves come to in the end. -/
theorem runEvents_balanced (events : List TreeEvent) (tree : TokenTree) :
    tree.runEvents (TreeEvent.balanced tree.starts.length events) =
      (tree.runEvents events).finish := by
  -- the depth follows the open scopes of the tree, so the induction is over all trees
  induction events generalizing tree with
  | nil =>
    rw [TreeEvent.balanced, runEvents_closes, starts_length]
    rfl
  | cons event events ih =>
    have hnext := ih (event.apply tree)
    cases event with
    | opens scope =>
      rw [TreeEvent.balanced]
      exact hnext
    | closes =>
      cases hopen : tree.starts with
      | nil =>
        have hnodes : tree.openNodes = [] := by
          apply List.eq_nil_of_length_eq_zero
          rw [← starts_length, hopen, List.length_nil]
        have hclosed : tree.closeNode = tree := by
          rw [closeNode, hnodes]
        simp only [TreeEvent.apply, hclosed, hopen] at hnext
        simp only [List.length_nil, TreeEvent.balanced, runEvents, List.foldl_cons, TreeEvent.apply,
          hclosed]
        exact hnext
      | cons start outer =>
        simp only [TreeEvent.apply, starts_closeNode, hopen, List.tail_cons] at hnext
        rw [List.length_cons, TreeEvent.balanced]
        exact hnext
    | text content =>
      simp only [TreeEvent.apply, starts_addText] at hnext
      exact hnext
    | inScope content scope =>
      simp only [TreeEvent.apply, starts_addScoped] at hnext
      exact hnext
    | embedded inner language =>
      simp only [TreeEvent.apply, starts_addEmbedded] at hnext
      exact hnext
    | closesAll =>
      have hdepth : tree.finish.starts.length = 0 := by
        rw [starts_length, openNodes_finish, List.length_nil]
      have hclosed : tree.runEvents (List.replicate tree.starts.length .closes) = tree.finish := by
        rw [runEvents_closes, starts_length]
        rfl
      simp only [TreeEvent.apply, hdepth] at hnext
      rw [TreeEvent.balanced, runEvents, List.foldl_append]
      exact (congrArg (runEvents · _) hclosed).trans hnext

end TokenTree

/-- Events that close `depth` scopes one by one, the events before each close being well nested. -/
def Completes : (depth : Nat) → List TreeEvent → Prop
  | 0, events => ∃ tokens, Denotes events tokens
  | depth + 1, events => ∃ inside tokens rest, Denotes inside tokens ∧ Completes depth rest ∧
      events = inside ++ .closes :: rest

theorem Completes.append {events : List TreeEvent} {depth : Nat} (h : Completes depth events)
    (front : List TreeEvent)
    (hfront : ∀ events tokens, Denotes events tokens → ∃ tokens', Denotes (front ++ events) tokens') :
    Completes depth (front ++ events) := by
  cases depth with
  | zero =>
    obtain ⟨tokens, htokens⟩ := h
    exact hfront events tokens htokens
  | succ depth =>
    obtain ⟨inside, tokens, rest, hinside, hrest, rfl⟩ := h
    obtain ⟨tokens', hdenotes⟩ := hfront inside tokens hinside
    exact ⟨front ++ inside, tokens', rest, hdenotes, hrest, (List.append_assoc _ _ _).symm⟩

theorem Completes.closes {events : List TreeEvent} (h : Completes 0 events) (depth : Nat) :
    Completes depth (List.replicate depth .closes ++ events) := by
  induction depth with
  | zero => exact h
  | succ depth ih => exact ⟨[], [], _, .nil, ih, rfl⟩

/-- Balanced events are well nested. -/
theorem completes_balanced (events : List TreeEvent) (depth : Nat) :
    Completes depth (TreeEvent.balanced depth events) := by
  induction events generalizing depth with
  | nil =>
    have hnothing : Completes 0 [] := ⟨[], .nil⟩
    have hcloses := hnothing.closes depth
    rw [List.append_nil] at hcloses
    rwa [TreeEvent.balanced]
  | cons event events ih =>
    cases event with
    | opens scope =>
      -- the scope ends with the first close that the rest has left over
      obtain ⟨inside, children, rest, hinside, hrest, hbalanced⟩ := ih (depth + 1)
      rw [TreeEvent.balanced, hbalanced]
      have hnode := hrest.append (.opens scope :: (inside ++ [.closes])) ?_
      · simpa using hnode
      · intro after tokens hafter
        refine ⟨.node (some scope) children :: tokens, ?_⟩
        simpa using Denotes.nested scope hinside hafter
    | closes =>
      cases depth with
      | zero =>
        rw [TreeEvent.balanced]
        exact ih 0
      | succ depth =>
        rw [TreeEvent.balanced]
        exact ⟨[], [], _, .nil, ih depth, rfl⟩
    | text content =>
      exact (ih depth).append [.text content] fun _ tokens h => ⟨_, h.text content⟩
    | inScope content scope =>
      exact (ih depth).append [.inScope content scope] fun _ tokens h =>
        ⟨_, h.inScope content scope⟩
    | embedded inner language =>
      exact (ih depth).append [.embedded inner language] fun _ tokens h =>
        ⟨_, h.embedded inner language⟩
    | closesAll =>
      rw [TreeEvent.balanced]
      exact (ih 0).closes depth

/-! ## The finished tree -/

namespace TokenTree

/-- Trees built by events, the embedded ones among them built in the same way. -/
inductive IsBuilt : TokenTree → Prop where
  | build (events : List TreeEvent)
      (h : ∀ inner language, .embedded inner language ∈ events → IsBuilt inner) :
      IsBuilt (build events)

theorem mem_balanced {event : TreeEvent} {depth : Nat} {events : List TreeEvent}
    (h : event ∈ TreeEvent.balanced depth events) : event = .closes ∨ event ∈ events := by
  fun_induction TreeEvent.balanced depth events with
  | case1 depth => exact .inl (List.eq_of_mem_replicate h)
  | case2 depth scope events ih => grind
  | case3 events ih => grind
  | case4 depth events ih => grind
  | case5 depth events ih =>
    rcases List.mem_append.mp h with hcloses | h
    · exact .inl (List.eq_of_mem_replicate hcloses)
    · exact (ih h).imp_right (List.mem_cons_of_mem _)
  | case6 depth event events _ _ _ ih => grind

/-- The tokens of the finished tree are what the balanced events stand for. -/
theorem denotes_children_finish (events : List TreeEvent) :
    Denotes (TreeEvent.balanced 0 events) (build events).finish.children := by
  obtain ⟨tokens, htokens⟩ := completes_balanced events 0
  have hbuilt : (build events).finish = ⟨tokens.reverse, []⟩ :=
    (runEvents_balanced events empty).symm.trans (build_of_denotes htokens)
  rw [hbuilt, children, List.reverse_reverse]
  exact htokens

theorem content_runEvents (events : List TreeEvent) (tree : TokenTree) :
    (tree.runEvents events).content = tree.content ++ String.join (events.map TreeEvent.plain) := by
  induction events generalizing tree with
  | nil => simp [runEvents]
  | cons event events ih =>
    have hadds : (event.apply tree).content = tree.content ++ event.plain := by
      cases event <;> simp [TreeEvent.apply, TreeEvent.plain]
    rw [runEvents, List.foldl_cons]
    refine (ih (event.apply tree)).trans ?_
    rw [hadds, List.map_cons, String.join_cons, String.append_assoc]

/-- Where the embedded trees are canonical, so is what events stand for. -/
theorem canonicalList_of_denotes {events : List TreeEvent} {tokens : List Token}
    (h : Denotes events tokens)
    (hembedded : ∀ inner language, .embedded inner language ∈ events →
      Merged inner.finish.children ∧ Token.CanonicalList inner.finish.children) :
    Token.CanonicalList tokens := by
  induction h with
  | nil => simp only [Token.CanonicalList]
  | text content _ ih =>
    exact Token.canonicalList_consText
      (ih fun inner language hmem => hembedded inner language (List.mem_cons_of_mem _ hmem)) content
  | inScope content scope _ ih =>
    have htokens := ih fun inner language hmem =>
      hembedded inner language (List.mem_cons_of_mem _ hmem)
    split
    · exact htokens
    · next hcontent =>
      have hne : content ≠ "" := fun hempty => hcontent (String.isEmpty_iff.mpr hempty)
      simp only [Token.CanonicalList, Token.Canonical, Merged, Token.startsWithText]
      exact ⟨⟨⟨hne, trivial, trivial⟩, trivial, trivial⟩, htokens⟩
  | embedded inner language _ ih =>
    have htokens := ih fun inner language hmem =>
      hembedded inner language (List.mem_cons_of_mem _ hmem)
    simp only [Token.CanonicalList, Token.Canonical]
    exact ⟨hembedded inner language List.mem_cons_self, htokens⟩
  | nested scope hinside _ ihinside ih =>
    have hchildren := ihinside fun inner language hmem =>
      hembedded inner language (by simp [hmem])
    have htokens := ih fun inner language hmem => hembedded inner language (by simp [hmem])
    simp only [Token.CanonicalList, Token.Canonical]
    exact ⟨⟨hinside.merged, hchildren⟩, htokens⟩

/-- A tree that events build is canonical once it is finished. -/
theorem IsBuilt.canonical {tree : TokenTree} (h : IsBuilt tree) :
    Merged tree.finish.children ∧ Token.CanonicalList tree.finish.children := by
  induction h with
  | build events _ ih =>
    have hdenotes := denotes_children_finish events
    refine ⟨hdenotes.merged, canonicalList_of_denotes hdenotes fun inner language hmem => ?_⟩
    rcases mem_balanced hmem with hcloses | hmem
    · cases hcloses
    · exact ih inner language hmem

/-- Whatever events build a tree, once it is finished no scope is open, and its tokens are the one
run that the balanced events stand for. Its text is what the events have added, in their order. Where
the embedded trees have been built in the same way, no node has an empty text token or two next to
each other. -/
theorem finish_canonical (events : List TreeEvent) :
    let tree := (build events).finish
    tree.openNodes = [] ∧
      (∀ tokens, Denotes (TreeEvent.balanced 0 events) tokens ↔ tokens = tree.children) ∧
      tree.plain = String.join (events.map TreeEvent.plain) ∧
      ((∀ inner language, .embedded inner language ∈ events → IsBuilt inner) →
        Merged tree.children ∧ Token.CanonicalList tree.children) := by
  intro tree
  have hdenotes : Denotes (TreeEvent.balanced 0 events) tree.children :=
    denotes_children_finish events
  refine ⟨openNodes_finish _, fun tokens => ?_, ?_, fun hembedded => ?_⟩
  · constructor
    · intro htokens
      have hsame := (build_of_denotes htokens).symm.trans (build_of_denotes hdenotes)
      injection hsame with hlatest
      exact List.reverse_inj.mp hlatest
    · rintro rfl
      exact hdenotes
  · rw [plain_finish, build, content_runEvents, content_empty, String.empty_append]
  · exact (IsBuilt.build events hembedded).canonical

/-- A stream that closes too much, splits its text, embeds a tree whose scope is still open, and
leaves a scope of its own open. -/
def ragged : List TreeEvent :=
  [.closes, .text "a", .text "", .text "b", .opens "x", .closes, .closes, .opens "y", .text "c",
    .embedded (build [.opens "z", .text "d"]) none, .inScope "" "w"]

theorem finish_canonical_ragged :
    (build ragged).finish.children =
      [.text "ab", .node (some "x") [],
        .node (some "y") [.text "c", .node none [.node (some "z") [.text "d"]]]] ∧
      (∀ tokens, Denotes (TreeEvent.balanced 0 ragged) tokens ↔
        tokens = (build ragged).finish.children) ∧
      (build ragged).finish.plain = "abcd" ∧
      Merged (build ragged).finish.children ∧
      Token.CanonicalList (build ragged).finish.children := by
  obtain ⟨-, hdenotes, htext, hcanonical⟩ := finish_canonical ragged
  refine ⟨rfl, hdenotes, htext.trans (by decide +kernel), hcanonical fun inner language hmem => ?_⟩
  simp only [ragged, List.mem_cons, TreeEvent.embedded.injEq, reduceCtorEq, List.not_mem_nil,
    false_or, or_false] at hmem
  obtain ⟨rfl, -⟩ := hmem
  exact .build _ fun inner language hmem => by simp at hmem

end TokenTree

end Highlighter
