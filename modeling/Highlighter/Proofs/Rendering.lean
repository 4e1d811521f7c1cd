import Highlighter.Proofs.Text.Html
import Highlighter.Proofs.Text.Tags
import Highlighter.Proofs.TokenTree

/-!
# HTML that gives back the text

The HTML of a token tree is its text with entities, between tags. Escaped text opens no tag, and a
tag is closed by its own last character as long as no angle that closes stands in its classes. So
deleting the tags and reading the entities back gives the text of the tree.
-/

namespace Highlighter

/-! ## Classes -/

namespace Text

theorem mem_of_mem_splitAt {separator c : Char} {text piece : List Char}
    (hpiece : piece ∈ splitAt separator text) (hc : c ∈ piece) : c ∈ text := by
  induction text generalizing piece with
  | nil =>
    rw [List.mem_singleton.mp hpiece] at hc
    cases hc
  | cons d text ih =>
    rw [splitAt] at hpiece
    split at hpiece
    · rcases List.mem_cons.mp hpiece with rfl | hpiece
      · cases hc
      · exact List.mem_cons_of_mem d (ih hpiece hc)
    · split at hpiece
      · rw [List.mem_singleton.mp hpiece] at hc
        rw [List.mem_singleton.mp hc]
        exact List.mem_cons_self
      · next first pieces hsplit =>
        rw [hsplit] at ih
        rcases List.mem_cons.mp hpiece with rfl | hpiece
        · rcases List.mem_cons.mp hc with rfl | hc
          · exact List.mem_cons_self
          · exact List.mem_cons_of_mem d (ih List.mem_cons_self hc)
        · exact List.mem_cons_of_mem d (ih (List.mem_cons_of_mem _ hpiece) hc)

end Text

namespace Scope

theorem mem_laterClasses {depth : Nat} {parts : List (List Char)} {c : Char}
    (h : c ∈ laterClasses depth parts) : c = ' ' ∨ c = '_' ∨ ∃ part ∈ parts, c ∈ part := by
  induction parts generalizing depth with
  | nil => cases h
  | cons part parts ih =>
    rw [laterClasses, List.append_assoc] at h
    rcases List.mem_cons.mp h with rfl | h
    · exact .inl rfl
    rcases List.mem_append.mp h with hpart | h
    · exact .inr (.inr ⟨part, List.mem_cons_self, hpart⟩)
    rcases List.mem_append.mp h with hmark | h
    · exact .inr (.inl (List.eq_of_mem_replicate hmark))
    rcases ih h with hspace | hmark | ⟨later, hlater, hc⟩
    · exact .inl hspace
    · exact .inr (.inl hmark)
    · exact .inr (.inr ⟨later, List.mem_cons_of_mem part hlater, hc⟩)

/-- The language that a scope marks is what follows the mark. -/
theorem mem_of_language? {scope language : String} {c : Char} (h : language? scope = some language)
    (hc : c ∈ language.toList) : c ∈ scope.toList := by
  obtain ⟨chars, hchars, rfl⟩ := Option.map_eq_some_iff.mp h
  unfold dropFront? at hchars
  split at hchars
  · cases hchars
    rw [String.toList_ofList] at hc
    exact List.mem_of_mem_drop hc
  · cases hchars

/-- The classes of a scope close no tag. -/
theorem not_mem_cssClass {scope classPrefix : String} (hscope : '>' ∉ scope.toList)
    (hclosing : '>' ∉ classPrefix.toList) : '>' ∉ (cssClass scope classPrefix).toList := by
  intro hmem
  unfold cssClass at hmem
  split at hmem
  · next language hlanguage =>
    rw [String.toList_append] at hmem
    rcases List.mem_append.mp hmem with hmem | hmem
    · exact absurd hmem (by decide +kernel)
    · exact hscope (mem_of_language? hlanguage hmem)
  · split at hmem
    · exact hclosing hmem
    · next first later hsplit =>
      have hpieces : ∀ piece ∈ first :: later, '>' ∉ piece := by
        intro piece hpiece hc
        rw [← hsplit] at hpiece
        exact hscope (Text.mem_of_mem_splitAt hpiece hc)
      rw [String.toList_ofList, List.append_assoc] at hmem
      rcases List.mem_append.mp hmem with hmem | hmem
      · exact hclosing hmem
      rcases List.mem_append.mp hmem with hmem | hmem
      · exact hpieces first List.mem_cons_self hmem
      rcases mem_laterClasses hmem with hspace | hmark | ⟨part, hpart, hc⟩
      · cases hspace
      · cases hmark
      · exact hpieces part (List.mem_cons_of_mem first hpart) hc

end Scope

/-! ## Tokens -/

namespace Token

mutual
/-- The scopes of a token and of the tokens in it. -/
def scopes : Token → List String
  | .text _ => []
  | .node scope children => scope.toList ++ scopesList children

/-- The scopes of a run of tokens. -/
def scopesList : List Token → List String
  | [] => []
  | token :: tokens => token.scopes ++ scopesList tokens
end

theorem scopes_node (scope : Option String) (children : List Token) :
    (node scope children).scopes = scope.toList ++ scopesList children :=
  rfl

theorem scopesList_cons (token : Token) (tokens : List Token) :
    scopesList (token :: tokens) = token.scopes ++ scopesList tokens :=
  rfl

variable {classPrefix : String}

/-- The characters of a node with a scope: a tag that opens, the children and a tag that closes. -/
theorem toList_html_node (scope : String) (children : List Token) (rest : List Char) :
    ((node (some scope) children).html classPrefix).toList ++ rest =
      '<' :: (("span class=\"".toList ++ (Scope.cssClass scope classPrefix).toList ++ ['"']) ++
        '>' :: ((htmlList classPrefix children).toList ++
          '<' :: ("/span".toList ++ '>' :: rest))) := by
  have hopen : "<span class=\"".toList = '<' :: "span class=\"".toList := by decide +kernel
  have hbehind : "\">".toList = ['"', '>'] := by decide +kernel
  have hclose : "</span>".toList = '<' :: ("/span".toList ++ ['>']) := by decide +kernel
  rw [html_node_some]
  simp only [String.toList_append, hopen, hbehind, hclose, List.append_assoc, List.cons_append,
    List.nil_append]

mutual
/-- Without its tags, a token is shown by its text. -/
theorem strip_html (hclosing : '>' ∉ classPrefix.toList) (token : Token)
    (h : ∀ scope ∈ token.scopes, '>' ∉ scope.toList) (rest : List Char) :
    Regex.Tag.strip false ((token.html classPrefix).toList ++ rest) =
      Text.Html.escapeChars token.plain.toList ++ Regex.Tag.strip false rest := by
  cases token with
  | text content =>
    rw [html_text, plain_text, Text.Html.escape, String.toList_ofList]
    exact Regex.Tag.strip_append (Text.Html.not_mem_escapeChars _) rest
  | node scope children =>
    rw [scopes_node] at h
    have hchildren := strip_htmlList hclosing children fun scope hscope =>
      h scope (List.mem_append_right _ hscope)
    cases scope with
    | none =>
      rw [html_node_none, plain_node]
      exact hchildren rest
    | some scope =>
      have hclass : '>' ∉ (Scope.cssClass scope classPrefix).toList :=
        Scope.not_mem_cssClass (h scope (List.mem_append_left _ List.mem_cons_self)) hclosing
      have hopen : '>' ∉ "span class=\"".toList ++ (Scope.cssClass scope classPrefix).toList ++
          ['"'] := by
        simp only [List.mem_append, not_or]
        exact ⟨⟨by decide +kernel, hclass⟩, by decide +kernel⟩
      have hclose : '>' ∉ "/span".toList := by decide +kernel
      rw [toList_html_node, Regex.Tag.strip_tag hopen, hchildren, Regex.Tag.strip_tag hclose,
        plain_node]

/-- Without its tags, a run of tokens is shown by its text. -/
theorem strip_htmlList (hclosing : '>' ∉ classPrefix.toList) (tokens : List Token)
    (h : ∀ scope ∈ scopesList tokens, '>' ∉ scope.toList) (rest : List Char) :
    Regex.Tag.strip false ((htmlList classPrefix tokens).toList ++ rest) =
      Text.Html.escapeChars (plainList tokens).toList ++ Regex.Tag.strip false rest := by
  cases tokens with
  | nil =>
    rw [htmlList, plainList_nil]
    rfl
  | cons token tokens =>
    rw [scopesList_cons] at h
    have htoken := strip_html hclosing token fun scope hscope =>
      h scope (List.mem_append_left _ hscope)
    have htokens := strip_htmlList hclosing tokens fun scope hscope =>
      h scope (List.mem_append_right _ hscope)
    rw [htmlList, plainList_cons, String.toList_append, String.toList_append, List.append_assoc,
      htoken, htokens, Text.Html.escapeChars_append, List.append_assoc]
end

end Token

/-! ## Trees -/

namespace TokenTree

/-- The scopes that the HTML of a tree shows. -/
def shownScopes (tree : TokenTree) : List String :=
  Token.scopesList tree.children

/-- HTML gives back the text. Whatever tokens a tree has been built of, deleting what the expression
for tags matches in its HTML and reading the entities back gives its text, where no angle closes in
the class prefix or in a scope. Escaped text alone is read back as it was. -/
theorem html_lossless :
    (∃ tag, Regex.compile false "<[^>]*>" = .ok tag ∧
      ∀ (tree : TokenTree) (classPrefix : String), '>' ∉ classPrefix.toList →
        (∀ scope ∈ tree.shownScopes, '>' ∉ scope.toList) →
        Text.Html.unescape (tag.deleteAll (tree.html classPrefix)) = tree.plain) ∧
      ∀ text, Text.Html.unescape (Text.Html.escape text) = text := by
  refine ⟨⟨Regex.Tag.regex, Regex.Tag.compile_regex, ?_⟩, Text.Html.unescape_escape⟩
  intro tree classPrefix hclosing hscopes
  have hstrip := Token.strip_htmlList hclosing tree.children hscopes []
  rw [List.append_nil, Regex.Tag.strip, List.append_nil] at hstrip
  rw [Regex.Tag.deleteAll_regex, html, hstrip]
  exact Text.Html.unescape_escape tree.plain

/-- A tree with a scope and with an embedded language inside of it. -/
def nested : TokenTree :=
  (((empty.openNode "title.function").addText "a<b> &amp;lt;").addEmbedded
    (empty.addScoped "'x'" "string") (some "css")).finish

theorem html_lossless_nested : ∃ tag, Regex.compile false "<[^>]*>" = .ok tag ∧
    nested.shownScopes = ["title.function", "language:css", "string"] ∧
    nested.plain = "a<b> &amp;lt;'x'" ∧
    Text.Html.unescape (tag.deleteAll (nested.html "hljs-")) = nested.plain := by
  obtain ⟨⟨tag, htag, hlossless⟩, -⟩ := html_lossless
  have hscopes : nested.shownScopes = ["title.function", "language:css", "string"] := by
    decide +kernel
  have hclosed : ∀ scope ∈ nested.shownScopes, '>' ∉ scope.toList := by
    rw [hscopes]
    decide +kernel
  exact ⟨tag, htag, hscopes, by decide +kernel,
    hlossless nested "hljs-" (by decide +kernel) hclosed⟩

end TokenTree

end Highlighter
