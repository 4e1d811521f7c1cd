import Highlighter.Proofs.Lexer.Rules
import Highlighter.Proofs.Outcome
import Highlighter.Proofs.Regex.Span
import Highlighter.Proofs.TokenTree
import Highlighter.Scan.Flush

/-!
# Flushing keeps the text

Whichever way text leaves the buffer, it arrives in the tree once and in order: marking keywords
only cuts it into pieces, and an embedded language gives it back as it was, provided that the
nested calls do. Scopes that are open stay open, and nodes that are closed stay where they are.
-/

namespace Highlighter.Scan

/-- The services for embedded languages give back the text they are given. -/
structure Nested.KeepsText (nested : Nested) : Prop where
  highlight : ∀ {name text frames before result after},
    Returns (nested.highlight name text frames) before result after → result.tree.content = text
  detect : ∀ {text names before result after},
    Gives (nested.detect text names) before result after → result.tree.content = text

/-- The services where no language is registered. -/
def Nested.unknown : Nested where
  isKnown _ := false
  highlight name _ _ := throw (.unknownLanguage name)
  detect text _ := return .plain none text ""

theorem Nested.unknown_keepsText : Nested.unknown.KeepsText where
  highlight h := absurd h not_returns_throw
  detect h := by
    obtain ⟨rfl, -⟩ := gives_pure_iff.mp h
    simp [Highlighted.plain, Highlighted.ofTree]

/-- The second state has some more text in its tree than the first, and otherwise the same text,
the same modes and the same open scopes. -/
structure Adds (state : State) (added : String) (state' : State) : Prop where
  content : state'.tree.content = state.tree.content ++ added
  starts : state'.tree.starts = state.tree.starts
  placed : state.tree.placed <+: state'.tree.placed
  buffer : state'.buffer = state.buffer
  frames : state'.frames = state.frames

namespace Adds

variable {state state' state'' : State} {added added' : String}

theorem refl (state : State) : Adds state "" state :=
  ⟨by simp, rfl, List.prefix_rfl, rfl, rfl⟩

theorem trans (h : Adds state added state') (h' : Adds state' added' state'') :
    Adds state (added ++ added') state'' where
  content := by rw [h'.content, h.content, String.append_assoc]
  starts := h'.starts.trans h.starts
  placed := h.placed.trans h'.placed
  buffer := h'.buffer.trans h.buffer
  frames := h'.frames.trans h.frames

theorem addText (state : State) (content : String) :
    Adds state content { state with tree := state.tree.addText content } :=
  ⟨by simp, by simp, by simp, rfl, rfl⟩

theorem addScoped (state : State) (content scope : String) :
    Adds state content { state with tree := state.tree.addScoped content scope } :=
  ⟨by simp, by simp, TokenTree.placed_addScoped _ _ _, rfl, rfl⟩

theorem addEmbedded (mode : LexerMode) (result : Highlighted) (state : State) :
    Adds state result.tree.content (addEmbedded mode result state) :=
  ⟨by simp [Scan.addEmbedded], by simp [Scan.addEmbedded], TokenTree.placed_addEmbedded _ _ _,
    rfl, rfl⟩

theorem withBuffer (h : Adds state added state') (buffer : String) :
    Adds { state with buffer := buffer } added { state' with buffer := buffer } :=
  ⟨h.content, h.starts, h.placed, rfl, h.frames⟩

end Adds

/-- A marking has put the text up to the end of its last word into the tree, but for the text that
it still holds back. -/
structure Marking.Holds (marking : Marking) (text : Array Char) (start : State) : Prop where
  adds : ∃ added, Adds start added marking.state ∧
    added ++ marking.pending = Regex.Span.text ⟨0, marking.last⟩ text
  last_le : marking.last ≤ text.size

theorem Marking.Holds.markWord {marking : Marking} {text : Array Char} {start : State}
    (h : marking.Holds text start) (env : Env) (keywords : LexerKeywords) {span : Regex.Span}
    (hstart : marking.last ≤ span.start) (hspan : span.Within text.size) :
    (markWord env keywords text marking span).Holds text start ∧
      (Scan.markWord env keywords text marking span).last = span.stop := by
  obtain ⟨added, hadds, hpending⟩ := h.adds
  have hle := hspan.start_le
  -- the text before the word, then the word itself
  have hbefore : added ++ (marking.pending ++ Regex.Span.text ⟨marking.last, span.start⟩ text) =
      Regex.Span.text ⟨0, span.start⟩ text := by
    rw [← String.append_assoc, hpending, Regex.Span.text_append (Nat.zero_le _) hstart]
  have hword : Regex.Span.text ⟨0, span.start⟩ text ++ span.text text =
      Regex.Span.text ⟨0, span.stop⟩ text :=
    Regex.Span.text_append (Nat.zero_le _) hle
  simp only [Scan.markWord]
  split
  · refine ⟨⟨⟨added, hadds, ?_⟩, hspan.stop_le⟩, rfl⟩
    rw [← String.append_assoc, hbefore, hword]
  · next entry _ =>
    have hflushed := hadds.trans (Adds.addText marking.state
      (marking.pending ++ Regex.Span.text ⟨marking.last, span.start⟩ text))
    rw [hbefore] at hflushed
    split
    · refine ⟨⟨⟨_, ?_, hword⟩, hspan.stop_le⟩, rfl⟩
      exact ⟨hflushed.content, hflushed.starts, hflushed.placed, hflushed.buffer, hflushed.frames⟩
    · have hscoped := hflushed.trans (Adds.addScoped _ (span.text text)
        (env.lexer.scopeName entry.category))
      rw [hword] at hscoped
      refine ⟨⟨⟨_, ?_, String.append_empty⟩, hspan.stop_le⟩, rfl⟩
      exact ⟨hscoped.content, hscoped.starts, hscoped.placed, hscoped.buffer, hscoped.frames⟩

theorem Marking.Holds.foldl {text : Array Char} {start : State} (env : Env)
    (keywords : LexerKeywords) {spans : List Regex.Span} {marking : Marking}
    (h : marking.Holds text start)
    (hspans : Regex.Consecutive text.size marking.last spans) :
    (spans.foldl (Scan.markWord env keywords text) marking).Holds text start := by
  induction spans generalizing marking with
  | nil => exact h
  | cons span spans ih =>
    obtain ⟨hstart, hspan, hrest⟩ := hspans
    obtain ⟨hmarked, hlast⟩ := h.markWord env keywords hstart hspan
    rw [List.foldl_cons]
    exact ih hmarked (by rw [hlast]; exact hrest)

/-- With the text that it holds back and the text after its last word, a marking is complete. -/
theorem Marking.Holds.complete {marking : Marking} {text : Array Char} {start : State}
    (h : marking.Holds text start) :
    Adds start (Regex.Span.text ⟨0, text.size⟩ text) { marking.state with
      tree := marking.state.tree.addText
        (marking.pending ++ Regex.Span.text ⟨marking.last, text.size⟩ text) } := by
  obtain ⟨added, hadds, hpending⟩ := h.adds
  have hall := hadds.trans (Adds.addText marking.state
    (marking.pending ++ Regex.Span.text ⟨marking.last, text.size⟩ text))
  rwa [← String.append_assoc, hpending,
    Regex.Span.text_append (Nat.zero_le _) h.last_le] at hall

theorem markKeywords_adds (env : Env) (text : String) (state : State) :
    Adds state text (markKeywords env text state) := by
  unfold markKeywords
  split
  · exact Adds.addText state text
  · next keywords _ =>
    have hinitial : ({ state := state } : Marking).Holds text.toList.toArray state :=
      ⟨⟨"", Adds.refl state, by simp⟩, Nat.zero_le _⟩
    have hmarked := hinitial.foldl env keywords
      (Regex.findAll_consecutive keywords.regex text.toList.toArray)
    have hall := hmarked.complete
    rwa [Regex.Span.text_ofList] at hall

theorem embed_adds {env : Env} {nested : Nested} (hnested : nested.KeepsText)
    {language : SubLanguage} {text : String} {state state' : State} {before after : Trace}
    (h : Returns (embed env nested language text state) before state' after) :
    Adds state text state' := by
  unfold embed at h
  split at h
  · next hempty =>
    obtain ⟨rfl, -⟩ := returns_pure_iff.mp h
    rw [String.isEmpty_iff.mp hempty]
    exact Adds.refl state
  · split at h
    · next name =>
      split at h
      · -- the language is not known
        obtain ⟨_, _, _, hpure⟩ := returns_bind_iff.mp h
        obtain ⟨rfl, -⟩ := returns_pure_iff.mp hpure
        exact Adds.addText state text
      · obtain ⟨result, _, hresult, hpure⟩ := returns_bind_iff.mp h
        obtain ⟨rfl, -⟩ := returns_pure_iff.mp hpure
        have hadds := Adds.addEmbedded (state.top env) result { state with
          continuations := (name, result.frames) :: state.continuations.filter (·.1 != name) }
        rw [hnested.highlight hresult] at hadds
        exact ⟨hadds.content, hadds.starts, hadds.placed, hadds.buffer, hadds.frames⟩
    · obtain ⟨result, _, hresult, hpure⟩ := returns_bind_iff.mp h
      obtain ⟨rfl, -⟩ := returns_pure_iff.mp hpure
      have hadds := Adds.addEmbedded (state.top env) result state
      rw [hnested.detect (returns_lift_iff.mp hresult)] at hadds
      exact hadds

/-- A flush moves the buffer into the tree. -/
theorem flush_adds {env : Env} {nested : Nested} (hnested : nested.KeepsText)
    {state state' : State} {before after : Trace}
    (h : Returns (flush env nested state) before state' after) :
    Adds { state with buffer := "" } state.buffer state' := by
  simp only [flush] at h
  split at h
  · exact embed_adds hnested h
  · obtain ⟨rfl, -⟩ := returns_pure_iff.mp h
    exact markKeywords_adds env state.buffer _

/-- The text of the segments of a match: the groups that took part, one after the other. -/
def segmentsText (text : Array Char) (found : RuleMatch) (segments : List SegmentScope) : String :=
  String.join (segments.map fun segment =>
    ((found.groups[segment.group]?.join).map (·.text text)).getD "")

theorem takeChar_frames (env : Env) (state : State) (position : Nat) :
    (state.takeChar env position).frames = state.frames := by
  unfold State.takeChar
  split <;> rfl

theorem addSegments_adds (env : Env) (found : RuleMatch) (state : State)
    (segments : List SegmentScope) :
    Adds state (segmentsText env.text found segments) (addSegments env found state segments) := by
  induction segments generalizing state with
  | nil => exact Adds.refl state
  | cons segment segments ih =>
    have hsegment : Adds state
        (((found.groups[segment.group]?.join).map (·.text env.text)).getD "")
        (addSegments env found state [segment]) := by
      simp only [addSegments]
      split
      · next hgroup =>
        rw [hgroup]
        exact Adds.refl state
      · next span hgroup =>
        rw [hgroup]
        split
        · exact Adds.addScoped state _ _
        · exact markKeywords_adds env _ state
    have hall := hsegment.trans (ih _)
    simp only [segmentsText, List.map_cons, String.join_cons] at hall ⊢
    exact hall

end Highlighter.Scan
