import Highlighter.Proofs.Toml.Document
import Highlighter.Stored.Settings

/-!
# Settings read back

The document that settings are written to is read as the same settings, with whatever texts they
consist of.
-/

namespace Highlighter

namespace Stored

open Toml (ReadsAs Value Table)

/-! ## Values -/

theorem readsAs_boolean (depth : Nat) (value : Bool) :
    ReadsAs depth (writeBoolean value).toList (.boolean value) := by
  cases value with
  | true => exact Toml.readsAs_true depth
  | false => exact Toml.readsAs_false depth

theorem readsAs_texts (depth : Nat) (texts : List String) :
    ReadsAs (depth + 1) (writeTexts texts).toList (.array (texts.map Value.string)) := by
  have hwritten : (writeTexts texts).toList = '[' :: ([',', ' '].intercalate
      (texts.map fun text => (Toml.Quoted.write text).toList) ++ [']']) := by
    simp [writeTexts, Function.comp_def]
  rw [hwritten]
  exact Toml.readsAs_array fun text _ => Toml.readsAs_string depth text

theorem strings?_array (texts : List String) :
    Value.strings? (.array (texts.map Value.string)) = some texts := by
  rw [Value.strings?]
  induction texts with
  | nil => rfl
  | cons text texts ih => simp [Value.string?, ih]

theorem natural?_integer {bound n : Nat} (h : n ≤ bound) :
    Value.natural? bound (.integer n) = some n :=
  if_pos h

theorem heading_toList : heading.toList =
    '#' :: (" glint configuration".toList ++ '\n' :: '#' ::
      (" Generated automatically".toList ++ '\n' :: '\n' :: [])) := by
  simp [heading]

theorem heading_isGap : Toml.Reader.IsGap heading.toList := by
  intro rest h
  rw [heading_toList]
  simp only [List.cons_append, List.append_assoc, List.nil_append]
  have hfirst : " glint configuration".toList.all Toml.isPlain = true := by decide
  have hsecond : " Generated automatically".toList.all Toml.isPlain = true := by decide
  refine Toml.Reader.gap_of_repeats
    (.next (Toml.Reader.gapPart_comment (List.all_eq_true.mp hfirst)) ?_
      (.next (Toml.Reader.gapPart_comment (List.all_eq_true.mp hsecond)) ?_
        (.next Toml.Reader.gapPart_newline ?_ (.stop (Toml.Reader.gapPart_of_stops h)))))
  all_goals
    simp only [List.length_cons, List.length_append]
    omega

/-! ## Keys -/

variable {α : Type} {entries : Table} {key : String} {value : Value} {read : Value → Option α}

theorem optional_of_lookup {a : α} (hlookup : entries.lookup key = some value)
    (hread : read value = some a) : optional entries key read = .ok (some a) := by
  rw [optional, hlookup]
  simp only [hread]
  rfl

theorem optional_of_missing (hlookup : entries.lookup key = none) :
    optional entries key read = .ok none := by
  rw [optional, hlookup]

end Stored

namespace Settings

open Toml (Line Value)
open Toml.Reader (Stops stops_cons)

/-- A line with a number. -/
def numberLine (name : String) (n : Nat) : Line :=
  ⟨name, (toString n).toList, .integer n⟩

/-- The lines that are written, with what they say. -/
def written (settings : Settings) : List Line :=
  [⟨"class-prefix", (Toml.Quoted.write settings.classPrefix).toList, .string settings.classPrefix⟩,
    ⟨"safe-mode", (Stored.writeBoolean settings.safeMode).toList, .boolean settings.safeMode⟩]
  ++ (settings.languages.map fun names =>
    ⟨"languages", (Stored.writeTexts names).toList, .array (names.map Value.string)⟩).toList
  ++ [numberLine "max-keyword-hits" settings.maxKeywordHits,
    numberLine "iteration-floor" settings.iterationFloor,
    numberLine "iteration-ratio" settings.iterationRatio,
    numberLine "context-window" settings.contextWindow]

/-- A document can hold the numbers, and the number of keyword hits is not too large to be read. -/
structure IsStorable (settings : Settings) : Prop where
  maxKeywordHits : settings.maxKeywordHits ≤ Stored.maxHits
  iterationFloor : settings.iterationFloor ≤ Toml.Number.maximum
  iterationRatio : settings.iterationRatio ≤ Toml.Number.maximum
  contextWindow : settings.contextWindow ≤ Toml.Number.maximum

variable {settings : Settings}

theorem IsStorable.hits_le (h : settings.IsStorable) :
    settings.maxKeywordHits ≤ Toml.Number.maximum :=
  Nat.le_trans h.maxKeywordHits (by decide)

theorem IsStorable.isRead (h : settings.IsStorable) : ∀ line ∈ settings.written, line.IsRead := by
  have hnumber : ∀ {name n}, Toml.isBareKey name = true → n ≤ Toml.Number.maximum →
      (numberLine name n).IsRead := fun hname hn =>
    Line.isRead_mk hname (Toml.readsAs_number _ hn)
  refine List.forall_mem_append.mpr ⟨List.forall_mem_append.mpr ⟨?_, ?_⟩, ?_⟩
  · exact List.forall_mem_cons.mpr ⟨Line.isRead_mk (by decide) (Toml.readsAs_string _ _),
      List.forall_mem_singleton.mpr (Line.isRead_mk (by decide) (Stored.readsAs_boolean _ _))⟩
  · intro line hline
    obtain ⟨names, -, rfl⟩ := Option.map_eq_some_iff.mp (Option.mem_toList.mp hline)
    exact Line.isRead_mk (by decide) (Stored.readsAs_texts _ names)
  · exact List.forall_mem_cons.mpr ⟨hnumber (by decide) h.hits_le,
      List.forall_mem_cons.mpr ⟨hnumber (by decide) h.iterationFloor,
        List.forall_mem_cons.mpr ⟨hnumber (by decide) h.iterationRatio,
          List.forall_mem_singleton.mpr (hnumber (by decide) h.contextWindow)⟩⟩⟩

theorem written_names_nodup (settings : Settings) : (settings.written.map Line.name).Nodup := by
  rw [written]
  cases settings.languages with
  | none =>
    change ["class-prefix", "safe-mode", "max-keyword-hits", "iteration-floor", "iteration-ratio",
      "context-window"].Nodup
    decide
  | some names =>
    change ["class-prefix", "safe-mode", "languages", "max-keyword-hits", "iteration-floor",
      "iteration-ratio", "context-window"].Nodup
    decide

theorem IsStorable.lines_eq (h : settings.IsStorable) :
    settings.lines = .ok (settings.written.map fun line =>
      Stored.line line.name (String.ofList line.written)) := by
  simp only [lines, Stored.writeNumber, if_pos h.hits_le, if_pos h.iterationFloor,
    if_pos h.iterationRatio, if_pos h.contextWindow, written, numberLine, List.map_append,
    List.map_cons, List.map_nil, String.ofList_toList]
  cases settings.languages with
  | none => rfl
  | some names =>
    simp only [Option.map_some, Option.toList_some, List.map_cons, List.map_nil,
      String.ofList_toList]
    rfl

theorem IsStorable.toDocument (h : settings.IsStorable) :
    ∃ document, settings.toDocument = .ok document ∧
      document.toList = Stored.heading.toList ++ settings.written.flatMap Line.text := by
  refine ⟨_, by rw [Settings.toDocument, h.lines_eq], ?_⟩
  rw [String.toList_append, String.toList_join, List.flatMap_map]
  congr 2
  funext line
  simp [Stored.line, Line.text]

theorem lookup_languages (settings : Settings) :
    (settings.written.map Line.entry).lookup "languages" =
      settings.languages.map fun names => .array (names.map Value.string) := by
  rw [written]
  cases settings.languages <;> rfl

theorem lookup_numbers (settings : Settings) :
    (settings.written.map Line.entry).lookup "max-keyword-hits" =
        some (.integer settings.maxKeywordHits) ∧
      (settings.written.map Line.entry).lookup "iteration-floor" =
        some (.integer settings.iterationFloor) ∧
      (settings.written.map Line.entry).lookup "iteration-ratio" =
        some (.integer settings.iterationRatio) ∧
      (settings.written.map Line.entry).lookup "context-window" =
        some (.integer settings.contextWindow) := by
  rw [written]
  cases settings.languages <;> exact ⟨rfl, rfl, rfl, rfl⟩

/-- A table with the entries that are written stands for the settings. -/
theorem IsStorable.settings_of_lookup (h : settings.IsStorable) {table : Toml.Table}
    (hlookup : ∀ name, table.lookup name = (settings.written.map Line.entry).lookup name) :
    Stored.settings table = .ok settings := by
  have hword : Toml.Number.maximum ≤ wordMax := by decide
  obtain ⟨hhits, hfloor, hratio, hwindow⟩ := lookup_numbers settings
  have hprefix : Stored.optional table "class-prefix" Value.string? =
      .ok (some settings.classPrefix) := Stored.optional_of_lookup (hlookup _) rfl
  have hsafe : Stored.optional table "safe-mode" Value.boolean? = .ok (some settings.safeMode) :=
    Stored.optional_of_lookup (hlookup _) rfl
  have hlanguages : Stored.optional table "languages" Value.strings? = .ok settings.languages := by
    have hentry := (hlookup "languages").trans settings.lookup_languages
    cases hnames : settings.languages with
    | none =>
      rw [hnames] at hentry
      exact Stored.optional_of_missing hentry
    | some names =>
      rw [hnames] at hentry
      exact Stored.optional_of_lookup hentry (Stored.strings?_array names)
  simp only [Stored.settings, hprefix, hsafe, hlanguages,
    Stored.optional_of_lookup ((hlookup _).trans hhits) (Stored.natural?_integer h.maxKeywordHits),
    Stored.optional_of_lookup ((hlookup _).trans hfloor)
      (Stored.natural?_integer (Nat.le_trans h.iterationFloor hword)),
    Stored.optional_of_lookup ((hlookup _).trans hratio)
      (Stored.natural?_integer (Nat.le_trans h.iterationRatio hword)),
    Stored.optional_of_lookup ((hlookup _).trans hwindow)
      (Stored.natural?_integer (Nat.le_trans h.contextWindow hword))]
  rfl

theorem ofDocument_of_ok {document : String}
    (h : (Toml.read document >>= Stored.settings) = .ok settings) :
    ofDocument document = .ok settings := by
  unfold ofDocument
  rw [h]

theorem load_of_ok {document : String} (h : ofDocument document = .ok settings) (path : String) :
    load path (.ok document) = pure settings := by
  unfold load
  dsimp only
  rw [h]

/-- Settings that have been written are read back. -/
theorem load_toDocument (hhits : settings.maxKeywordHits ≤ Stored.maxHits)
    (hfloor : settings.iterationFloor ≤ Toml.Number.maximum)
    (hratio : settings.iterationRatio ≤ Toml.Number.maximum)
    (hwindow : settings.contextWindow ≤ Toml.Number.maximum) :
    ∃ document, settings.toDocument = .ok document ∧ ofDocument document = .ok settings ∧
      ∀ path, load path (.ok document) = pure settings := by
  have h : settings.IsStorable := ⟨hhits, hfloor, hratio, hwindow⟩
  obtain ⟨document, hdocument, htext⟩ := h.toDocument
  have hmark : Stops (· == '\ufeff') document.toList := by
    rw [htext, Stored.heading_toList]
    exact stops_cons.mpr rfl
  obtain ⟨table, hread, hlookup⟩ := Toml.read_lines htext hmark Stored.heading_isGap h.isRead
    settings.written_names_nodup
  have hof : ofDocument document = .ok settings := by
    have hsettings : (Toml.read document >>= Stored.settings) = .ok settings := by
      rw [hread]
      exact h.settings_of_lookup hlookup
    exact ofDocument_of_ok hsettings
  exact ⟨document, hdocument, hof, load_of_ok hof⟩

/-- Settings with every kind of character that strings treat in a way of its own. -/
def oddSettings : Settings where
  classPrefix := "\"\"\"'''\\\t\x01\x7f\r\né"
  safeMode := false
  languages := some ["a'b", "a\"b", "a\"b'c", "\n", ""]
  maxKeywordHits := 0
  iterationFloor := Toml.Number.maximum

theorem load_toDocument_oddSettings :
    oddSettings.maxKeywordHits ≤ Stored.maxHits ∧
      oddSettings.iterationFloor ≤ Toml.Number.maximum ∧
      oddSettings.iterationRatio ≤ Toml.Number.maximum ∧
      oddSettings.contextWindow ≤ Toml.Number.maximum ∧
      ∃ document, oddSettings.toDocument = .ok document ∧ ofDocument document = .ok oddSettings ∧
        ∀ path, load path (.ok document) = pure oddSettings :=
  ⟨by decide, by decide, by decide, by decide,
    load_toDocument (by decide) (by decide) (by decide) (by decide)⟩

end Settings

end Highlighter
