import Highlighter.Proofs.Toml.Number
import Highlighter.Proofs.Toml.Quoted
import Highlighter.Toml.Document
import Mathlib.Data.String.Basic

/-!
# Documents of lines

A document with one line for each of a number of names, each with a value that is read as it was
written, is read as a table with these names and values.
-/

namespace Highlighter

namespace SortedEntries

variable {β : Type} (key name : String) (value : β) (entries : List (String × β))

theorem lookup_cons :
    ((key, value) :: entries).lookup name =
      if name = key then some value else entries.lookup name := by
  rw [List.lookup_cons]
  by_cases h : name = key
  · rw [beq_iff_eq.mpr h, if_pos h]
  · rw [beq_eq_false_iff_ne.mpr h, if_neg h]

/-- Setting a key changes what is found under it, and nothing else. -/
theorem lookup_insert :
    (insert key value entries).lookup name =
      if name = key then some value else entries.lookup name := by
  induction entries with
  | nil => exact lookup_cons key name value []
  | cons entry entries ih =>
    obtain ⟨other, old⟩ := entry
    rw [insert]
    split
    · exact lookup_cons key name value _
    · next hle =>
      split
      · next hlt =>
        rw [lookup_cons, lookup_cons, ih]
        by_cases h : name = other
        · rw [if_pos h, if_pos h, if_neg (h ▸ hlt.ne)]
        · rw [if_neg h, if_neg h]
      · next hge =>
        obtain rfl := le_antisymm (not_lt.mp hge) (not_lt.mp hle)
        rw [lookup_cons, lookup_cons]
        by_cases h : name = key
        · rw [if_pos h, if_pos h]
        · rw [if_neg h, if_neg h, if_neg h]

end SortedEntries

namespace Toml

open Reader (Stops Repeats stops_cons ne_of_property startsGap_eq_false)

variable {depth : Nat} {written rest : List Char} {value : Value}

/-! ## Values -/

/-- The characters that may go on with a value. -/
def continuesValue (c : Char) : Bool :=
  Quoted.isQuote c || Number.continuesNumber c

/-- A text is read as a value, wherever nothing comes next that may go on with it. -/
structure ReadsAs (depth : Nat) (written : List Char) (value : Value) : Prop where
  starts : ∃ first later, written = first :: later ∧ Reader.startsGap first = false
  read : ∀ rest, Stops continuesValue rest →
    Reader.value depth (written ++ rest) = some (value, rest)

theorem readsAs_string (depth : Nat) (text : String) :
    ReadsAs depth (Quoted.write text).toList (.string text) := by
  obtain ⟨quote, later, hwrite, hquote⟩ := Quoted.exists_quote text
  have hcases : quote = '"' ∨ quote = '\'' := by simpa [Quoted.isQuote] using hquote
  refine ⟨⟨quote, later, hwrite, by rcases hcases with rfl | rfl <;> rfl⟩, fun rest hrest => ?_⟩
  have hstring := Quoted.string_write text (hrest.imp (by simp +contextual [continuesValue]))
  have hvalue : Reader.value depth ((Quoted.write text).toList ++ rest) =
      (Value.string <$> Quoted.string) ((Quoted.write text).toList ++ rest) := by
    rw [hwrite, List.cons_append]
    rcases hcases with rfl | rfl <;> cases depth <;> rfl
  rw [hvalue, Reader.map_of_some hstring]

theorem readsAs_true (depth : Nat) : ReadsAs depth "true".toList (.boolean true) :=
  ⟨⟨'t', _, rfl, rfl⟩, fun _ _ => by cases depth <;> rfl⟩

theorem readsAs_false (depth : Nat) : ReadsAs depth "false".toList (.boolean false) :=
  ⟨⟨'f', _, rfl, rfl⟩, fun _ _ => by cases depth <;> rfl⟩

theorem value_digit {first : Char} (h : first.isDigit = true) (depth : Nat) :
    Reader.value depth (first :: rest) =
      (Value.moment <$> Moment.moment <|> Number.float <|> Number.integer) (first :: rest) := by
  have hne : ∀ {c later}, c.isDigit = false → first :: rest ≠ c :: later := fun hc heq =>
    ne_of_property h hc (List.cons.inj heq).1
  rw [Reader.value.eq_def]
  -- The outer match only names what it is given.
  split
  split
  · next heq => exact absurd heq (hne rfl)
  · next heq => exact absurd heq (hne rfl)
  · next heq => exact absurd heq (hne rfl)
  · next heq => exact absurd heq (hne rfl)
  · next heq => exact absurd heq (hne rfl)
  · next heq => exact absurd heq (hne rfl)
  · rfl

theorem readsAs_number (depth : Nat) {n : Nat} (hn : n ≤ Number.maximum) :
    ReadsAs depth (toString n).toList (.integer n) := by
  rw [Nat.toString_eq_ofList_toDigits, String.toList_ofList]
  obtain ⟨first, later, heq, hnumeral⟩ := Number.exists_numeral n
  have hdigit := hnumeral.first_isDigit
  refine ⟨⟨first, later, heq, startsGap_eq_false hdigit rfl⟩, fun rest hrest => ?_⟩
  rw [← Number.number_toDigits hn (hrest.imp (by simp +contextual [continuesValue])), heq,
    List.cons_append, value_digit hdigit]

/-! ## Arrays -/

/-- Items with commas between them. -/
def joinItems : List (List Char) → List Char
  | [] => []
  | item :: items => item ++ items.flatMap (',' :: ' ' :: ·)

theorem intercalate_eq_joinItems (items : List (List Char)) :
    [',', ' '].intercalate items = joinItems items := by
  induction items with
  | nil => rfl
  | cons item items ih =>
    cases items with
    | nil => simp [joinItems]
    | cons next items =>
      rw [List.intercalate_cons_cons, ih]
      simp [joinItems]

/-- An item of an array ends at a comma or at the end of the array. -/
def EndsItem (rest : List Char) : Prop :=
  ∃ c later, rest = c :: later ∧ (c = ',' ∨ c = ']')

theorem EndsItem.stops_value (h : EndsItem rest) : Stops continuesValue rest := by
  obtain ⟨c, later, rfl, rfl | rfl⟩ := h <;> exact stops_cons.mpr rfl

theorem EndsItem.stops_gap (h : EndsItem rest) : Stops Reader.startsGap rest := by
  obtain ⟨c, later, rfl, rfl | rfl⟩ := h <;> exact stops_cons.mpr rfl

theorem ReadsAs.stops_gap (h : ReadsAs depth written value) :
    Stops Reader.startsGap (written ++ rest) := by
  obtain ⟨first, later, rfl, hfirst⟩ := h.starts
  exact stops_cons.mpr hfirst

section Items

variable {γ : Type} {write : γ → List Char} {read : γ → Value} {items : List γ}

theorem separated_joinItems (h : ∀ item ∈ items, ReadsAs depth (write item) (read item)) :
    Reader.separated (Reader.value depth) Reader.gap (joinItems (items.map write) ++ ']' :: rest) =
      some (items.map read, ']' :: rest) := by
  have hend : EndsItem (']' :: rest) := ⟨']', rest, rfl, .inr rfl⟩
  cases items with
  | nil =>
    have hnone : Reader.value depth (']' :: rest) = none := by
      cases depth <;> rfl
    exact Reader.orElse_of_none (Reader.bind_of_none hnone)
  | cons item items =>
    have hlater : Repeats (do
        Reader.char ','
        Reader.gap
        let a ← Reader.value depth
        Reader.gap
        return a)
      (items.flatMap (fun item => ',' :: ' ' :: write item) ++ ']' :: rest) (items.map read)
        (']' :: rest) := by
      refine Reader.repeats_flatMap EndsItem (fun other hother rest hrest => ?_)
        (fun other _ => ⟨List.cons_ne_nil _ _, fun rest => ⟨',', _, rfl, .inl rfl⟩⟩) hend rfl
      have hreads := h other (List.mem_cons_of_mem item hother)
      rw [List.cons_append, List.cons_append, Reader.bind_of_some Reader.char_self,
        Reader.bind_of_some (Reader.gap_space hreads.stops_gap),
        Reader.bind_of_some (hreads.read rest hrest.stops_value),
        Reader.bind_of_some (Reader.gap_of_stops hrest.stops_gap)]
      rfl
    have hends :
        EndsItem (items.flatMap (fun item => ',' :: ' ' :: write item) ++ ']' :: rest) := by
      cases items with
      | nil => exact hend
      | cons other items => exact ⟨',', _, rfl, .inl rfl⟩
    have hfirst := (h item List.mem_cons_self).read _ hends.stops_value
    rw [List.map_cons, joinItems, List.append_assoc, List.flatMap_map]
    refine Reader.orElse_of_some ?_
    rw [Reader.bind_of_some hfirst, Reader.bind_of_some (Reader.gap_of_stops hends.stops_gap),
      Reader.bind_of_some (Reader.many_of_repeats hlater)]
    rfl

/-- Items between brackets, with commas and blanks between them, are read as an array. -/
theorem readsAs_array (h : ∀ item ∈ items, ReadsAs depth (write item) (read item)) :
    ReadsAs (depth + 1) ('[' :: ([',', ' '].intercalate (items.map write) ++ [']']))
      (.array (items.map read)) := by
  refine ⟨⟨'[', _, rfl, rfl⟩, fun rest hrest => ?_⟩
  have hstart : Stops Reader.startsGap (joinItems (items.map write) ++ ']' :: rest) := by
    cases items with
    | nil => exact stops_cons.mpr rfl
    | cons item items =>
      rw [List.map_cons, joinItems, List.append_assoc]
      exact (h item List.mem_cons_self).stops_gap
  rw [intercalate_eq_joinItems, List.cons_append, List.append_assoc, List.singleton_append]
  change Reader.array (Reader.value depth) _ = _
  rw [Reader.array, Reader.bind_of_some Reader.char_self,
    Reader.bind_of_some (Reader.gap_of_stops hstart),
    Reader.bind_of_some (separated_joinItems h)]
  cases items <;> rfl

end Items

/-! ## Lines -/

/-- Whether a name needs no quotes as a key. -/
def isBareKey (name : String) : Bool :=
  !name.toList.isEmpty && name.toList.all isBareKeyChar

/-- A line of a document, which gives a name its value. -/
structure Line where
  name : String
  /-- The value as it is written. -/
  written : List Char
  value : Value

namespace Line

/-- The characters of a line. -/
def text (line : Line) : List Char :=
  line.name.toList ++ ' ' :: '=' :: ' ' :: (line.written ++ ['\n'])

/-- The entry that a line makes in its table. -/
def entry (line : Line) : String × Value :=
  (line.name, line.value)

/-- What a line says. -/
def statement (line : Line) : Statement :=
  .assign ⟨[], line.name⟩ line.value

/-- The name is a key, and the value is read as it was written. -/
structure IsRead (line : Line) : Prop where
  name : isBareKey line.name = true
  value : ReadsAs nestingLimit line.written line.value

end Line

theorem Line.isRead_mk {name : String} (hname : isBareKey name = true)
    (hvalue : ReadsAs nestingLimit written value) : (Line.mk name written value).IsRead :=
  ⟨hname, hvalue⟩

theorem exists_first_of_isBareKey {name : String} (h : isBareKey name = true) :
    ∃ first later, name.toList = first :: later ∧ isBareKeyChar first = true ∧
      ∀ c ∈ later, isBareKeyChar c = true := by
  rw [isBareKey] at h
  cases heq : name.toList with
  | nil =>
    rw [heq] at h
    cases h
  | cons first later =>
    rw [heq] at h
    exact ⟨first, later, rfl, List.forall_mem_cons.mp (List.all_eq_true.mp h)⟩

theorem keyPart_bare {name : String} (h : isBareKey name = true)
    (hrest : Stops isBareKeyChar rest) :
    Reader.keyPart (name.toList ++ rest) = some (name, rest) := by
  obtain ⟨first, later, heq, hfirst, hlater⟩ := exists_first_of_isBareKey h
  have hpart : Reader.keyPart (name.toList ++ rest) =
      (String.ofList <$> Reader.takeWhile1 isBareKeyChar) (name.toList ++ rest) := by
    rw [heq, List.cons_append, Reader.keyPart.eq_def]
    split
    · next h => exact absurd (List.cons.inj h).1 (ne_of_property hfirst rfl)
    · next h => exact absurd (List.cons.inj h).1 (ne_of_property hfirst rfl)
    · rfl
  have htake := Reader.takeWhile1_cons hfirst (Reader.takeWhile_append hlater hrest)
  rw [← List.cons_append, ← heq] at htake
  rw [hpart, Reader.map_of_some htake, String.ofList_toList]

theorem key_bare {name : String} (h : isBareKey name = true) :
    Reader.key (name.toList ++ ' ' :: '=' :: rest) = some (⟨[], name⟩, '=' :: rest) := by
  obtain ⟨first, later, heq, hfirst, -⟩ := exists_first_of_isBareKey h
  have hblank : Stops isBlank (name.toList ++ ' ' :: '=' :: rest) := by
    rw [heq]
    exact Stops.imp (stops_cons.mpr (startsGap_eq_false hfirst rfl))
      (by simp +contextual [Reader.startsGap])
  have hmany : Reader.many (do
      Reader.char '.'
      Reader.blanks
      let part ← Reader.keyPart
      Reader.blanks
      return part) ('=' :: rest) = some ([], '=' :: rest) :=
    Reader.many_of_repeats (.stop rfl)
  rw [Reader.key, Reader.bind_of_some (Reader.blanks_of_stops hblank),
    Reader.bind_of_some (keyPart_bare h (stops_cons.mpr rfl)),
    Reader.bind_of_some (Reader.blanks_space (stops_cons.mpr rfl)), Reader.bind_of_some hmany]
  rfl

theorem Line.text_append (line : Line) :
    line.text ++ rest =
      line.name.toList ++ ' ' :: '=' :: ' ' :: (line.written ++ '\n' :: rest) := by
  simp [Line.text]

theorem Line.IsRead.stops_gap {line : Line} (h : line.IsRead) :
    Stops Reader.startsGap (line.text ++ rest) := by
  obtain ⟨first, later, heq, hfirst, -⟩ := exists_first_of_isBareKey h.name
  rw [line.text_append, heq]
  exact stops_cons.mpr (startsGap_eq_false hfirst rfl)

theorem statement_line {line : Line} (h : line.IsRead) :
    Reader.statement (line.text ++ rest) = some (line.statement, rest) := by
  have hassignment : Reader.assignment (Reader.value nestingLimit) (line.text ++ rest) =
      some ((⟨[], line.name⟩, line.value), '\n' :: rest) := by
    have hblank : Stops isBlank (line.written ++ '\n' :: rest) :=
      h.value.stops_gap.imp (by simp +contextual [Reader.startsGap])
    rw [line.text_append, Reader.assignment, Reader.bind_of_some (key_bare h.name),
      Reader.bind_of_some Reader.char_self, Reader.bind_of_some (Reader.blanks_space hblank),
      Reader.bind_of_some (h.value.read _ (stops_cons.mpr rfl))]
    rfl
  obtain ⟨first, later, heq, hfirst, -⟩ := exists_first_of_isBareKey h.name
  have hbracket : ∀ input, line.text ++ rest ≠ '[' :: input := by
    intro input heq'
    rw [line.text_append, heq] at heq'
    exact ne_of_property hfirst rfl (List.cons.inj heq').1
  rw [Reader.statement.eq_def]
  split
  · next heq => exact absurd heq (hbracket _)
  · next heq => exact absurd heq (hbracket _)
  · rw [Reader.bind_of_some hassignment]
    exact Reader.bind_of_some Reader.lineEnd_newline

theorem emptyLines_of_gap {input : List Char} (hgap : Reader.gap input = some ((), rest))
    (hrest : Stops Reader.startsGap rest) : Reader.emptyLines input = some ((), rest) := by
  have hcomment : (do Reader.comment; Reader.atEnd) rest = none :=
    Reader.bind_of_none (Reader.comment_of_stops
      (hrest.imp (by simp +contextual [Reader.startsGap])))
  rw [Reader.emptyLines, Reader.bind_of_some hgap]
  exact Reader.discard_of_some (Reader.maybe_of_none hcomment)

/-- A heading is skipped, and then every line is a statement. -/
theorem run_statements {heading : List Char} {lines : List Line}
    (hmark : Stops (· == '\ufeff') (heading ++ lines.flatMap Line.text))
    (hheading : Reader.IsGap heading) (hlines : ∀ line ∈ lines, line.IsRead) :
    Reader.statements.run (heading ++ lines.flatMap Line.text) =
      some (lines.map Line.statement) := by
  have hstops : Stops Reader.startsGap (lines.flatMap Line.text) := by
    cases lines with
    | nil => exact Reader.stops_nil
    | cons line lines => exact (hlines line List.mem_cons_self).stops_gap
  have hrepeats : Repeats (do
      let statement ← Reader.statement
      Reader.emptyLines
      return statement) (lines.flatMap Line.text ++ []) (lines.map Line.statement) [] := by
    refine Reader.repeats_flatMap (Stops Reader.startsGap) (fun line hline rest hrest => ?_)
      (fun line hline => ⟨?_, fun rest => (hlines line hline).stops_gap⟩) Reader.stops_nil rfl
    · rw [Reader.bind_of_some (statement_line (hlines line hline)),
        Reader.bind_of_some (emptyLines_of_gap (Reader.gap_of_stops hrest) hrest)]
      rfl
    · simp [Line.text]
  rw [List.append_nil] at hrepeats
  have hskip := Reader.discard_of_some (Reader.maybe_of_none (Reader.char_of_stops hmark))
  rw [Reader.run, Reader.statements, Reader.bind_of_some hskip,
    Reader.bind_of_some (emptyLines_of_gap (hheading _ hstops) hstops),
    Reader.many_of_repeats hrepeats]

/-! ## Tables -/

theorem lookup_finishEntries (name : String) (entries : Draft.Entries) :
    (Draft.finishEntries entries).lookup name = (entries.lookup name).map Draft.finish := by
  induction entries with
  | nil => rfl
  | cons entry entries ih =>
    obtain ⟨key, draft⟩ := entry
    rw [Draft.finishEntries, SortedEntries.lookup_cons, SortedEntries.lookup_cons, ih]
    split <;> rfl

theorem within_assign {name : String} (value : Value) {entries : Draft.Entries}
    (hnew : entries.lookup name = none) :
    Draft.within false (Draft.assign ⟨[], name⟩ value) [] .opened entries =
      .ok (SortedEntries.insert name (.value value) entries) := by
  change Draft.addNew name (.value value) entries = _
  rw [Draft.addNew, hnew]
  rfl

/-- Lines whose names are new, and none of them twice, add their entries to the table. -/
theorem carryOut_lines {lines : List Line} {entries : Draft.Entries}
    (hnew : ∀ line ∈ lines, entries.lookup line.name = none)
    (hnames : (lines.map Line.name).Nodup) :
    ∃ table, Statement.carryOut [] entries (lines.map Line.statement) = .ok table ∧
      ∀ name, table.lookup name =
        (((lines.map Line.entry).lookup name).map Draft.value).or (entries.lookup name) := by
  induction lines generalizing entries with
  | nil => exact ⟨entries, rfl, fun _ => rfl⟩
  | cons line lines ih =>
    obtain ⟨hfirst, hnames⟩ := List.nodup_cons.mp hnames
    have hother : ∀ other ∈ lines, other.name ≠ line.name := fun other hmem heq =>
      hfirst (heq ▸ List.mem_map_of_mem hmem)
    have hlater : ∀ other ∈ lines,
        (SortedEntries.insert line.name (.value line.value) entries).lookup other.name = none := by
      intro other hmem
      rw [SortedEntries.lookup_insert, if_neg (hother other hmem),
        hnew other (List.mem_cons_of_mem line hmem)]
    obtain ⟨table, hcarry, hlookup⟩ := ih hlater hnames
    refine ⟨table, ?_, fun name => ?_⟩
    · rw [List.map_cons, Line.statement, Statement.carryOut,
        within_assign line.value (hnew line List.mem_cons_self)]
      exact hcarry
    · rw [hlookup, SortedEntries.lookup_insert, List.map_cons, Line.entry,
        SortedEntries.lookup_cons]
      split
      · next heq =>
        have hnone : (lines.map Line.entry).lookup name = none := by
          refine List.lookup_eq_none_iff.mpr fun entry hentry => ?_
          obtain ⟨other, hmem, rfl⟩ := List.mem_map.mp hentry
          simpa [heq, Line.entry] using (hother other hmem).symm
        rw [hnone]
        rfl
      · rfl

/-- A document of lines is read as the table of what they say. -/
theorem read_lines {document : String} {heading : List Char} {lines : List Line}
    (hdocument : document.toList = heading ++ lines.flatMap Line.text)
    (hmark : Stops (· == '\ufeff') document.toList)
    (hheading : Reader.IsGap heading) (hlines : ∀ line ∈ lines, line.IsRead)
    (hnames : (lines.map Line.name).Nodup) :
    ∃ table, Toml.read document = .ok table ∧
      ∀ name, table.lookup name = (lines.map Line.entry).lookup name := by
  have hnew : ∀ line ∈ lines, ([] : Draft.Entries).lookup line.name = none := fun _ _ => rfl
  obtain ⟨entries, hcarry, hlookup⟩ := carryOut_lines hnew hnames
  rw [hdocument] at hmark
  refine ⟨Draft.finishEntries entries, ?_, fun name => ?_⟩
  · rw [read, hdocument, run_statements hmark hheading hlines]
    change (do return Draft.finishEntries (← Statement.carryOut [] [] _)) = _
    rw [hcarry]
    rfl
  · rw [lookup_finishEntries, hlookup]
    cases (lines.map Line.entry).lookup name <;> rfl

end Toml

end Highlighter
