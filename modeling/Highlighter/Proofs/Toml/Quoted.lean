import Highlighter.Proofs.Toml.Reader
import Highlighter.Toml.Quoted

/-!
# Strings read back

Every text, in whatever form it is written, is read as itself. Between double quotes each character
is one piece. Between three quotes a quote is text if it does not belong to the three at the end,
which holds because at most two quotes stand in a row before them.
-/

namespace Highlighter.Toml.Quoted

open Reader (Stops Repeats stops_cons)

variable {c quote : Char} {quotes : Nat} {text rest : List Char}

/-! ## Characters -/

/-- What stands for a character as an escape by its number. -/
theorem hexNumber_spec (h : needsEscape c = true) :
    (hexNumber c).length = 4 ∧ (∀ d ∈ hexNumber c, isHexDigit d = true) ∧
      (hexNumber c).foldl (fun value d => 16 * value + digitValue d) 0 = c.toNat := by
  have hsmall : (List.range 128).all (fun n =>
      let digits := hexNumber (Char.ofNat n)
      digits.length == 4 && digits.all isHexDigit &&
        digits.foldl (fun value d => 16 * value + digitValue d) 0 == n) = true := by
    decide +kernel
  have hlt : c.toNat < 128 := by
    simp only [needsEscape, isPlain, Bool.and_eq_true, Bool.not_eq_true', Bool.or_eq_false_iff,
      Bool.and_eq_false_iff, decide_eq_false_iff_not, bne_eq_false_iff_eq] at h
    omega
  have hnumber := List.all_eq_true.mp hsmall c.toNat (List.mem_range.mpr hlt)
  simp only [Char.ofNat_toNat, Bool.and_eq_true, beq_iff_eq, List.all_eq_true] at hnumber
  exact ⟨hnumber.1.1, hnumber.1.2, hnumber.2⟩

theorem escape_hexNumber (h : needsEscape c = true) :
    escape ('\\' :: 'u' :: (hexNumber c ++ rest)) = some (c, rest) := by
  obtain ⟨hlength, hdigits, hvalue⟩ := hexNumber_spec h
  have hexactly : Reader.exactly isHexDigit 4 (hexNumber c ++ rest) = some (hexNumber c, rest) :=
    hlength ▸ Reader.exactly_append hdigits
  rw [escape, Reader.bind_of_some Reader.char_self, Reader.bind_of_some (Reader.satisfy_of rfl)]
  change numbered 4 _ = _
  rw [numbered, Reader.bind_of_some hexactly, hvalue]
  simp only [show c.toNat.isValidChar from c.valid, if_true, Char.ofNat_toNat]
  rfl

/-- What stands for a character between double quotes: itself, or an escape, which does not look
like a backslash at the end of a line. -/
inductive StandsAs (c : Char) : List Char → Prop where
  | itself (h : isBasic c = true) : StandsAs c [c]
  | escaped {letter : Char} {later : List Char}
      (hread : ∀ rest, escape ('\\' :: letter :: (later ++ rest)) = some (c, rest))
      (hblank : isBlank letter = false) (hnewline : letter ≠ '\n') (hreturn : letter ≠ '\r') :
      StandsAs c ('\\' :: letter :: later)

theorem standsAs_writeChar (c : Char) : StandsAs c (writeChar c) := by
  unfold writeChar
  split
  case h_8 hback htab hnewline hfeed hreturn hquote hslash =>
    split
    · next h => exact .escaped (fun rest => escape_hexNumber h) rfl (by decide) (by decide)
    · next h =>
      have hplain : isPlain c = true := by simpa [needsEscape, show c ≠ '\n' from hnewline] using h
      exact .itself (by simpa [isBasic, hplain] using ⟨hquote, hslash⟩)
  all_goals exact .escaped (fun _ => rfl) rfl (by decide) (by decide)

theorem StandsAs.ne_nil {written : List Char} (h : StandsAs c written) : written ≠ [] := by
  cases h <;> exact List.cons_ne_nil _ _

theorem StandsAs.stops_quote {written : List Char} (h : StandsAs c written) :
    Stops (· == '"') (written ++ rest) := by
  cases h with
  | itself h =>
    exact Reader.stops_of_ne (Reader.ne_of_property h rfl)
  | escaped => exact stops_cons.mpr rfl

theorem StandsAs.read {written : List Char} (h : StandsAs c written) :
    (Reader.satisfy isBasic <|> escape) (written ++ rest) = some (c, rest) := by
  cases h with
  | itself h => exact Reader.orElse_of_some (Reader.satisfy_of h)
  | escaped hread =>
    exact (Reader.orElse_of_none (Reader.satisfy_of_stops (stops_cons.mpr rfl))).trans (hread rest)

/-! ## One line -/

theorem basic_writeAs :
    basic (writeAs .basic text ++ rest) = some (String.ofList text, rest) := by
  have hbody : Repeats (Reader.satisfy isBasic <|> escape)
      (text.flatMap writeChar ++ '"' :: rest) (text.map id) ('"' :: rest) :=
    Reader.repeats_flatMap (fun _ => True) (fun c _ _ _ => (standsAs_writeChar c).read)
      (fun c _ => ⟨(standsAs_writeChar c).ne_nil, fun _ => trivial⟩) trivial rfl
  rw [List.map_id] at hbody
  rw [writeAs, List.cons_append, List.cons_append, List.append_assoc, List.singleton_append,
    basic, Reader.bind_of_some Reader.char_self,
    Reader.bind_of_some (Reader.many_of_repeats hbody), Reader.bind_of_some Reader.char_self]
  rfl

theorem literal_writeAs (htext : ∀ c ∈ text, isLiteral c = true) :
    literal (writeAs .literal text ++ rest) = some (String.ofList text, rest) := by
  rw [writeAs, List.cons_append, List.cons_append, List.append_assoc, List.singleton_append,
    literal, Reader.bind_of_some Reader.char_self,
    Reader.bind_of_some (Reader.takeWhile_append htext (stops_cons.mpr rfl)),
    Reader.bind_of_some Reader.char_self]
  rfl

/-! ## Quotes before three quotes -/

/-- How many of a character come first. -/
def runLength (c : Char) (text : List Char) : Nat :=
  (text.takeWhile (· == c)).length

theorem runLength_of_stops (h : Stops (· == c) text) : runLength c text = 0 := by
  cases text with
  | nil => rfl
  | cons d text => simp [runLength, stops_cons.mp h]

theorem runLength_cons_self : runLength c (c :: text) = runLength c text + 1 := by
  simp [runLength]

/-- The three quotes at the end lengthen a run that reaches up to them. -/
theorem runLength_append_quotes (text : List Char) (h : Stops (· == quote) rest) :
    runLength quote (text ++ quote :: quote :: quote :: rest) = runLength quote text ∨
      runLength quote (text ++ quote :: quote :: quote :: rest) = runLength quote text + 3 := by
  have hquotes : runLength quote (quote :: quote :: quote :: rest) = 3 := by
    rw [runLength_cons_self, runLength_cons_self, runLength_cons_self, runLength_of_stops h]
  rw [runLength, List.takeWhile_append]
  split
  · next hall =>
    right
    rw [List.length_append, ← runLength, hquotes, ← hall, runLength]
  · exact .inl rfl

theorem innerQuote_of_run (hrest : Stops (· == quote) rest)
    (hrun : runLength quote (quote :: text) ≤ 2) :
    innerQuote quote (quote :: (text ++ quote :: quote :: quote :: rest)) =
      some (quote, text ++ quote :: quote :: quote :: rest) := by
  have hpos : 0 < runLength quote (quote :: text) := by
    rw [runLength_cons_self]
    exact Nat.succ_pos _
  have hlong := runLength_append_quotes (quote :: text) hrest
  rw [List.cons_append] at hlong
  rw [innerQuote, ← runLength, if_neg (by omega)]
  exact Reader.satisfy_of (beq_self_eq_true quote)

theorem innerQuote_of_end (hrest : Stops (· == quote) rest) :
    innerQuote quote (quote :: quote :: quote :: rest) = none := by
  rw [innerQuote, ← runLength, runLength_cons_self, runLength_cons_self, runLength_cons_self,
    runLength_of_stops hrest, if_pos (.inl rfl)]

/-- One more character, while the longest run is looked for. -/
def runStep (c : Char) : Nat × Nat → Char → Nat × Nat := fun (longest, run) d =>
  let run := if d == c then run + 1 else 0
  (max longest run, run)

theorem longestRun_eq (c : Char) (text : List Char) :
    longestRun c text = (text.foldl (runStep c) (0, 0)).1 :=
  rfl

theorem longest_le_foldl (c : Char) (text : List Char) (state : Nat × Nat) :
    state.1 ≤ (text.foldl (runStep c) state).1 := by
  induction text generalizing state with
  | nil => exact Nat.le_refl _
  | cons d text ih => exact Nat.le_trans (Nat.le_max_left _ _) (ih (runStep c state d))

/-- The run that goes on is counted. -/
theorem runLength_le_foldl (state : Nat × Nat) (h : 0 < runLength c text) :
    state.2 + runLength c text ≤ (text.foldl (runStep c) state).1 := by
  induction text generalizing state with
  | nil => cases h
  | cons d text ih =>
    by_cases hd : d = c
    · subst hd
      have hstep : runStep d state d = (max state.1 (state.2 + 1), state.2 + 1) := by
        simp [runStep]
      rw [List.foldl_cons, hstep, runLength_cons_self]
      rcases Nat.eq_zero_or_pos (runLength d text) with hzero | hpos
      · have := longest_le_foldl d text (max state.1 (state.2 + 1), state.2 + 1)
        omega
      · have := ih (max state.1 (state.2 + 1), state.2 + 1) hpos
        omega
    · rw [runLength_of_stops (Reader.stops_of_ne hd)] at h
      cases h

/-! ## Several lines -/

theorem text_quotes :
    Reader.text [quote, quote, quote] (quote :: quote :: quote :: rest) = some ((), rest) :=
  Reader.text_append

/-- A text of several lines starts on a line of its own. -/
theorem skip_start (isLong : Bool)
    (h : isLong = false → Stops (· == '\n') rest ∧ Stops (· == '\r') rest) :
    (discard (Reader.maybe Reader.lineBreak)) ((if isLong then ['\n'] else []) ++ rest) =
      some ((), rest) := by
  cases isLong with
  | true => exact Reader.discard_of_some (Reader.maybe_of_some Reader.lineBreak_newline)
  | false =>
    exact Reader.discard_of_some
      (Reader.maybe_of_none (Reader.lineBreak_of_ne (h rfl).1 (h rfl).2))

theorem repeats_literalChar (state : Nat × Nat) (hrest : Stops (· == '\'') rest)
    (htext : ∀ c ∈ text, isPlain c = true ∨ c = '\n')
    (hruns : (text.foldl (runStep '\'') state).1 ≤ 2) :
    Repeats literalChar (text ++ '\'' :: '\'' :: '\'' :: rest) text
      ('\'' :: '\'' :: '\'' :: rest) := by
  induction text generalizing state with
  | nil =>
    refine .stop ?_
    rw [literalChar, List.nil_append,
      Reader.orElse_of_none (Reader.satisfy_of_stops (stops_cons.mpr rfl)),
      Reader.orElse_of_none rfl, innerQuote_of_end hrest]
  | cons c text ih =>
    rw [List.cons_append]
    refine .next ?_ (Nat.lt_succ_self _)
      (ih (runStep '\'' state c) (fun d hd => htext d (List.mem_cons_of_mem c hd)) hruns)
    by_cases hquote : c = '\''
    · subst hquote
      have hpos : 0 < runLength '\'' ('\'' :: text) := by
        rw [runLength_cons_self]
        exact Nat.succ_pos _
      have hrun := runLength_le_foldl state hpos
      rw [literalChar, Reader.orElse_of_none (Reader.satisfy_of_stops (stops_cons.mpr rfl)),
        Reader.orElse_of_none rfl, innerQuote_of_run hrest (by omega)]
    · rcases htext c List.mem_cons_self with hplain | rfl
      · exact Reader.orElse_of_some (Reader.satisfy_of (by simp [isLiteral, hplain, hquote]))
      · rfl

theorem longLiteral_writeAs (hrest : Stops (· == '\'') rest)
    (htext : ∀ c ∈ text, isPlain c = true ∨ c = '\n') (hruns : longestRun '\'' text ≤ 2) :
    longLiteral (writeAs .longLiteral text ++ rest) = some (String.ofList text, rest) := by
  have hstart : text.contains '\n' = false →
      Stops (· == '\n') (text ++ '\'' :: '\'' :: '\'' :: rest) ∧
        Stops (· == '\r') (text ++ '\'' :: '\'' :: '\'' :: rest) := by
    intro honeLine
    cases text with
    | nil => exact ⟨stops_cons.mpr rfl, stops_cons.mpr rfl⟩
    | cons c text =>
      have hne : c ≠ '\n' := fun heq => by simp [heq] at honeLine
      have hplain := (htext c List.mem_cons_self).resolve_right hne
      exact ⟨Reader.stops_of_ne hne, Reader.stops_of_ne (Reader.ne_of_property hplain rfl)⟩
  have hwritten : writeAs .longLiteral text ++ rest =
      ['\'', '\'', '\''] ++ ((if text.contains '\n' then ['\n'] else []) ++
        (text ++ '\'' :: '\'' :: '\'' :: rest)) := by
    simp [writeAs]
  rw [longestRun_eq] at hruns
  rw [hwritten, longLiteral, Reader.bind_of_some Reader.text_append,
    Reader.bind_of_some (skip_start _ hstart),
    Reader.bind_of_some (Reader.many_of_repeats (repeats_literalChar (0, 0) hrest htext hruns)),
    Reader.bind_of_some text_quotes]
  rfl

/-- Either a line break, or one of two quotes in a row, or a character as on one line. -/
theorem writeLong_cons (quotes : Nat) (c : Char) (text : List Char) :
    (c = '\n' ∧ writeLong quotes (c :: text) = '\n' :: writeLong 0 text) ∨
      (c = '"' ∧ quotes < 2 ∧
        writeLong quotes (c :: text) = '"' :: writeLong (quotes + 1) text) ∨
      ∃ written, StandsAs c written ∧
        writeLong quotes (c :: text) = written ++ writeLong 0 text := by
  by_cases hnewline : c = '\n'
  · exact .inl ⟨hnewline, by rw [hnewline, writeLong]⟩
  by_cases hquote : c = '"'
  · subst hquote
    rw [writeLong]
    split
    · next hlt => exact .inr (.inl ⟨rfl, hlt, rfl⟩)
    · exact .inr (.inr ⟨_, standsAs_writeChar '"', rfl⟩)
  · exact .inr (.inr ⟨writeChar c, standsAs_writeChar c,
      writeLong.eq_4 quotes c text hnewline hquote⟩)

/-- At most two quotes stand in a row. -/
theorem runLength_writeLong (quotes : Nat) (text : List Char) :
    runLength '"' (writeLong quotes text) ≤ 2 - quotes := by
  induction text generalizing quotes with
  | nil => exact Nat.zero_le _
  | cons c text ih =>
    rcases writeLong_cons quotes c text with ⟨-, heq⟩ | ⟨-, hlt, heq⟩ | ⟨written, hwritten, heq⟩
    · rw [heq, runLength_of_stops (stops_cons.mpr rfl)]
      exact Nat.zero_le _
    · rw [heq, runLength_cons_self]
      have := ih (quotes + 1)
      omega
    · rw [heq, runLength_of_stops hwritten.stops_quote]
      exact Nat.zero_le _

/-- Characters that stand for themselves are read together, up to the first one that does not. -/
theorem takeWhile_writeLong (text rest : List Char) :
    ∃ plain later, text = plain ++ later ∧
      Reader.takeWhile isBasic (writeLong 0 text ++ '"' :: rest) =
        some (plain, writeLong 0 later ++ '"' :: rest) := by
  have hstops : ∀ {c : Char} {text : List Char},
      Stops isBasic (writeLong 0 (c :: text) ++ '"' :: rest) →
        ∃ plain later, c :: text = plain ++ later ∧
          Reader.takeWhile isBasic (writeLong 0 (c :: text) ++ '"' :: rest) =
            some (plain, writeLong 0 later ++ '"' :: rest) := fun h =>
    ⟨[], _, rfl, Reader.takeWhile_of_stops h⟩
  induction text with
  | nil => exact ⟨[], [], rfl, rfl⟩
  | cons c text ih =>
    rcases writeLong_cons 0 c text with ⟨-, heq⟩ | ⟨-, -, heq⟩ | ⟨written, hwritten, heq⟩
    · exact hstops (heq ▸ stops_cons.mpr rfl)
    · exact hstops (heq ▸ stops_cons.mpr rfl)
    · cases hwritten with
      | itself hbasic =>
        obtain ⟨plain, later, htext, htake⟩ := ih
        refine ⟨c :: plain, later, by rw [htext, List.cons_append], ?_⟩
        rw [heq]
        exact Reader.takeWhile_cons hbasic htake
      | escaped => exact hstops (heq ▸ stops_cons.mpr rfl)

theorem basicPiece_plain {input plain : List Char} (hbasic : isBasic c = true)
    (htake : Reader.takeWhile isBasic input = some (plain, rest)) :
    basicPiece (c :: input) = some (c :: plain, rest) :=
  Reader.orElse_of_some (Reader.takeWhile1_cons hbasic htake)

theorem basicPiece_escaped {letter : Char} {later : List Char}
    (hread : escape ('\\' :: letter :: later) = some (c, rest))
    (hblank : isBlank letter = false) (hnewline : letter ≠ '\n') (hreturn : letter ≠ '\r') :
    basicPiece ('\\' :: letter :: later) = some ([c], rest) := by
  have hjoin : lineJoin ('\\' :: letter :: later) = none := by
    rw [lineJoin, Reader.bind_of_some Reader.char_self,
      Reader.bind_of_some (Reader.blanks_of_stops (stops_cons.mpr hblank)),
      Reader.bind_of_none (Reader.lineBreak_of_ne (Reader.stops_of_ne hnewline)
        (Reader.stops_of_ne hreturn))]
  rw [basicPiece, Reader.orElse_of_none (Reader.takeWhile1_of_stops (stops_cons.mpr rfl)),
    Reader.orElse_of_none (Reader.bind_of_none hjoin),
    Reader.bind_of_some (Reader.orElse_of_some hread)]
  rfl

/-- Nothing but a quote of the text can start with a quote. -/
theorem basicPiece_quote (input : List Char) :
    basicPiece ('"' :: input) =
      (innerQuote '"' ('"' :: input)).map fun (c, rest) => ([c], rest) := by
  cases h : innerQuote '"' ('"' :: input) with
  | none =>
    rw [basicPiece, Reader.orElse_of_none (Reader.takeWhile1_of_stops (stops_cons.mpr rfl)),
      Reader.orElse_of_none rfl, Reader.bind_of_none]
    · rfl
    · rw [Reader.orElse_of_none rfl, Reader.orElse_of_none rfl, h]
  | some x =>
    rw [basicPiece, Reader.orElse_of_none (Reader.takeWhile1_of_stops (stops_cons.mpr rfl)),
      Reader.orElse_of_none rfl, Reader.bind_of_some]
    rotate_left
    · rw [Reader.orElse_of_none rfl, Reader.orElse_of_none rfl, h]
    · rfl

theorem repeats_writeLong (quotes : Nat) (text : List Char) (hrest : Stops (· == '"') rest) :
    ∃ pieces, Repeats basicPiece (writeLong quotes text ++ '"' :: '"' :: '"' :: rest) pieces
      ('"' :: '"' :: '"' :: rest) ∧ pieces.flatten = text := by
  -- A piece may take many characters, so the induction is on how many are left.
  induction hlength : text.length using Nat.strongRecOn generalizing quotes text with
  | ind length ih =>
    subst hlength
    cases text with
    | nil =>
      refine ⟨[], .stop ?_, rfl⟩
      rw [writeLong, List.nil_append, basicPiece_quote, innerQuote_of_end hrest]
      rfl
    | cons c text =>
      rcases writeLong_cons quotes c text with ⟨rfl, heq⟩ | ⟨rfl, -, heq⟩ |
        ⟨written, hwritten, heq⟩
      · obtain ⟨pieces, hpieces, hflatten⟩ := ih _ (Nat.lt_succ_self _) 0 text rfl
        rw [heq]
        exact ⟨['\n'] :: pieces, .next rfl (Nat.lt_succ_self _) hpieces, by simp [hflatten]⟩
      · obtain ⟨pieces, hpieces, hflatten⟩ := ih _ (Nat.lt_succ_self _) (quotes + 1) text rfl
        have hrun := runLength_writeLong quotes ('"' :: text)
        rw [heq] at hrun ⊢
        rw [List.cons_append]
        refine ⟨['"'] :: pieces, .next ?_ (Nat.lt_succ_self _) hpieces, by simp [hflatten]⟩
        rw [basicPiece_quote, innerQuote_of_run hrest (Nat.le_trans hrun (Nat.sub_le _ _))]
        rfl
      · rw [heq, List.append_assoc]
        cases hwritten with
        | itself hbasic =>
          obtain ⟨plain, later, htext, htake⟩ := takeWhile_writeLong text ('"' :: '"' :: rest)
          have hlater : later.length < (c :: text).length := by
            rw [htext, List.length_cons, List.length_append]
            omega
          have hshort := congrArg List.length (Reader.append_of_takeWhile htake)
          obtain ⟨pieces, hpieces, hflatten⟩ := ih _ hlater 0 later rfl
          refine ⟨(c :: plain) :: pieces, .next (basicPiece_plain hbasic htake) ?_ hpieces,
            by simp [hflatten, htext]⟩
          rw [List.length_append] at hshort
          rw [List.singleton_append, List.length_cons]
          omega
        | escaped hread hblank hnewline hreturn =>
          obtain ⟨pieces, hpieces, hflatten⟩ := ih _ (Nat.lt_succ_self _) 0 text rfl
          refine ⟨[c] :: pieces, .next (basicPiece_escaped (hread _) hblank hnewline hreturn) ?_
            hpieces, by simp [hflatten]⟩
          simp only [List.cons_append, List.length_cons, List.length_append]
          omega

theorem longBasic_writeAs (hrest : Stops (· == '"') rest) :
    longBasic (writeAs .longBasic text ++ rest) = some (String.ofList text, rest) := by
  have hstart : text.contains '\n' = false →
      Stops (· == '\n') (writeLong 0 text ++ '"' :: '"' :: '"' :: rest) ∧
        Stops (· == '\r') (writeLong 0 text ++ '"' :: '"' :: '"' :: rest) := by
    intro honeLine
    cases text with
    | nil => exact ⟨stops_cons.mpr rfl, stops_cons.mpr rfl⟩
    | cons c text =>
      rcases writeLong_cons 0 c text with ⟨rfl, -⟩ | ⟨-, -, heq⟩ | ⟨written, hwritten, heq⟩
      · simp at honeLine
      · rw [heq]
        exact ⟨stops_cons.mpr rfl, stops_cons.mpr rfl⟩
      · rw [heq]
        cases hwritten with
        | itself hbasic =>
          exact ⟨Reader.stops_of_ne (Reader.ne_of_property hbasic rfl),
            Reader.stops_of_ne (Reader.ne_of_property hbasic rfl)⟩
        | escaped => exact ⟨stops_cons.mpr rfl, stops_cons.mpr rfl⟩
  have hwritten : writeAs .longBasic text ++ rest =
      ['"', '"', '"'] ++ ((if text.contains '\n' then ['\n'] else []) ++
        (writeLong 0 text ++ '"' :: '"' :: '"' :: rest)) := by
    simp [writeAs]
  obtain ⟨pieces, hpieces, hflatten⟩ := repeats_writeLong 0 text hrest
  rw [hwritten, longBasic, Reader.bind_of_some Reader.text_append,
    Reader.bind_of_some (skip_start _ hstart),
    Reader.bind_of_some (Reader.many_of_repeats hpieces), Reader.bind_of_some text_quotes, hflatten]
  rfl

/-! ## All forms -/

theorem form_literal (h : form text = .literal) : ∀ c ∈ text, isLiteral c = true := by
  unfold form at h
  grind [isLiteral, needsEscape]

theorem form_longLiteral (h : form text = .longLiteral) :
    (∀ c ∈ text, isPlain c = true ∨ c = '\n') ∧ longestRun '\'' text ≤ 2 := by
  unfold form at h
  grind [needsEscape]

/-- The characters that surround strings. -/
def isQuote (c : Char) : Bool :=
  c == '"' || c == '\''

theorem string_basic {input : List Char} (h : ∀ later, input ≠ '"' :: '"' :: later) :
    string ('"' :: input) = basic ('"' :: input) := by
  rw [string.eq_def]
  split
  · next later heq => exact absurd (List.cons.inj heq).2 (h later)
  · next heq => cases heq
  · rfl
  · next heq => cases heq
  · next hdouble _ => exact absurd rfl (hdouble input)

theorem string_literal {input : List Char} (h : Stops (· == '\'') input) :
    string ('\'' :: input) = literal ('\'' :: input) := by
  rw [string.eq_def]
  split
  · next heq => cases heq
  · next heq =>
    rw [(List.cons.inj heq).2] at h
    exact absurd (stops_cons.mp h) (by decide)
  · next heq => cases heq
  · rfl
  · next hother => exact absurd rfl (hother input)

theorem string_writeAs (hrest : Stops isQuote rest) :
    string (writeAs (form text) text ++ rest) = some (String.ofList text, rest) := by
  have hdouble : Stops (· == '"') rest := hrest.imp (by simp +contextual [isQuote])
  have hsingle : Stops (· == '\'') rest := hrest.imp (by simp +contextual [isQuote])
  cases h : form text with
  | basic =>
    have hstart : ∀ later, text.flatMap writeChar ++ '"' :: rest ≠ '"' :: '"' :: later := by
      intro later heq
      cases text with
      | nil =>
        rw [List.flatMap_nil, List.nil_append] at heq
        rw [(List.cons.inj heq).2] at hdouble
        exact absurd (stops_cons.mp hdouble) (by decide)
      | cons c text =>
        have hstops : Stops (· == '"') (writeChar c ++ (text.flatMap writeChar ++ '"' :: rest)) :=
          (standsAs_writeChar c).stops_quote
        rw [← List.append_assoc, ← List.flatMap_cons, heq] at hstops
        exact absurd (stops_cons.mp hstops) (by decide)
    rw [← basic_writeAs, writeAs, List.cons_append, List.cons_append, List.append_assoc,
      List.singleton_append, string_basic hstart]
  | literal =>
    have hliteral := form_literal h
    have hne : text ≠ [] := by
      rintro rfl
      cases h
    obtain ⟨c, later, rfl⟩ := List.exists_cons_of_ne_nil hne
    have hc : c ≠ '\'' := Reader.ne_of_property (hliteral c List.mem_cons_self) rfl
    rw [← literal_writeAs hliteral, writeAs, List.cons_append, List.cons_append, List.append_assoc,
      List.cons_append, string_literal (Reader.stops_of_ne hc)]
  | longBasic => exact longBasic_writeAs hdouble
  | longLiteral =>
    obtain ⟨htext, hruns⟩ := form_longLiteral h
    exact longLiteral_writeAs hsingle htext hruns

theorem exists_quote (text : String) :
    ∃ quote later, (write text).toList = quote :: later ∧ isQuote quote = true := by
  rw [write, String.toList_ofList]
  cases form text.toList with
  | basic => exact ⟨'"', _, rfl, rfl⟩
  | literal => exact ⟨'\'', _, rfl, rfl⟩
  | longBasic => exact ⟨'"', _, rfl, rfl⟩
  | longLiteral => exact ⟨'\'', _, rfl, rfl⟩

/-- Whatever a text consists of, it is read as it was. -/
theorem string_write (text : String) (hrest : Stops isQuote rest) :
    string ((write text).toList ++ rest) = some (text, rest) := by
  rw [write, String.toList_ofList, string_writeAs hrest, String.ofList_toList]

end Highlighter.Toml.Quoted
