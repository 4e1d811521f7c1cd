import Highlighter.Toml.Reader

/-!
# What readers take

A reader that is made of others takes what they take, one after the other. Taking characters, and
reading items while there are any, stops where the rest begins with something else.
-/

namespace Highlighter.Toml.Reader

variable {α β : Type} {reader other item : Reader α} {next : α → Reader β} {a : α}
  {p : Char → Bool} {c d : Char} {written input rest : List Char}

/-! ## One after the other -/

theorem bind_of_some (h : reader input = some (a, rest)) :
    (reader >>= next) input = next a rest := by
  change (reader input).bind _ = _
  rw [h]
  rfl

theorem bind_of_none (h : reader input = none) : (reader >>= next) input = none := by
  change (reader input).bind _ = _
  rw [h]
  rfl

theorem exists_of_bind {x : β × List Char} (h : (reader >>= next) input = some x) :
    ∃ a rest, reader input = some (a, rest) ∧ next a rest = some x := by
  cases hreader : reader input with
  | none => exact absurd ((bind_of_none hreader).symm.trans h) (by simp)
  | some taken => exact ⟨taken.1, taken.2, rfl, (bind_of_some hreader).symm.trans h⟩

theorem map_of_some {f : α → β} (h : reader input = some (a, rest)) :
    (f <$> reader) input = some (f a, rest) := by
  change (reader input).bind (fun x => some (f x.1, x.2)) = _
  rw [h]
  rfl

theorem map_of_none {f : α → β} (h : reader input = none) : (f <$> reader) input = none := by
  change (reader input).bind (fun x => some (f x.1, x.2)) = _
  rw [h]
  rfl

theorem discard_of_some (h : reader input = some (a, rest)) :
    (discard reader) input = some ((), rest) :=
  map_of_some h

theorem discard_of_none (h : reader input = none) : (discard reader) input = none :=
  map_of_none h

theorem orElse_of_some {x : α × List Char} (h : reader input = some x) :
    (reader <|> other) input = some x := by
  change (reader input <|> other input) = _
  rw [h]
  rfl

theorem orElse_of_none (h : reader input = none) : (reader <|> other) input = other input := by
  change (reader input <|> other input) = _
  rw [h]
  rfl

theorem maybe_of_some (h : reader input = some (a, rest)) :
    maybe reader input = some (some a, rest) :=
  orElse_of_some (map_of_some h)

theorem maybe_of_none (h : reader input = none) : maybe reader input = some (none, input) :=
  orElse_of_none (map_of_none h)

/-! ## Characters -/

/-- No character with a property comes next. -/
def Stops (p : Char → Bool) (rest : List Char) : Prop :=
  ∀ c ∈ rest.head?, p c = false

theorem stops_nil : Stops p [] :=
  nofun

theorem stops_cons : Stops p (c :: rest) ↔ p c = false :=
  ⟨fun h => h c rfl, fun h d hd => by cases hd; exact h⟩

theorem stops_append (hwritten : ∀ c ∈ written, p c = false) (hrest : Stops p rest) :
    Stops p (written ++ rest) := by
  cases written with
  | nil => exact hrest
  | cons c written => exact stops_cons.mpr (hwritten c List.mem_cons_self)

theorem Stops.imp {q : Char → Bool} (h : Stops p rest) (hpq : ∀ c, q c = true → p c = true) :
    Stops q rest :=
  fun c hc => Bool.eq_false_iff.mpr fun hq => Bool.false_ne_true ((h c hc).symm.trans (hpq c hq))

/-- A property tells two characters apart. -/
theorem ne_of_property (hc : p c = true) (hd : p d = false) : c ≠ d :=
  fun heq => Bool.false_ne_true (hd.symm.trans (heq ▸ hc))

theorem stops_of_ne (h : d ≠ c) : Stops (· == c) (d :: rest) :=
  stops_cons.mpr (beq_eq_false_iff_ne.mpr h)

theorem char_self : char c (c :: rest) = some ((), rest) :=
  if_pos rfl

theorem char_of_ne (h : d ≠ c) : char c (d :: rest) = none :=
  if_neg h

theorem char_of_stops (h : Stops (· == c) rest) : char c rest = none := by
  cases rest with
  | nil => rfl
  | cons d rest => exact char_of_ne (by simpa using stops_cons.mp h)

theorem text_append : text written (written ++ rest) = some ((), rest) := by
  induction written with
  | nil => rfl
  | cons c written ih =>
    rw [text, List.cons_append, bind_of_some char_self, ih]

theorem text_of_ne (h : d ≠ c) : text (c :: written) (d :: rest) = none :=
  bind_of_none (char_of_ne h)

theorem satisfy_of (h : p c = true) : satisfy p (c :: rest) = some (c, rest) :=
  if_pos h

theorem satisfy_of_stops (h : Stops p rest) : satisfy p rest = none := by
  cases rest with
  | nil => rfl
  | cons c rest => exact if_neg (by simp [stops_cons.mp h])

theorem takeWhile_of_stops (h : Stops p rest) : takeWhile p rest = some ([], rest) := by
  cases rest with
  | nil => rfl
  | cons c rest => simp [takeWhile, stops_cons.mp h]

theorem takeWhile_cons (hc : p c = true) (h : takeWhile p input = some (written, rest)) :
    takeWhile p (c :: input) = some (c :: written, rest) := by
  cases h
  simp [takeWhile, hc]

theorem takeWhile_append (hwritten : ∀ c ∈ written, p c = true) (hrest : Stops p rest) :
    takeWhile p (written ++ rest) = some (written, rest) := by
  induction written with
  | nil => exact takeWhile_of_stops hrest
  | cons c written ih =>
    exact takeWhile_cons (hwritten c List.mem_cons_self)
      (ih fun d hd => hwritten d (List.mem_cons_of_mem c hd))

theorem append_of_takeWhile (h : takeWhile p input = some (written, rest)) :
    written ++ rest = input := by
  cases h
  exact List.takeWhile_append_dropWhile

theorem takeWhile1_cons (hc : p c = true) (h : takeWhile p input = some (written, rest)) :
    takeWhile1 p (c :: input) = some (c :: written, rest) := by
  rw [takeWhile1, bind_of_some (satisfy_of hc), bind_of_some h]
  rfl

theorem takeWhile1_of_stops (h : Stops p rest) : takeWhile1 p rest = none :=
  bind_of_none (satisfy_of_stops h)

theorem exactly_append (hwritten : ∀ c ∈ written, p c = true) :
    exactly p written.length (written ++ rest) = some (written, rest) := by
  induction written with
  | nil => rfl
  | cons c written ih =>
    rw [List.length_cons, exactly, List.cons_append,
      bind_of_some (satisfy_of (hwritten c List.mem_cons_self)),
      bind_of_some (ih fun d hd => hwritten d (List.mem_cons_of_mem c hd))]
    rfl

/-- What is left of a text, where no more can be taken behind it. -/
theorem exists_of_exactly {n : Nat} {taken later : List Char} (hrest : Stops p rest)
    (h : exactly p n (written ++ rest) = some (taken, later)) :
    ∃ left, written = taken ++ left ∧ later = left ++ rest := by
  induction n generalizing written taken with
  | zero =>
    cases h
    exact ⟨written, rfl, rfl⟩
  | succ n ih =>
    obtain ⟨c, input, hfirst, h⟩ := exists_of_bind h
    obtain ⟨others, later', hothers, h⟩ := exists_of_bind h
    cases h
    cases written with
    | nil => exact absurd ((satisfy_of_stops hrest).symm.trans hfirst) (by simp)
    | cons d written =>
      obtain ⟨-, heq⟩ := Option.ite_none_right_eq_some.mp hfirst
      cases heq
      obtain ⟨left, rfl, hlater⟩ := ih hothers
      exact ⟨left, rfl, hlater⟩

/-! ## Items -/

/-- Items stand one after the other, up to where no further one follows. -/
inductive Repeats (item : Reader α) : List Char → List α → List Char → Prop where
  | stop {rest : List Char} (h : item rest = none) : Repeats item rest [] rest
  | next {input later rest : List Char} {a : α} {items : List α}
      (h : item input = some (a, later)) (hshort : later.length < input.length)
      (hlater : Repeats item later items rest) : Repeats item input (a :: items) rest

theorem manyUpTo_of_repeats {items : List α} (h : Repeats item input items rest) :
    ∀ bound, input.length ≤ bound → manyUpTo item bound input = (items, rest) := by
  induction h with
  | stop h =>
    intro bound _
    cases bound with
    | zero => rfl
    | succ bound => rw [manyUpTo, h]
  | next h hshort _ ih =>
    intro bound hbound
    cases bound with
    | zero => exact absurd hshort (by omega)
    | succ bound =>
      have hlater := ih bound (by omega)
      simp only [manyUpTo, h, hlater]

theorem many_of_repeats {items : List α} (h : Repeats item input items rest) :
    many item input = some (items, rest) := by
  rw [many, manyUpTo_of_repeats h _ (Nat.le_refl _)]

/-- Items that are written one after the other are read one after the other, where each of them can
be read before what follows it. -/
theorem repeats_flatMap {γ : Type} {write : γ → List Char} {read : γ → α}
    (follows : List Char → Prop) {sources : List γ}
    (hread : ∀ x ∈ sources, ∀ rest, follows rest → item (write x ++ rest) = some (read x, rest))
    (hwrite : ∀ x ∈ sources, write x ≠ [] ∧ ∀ rest, follows (write x ++ rest))
    (hfollows : follows rest) (hrest : item rest = none) :
    Repeats item (sources.flatMap write ++ rest) (sources.map read) rest := by
  induction sources with
  | nil => exact .stop hrest
  | cons x sources ih =>
    rw [List.flatMap_cons, List.append_assoc, List.map_cons]
    have hlater : follows (sources.flatMap write ++ rest) := by
      cases sources with
      | nil => exact hfollows
      | cons y sources =>
        rw [List.flatMap_cons, List.append_assoc]
        exact (hwrite y (by simp)).2 _
    refine .next (hread x List.mem_cons_self _ hlater) ?_
      (ih (fun y hy => hread y (List.mem_cons_of_mem x hy))
        (fun y hy => hwrite y (List.mem_cons_of_mem x hy)))
    have hpos := List.length_pos_iff.mpr (hwrite x List.mem_cons_self).1
    generalize sources.flatMap write ++ rest = later
    rw [List.length_append]
    omega

/-! ## Lines and gaps -/

theorem lineBreak_newline : lineBreak ('\n' :: rest) = some ((), rest) :=
  orElse_of_some char_self

theorem lineBreak_of_ne (hnewline : Stops (· == '\n') rest) (hreturn : Stops (· == '\r') rest) :
    lineBreak rest = none :=
  (orElse_of_none (char_of_stops hnewline)).trans (bind_of_none (char_of_stops hreturn))

theorem blanks_of_stops (h : Stops isBlank rest) : blanks rest = some ((), rest) :=
  discard_of_some (takeWhile_of_stops h)

theorem blanks_space (h : Stops isBlank rest) : blanks (' ' :: rest) = some ((), rest) :=
  discard_of_some (takeWhile_cons rfl (takeWhile_of_stops h))

theorem comment_line (h : ∀ c ∈ written, isPlain c = true) :
    comment ('#' :: (written ++ '\n' :: rest)) = some ((), '\n' :: rest) := by
  rw [comment, bind_of_some char_self]
  exact discard_of_some (takeWhile_append h (stops_cons.mpr rfl))

theorem comment_of_stops (h : Stops (· == '#') rest) : comment rest = none :=
  bind_of_none (char_of_stops h)

theorem lineEnd_newline : lineEnd ('\n' :: rest) = some ((), rest) := by
  rw [lineEnd, bind_of_some (blanks_of_stops (stops_cons.mpr rfl)),
    bind_of_some (discard_of_some (maybe_of_none (comment_of_stops (stops_cons.mpr rfl))))]
  exact orElse_of_some lineBreak_newline

/-- Reads one part of a gap. -/
def gapPart : Reader Unit :=
  discard (takeWhile1 isBlank) <|> lineBreak <|> (do comment; lineBreak)

/-- The characters with which a part of a gap starts. -/
def startsGap (c : Char) : Bool :=
  isBlank c || c == '\n' || c == '\r' || c == '#'

theorem startsGap_eq_false (hc : p c = true)
    (hp : [' ', '\t', '\n', '\r', '#'].all (fun d => !p d) = true) : startsGap c = false := by
  have hne : ∀ d ∈ [' ', '\t', '\n', '\r', '#'], c ≠ d := fun d hd =>
    ne_of_property hc (by simpa using List.all_eq_true.mp hp d hd)
  simpa [startsGap, isBlank, and_assoc] using hne

theorem gapPart_of_stops (h : Stops startsGap rest) : gapPart rest = none := by
  rw [gapPart, orElse_of_none (discard_of_none (takeWhile1_of_stops (h.imp ?_))),
    orElse_of_none (lineBreak_of_ne (h.imp ?_) (h.imp ?_)),
    bind_of_none (comment_of_stops (h.imp ?_))]
  all_goals simp +contextual [startsGap]

theorem gapPart_comment (h : ∀ c ∈ written, isPlain c = true) :
    gapPart ('#' :: (written ++ '\n' :: rest)) = some ((), rest) := by
  rw [gapPart, orElse_of_none (discard_of_none (takeWhile1_of_stops (stops_cons.mpr rfl))),
    orElse_of_none (lineBreak_of_ne (stops_cons.mpr rfl) (stops_cons.mpr rfl)),
    bind_of_some (comment_line h), lineBreak_newline]

theorem gapPart_newline : gapPart ('\n' :: rest) = some ((), rest) := by
  rw [gapPart, orElse_of_none (discard_of_none (takeWhile1_of_stops (stops_cons.mpr rfl))),
    orElse_of_some lineBreak_newline]

theorem gapPart_space (h : Stops startsGap rest) : gapPart (' ' :: rest) = some ((), rest) :=
  orElse_of_some (discard_of_some
    (takeWhile1_cons rfl (takeWhile_of_stops (h.imp (by simp +contextual [startsGap])))))

/-- A text that is skipped as one gap. -/
def IsGap (written : List Char) : Prop :=
  ∀ rest, Stops startsGap rest → gap (written ++ rest) = some ((), rest)

theorem gap_of_repeats {parts : List Unit} (h : Repeats gapPart input parts rest) :
    gap input = some ((), rest) :=
  discard_of_some (many_of_repeats h)

theorem gap_of_stops (h : Stops startsGap rest) : gap rest = some ((), rest) :=
  gap_of_repeats (.stop (gapPart_of_stops h))

theorem gap_space (h : Stops startsGap rest) : gap (' ' :: rest) = some ((), rest) :=
  gap_of_repeats (.next (gapPart_space h) (by simp) (.stop (gapPart_of_stops h)))

end Highlighter.Toml.Reader
