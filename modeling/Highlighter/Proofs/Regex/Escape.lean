import Highlighter.Proofs.Outcome
import Highlighter.Regex.Reader

/-!
# Local readers

Most of what a reader does next depends on few characters: names, flags and the digits of code
points end where they end, whatever follows. Such a reader does the same in front of any other
source, as long as what it has read is there.
-/

namespace Highlighter.Regex

/-- The characters that escape, open, close or comment something in a source. -/
def delimiters : List Char := ['\\', '(', ')', '[', ']', '#']

/-- A word without delimiters. -/
def IsInert (word : List Char) : Prop :=
  ∀ c ∈ word, c ∉ delimiters

/-- A reader that looks no further than it reads, and reads no delimiter. -/
def IsLocal {α : Type} (read : List Char → Except Error (α × List Char)) : Prop :=
  ∀ source a rest, read source = .ok (a, rest) →
    ∃ word, source = word ++ rest ∧ IsInert word ∧ ∀ other, read (word ++ other) = .ok (a, other)

namespace IsInert

variable {c : Char} {word word' : List Char}

theorem nil : IsInert [] :=
  fun _ hmem => absurd hmem List.not_mem_nil

theorem append (h : IsInert word) (h' : IsInert word') : IsInert (word ++ word') :=
  List.forall_mem_append.mpr ⟨h, h'⟩

theorem cons (hc : c ∉ delimiters) (h : IsInert word) : IsInert (c :: word) :=
  List.forall_mem_cons.mpr ⟨hc, h⟩

theorem notMem_backslash (h : IsInert word) : '\\' ∉ word :=
  fun hmem => h _ hmem (by decide)

theorem of_all {p : Char → Bool} (hword : ∀ c ∈ word, p c = true)
    (hp : delimiters.any p = false) : IsInert word :=
  fun c hc hmem => List.any_eq_false.mp hp c hmem (hword c hc)

end IsInert

theorem drop_length_takeWhile {α : Type} (p : α → Bool) (items : List α) :
    items.drop (items.takeWhile p).length = items.dropWhile p := by
  have hdrop : (items.takeWhile p ++ items.dropWhile p).drop (items.takeWhile p).length =
      items.dropWhile p := List.drop_left
  rwa [List.takeWhile_append_dropWhile] at hdrop

theorem takeWhile_append_cons {α : Type} {p : α → Bool} {word rest : List α} {a : α}
    (hword : ∀ b ∈ word, p b = true) (ha : p a = false) :
    (word ++ a :: rest).takeWhile p = word := by
  rw [List.takeWhile_append_of_pos hword, List.takeWhile_cons_of_neg (by simp [ha]),
    List.append_nil]

theorem dropWhile_append_cons {α : Type} {p : α → Bool} {word rest : List α} {a : α}
    (hword : ∀ b ∈ word, p b = true) (ha : p a = false) :
    (word ++ a :: rest).dropWhile p = a :: rest := by
  rw [List.dropWhile_append_of_pos hword, List.dropWhile_cons_of_neg (by simp [ha])]

namespace Escape

theorem readName_local : IsLocal (readName [] '>') := by
  intro source name rest h
  simp only [readName, List.isPrefixOf_nil_left, if_true, List.length_nil, List.drop_zero,
    drop_length_takeWhile] at h
  have hall : ∀ c ∈ source.takeWhile fun c => Text.isNameChar c || c == '-',
      (Text.isNameChar c || c == '-') = true :=
    fun c hc => List.all_eq_true.mp List.all_takeWhile c hc
  have hsplit := List.takeWhile_append_dropWhile (p := fun c => Text.isNameChar c || c == '-')
    (l := source)
  split at h
  · next c after hafter =>
    split at h
    · next hclose =>
      simp only [Bool.and_eq_true, beq_iff_eq] at hclose
      obtain ⟨rfl, hne⟩ := hclose
      cases h
      rw [hafter] at hsplit
      generalize source.takeWhile _ = name at hall hne hsplit ⊢
      refine ⟨name ++ ['>'], ?_, ?_, fun other => ?_⟩
      · rw [List.append_assoc, List.singleton_append, hsplit]
      · exact (IsInert.of_all hall (by decide)).append (.cons (by decide) .nil)
      · have hname : (Text.isNameChar '>' || '>' == '-') = false := by decide
        rw [List.append_assoc, List.singleton_append]
        simp only [readName, List.isPrefixOf_nil_left, if_true, List.length_nil, List.drop_zero,
          takeWhile_append_cons hall hname, List.drop_left, beq_self_eq_true, hne, Bool.and_self]
    · cases h
  · cases h

theorem isSome_of_hexNumber? {digits : List Char} {number : Nat}
    (h : hexNumber? digits = some number) : ∀ c ∈ digits, (hexValue? c).isSome = true := by
  have hfold : ∀ value : Option Nat,
      digits.foldl (fun value c => do return 16 * (← value) + (← hexValue? c)) value = some number →
        value.isSome ∧ ∀ c ∈ digits, (hexValue? c).isSome = true := by
    clear h
    induction digits with
    | nil =>
      intro value h
      simp_all
    | cons c digits ih =>
      intro value h
      obtain ⟨hvalue, hdigits⟩ := ih _ h
      cases value with
      | none => simp at hvalue
      | some value =>
        cases hc : hexValue? c with
        | none => simp [hc] at hvalue
        | some digit => simpa [hc] using hdigits
  exact (hfold (some 0) h).2

theorem hexNumber?_brace (digits : List Char) : hexNumber? ('\x7b' :: digits) = none := by
  cases h : hexNumber? ('\x7b' :: digits) with
  | none => rfl
  | some number => exact absurd (isSome_of_hexNumber? h _ List.mem_cons_self) (by decide)

theorem readCodePoint_local (count : Nat) : IsLocal (readCodePoint count) := by
  intro source escape rest h
  unfold readCodePoint at h
  split at h
  · next point hpoint =>
    split at h
    · cases h
    · next hcount =>
      obtain ⟨c, hc, hpure⟩ := ok_of_bind_eq_ok h
      cases hpure
      have hlength : (source.take count).length = count := by
        rw [List.length_take]
        omega
      refine ⟨source.take count, (List.take_append_drop _ _).symm,
        .of_all (isSome_of_hexNumber? hpoint) (by decide), fun other => ?_⟩
      have hother : ¬ (source.take count ++ other).length < count := by
        rw [List.length_append]
        omega
      unfold readCodePoint
      rw [List.take_left' hlength, List.drop_left' hlength]
      simp only [hpoint, if_neg hother, hc]
      rfl
  · next hnone =>
    split at h
    · next inner =>
      simp only [drop_length_takeWhile] at h
      have hall : ∀ c ∈ inner.takeWhile (hexValue? · |>.isSome), (hexValue? c).isSome = true :=
        fun c hc => List.all_eq_true.mp List.all_takeWhile c hc
      have hsplit := List.takeWhile_append_dropWhile (p := (hexValue? · |>.isSome)) (l := inner)
      split at h
      · next point rest' hpoint hafter =>
        split at h
        · cases h
        · next hcount =>
          obtain ⟨c, hc, hpure⟩ := ok_of_bind_eq_ok h
          cases hpure
          have hpositive : count ≠ 0 := by
            rintro rfl
            cases hnone
          rw [hafter] at hsplit
          generalize inner.takeWhile _ = digits at hall hpoint hcount hsplit ⊢
          subst hsplit
          refine ⟨'\x7b' :: (digits ++ ['\x7d']), by simp, ?_, fun other => ?_⟩
          · exact .cons (by decide) ((IsInert.of_all hall (by decide)).append
              (.cons (by decide) .nil))
          · obtain ⟨count, rfl⟩ := Nat.exists_eq_succ_of_ne_zero hpositive
            have hclose : (hexValue? '\x7d').isSome = false := by decide
            unfold readCodePoint
            simp only [List.cons_append, List.append_assoc, List.nil_append, List.take_succ_cons,
              hexNumber?_brace, takeWhile_append_cons hall hclose, hpoint, List.drop_left,
              if_neg hcount, hc]
            rfl
      · cases h
    · cases h

/-- No property has a delimiter in its name. -/
theorem isInert_of_property? {name : List Char} {members : CharSet}
    (h : property? name = some members) : IsInert name := by
  intro c hname hdelimiter
  have hplain : c ∈ (String.ofList ((name.filter fun c =>
      c != ' ' && c != '_' && c != '-').map Char.toLower)).toList := by
    have hkept : delimiters.all (fun c => (c != ' ' && c != '_' && c != '-') && c.toLower == c) =
        true := by decide
    obtain ⟨hfilter, hlower⟩ := Bool.and_eq_true_iff.mp (List.all_eq_true.mp hkept c hdelimiter)
    rw [beq_iff_eq] at hlower
    rw [String.toList_ofList]
    exact List.mem_map.mpr ⟨c, List.mem_filter.mpr ⟨hname, hfilter⟩, hlower⟩
  unfold property? at h
  simp only at h
  generalize String.ofList _ = plain at hplain h
  have hletter : c.isAlpha = false := by
    have hdelimiters : delimiters.all (fun c => c.isAlpha == false) = true := by decide
    exact beq_iff_eq.mp (List.all_eq_true.mp hdelimiters c hdelimiter)
  -- the names of properties are made of letters
  have hne : ∀ other : List Char, other.all Char.isAlpha = true → other ≠ plain.toList := by
    rintro _ hother rfl
    exact absurd (List.all_eq_true.mp hother c hplain) (by rw [hletter]; exact Bool.false_ne_true)
  have hgroups : (["L", "M", "N", "P", "S", "Z", "C"] ++ Text.Category.codes.map (·.1)).find?
      (fun group => (group.toList.map Char.toLower) == plain.toList) = none := by
    have hletters : ∀ group ∈ ["L", "M", "N", "P", "S", "Z", "C"] ++ Text.Category.codes.map (·.1),
        (group.toList.map Char.toLower).all Char.isAlpha = true := by decide +kernel
    rw [List.find?_eq_none]
    intro group hgroup heq
    exact hne _ (hletters group hgroup) (beq_iff_eq.mp heq)
  have hlong : longNames.lookup plain = none := by
    have hletters : ∀ entry ∈ longNames, entry.1.toList.all Char.isAlpha = true := by
      simp only [longNames, List.forall_mem_cons, String.reduceToList]
      decide +kernel
    rw [List.lookup_eq_none_iff]
    intro entry hentry
    rw [bne_iff_ne]
    rintro rfl
    exact hne _ (hletters entry hentry) rfl
  have hother : ∀ other : String, other.toList.all Char.isAlpha = true →
      (plain == other) = false := by
    intro other hletters
    rw [beq_eq_false_iff_ne]
    rintro rfl
    exact hne _ hletters rfl
  rw [hgroups, hlong] at h
  simp [hother "lc" (by decide), hother "casedletter" (by decide), hother "any" (by decide),
    hother "ascii" (by decide), hother "assigned" (by decide)] at h

theorem readProperty_local (negated : Bool) : IsLocal (readProperty negated) := by
  intro source escape rest h
  unfold readProperty at h
  split at h
  · cases h
  · next inner =>
    have hsplit := List.takeWhile_append_dropWhile (p := (· != '\x7d')) (l := inner)
    have hall : ∀ c ∈ inner.takeWhile (· != '\x7d'), (c != '\x7d') = true :=
      fun c hc => List.all_eq_true.mp List.all_takeWhile c hc
    split at h
    · next c after hafter =>
      have hclose : c = '\x7d' := by
        have hhead := List.head?_dropWhile_not (· != '\x7d') inner
        rw [hafter] at hhead
        simpa using hhead
      subst hclose
      simp only [pure_bind] at h
      split at h
      · next members hmembers =>
        cases h
        have hname := isInert_of_property? hmembers
        rw [hafter] at hsplit
        generalize inner.takeWhile _ = name at hall hmembers hname hsplit
        subst hsplit
        refine ⟨'\x7b' :: (name ++ ['\x7d']), by simp,
          .cons (by decide) (hname.append (.cons (by decide) .nil)), fun other => ?_⟩
        have hend : ('\x7d' != '\x7d') = false := by decide
        unfold readProperty
        simp only [List.cons_append, List.append_assoc, List.nil_append,
          takeWhile_append_cons hall hend, dropWhile_append_cons hall hend, pure_bind, hmembers]
        rfl
      · cases h
    · cases h
  · next c tail hbrace =>
    simp only [pure_bind] at h
    split at h
    · next members hmembers =>
      cases h
      refine ⟨[c], rfl, isInert_of_property? hmembers, fun other => ?_⟩
      unfold readProperty
      simp only [List.singleton_append, pure_bind, hmembers]
      rfl
    · cases h

/-- A digit is the first of a number. -/
theorem read_digit (inClass : Bool) {c : Char} (hdigit : c.isDigit = true) (source : List Char) :
    read inClass (c :: source) = match decimal? ((c :: source).takeWhile Char.isDigit) with
      | some number => .ok (.reference number,
          (c :: source).drop ((c :: source).takeWhile Char.isDigit).length)
      | none => .error .unknownGroup :=
  if_pos hdigit

/-- Outside a class, `k` is followed by the name of a group. -/
theorem read_groupName (source : List Char) :
    read false ('k' :: source) = if source.head? == some '\'' then
      readName ['\''] '\'' source >>= fun result => .ok (.namedReference result.1, result.2)
    else readName ['<'] '>' source >>= fun result => .ok (.namedReference result.1, result.2) :=
  rfl

/-- A character that is no letter stands for itself, unless it is an anchor. -/
theorem read_symbol {inClass : Bool} {c : Char} (hdigit : c.isDigit = false)
    (halpha : c.isAlpha = false) (hanchor : inClass = true ∨ c ≠ '<' ∧ c ≠ '>')
    (rest : List Char) : read inClass (c :: rest) = .ok (.char c, rest) := by
  unfold read
  simp only [hdigit, Bool.false_eq_true, if_false]
  split
  case h_22 =>
    cases inClass
    · simp only [Bool.not_false, if_true]
      split
      case h_7 => simp only [halpha, Bool.false_eq_true, if_false]; rfl
      all_goals simp_all
    · simp only [Bool.not_true, Bool.false_eq_true, if_false, halpha]
      rfl
  all_goals exact absurd halpha (by decide)

/-- Whether an escape refers to a group. -/
def isReference : Escape → Bool
  | .reference _ | .namedReference _ => true
  | _ => false

theorem readProperty_isReference {negated : Bool} {source rest : List Char} {escape : Escape}
    (h : readProperty negated source = .ok (escape, rest)) : escape.isReference = false := by
  unfold readProperty at h
  split at h
  · cases h
  · split at h
    · simp only [pure_bind] at h
      split at h
      · cases h
        rfl
      · cases h
    · cases h
  · simp only [pure_bind] at h
    split at h
    · cases h
      rfl
    · cases h

theorem readCodePoint_isReference {count : Nat} {source rest : List Char} {escape : Escape}
    (h : readCodePoint count source = .ok (escape, rest)) : escape.isReference = false := by
  unfold readCodePoint at h
  split at h
  · split at h
    · cases h
    · obtain ⟨c, _, hpure⟩ := ok_of_bind_eq_ok h
      cases hpure
      rfl
  · split at h
    · simp only at h
      split at h
      · split at h
        · cases h
        · obtain ⟨c, _, hpure⟩ := ok_of_bind_eq_ok h
          cases hpure
          rfl
      · cases h
    · cases h

/-- An escape that is neither a number nor a name refers to no group, and reads the same in front of
any source. -/
theorem read_plain {inClass : Bool} {c : Char} {source rest : List Char} {escape : Escape}
    (hdigit : c.isDigit = false) (hname : c ≠ 'k')
    (h : read inClass (c :: source) = .ok (escape, rest)) :
    escape.isReference = false ∧ ∃ word, source = word ++ rest ∧ IsInert word ∧
      ∀ other, read inClass (c :: (word ++ other)) = .ok (escape, other) := by
  unfold read at h
  simp only [hdigit, Bool.false_eq_true, if_false] at h
  split at h
  case h_9 => exact ⟨readProperty_isReference h, readProperty_local false _ _ _ h⟩
  case h_10 => exact ⟨readProperty_isReference h, readProperty_local true _ _ _ h⟩
  case h_11 => exact ⟨readCodePoint_isReference h, readCodePoint_local 2 _ _ _ h⟩
  case h_12 => exact ⟨readCodePoint_isReference h, readCodePoint_local 4 _ _ _ h⟩
  case h_13 => exact ⟨readCodePoint_isReference h, readCodePoint_local 8 _ _ _ h⟩
  case h_21 =>
    cases h
    exact ⟨by cases inClass <;> rfl, [], rfl, .nil, fun other => rfl⟩
  case h_22 =>
    cases inClass
    · simp only [Bool.not_false, if_true] at h
      split at h
      case h_6 => exact absurd rfl hname
      case h_7 hless hgreater _ =>
        split at h
        · cases h
        · next halpha =>
          cases h
          exact ⟨rfl, [], rfl, .nil,
            read_symbol hdigit (by simpa using halpha) (.inr ⟨hless, hgreater⟩)⟩
      all_goals
        cases h
        exact ⟨rfl, [], rfl, .nil, fun other => rfl⟩
    · simp only [Bool.not_true, Bool.false_eq_true, if_false] at h
      split at h
      · cases h
      · next halpha =>
        cases h
        exact ⟨rfl, [], rfl, .nil, read_symbol hdigit (by simpa using halpha) (.inl rfl)⟩
  all_goals
    cases h
    exact ⟨rfl, [], rfl, .nil, fun other => rfl⟩

theorem read_local (inClass : Bool) {c : Char} (hdigit : c.isDigit = false) (hname : c ≠ 'k') :
    IsLocal fun source => read inClass (c :: source) :=
  fun _ _ _ h => (read_plain hdigit hname h).2

theorem read_isReference {inClass : Bool} {c : Char} {source rest : List Char} {escape : Escape}
    (hdigit : c.isDigit = false) (hname : c ≠ 'k')
    (h : read inClass (c :: source) = .ok (escape, rest)) : escape.isReference = false :=
  (read_plain hdigit hname h).1

/-- A name stands between what has to be in front of it and what has to follow. -/
theorem readName_source {start name rest source : List Char} {stop : Char}
    (h : readName start stop source = .ok (name, rest)) :
    source = start ++ (name ++ stop :: rest) ∧ IsInert name := by
  unfold readName at h
  split at h
  · next hstart =>
    obtain ⟨inner, rfl⟩ := List.isPrefixOf_iff_prefix.mp hstart
    simp only [List.drop_left, drop_length_takeWhile] at h
    have hall : ∀ c ∈ inner.takeWhile fun c => Text.isNameChar c || c == '-',
        (Text.isNameChar c || c == '-') = true :=
      fun c hc => List.all_eq_true.mp List.all_takeWhile c hc
    have hsplit := List.takeWhile_append_dropWhile (p := fun c => Text.isNameChar c || c == '-')
      (l := inner)
    split at h
    · next c after hafter =>
      split at h
      · next hclose =>
        simp only [Bool.and_eq_true, beq_iff_eq] at hclose
        obtain ⟨rfl, -⟩ := hclose
        cases h
        rw [hafter] at hsplit
        exact ⟨by rw [hsplit], .of_all hall (by decide)⟩
      · cases h
    · cases h
  · cases h

/-- After its first character, an escape has no delimiters. -/
theorem read_word {inClass : Bool} {c : Char} {source rest : List Char} {escape : Escape}
    (h : read inClass (c :: source) = .ok (escape, rest)) :
    ∃ word, source = word ++ rest ∧ IsInert word := by
  by_cases hdigit : c.isDigit = true
  · rw [read_digit inClass hdigit, drop_length_takeWhile, List.takeWhile_cons_of_pos hdigit,
      List.dropWhile_cons_of_pos hdigit] at h
    split at h
    · cases h
      exact ⟨_, (List.takeWhile_append_dropWhile (p := Char.isDigit)).symm,
        .of_all (fun c hc => List.all_eq_true.mp List.all_takeWhile c hc) (by decide)⟩
    · cases h
  · by_cases hname : c = 'k'
    · subst hname
      cases inClass with
      | true => cases h
      | false =>
        rw [read_groupName] at h
        split at h
        · obtain ⟨⟨name, after⟩, hread, hpure⟩ := ok_of_bind_eq_ok h
          cases hpure
          obtain ⟨rfl, hinert⟩ := readName_source hread
          exact ⟨'\'' :: (name ++ ['\'']), by simp,
            .cons (by decide) (hinert.append (.cons (by decide) .nil))⟩
        · obtain ⟨⟨name, after⟩, hread, hpure⟩ := ok_of_bind_eq_ok h
          cases hpure
          obtain ⟨rfl, hinert⟩ := readName_source hread
          exact ⟨'<' :: (name ++ ['>']), by simp,
            .cons (by decide) (hinert.append (.cons (by decide) .nil))⟩
    · obtain ⟨-, word, hword, hinert, -⟩ := read_plain (by simpa using hdigit) hname h
      exact ⟨word, hword, hinert⟩

/-- A number is a reference, as long as it is not too large. -/
theorem read_number {inClass : Bool} {digits rest : List Char} (hne : digits ≠ [])
    (hdigits : ∀ c ∈ digits, c.isDigit = true)
    (hend : ∀ c, rest.head? = some c → c.isDigit = false) :
    read inClass (digits ++ rest) = match decimal? digits with
      | some number => .ok (.reference number, rest)
      | none => .error .unknownGroup := by
  have htake : (digits ++ rest).takeWhile Char.isDigit = digits := by
    cases rest with
    | nil => rw [List.takeWhile_append_of_pos hdigits, List.takeWhile_nil, List.append_nil]
    | cons c rest => exact takeWhile_append_cons hdigits (hend c rfl)
  cases digits with
  | nil => exact absurd rfl hne
  | cons c digits =>
    rw [List.cons_append] at htake ⊢
    rw [read_digit inClass (hdigits c List.mem_cons_self), htake, ← List.cons_append,
      List.drop_left]

end Escape

end Highlighter.Regex
