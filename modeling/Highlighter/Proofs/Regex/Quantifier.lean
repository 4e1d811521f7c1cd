import Highlighter.Proofs.Regex.Skip
import Mathlib

/-!
# Quantifiers side by side

Two aligned readers find the same bounds between braces. Where the first one stops inside the
braces, at a comment that has no end or that takes the rest of the source, it reads the brace as an
ordinary character, and comes to the same comment again a few characters later: it is stranded.
-/

namespace Highlighter.Regex.Tree

open Pattern (Renumbers)

/-- Between a place and a comment that cannot be passed are only digits and commas. -/
inductive Stranded (progress : Progress) : List Char → Prop where
  | unclosed {source : List Char} {error : Error} (h : skip progress source = .error error) :
      Stranded progress source
  | lost {source : List Char} (hblank : progress.flags.ignoreBlank = true)
      (h : skip progress source = .ok []) : Stranded progress source
  | step {source rest : List Char} {c : Char} (h : skip progress source = .ok (c :: rest))
      (hc : c.isDigit = true ∨ c = ',') (hrest : Stranded progress rest) : Stranded progress source

variable {offset : Nat} {base : List Nat} {tail : List Char} {progress progress' : Progress}
  {source source' rest rest' : List Char}

/-- Digits, commas and opening braces stand for themselves. -/
def isOrdinary (c : Char) : Bool :=
  c.isDigit || c == ',' || c == '\x7b'

theorem isOrdinary_of {c : Char} (hc : c.isDigit = true ∨ c = ',') : isOrdinary c = true := by
  rcases hc with hc | rfl
  · rw [isOrdinary, hc, Bool.true_or, Bool.true_or]
  · rfl

theorem ne_of_isOrdinary {c d : Char} (hc : isOrdinary c = true) (hd : isOrdinary d = false) :
    c ≠ d := by
  rintro rfl
  rw [hc] at hd
  cases hd

theorem skip_ordinary {c : Char} (hc : isOrdinary c = true) (progress : Progress)
    (rest : List Char) : skip progress (c :: rest) = .ok (c :: rest) := by
  apply skipIgnored_id
  · exact ne_of_isOrdinary hc (by decide)
  · exact fun heq => absurd heq (ne_of_isOrdinary hc (by decide))
  · simp [ne_of_isOrdinary hc (by decide : isOrdinary ' ' = false),
      ne_of_isOrdinary hc (by decide : isOrdinary '\r' = false),
      ne_of_isOrdinary hc (by decide : isOrdinary '\n' = false),
      ne_of_isOrdinary hc (by decide : isOrdinary '\t' = false)]

theorem Stranded.digits {digits : List Char} (hdigits : ∀ c ∈ digits, c.isDigit = true)
    (h : Stranded progress rest) : Stranded progress (digits ++ rest) := by
  induction digits with
  | nil => exact h
  | cons c digits ih =>
    have hc := hdigits c List.mem_cons_self
    exact .step (skip_ordinary (isOrdinary_of (.inl hc)) _ _) (.inl hc)
      (ih fun d hd => hdigits d (List.mem_cons_of_mem _ hd))

/-- A reader that is stranded after some digits is stranded. -/
theorem Stranded.of_dropWhile (h : Stranded progress (source.dropWhile Char.isDigit)) :
    Stranded progress source := by
  have hdigits : ∀ c ∈ source.takeWhile Char.isDigit, c.isDigit = true :=
    fun c hc => List.all_eq_true.mp List.all_takeWhile c hc
  have hsource := h.digits hdigits
  rwa [List.takeWhile_append_dropWhile] at hsource

/-- In front of a closing brace, a reader is not stranded. -/
theorem not_stranded_brace : ¬ Stranded progress ('\x7d' :: rest) := by
  have hskip : skip progress ('\x7d' :: rest) = .ok ('\x7d' :: rest) :=
    skipIgnored_id (by decide) (fun heq => absurd heq (by decide)) (by decide) _ _
  intro h
  cases h with
  | unclosed h =>
    rw [hskip] at h
    cases h
  | lost _ h =>
    rw [hskip] at h
    cases h
  | step h hc _ =>
    rw [hskip] at h
    cases h
    revert hc
    decide

/-- A reader that is stranded after what it skips is stranded. -/
theorem Stranded.of_skip (hskip : skip progress source = .ok rest) (h : Stranded progress rest) :
    Stranded progress source := by
  have hrest := skip_skip hskip
  cases h with
  | unclosed h =>
    rw [hrest] at h
    cases h
  | lost hblank h =>
    rw [hrest] at h
    cases h
    exact .lost hblank hskip
  | step h hc hafter =>
    rw [hrest] at h
    cases h
    exact .step hskip hc hafter

/-- Skipping fails or takes the rest where a reader is stranded at once. -/
theorem skip_cases (h : Aligned offset base tail ⟨progress, source⟩ ⟨progress', source'⟩) :
    Stranded progress source ∧ (skip progress source = .ok [] ∨
        ∃ error, skip progress source = .error error) ∨
      ∃ rest rest', skip progress source = .ok rest ∧ skip progress' source' = .ok rest' ∧
        Aligned offset base tail ⟨progress, rest⟩ ⟨progress', rest'⟩ ∧
        Passes source source' rest rest' := by
  cases hskip : skip progress source with
  | error error => exact .inl ⟨.unclosed hskip, .inr ⟨error, rfl⟩⟩
  | ok rest =>
    rcases h.skip hskip with ⟨hblank, hrest⟩ | ⟨rest', hskip', haligned, hpasses⟩
    · simp only at hrest
      subst hrest
      exact .inl ⟨.lost hblank hskip, .inl rfl⟩
    · exact .inr ⟨rest, rest', rfl, hskip', haligned, hpasses⟩

/-- Both readers see the same digits. -/
theorem Aligned.digits (h : Aligned offset base tail ⟨progress, source⟩ ⟨progress', source'⟩) :
    source'.takeWhile Char.isDigit = source.takeWhile Char.isDigit ∧
      Aligned offset base tail ⟨progress, source.dropWhile Char.isDigit⟩
        ⟨progress', source'.dropWhile Char.isDigit⟩ ∧
      Passes source source' (source.dropWhile Char.isDigit) (source'.dropWhile Char.isDigit) := by
  obtain ⟨moved, hsource, hmoved⟩ := h.source
  simp only at hsource hmoved
  subst hsource
  have hsplit := List.takeWhile_append_dropWhile (p := Char.isDigit) (l := source)
  have hdigits : ∀ c ∈ source.takeWhile Char.isDigit, c.isDigit = true :=
    fun c hc => List.all_eq_true.mp List.all_takeWhile c hc
  have hhead := List.head?_dropWhile_not Char.isDigit source
  generalize source.takeWhile Char.isDigit = digits at hsplit hdigits ⊢
  generalize source.dropWhile Char.isDigit = rest at hsplit hhead ⊢
  subst hsplit
  obtain ⟨moved', rfl, hrest⟩ := hmoved.of_append
    (IsInert.of_all hdigits (by decide)).notMem_backslash
  obtain ⟨after, hafter⟩ := List.head?_eq_some_iff.mp (hrest.head?_append ')' tail)
  have hend : (rest.head?.getD ')').isDigit = false := by
    cases rest with
    | nil => rfl
    | cons c rest => simpa using hhead
  have haligned := h.withSource hrest
  have hpasses := (Passes.of_word digits rest moved').append (')' :: tail)
  simp only [List.append_assoc, hafter] at haligned hpasses ⊢
  rw [takeWhile_append_cons hdigits hend, dropWhile_append_cons hdigits hend]
  exact ⟨rfl, haligned, hpasses⟩

/-! ## Bounds between braces -/

/-- The bounds, if the closing brace comes next. -/
def closeBounds? (progress : Progress) (least : Nat) (most : Option Nat) (source : List Char) :
    Option (Bounds × List Char) :=
  (skip progress source).toOption.bind fun source =>
    if source.head? = some '\x7d' then some (⟨least, most⟩, source.tail) else none

/-- The bounds after the least number of copies. -/
def mostBounds? (progress : Progress) (least : Nat) (source : List Char) :
    Option (Bounds × List Char) :=
  (skip progress source).toOption.bind fun source =>
    if source.head? = some '\x7d' then closeBounds? progress least (some least) source
    else if source.head? = some ',' then
      (skip progress source.tail).toOption.bind fun source =>
        match Escape.decimal? (source.takeWhile Char.isDigit) with
        | some most =>
          closeBounds? progress least (if most + 1 = UInt64.size then none else some most)
            (source.dropWhile Char.isDigit)
        | none => closeBounds? progress least none source
    else none

theorem closeBounds?_eq (progress : Progress) (least : Nat) (most : Option Nat)
    (source : List Char) :
    closeBounds? progress least most source =
      match (skip progress source).toOption with
      | some ('\x7d' :: rest) => some (⟨least, most⟩, rest)
      | _ => none := by
  unfold closeBounds?
  cases (skip progress source).toOption with
  | none => rfl
  | some source =>
    rw [Option.bind_some]
    split
    · next hhead =>
      obtain ⟨rest, rfl⟩ := List.head?_eq_some_iff.mp hhead
      rfl
    · next hhead =>
      split
      · next heq =>
        cases heq
        exact absurd rfl hhead
      · rfl

theorem mostBounds?_eq (progress : Progress) (least : Nat) (source : List Char) :
    mostBounds? progress least source =
      (skip progress source).toOption.bind fun source =>
        match source with
        | '\x7d' :: _ => closeBounds? progress least (some least) source
        | ',' :: rest => (skip progress rest).toOption.bind fun rest =>
          match Escape.decimal? (rest.takeWhile Char.isDigit) with
          | some most =>
            closeBounds? progress least (if most + 1 = UInt64.size then none else some most)
              (rest.dropWhile Char.isDigit)
          | none => closeBounds? progress least none rest
        | _ => none := by
  unfold mostBounds?
  congr 1
  funext source
  cases source with
  | nil => rfl
  | cons c rest =>
    by_cases hbrace : c = '\x7d'
    · subst hbrace
      rfl
    · by_cases hcomma : c = ','
      · subst hcomma
        rfl
      · simp [hbrace, hcomma]

theorem readBounds?_eq (progress : Progress) (source : List Char) :
    readBounds? progress source = (skip progress source).toOption.bind fun source =>
      if source.head? = some ',' then mostBounds? progress 0 source
      else (Escape.decimal? (source.takeWhile Char.isDigit)).bind fun least =>
        mostBounds? progress least (source.dropWhile Char.isDigit) := by
  simp only [readBounds?, drop_length_takeWhile, mostBounds?_eq, closeBounds?_eq, Option.bind_eq_bind,
    Option.bind_some, Option.bind_none]
  congr 1
  funext source
  cases source with
  | nil => rfl
  | cons c rest =>
    by_cases hcomma : c = ','
    · subst hcomma
      rfl
    · have hhead : (c :: rest).head? ≠ some ',' := by simpa using hcomma
      rw [if_neg hhead]
      split
      · next heq => cases heq
      · next heq => exact absurd heq hhead
      · rfl

/-- Two aligned readers agree on bounds, unless the first one is stranded. -/
inductive Agree (offset : Nat) (base : List Nat) (tail : List Char) (place place' : Place) :
    Option (Bounds × List Char) → Option (Bounds × List Char) → Prop where
  | stranded {result' : Option (Bounds × List Char)}
      (h : Stranded place.progress place.source) : Agree offset base tail place place' none result'
  | none : Agree offset base tail place place' none none
  | some {bounds : Bounds} {rest rest' : List Char}
      (haligned : Aligned offset base tail ⟨place.progress, rest⟩ ⟨place'.progress, rest'⟩)
      (hlt : rest.length < place.source.length) (hlt' : rest'.length < place'.source.length) :
      Agree offset base tail place place' (some (bounds, rest)) (some (bounds, rest'))

/-- What two readers agree on further on, they agree on here. -/
theorem Agree.lift {inner inner' : List Char} {result result' : Option (Bounds × List Char)}
    (h : Agree offset base tail ⟨progress, inner⟩ ⟨progress', inner'⟩ result result')
    (hstranded : Stranded progress inner → Stranded progress source)
    (hle : inner.length ≤ source.length) (hle' : inner'.length ≤ source'.length) :
    Agree offset base tail ⟨progress, source⟩ ⟨progress', source'⟩ result result' := by
  cases h with
  | stranded h => exact .stranded (hstranded h)
  | none => exact .none
  | some haligned hlt hlt' =>
    exact .some haligned (Nat.lt_of_lt_of_le hlt hle) (Nat.lt_of_lt_of_le hlt' hle')

/-- Readers that agree on what follows the ignored part of a source agree on the source. -/
theorem agree_skip {next next' : List Char → Option (Bounds × List Char)}
    (h : Aligned offset base tail ⟨progress, source⟩ ⟨progress', source'⟩)
    (hnil : next [] = none)
    (hnext : ∀ rest rest', Aligned offset base tail ⟨progress, rest⟩ ⟨progress', rest'⟩ →
      skip progress source = .ok rest → Passes source source' rest rest' →
      Agree offset base tail ⟨progress, source⟩ ⟨progress', source'⟩ (next rest) (next' rest')) :
    Agree offset base tail ⟨progress, source⟩ ⟨progress', source'⟩
      ((skip progress source).toOption.bind next)
      ((skip progress' source').toOption.bind next') := by
  rcases skip_cases h with ⟨hstranded, hskip | ⟨error, hskip⟩⟩ |
    ⟨rest, rest', hskip, hskip', hrest, hpasses⟩
  · simp only [hskip, Except.toOption, Option.bind_some, hnil]
    exact .stranded hstranded
  · simp only [hskip, Except.toOption, Option.bind_none]
    exact .stranded hstranded
  · simp only [hskip, hskip', Except.toOption, Option.bind_some]
    exact hnext rest rest' hrest hskip hpasses

theorem closeBounds?_agree (least : Nat) (most : Option Nat)
    (h : Aligned offset base tail ⟨progress, source⟩ ⟨progress', source'⟩) :
    Agree offset base tail ⟨progress, source⟩ ⟨progress', source'⟩
      (closeBounds? progress least most source) (closeBounds? progress' least most source') := by
  refine agree_skip h rfl fun rest rest' hrest _ hpasses => ?_
  have hbrace := hrest.head?_eq_some_iff (c := '\x7d') (by decide)
  simp only [hbrace]
  split
  · next hclose =>
    obtain ⟨after, rfl⟩ := List.head?_eq_some_iff.mp hclose
    obtain ⟨after', rfl, hafter⟩ := hrest.uncons (by decide)
    have hle := hpasses.le
    simp only [List.length_cons] at hle
    exact .some hafter (by simp only [List.tail_cons]; omega) (by simp only [List.tail_cons]; omega)
  · exact .none

theorem mostBounds?_agree (least : Nat)
    (h : Aligned offset base tail ⟨progress, source⟩ ⟨progress', source'⟩) :
    Agree offset base tail ⟨progress, source⟩ ⟨progress', source'⟩
      (mostBounds? progress least source) (mostBounds? progress' least source') := by
  refine agree_skip h rfl fun rest rest' hrest hskip hpasses => ?_
  have hle := hpasses.le
  have hbrace := hrest.head?_eq_some_iff (c := '\x7d') (by decide)
  have hcomma := hrest.head?_eq_some_iff (c := ',') (by decide)
  simp only [hbrace, hcomma]
  split
  · next hclose =>
    obtain ⟨after, rfl⟩ := List.head?_eq_some_iff.mp hclose
    exact (closeBounds?_agree least (some least) hrest).lift
      (fun hstranded => absurd hstranded not_stranded_brace) hle.1 hle.2
  · split
    · next hcomma =>
      obtain ⟨after, rfl⟩ := List.head?_eq_some_iff.mp hcomma
      obtain ⟨after', rfl, hafter⟩ := hrest.uncons (by decide)
      simp only [List.length_cons, List.tail_cons] at hle ⊢
      refine (agree_skip hafter rfl fun inner inner' hinner hskip' hpasses' => ?_).lift
        (fun hstranded => .step hskip (.inr rfl) hstranded) (by omega) (by omega)
      obtain ⟨hdigits, hend, hpass⟩ := hinner.digits
      rw [hdigits]
      have hle' := hpasses'.le
      have hle'' := hpass.le
      cases Escape.decimal? (inner.takeWhile Char.isDigit) with
      | none => exact (closeBounds?_agree least none hinner).lift (.of_skip hskip') hle'.1 hle'.2
      | some most =>
        exact (closeBounds?_agree least _ hend).lift
          (fun hstranded => hstranded.of_dropWhile.of_skip hskip') (by omega) (by omega)
    · exact .none

theorem readBounds?_agree
    (h : Aligned offset base tail ⟨progress, source⟩ ⟨progress', source'⟩) :
    Agree offset base tail ⟨progress, source⟩ ⟨progress', source'⟩
      (readBounds? progress source) (readBounds? progress' source') := by
  rw [readBounds?_eq, readBounds?_eq]
  refine agree_skip h rfl fun rest rest' hrest hskip hpasses => ?_
  have hle := hpasses.le
  have hcomma := hrest.head?_eq_some_iff (c := ',') (by decide)
  simp only [hcomma]
  split
  · exact (mostBounds?_agree 0 hrest).lift (.of_skip hskip) hle.1 hle.2
  · obtain ⟨hdigits, hend, hpass⟩ := hrest.digits
    rw [hdigits]
    have hle' := hpass.le
    cases Escape.decimal? (rest.takeWhile Char.isDigit) with
    | none => exact .none
    | some least =>
      exact (mostBounds?_agree least hend).lift
        (fun hstranded => hstranded.of_dropWhile.of_skip hskip) (by omega) (by omega)

/-- Two aligned readers agree on a quantifier, unless the first one is stranded in its braces. -/
theorem readQuantifier?_agree
    (h : Aligned offset base tail ⟨progress, source⟩ ⟨progress', source'⟩) :
    (readQuantifier? progress source = none ∧
        ∃ rest, source = '\x7b' :: rest ∧ Stranded progress rest) ∨
      (readQuantifier? progress source = none ∧ readQuantifier? progress' source' = none) ∨
      ∃ bounds rest rest', readQuantifier? progress source = some (bounds, rest) ∧
        readQuantifier? progress' source' = some (bounds, rest') ∧
        Aligned offset base tail ⟨progress, rest⟩ ⟨progress', rest'⟩ ∧
        Passes source source' rest rest' := by
  cases source with
  | nil =>
    obtain ⟨rest', rfl⟩ := List.head?_eq_some_iff.mp h.head?
    exact .inr (.inl ⟨rfl, rfl⟩)
  | cons c source =>
    by_cases hoptional : c = '?'
    · subst hoptional
      obtain ⟨rest', rfl, hrest⟩ := h.uncons (by decide)
      exact .inr (.inr ⟨_, _, _, rfl, rfl, hrest, .of_word ['?'] _ _⟩)
    · by_cases hmany : c = '*'
      · subst hmany
        obtain ⟨rest', rfl, hrest⟩ := h.uncons (by decide)
        exact .inr (.inr ⟨_, _, _, rfl, rfl, hrest, .of_word ['*'] _ _⟩)
      · by_cases hplus : c = '+'
        · subst hplus
          obtain ⟨rest', rfl, hrest⟩ := h.uncons (by decide)
          exact .inr (.inr ⟨_, _, _, rfl, rfl, hrest, .of_word ['+'] _ _⟩)
        · by_cases hbrace : c = '\x7b'
          · subst hbrace
            obtain ⟨rest', rfl, hrest⟩ := h.uncons (by decide)
            have hagree := readBounds?_agree hrest
            simp only [readQuantifier?]
            generalize readBounds? progress source = result at hagree ⊢
            generalize readBounds? progress' rest' = result' at hagree ⊢
            cases hagree with
            | stranded hstranded => exact .inl ⟨rfl, source, rfl, hstranded⟩
            | none => exact .inr (.inl ⟨rfl, rfl⟩)
            | some haligned hless hless' =>
              refine .inr (.inr ⟨_, _, _, rfl, rfl, haligned, .inr ⟨?_, ?_⟩⟩)
              · exact Nat.lt_succ_of_lt hless
              · exact Nat.lt_succ_of_lt hless'
          · obtain ⟨rest', rfl⟩ := List.head?_eq_some_iff.mp h.head?
            have hnone : ∀ (progress : Progress) (rest : List Char),
                readQuantifier? progress (c :: rest) = none := by
              intro progress rest
              simp [readQuantifier?, hoptional, hmany, hplus, hbrace]
            exact .inr (.inl ⟨hnone _ _, hnone _ _⟩)

end Highlighter.Regex.Tree
