import Highlighter.Proofs.Text.Number
import Highlighter.Proofs.Toml.Reader
import Highlighter.Toml.Moment
import Highlighter.Toml.Number

/-!
# Numbers read back

The digits of a number are read as that number: they begin neither a date nor a time of day, and
without a fraction and an exponent they are no float.
-/

namespace Highlighter.Toml.Number

open Reader (Stops Repeats stops_cons stops_append ne_of_property)

variable {n : Nat} {c first : Char} {digits later rest : List Char}

/-! ## Numerals -/

/-- The digits of a number; a zero in front is the only one. -/
structure Numeral (first : Char) (later : List Char) : Prop where
  first_isDigit : first.isDigit = true
  later_isDigit : ∀ c ∈ later, c.isDigit = true
  zero : first = '0' → later = []

theorem exists_numeral (n : Nat) :
    ∃ first later, Nat.toDigits 10 n = first :: later ∧ Numeral first later := by
  have hdigits : ∀ c ∈ Nat.toDigits 10 n, c.isDigit = true := fun _ =>
    Text.isDigit_of_mem_toDigits
  cases heq : Nat.toDigits 10 n with
  | nil => exact absurd heq Nat.toDigits_ne_nil
  | cons first later =>
    rw [heq] at hdigits
    obtain ⟨hfirst, hlater⟩ := List.forall_mem_cons.mp hdigits
    refine ⟨first, later, rfl, hfirst, hlater, fun hzero => ?_⟩
    rcases Nat.eq_zero_or_pos n with rfl | hpos
    · exact (List.cons.inj (heq.symm.trans (Nat.toDigits_zero 10))).2
    · exact absurd (congrArg List.head? heq |>.trans (congrArg some hzero))
        (Text.head?_toDigits hpos)

theorem Numeral.isDigit (h : Numeral first later) : ∀ c ∈ first :: later, c.isDigit = true :=
  List.forall_mem_cons.mpr ⟨h.first_isDigit, h.later_isDigit⟩

/-! ## What digits are not -/

/-- The characters that may go on with a number, or with a date or a time of day. -/
def continuesNumber (c : Char) : Bool :=
  c.isDigit || "_.eE-:xob".toList.contains c

theorem stops_digits (hdigits : ∀ c ∈ digits, c.isDigit = true) (hc : c.isDigit = false)
    (hrest : Stops (· == c) rest) : Stops (· == c) (digits ++ rest) :=
  stops_append (fun d hd => beq_eq_false_iff_ne.mpr (ne_of_property (hdigits d hd) hc)) hrest

/-- What is left of digits behind a field of a date or time. -/
theorem exists_of_field {width low high : Nat} {value input : List Char}
    (hrest : Stops Char.isDigit rest)
    (h : Moment.field width low high (digits ++ rest) = some (value, input)) :
    ∃ left, digits = value ++ left ∧ input = left ++ rest := by
  obtain ⟨taken, input', hexactly, hvalue⟩ := Reader.exists_of_bind h
  obtain ⟨left, rfl, rfl⟩ := Reader.exists_of_exactly hrest hexactly
  dsimp only at hvalue
  split at hvalue
  · cases hvalue
    exact ⟨left, rfl, rfl⟩
  · cases hvalue

theorem field_then_char {α : Type} {width low high : Nat} {next : List Char → Reader α}
    (hdigits : ∀ c ∈ digits, c.isDigit = true) (hc : c.isDigit = false)
    (hcontinues : continuesNumber c = true) (hrest : Stops continuesNumber rest) :
    (do let value ← Moment.field width low high; Reader.char c; next value) (digits ++ rest) =
      none := by
  cases hfield : Moment.field width low high (digits ++ rest) with
  | none => exact Reader.bind_of_none hfield
  | some taken =>
    obtain ⟨left, rfl, heq⟩ :=
      exists_of_field (hrest.imp (by simp +contextual [continuesNumber])) hfield
    rw [Reader.bind_of_some hfield, heq, Reader.bind_of_none]
    exact Reader.char_of_stops (stops_digits
      (fun d hd => hdigits d (List.mem_append_right _ hd)) hc
      (hrest.imp (by simpa using hcontinues)))

theorem moment_numeral (hdigits : ∀ c ∈ digits, c.isDigit = true)
    (hrest : Stops continuesNumber rest) : Moment.moment (digits ++ rest) = none := by
  have hdate : Moment.date (digits ++ rest) = none :=
    field_then_char hdigits rfl rfl hrest
  have htime : Moment.time (digits ++ rest) = none :=
    field_then_char hdigits rfl rfl hrest
  rw [Moment.moment, Reader.orElse_of_none (Reader.bind_of_none hdate), Reader.map_of_none htime]

theorem sign_digit (h : first.isDigit = true) :
    sign (first :: rest) = some (false, first :: rest) := by
  have hno : (first == '+' || first == '-') = false := by
    simpa using ⟨ne_of_property h (d := '+') rfl, ne_of_property h (d := '-') rfl⟩
  rw [sign, Reader.bind_of_some
    (Reader.maybe_of_none (Reader.satisfy_of_stops (stops_cons.mpr hno)))]
  rfl

theorem repeats_laterDigit (hdigits : ∀ c ∈ digits, c.isDigit = true)
    (hrest : Stops continuesNumber rest) :
    Repeats (laterDigit Char.isDigit) (digits ++ rest) digits rest := by
  induction digits with
  | nil =>
    refine .stop ?_
    rw [List.nil_append, laterDigit, Reader.orElse_of_none (Reader.satisfy_of_stops (hrest.imp ?_)),
      Reader.bind_of_none (Reader.char_of_stops (hrest.imp ?_))]
    all_goals simp +contextual [continuesNumber]
  | cons c digits ih =>
    rw [List.cons_append]
    exact .next (Reader.orElse_of_some (Reader.satisfy_of (hdigits c List.mem_cons_self)))
      (Nat.lt_succ_self _) (ih fun d hd => hdigits d (List.mem_cons_of_mem c hd))

theorem plainDigits_numeral (h : Numeral first later) (hrest : Stops continuesNumber rest) :
    plainDigits (first :: (later ++ rest)) = some (first :: later, rest) := by
  rw [plainDigits, Reader.bind_of_some (Reader.satisfy_of h.first_isDigit)]
  split
  · next hzero =>
    rw [h.zero (by simpa using hzero)]
    rfl
  · rw [Reader.bind_of_some (Reader.many_of_repeats (repeats_laterDigit h.later_isDigit hrest))]
    rfl

theorem float_numeral (h : Numeral first later) (hrest : Stops continuesNumber rest) :
    float (first :: (later ++ rest)) = none := by
  have hfraction : Reader.maybe fraction rest = some (none, rest) :=
    Reader.maybe_of_none (Reader.bind_of_none (Reader.char_of_stops (hrest.imp (by
      simp +contextual [continuesNumber]))))
  have hexponent : Reader.maybe exponent rest = some (none, rest) :=
    Reader.maybe_of_none (Reader.bind_of_none (Reader.discard_of_none (Reader.satisfy_of_stops
      (hrest.imp (by simp +contextual [continuesNumber])))))
  have hdecimal : decimalFloat (first :: (later ++ rest)) = none := by
    rw [decimalFloat, Reader.bind_of_some (sign_digit h.first_isDigit),
      Reader.bind_of_some (plainDigits_numeral h hrest), Reader.bind_of_some hfraction,
      Reader.bind_of_some hexponent]
    rfl
  have hspecial : specialFloat (first :: (later ++ rest)) = none := by
    have hi : first ≠ 'i' := ne_of_property h.first_isDigit rfl
    have hn : first ≠ 'n' := ne_of_property h.first_isDigit rfl
    rw [specialFloat, Reader.bind_of_some (sign_digit h.first_isDigit), Reader.bind_of_none]
    rw [Reader.orElse_of_none (Reader.bind_of_none (Reader.text_of_ne hi)),
      Reader.bind_of_none (Reader.text_of_ne hn)]
  rw [float, Reader.orElse_of_none hdecimal, hspecial]

theorem decimal_numeral (h : Numeral first later) (hrest : Stops continuesNumber rest)
    (hvalue : Text.digitsValue (first :: later) ≤ maximum) :
    decimal (first :: (later ++ rest)) =
      some (.integer (Text.digitsValue (first :: later)), rest) := by
  rw [decimal, Reader.bind_of_some (sign_digit h.first_isDigit),
    Reader.bind_of_some (plainDigits_numeral h hrest)]
  have hbounded : (decide (-(maximum + 1 : Int) ≤ Text.digitsValue (first :: later)) &&
      decide ((Text.digitsValue (first :: later) : Int) ≤ maximum)) = true := by
    simp
    omega
  simp only [bounded, Bool.false_eq_true, if_false, hbounded, if_true]
  rfl

/-- A numeral has no letter behind its first digit that could stand for another base. -/
theorem integer_numeral (h : Numeral first later) (hrest : Stops continuesNumber rest) :
    integer (first :: (later ++ rest)) = decimal (first :: (later ++ rest)) := by
  have hletter : ∀ c others, continuesNumber c = true → c.isDigit = false →
      first :: (later ++ rest) ≠ '0' :: c :: others := by
    intro c others hcontinues hc heq
    obtain ⟨hzero, hlater⟩ := List.cons.inj heq
    rw [h.zero hzero, List.nil_append] at hlater
    rw [hlater] at hrest
    exact Bool.false_ne_true ((stops_cons.mp hrest).symm.trans hcontinues)
  rw [integer.eq_def]
  split
  · next others heq => exact absurd heq (hletter 'x' others rfl rfl)
  · next others heq => exact absurd heq (hletter 'o' others rfl rfl)
  · next others heq => exact absurd heq (hletter 'b' others rfl rfl)
  · rfl

/-- Numbers that a document can hold are read as they were. -/
theorem number_toDigits (hn : n ≤ maximum) (hrest : Stops continuesNumber rest) :
    (Value.moment <$> Moment.moment <|> float <|> integer) (Nat.toDigits 10 n ++ rest) =
      some (.integer n, rest) := by
  obtain ⟨first, later, heq, hnumeral⟩ := exists_numeral n
  have hvalue : Text.digitsValue (first :: later) = n := heq ▸ Text.digitsValue_toDigits n
  rw [heq, Reader.orElse_of_none (Reader.map_of_none (moment_numeral hnumeral.isDigit hrest)),
    List.cons_append, Reader.orElse_of_none (float_numeral hnumeral hrest),
    integer_numeral hnumeral hrest, decimal_numeral hnumeral hrest (hvalue ▸ hn), hvalue]

end Highlighter.Toml.Number
