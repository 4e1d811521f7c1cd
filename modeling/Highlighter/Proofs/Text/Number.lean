import Highlighter.Text.Number
import Mathlib.Data.List.Basic
import Mathlib.Tactic.IntervalCases

/-!
# Numbers and their digits

The digits of a number denote it, and they start with a zero only if there is no other one. So
reading the digits of a number gives the number back, if it fits.
-/

namespace Highlighter.Text

theorem digitsValue_toDigits (number : Nat) : digitsValue (Nat.toDigits 10 number) = number :=
  Nat.ofDigitChars_ten_toDigits

theorem isDigit_of_mem_toDigits {number : Nat} {c : Char} (h : c ∈ Nat.toDigits 10 number) :
    c.isDigit = true :=
  Nat.isDigit_of_mem_toDigits (by decide) (by decide) h

/-- A positive number is written without a zero in front. -/
theorem head?_toDigits {number : Nat} (hpos : 0 < number) :
    (Nat.toDigits 10 number).head? ≠ some '0' := by
  induction number using Nat.strongRecOn with
  | ind number ih =>
    by_cases hsmall : number < 10
    · rw [Nat.toDigits_of_lt_base hsmall]
      interval_cases number <;> decide
    · rw [Nat.toDigits_of_base_le (by decide) (Nat.not_lt.mp hsmall),
        List.head?_append_of_ne_nil _ Nat.toDigits_ne_nil]
      exact ih (number / 10) (by omega) (by omega)

theorem unsigned?_eq_some {bits number : Nat} {digits : List Char}
    (hsign : ∀ rest, digits ≠ '+' :: rest) (h : unsigned? bits digits = some number) :
    number = digitsValue digits := by
  unfold unsigned? at h
  split at h
  next rest => exact absurd rfl (hsign rest)
  next =>
    simp only at h
    split at h
    · cases h
    · split at h
      · cases h
        rfl
      · cases h

/-- The digits of a number denote the number, as long as it is not too large. -/
theorem unsigned?_toDigits {bits number value : Nat}
    (h : unsigned? bits (Nat.toDigits 10 number) = some value) : value = number := by
  have hsign : ∀ rest, Nat.toDigits 10 number ≠ '+' :: rest := by
    intro rest heq
    have hplus : '+' ∈ Nat.toDigits 10 number := heq ▸ List.mem_cons_self
    exact absurd (isDigit_of_mem_toDigits hplus) (by decide)
  rw [unsigned?_eq_some hsign h, digitsValue_toDigits]

/-- A number whose first digit is not zero is not zero. -/
theorem unsigned?_pos {bits number : Nat} {c : Char} {digits : List Char}
    (hdigit : c.isDigit = true) (hzero : c ≠ '0')
    (h : unsigned? bits (c :: digits) = some number) : 0 < number := by
  have hsign : ∀ rest, c :: digits ≠ '+' :: rest := by
    rintro rest heq
    cases heq
    cases hdigit
  have hle : ∀ (digits : List Char) (value : Nat),
      value ≤ digits.foldl (fun value c => 10 * value + (c.toNat - '0'.toNat)) value := by
    intro digits
    induction digits with
    | nil => exact fun value => Nat.le_refl _
    | cons d digits ih =>
      intro value
      have hstep : value ≤ 10 * value + (d.toNat - '0'.toNat) := by omega
      exact Nat.le_trans hstep (ih _)
  have hne : c.toNat ≠ '0'.toNat := fun heq => hzero (Char.toNat_inj.mp heq)
  have hge : '0'.toNat ≤ c.toNat := by
    simp only [Char.isDigit, Bool.and_eq_true, decide_eq_true_eq] at hdigit
    exact hdigit.1
  have hfirst : 0 < 10 * 0 + (c.toNat - '0'.toNat) := by omega
  rw [unsigned?_eq_some hsign h]
  exact Nat.lt_of_lt_of_le hfirst (hle digits _)

end Highlighter.Text
