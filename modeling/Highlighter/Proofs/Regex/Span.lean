import Highlighter.Regex.Match

/-!
# Stretches of a text

Neighbouring stretches of a text join into one, and a stretch that reaches beyond the end of the
text stops there.
-/

namespace Highlighter.Regex.Span

variable {text : Array Char} {first middle last : Nat}

theorem text_of_le (hle : last ≤ first) : Span.text ⟨first, last⟩ text = "" := by
  rw [Span.text, Array.extract_empty_of_stop_le_start hle, Array.toList_empty]

@[simp] theorem text_self : Span.text ⟨first, first⟩ text = "" :=
  text_of_le (Nat.le_refl first)

theorem text_append (hfirst : first ≤ middle) (hlast : middle ≤ last) :
    Span.text ⟨first, middle⟩ text ++ Span.text ⟨middle, last⟩ text =
      Span.text ⟨first, last⟩ text := by
  simp only [Span.text, ← String.ofList_append, ← Array.toList_append,
    Array.extract_append_extract]
  rw [Nat.min_eq_left hfirst, Nat.max_eq_right hlast]

theorem text_length (hlast : last ≤ text.size) :
    (Span.text ⟨first, last⟩ text).length = last - first := by
  simp only [Span.text, String.length_ofList, Array.length_toList, Array.size_extract]
  omega

theorem text_min : Span.text ⟨first, min last text.size⟩ text = Span.text ⟨first, last⟩ text := by
  simp only [Span.text]
  rcases Nat.lt_or_ge text.size last with hlt | hle
  · rw [Nat.min_eq_right (Nat.le_of_lt hlt), Array.extract_of_size_lt hlt]
  · rw [Nat.min_eq_left hle]

theorem text_succ {c : Char} (hc : text[first]? = some c) :
    Span.text ⟨first, first + 1⟩ text = String.singleton c := by
  obtain ⟨hlt, rfl⟩ := Array.getElem?_eq_some_iff.mp hc
  rw [Span.text, Array.extract_succ_right (Nat.lt_succ_self first) hlt,
    Array.extract_empty_of_stop_le_start (Nat.le_refl first), String.singleton_eq_ofList]
  rfl

/-- A text is the stretch from its start to its end. -/
theorem text_ofList (content : String) :
    Span.text ⟨0, content.toList.toArray.size⟩ content.toList.toArray = content := by
  simp [Span.text]

/-- What follows the beginning of a stretch starts where the beginning ends. -/
theorem text_of_append {first rest : String} (hlast : last ≤ text.size)
    (h : Span.text ⟨0, last⟩ text = first ++ rest) :
    rest = Span.text ⟨first.length, last⟩ text := by
  have hlength := congrArg String.length h
  rw [text_length hlast, String.length_append] at hlength
  have hsplit : Span.text ⟨0, first.length⟩ text ++ Span.text ⟨first.length, last⟩ text =
      first ++ rest :=
    (text_append (Nat.zero_le _) (by omega)).trans h
  have hlists := congrArg String.toList hsplit
  rw [String.toList_append, String.toList_append] at hlists
  have hsame : (Span.text ⟨0, first.length⟩ text).toList.length = first.toList.length := by
    rw [String.length_toList, String.length_toList, text_length (by omega), Nat.sub_zero]
  exact String.toList_inj.mp (List.append_inj_right hlists hsame).symm

end Highlighter.Regex.Span
