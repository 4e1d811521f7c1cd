import Mathlib.Data.String.Basic
import Mathlib.Order.Bounds.Defs
import Highlighter.Proofs.Regex.Span
import Highlighter.Text.Offset

/-!
# The text around a position

What is shown around a position starts and ends at character boundaries: at the last one that
leaves as many bytes before the position as are asked for, and at the first one that leaves as many
behind it. Where the text has fewer bytes, it starts or ends with the text.
-/

namespace Highlighter.Text

/-- An offset in bytes at which no character of a text is cut. -/
def IsBoundary (text : String) (offset : Nat) : Prop :=
  (⟨offset⟩ : String.Pos.Raw).IsValid text

/-- A part of a text reaches from the last boundary that is not behind `low` to the first one that
is not before `high`. -/
def Spans (text part : String) (low high : Nat) : Prop :=
  ∃ first rest, text = first ++ part ++ rest ∧
    IsGreatest {offset | IsBoundary text offset ∧ offset ≤ low} first.utf8ByteSize ∧
    IsLeast {offset | IsBoundary text offset ∧ high ≤ offset} (first ++ part).utf8ByteSize

theorem isBoundary_iff {text : String} {offset : Nat} :
    IsBoundary text offset ↔ ∃ first rest, text = first ++ rest ∧ first.utf8ByteSize = offset := by
  refine String.Pos.Raw.isValid_iff_exists_append.trans ?_
  simp only [String.Pos.Raw.ext_iff, String.byteIdx_rawEndPos, eq_comm (a := offset)]

/-- A boundary divides the characters of the text. -/
theorem exists_split_of_isBoundary {text : List Char} {offset : Nat}
    (h : IsBoundary (String.ofList text) offset) :
    ∃ first rest, text = first ++ rest ∧ String.utf8Len first = offset := by
  obtain ⟨first, rest, happend, hsize⟩ := isBoundary_iff.mp h
  refine ⟨first.toList, rest.toList, ?_, ?_⟩
  · rw [← String.toList_append, ← happend, String.toList_ofList]
  · rw [← hsize, ← String.utf8ByteSize_ofList, String.ofList_toList]

/-- What stands before a position ends at a boundary. -/
theorem isBoundary_take (text : List Char) (position : Nat) :
    IsBoundary (String.ofList text) (String.utf8Len (text.take position)) := by
  refine isBoundary_iff.mpr
    ⟨String.ofList (text.take position), String.ofList (text.drop position), ?_, ?_⟩
  · rw [← String.ofList_append, List.take_append_drop]
  · exact String.utf8ByteSize_ofList _

/-! ## Positions and offsets -/

/-- The offset of a position is the number of bytes of what stands before it. -/
theorem byteOffset_eq (text : Array Char) (position : Nat) :
    byteOffset text position = String.utf8Len (text.toList.take position) := by
  have hfold : ∀ (chars : List Char) (size : Nat),
      chars.foldl (fun size c => size + c.utf8Size) size = size + String.utf8Len chars := by
    intro chars
    induction chars with
    | nil => exact fun _ => rfl
    | cons c chars ih =>
      intro size
      rw [List.foldl_cons, ih, String.utf8Len_cons]
      omega
  rw [byteOffset, byteSize, ← Array.foldl_toList, hfold, Nat.zero_add, Array.toList_extract,
    List.extract_eq_take_drop, List.drop_zero, Nat.sub_zero]

/-- The last position with at most `offset` bytes before it is at the last boundary that is not
behind `offset`. -/
theorem utf8Len_floorPosition (offset : Nat) (text : List Char) :
    String.utf8Len (text.take (floorPosition offset text)) ≤ offset ∧
      ∀ first rest, text = first ++ rest → String.utf8Len first ≤ offset →
        String.utf8Len first ≤ String.utf8Len (text.take (floorPosition offset text)) := by
  induction text generalizing offset with
  | nil =>
    refine ⟨Nat.zero_le _, fun first rest happend _ => ?_⟩
    obtain ⟨rfl, -⟩ := List.append_eq_nil_iff.mp happend.symm
    exact Nat.le_refl _
  | cons c text ih =>
    unfold floorPosition
    by_cases hfits : c.utf8Size ≤ offset
    · obtain ⟨hle, hlast⟩ := ih (offset - c.utf8Size)
      rw [if_pos hfits, List.take_succ_cons, String.utf8Len_cons]
      refine ⟨by omega, fun first rest happend hfirst => ?_⟩
      rcases List.cons_eq_append_iff.mp happend with ⟨rfl, -⟩ | ⟨inner, rfl, hinner⟩
      · exact Nat.zero_le _
      · rw [String.utf8Len_cons] at hfirst ⊢
        have hinner := hlast inner rest hinner (by omega)
        omega
    · rw [if_neg hfits, List.take_zero]
      refine ⟨Nat.zero_le _, fun first rest happend hfirst => ?_⟩
      rcases List.cons_eq_append_iff.mp happend with ⟨rfl, -⟩ | ⟨inner, rfl, -⟩
      · exact Nat.le_refl _
      · rw [String.utf8Len_cons] at hfirst
        omega

/-- The first position with at least `offset` bytes before it is at the first boundary that is not
before `offset`, or at the end of a text that is shorter. -/
theorem utf8Len_ceilPosition (offset : Nat) (text : List Char) :
    min (String.utf8Len text) offset ≤ String.utf8Len (text.take (ceilPosition offset text)) ∧
      ∀ first rest, text = first ++ rest → min (String.utf8Len text) offset ≤ String.utf8Len first →
        String.utf8Len (text.take (ceilPosition offset text)) ≤ String.utf8Len first := by
  induction text generalizing offset with
  | nil =>
    refine ⟨Nat.min_le_left _ _, fun first rest _ _ => Nat.zero_le _⟩
  | cons c text ih =>
    unfold ceilPosition
    by_cases hzero : offset = 0
    · rw [if_pos hzero, List.take_zero, hzero]
      exact ⟨Nat.min_le_right _ _, fun first rest _ _ => Nat.zero_le _⟩
    · obtain ⟨hle, hfirst⟩ := ih (offset - c.utf8Size)
      have hpositive := c.utf8Size_pos
      rw [if_neg hzero, List.take_succ_cons]
      simp only [String.utf8Len_cons]
      refine ⟨by omega, fun first rest happend hreaches => ?_⟩
      rcases List.cons_eq_append_iff.mp happend with ⟨rfl, -⟩ | ⟨inner, rfl, hinner⟩
      · rw [String.utf8Len_nil] at hreaches
        omega
      · rw [String.utf8Len_cons] at hreaches ⊢
        have hinner := hfirst inner rest hinner (by omega)
        omega

theorem floorPosition_le_ceilPosition {low high : Nat} (text : List Char) (h : low ≤ high) :
    floorPosition low text ≤ ceilPosition high text := by
  induction text generalizing low high with
  | nil => exact Nat.le_refl _
  | cons c text ih =>
    have hpositive := c.utf8Size_pos
    unfold floorPosition ceilPosition
    by_cases hfits : c.utf8Size ≤ low
    · rw [if_pos hfits, if_neg (by omega)]
      exact Nat.succ_le_succ (ih (by omega))
    · rw [if_neg hfits]
      exact Nat.zero_le _

/-! ## The window -/

/-- What is shown around a position reaches from the last boundary with `width` bytes between it and
the position to the first one behind the position of which the same holds, or to the ends of the
text. -/
theorem around_spans (text : Array Char) (position width : Nat) :
    Spans (String.ofList text.toList) (around text position width)
      (byteOffset text position - width)
      (min (String.ofList text.toList).utf8ByteSize (byteOffset text position + width)) := by
  have hlow := utf8Len_floorPosition (byteOffset text position - width) text.toList
  have hhigh := utf8Len_ceilPosition (byteOffset text position + width) text.toList
  have horder : floorPosition (byteOffset text position - width) text.toList ≤
      ceilPosition (byteOffset text position + width) text.toList :=
    floorPosition_le_ceilPosition text.toList (by omega)
  unfold around
  dsimp only
  generalize floorPosition (byteOffset text position - width) text.toList = start at hlow horder ⊢
  generalize ceilPosition (byteOffset text position + width) text.toList = stop at hhigh horder ⊢
  have htaken : String.ofList (text.toList.take start) ++
      String.ofList (text.extract start stop).toList = String.ofList (text.toList.take stop) := by
    rw [← String.ofList_append, Array.toList_extract, List.extract_eq_take_drop,
      ← List.take_add, Nat.add_sub_cancel' horder]
  refine ⟨String.ofList (text.toList.take start), String.ofList (text.toList.drop stop), ?_, ?_, ?_⟩
  · rw [htaken, ← String.ofList_append, List.take_append_drop]
  · rw [String.utf8ByteSize_ofList]
    refine ⟨⟨isBoundary_take _ _, hlow.1⟩, fun offset ⟨hoffset, hle⟩ => ?_⟩
    obtain ⟨first, rest, happend, rfl⟩ := exists_split_of_isBoundary hoffset
    exact hlow.2 first rest happend hle
  · rw [htaken, String.utf8ByteSize_ofList, String.utf8ByteSize_ofList]
    refine ⟨⟨isBoundary_take _ _, hhigh.1⟩, fun offset ⟨hoffset, hle⟩ => ?_⟩
    obtain ⟨first, rest, happend, rfl⟩ := exists_split_of_isBoundary hoffset
    exact hhigh.2 first rest happend hle

end Highlighter.Text
