import Highlighter.Proofs.Pattern.Source
import Mathlib

/-!
# Pieces in front of something else

Pieces are found without a state: what comes next in a source decides alone. So a source that is
read completely has the same pieces in front of something that cannot belong to it, also after its
references have got other numbers.
-/

namespace Highlighter

namespace Pattern

namespace Piece

/-- The digits of a reference: a number that does not start with a zero. -/
inductive IsNumber : List Char → Prop where
  | intro {c : Char} {digits : List Char} (hfirst : c.isDigit = true) (hzero : c ≠ '0')
      (hdigits : ∀ d ∈ digits, d.isDigit = true) : IsNumber (c :: digits)

/-- Pieces that differ at most in the number of a reference. -/
inductive Alike : Piece → Piece → Prop where
  | same (piece : Piece) : Alike piece piece
  | reference {digits digits' : List Char} (hnumber : IsNumber digits') :
      Alike (.reference digits) (.reference digits')

/-- What may stand behind a source without being taken for a part of it. -/
inductive IsBarrier : Char → Prop where
  | close : IsBarrier ')'
  | bar : IsBarrier '|'
  | bracket : IsBarrier ']'
  | lineEnd : IsBarrier '\n'

/-- The source has pieces like those of another source, and then a barrier and a tail. -/
def Renders (barrier : Char) (tail source rendered : List Char) : Prop :=
  ∃ pieces, List.Forall₂ Alike (ofSource source) pieces ∧
    rendered = pieces.flatMap text ++ barrier :: tail

variable {c barrier : Char} {source source' rest tail rendered after : List Char} {piece : Piece}
  {pieces : List Piece}

/-- A character other than these is a piece of its own. -/
theorem first_plain (hclass : c ≠ '[') (hparen : c ≠ '(') (hbackslash : c ≠ '\\') :
    first c rest = (.plain c, rest) := by
  unfold first
  split
  · exact absurd rfl hclass
  · exact absurd rfl hparen
  · exact absurd rfl hparen
  · exact absurd rfl hparen
  · exact absurd rfl hparen
  · exact absurd rfl hbackslash
  · rfl

theorem ofSource_plain (hclass : c ≠ '[') (hparen : c ≠ '(') (hbackslash : c ≠ '\\') :
    ofSource (c :: rest) = .plain c :: ofSource rest := by
  rw [ofSource, first_plain hclass hparen hbackslash]

theorem IsBarrier.ofSource (h : IsBarrier barrier) :
    ofSource (barrier :: tail) = .plain barrier :: ofSource tail := by
  cases h <;> exact ofSource_plain (by decide) (by decide) (by decide)

/-- A class is closed by the same bracket, whatever follows. -/
theorem classBody?_append {body : List Char} (h : classBody? source = some (body, after))
    (tail : List Char) : classBody? (body ++ ']' :: tail) = some (body, tail) := by
  fun_induction classBody? source generalizing body with
  | case1 => cases h
  | case2 =>
    cases h
    rfl
  | case3 => cases h
  | case4 c inner hline ih =>
    simp only [Option.map_eq_some_iff, Prod.mk.injEq, Prod.exists] at h
    obtain ⟨word, after, hword, rfl, rfl⟩ := h
    have hline : (c == '\n') = false := by simpa using hline
    simp only [List.cons_append, classBody?, hline, Bool.false_eq_true, if_false, ih hword,
      Option.map_some]
  | case5 => cases h
  | case6 c inner hbracket hescape hlast ih =>
    simp only [Option.map_eq_some_iff, Prod.mk.injEq, Prod.exists] at h
    obtain ⟨word, after, hword, rfl, rfl⟩ := h
    have hplain : c ≠ '\\' := by
      rintro rfl
      cases inner with
      | nil => exact hlast rfl rfl
      | cons d inner => exact hescape d inner rfl rfl
    rw [List.cons_append, classBody?.eq_5 c _ hbracket (fun d inner hc _ => hplain hc)
      (fun hc _ => hplain hc), ih hword, Option.map_some]

/-- A class with its brackets is the text up to the end of the class. -/
theorem classBody?_source {body : List Char} (h : classBody? source = some (body, after)) :
    source = body ++ ']' :: after := by
  fun_induction classBody? source generalizing body with
  | case1 => cases h
  | case2 =>
    cases h
    rfl
  | case3 => cases h
  | case4 c inner hline ih =>
    simp only [Option.map_eq_some_iff, Prod.mk.injEq, Prod.exists] at h
    obtain ⟨word, after, hword, rfl, rfl⟩ := h
    rw [ih hword]
    rfl
  | case5 => cases h
  | case6 c inner _ _ _ ih =>
    simp only [Option.map_eq_some_iff, Prod.mk.injEq, Prod.exists] at h
    obtain ⟨word, after, hword, rfl, rfl⟩ := h
    rw [ih hword]
    rfl

/-- Nothing of a source is lost in cutting it. -/
theorem first_text (c : Char) (rest : List Char) :
    (first c rest).1.text ++ (first c rest).2 = c :: rest := by
  unfold first
  split
  · split
    · next hbody =>
      simp [text, classBody?_source hbody]
    · rfl
  · split <;> rfl
  · split <;> rfl
  · rfl
  · rfl
  · next start tail =>
    split
    · simp only [text, List.cons_append, List.takeWhile_append_dropWhile]
    · split <;> rfl
  · rfl

theorem flatMap_text_ofSource (source : List Char) :
    (ofSource source).flatMap text = source := by
  induction source using ofSource.induct with
  | case1 =>
    rw [ofSource]
    rfl
  | case2 c rest ih => rw [ofSource, List.flatMap_cons, ih, first_text]

/-- The digits of a reference among the pieces of a source are a number. -/
theorem isNumber_of_first {digits : List Char} (h : first c rest = (.reference digits, after)) :
    IsNumber digits ∧ ∀ d, after.head? = some d → d.isDigit = false := by
  unfold first at h
  split at h
  · split at h <;> cases h
  · split at h <;> cases h
  · split at h <;> cases h
  · cases h
  · cases h
  · next start tail =>
    split at h
    · next hdigit =>
      simp only [Bool.and_eq_true, bne_iff_ne] at hdigit
      cases h
      refine ⟨.intro hdigit.1 hdigit.2 fun d hd => List.all_eq_true.mp List.all_takeWhile d hd,
        fun d hd => ?_⟩
      have hhead := List.head?_dropWhile_not Char.isDigit tail
      rw [hd] at hhead
      simpa using hhead
    · split at h <;> cases h
  · cases h

/-- A number moved up is still a number. -/
theorem IsNumber.toDigits {digits : List Char} {bits number : Nat} (h : IsNumber digits)
    (hvalue : Text.unsigned? bits digits = some number) (offset : Nat) :
    IsNumber (Nat.toDigits 10 (number + offset)) := by
  cases h with
  | intro hfirst hzero _ =>
    have hpos : 0 < number + offset :=
      Nat.lt_of_lt_of_le (Text.unsigned?_pos hfirst hzero hvalue) (Nat.le_add_right _ _)
    have hhead := Text.head?_toDigits hpos
    have hdigits : ∀ d ∈ Nat.toDigits 10 (number + offset), d.isDigit = true :=
      fun d hd => Text.isDigit_of_mem_toDigits hd
    cases hword : Nat.toDigits 10 (number + offset) with
    | nil => exact absurd hword Nat.toDigits_ne_nil
    | cons c rest =>
      rw [hword] at hhead hdigits
      exact .intro (hdigits c List.mem_cons_self) (fun hc => hhead (congrArg some hc))
        fun d hd => hdigits d (List.mem_cons_of_mem _ hd)

namespace Alike

theorem head?_text {piece piece' : Piece} (h : Alike piece piece') :
    piece'.text.head? = piece.text.head? := by
  cases h <;> rfl

/-- A piece whose reference moves is like it was. -/
theorem shift (offset : Nat) {piece : Piece}
    (hnumber : ∀ digits, piece = .reference digits → IsNumber digits) :
    Alike piece (piece.shift offset) := by
  cases piece with
  | reference digits =>
    rw [Piece.shift]
    split
    · next number hvalue => exact .reference ((hnumber digits rfl).toDigits hvalue offset)
    · exact .same _
  | _ => exact .same _

end Alike

namespace Renders

theorem head?_eq (h : Renders barrier tail source rendered) :
    rendered.head? = some (source.head?.getD barrier) := by
  obtain ⟨pieces, hpieces, rfl⟩ := h
  cases source with
  | nil =>
    rw [ofSource] at hpieces
    cases hpieces
    rfl
  | cons c rest =>
    rw [ofSource] at hpieces
    cases hpieces with
    | cons hpiece hrest =>
      have hhead : (first c rest).1.text.head? = some c := by
        have htext := congrArg List.head? (first_text c rest)
        have hne : (first c rest).1.text ≠ [] := by
          cases (first c rest).1 <;> simp [text]
        rwa [List.head?_append_of_ne_nil _ hne] at htext
      rw [List.flatMap_cons, List.append_assoc, List.head?_append, hpiece.head?_text, hhead]
      rfl

/-- A character that is a piece of its own stays in front. -/
theorem uncons (h : Renders barrier tail (c :: source) rendered) (hclass : c ≠ '[')
    (hparen : c ≠ '(') (hbackslash : c ≠ '\\') :
    ∃ rendered', rendered = c :: rendered' ∧ Renders barrier tail source rendered' := by
  obtain ⟨pieces, hpieces, rfl⟩ := h
  rw [ofSource_plain hclass hparen hbackslash] at hpieces
  cases hpieces with
  | cons hpiece hrest =>
    cases hpiece
    exact ⟨_, rfl, _, hrest, rfl⟩

/-- Such a character can only come from the source itself. -/
theorem of_cons (h : Renders barrier tail source (c :: rendered)) (hclass : c ≠ '[')
    (hparen : c ≠ '(') (hbackslash : c ≠ '\\') (hbarrier : c ≠ barrier) :
    ∃ source', source = c :: source' ∧ Renders barrier tail source' rendered := by
  have hhead := h.head?_eq
  rw [List.head?_cons, Option.some.injEq] at hhead
  cases source with
  | nil => exact absurd hhead hbarrier
  | cons d source =>
    obtain rfl : c = d := hhead
    obtain ⟨rendered', heq, hrest⟩ := h.uncons hclass hparen hbackslash
    cases heq
    exact ⟨source, rfl, hrest⟩

end Renders

/-- A question mark behind a parenthesis opens no capturing group where no name starts. -/
theorem first_construct
    (hpython : ∀ name rest, source = 'P' :: '<' :: name :: rest → startsName name = false)
    (hangle : ∀ name rest, source = '<' :: name :: rest → startsName name = false) :
    first '(' ('?' :: source) = (.construct, source) := by
  unfold first
  split
  · next heq => cases heq
  · next name rest _ heq =>
    cases heq
    rw [hpython name rest rfl]
    rfl
  · next name rest _ heq =>
    cases heq
    rw [hangle name rest rfl]
    rfl
  · next heq =>
    cases heq
    rfl
  · next hnone => exact (hnone _ rfl).elim
  · next heq _ => cases heq
  · next hparen _ => exact (hparen _ rfl rfl).elim

theorem ofSource_of_first {piece : Piece} {word : List Char}
    (h : first c word = (piece, rest)) : ofSource (c :: word) = piece :: ofSource rest := by
  rw [ofSource, h]

theorem IsBarrier.startsName (h : IsBarrier barrier) : startsName barrier = false := by
  cases h <;> decide

theorem IsBarrier.notMem (h : IsBarrier barrier) : barrier ∉ ['?', 'P', '<'] := by
  cases h <;> decide

theorem IsBarrier.ne (h : IsBarrier barrier) (hc : c ∈ ['?', 'P', '<']) : c ≠ barrier :=
  fun heq => h.notMem (heq ▸ hc)

namespace Renders

/-- Where the source goes on with no name, it does not do so in front of a barrier either. -/
theorem startsName_head {name : Char} (h : Renders barrier tail source (name :: rendered))
    (hbarrier : IsBarrier barrier)
    (hname : ∀ name rest, source = name :: rest → startsName name = false) :
    startsName name = false := by
  have hhead := h.head?_eq
  rw [List.head?_cons, Option.some.injEq] at hhead
  rw [hhead]
  cases source with
  | nil => exact hbarrier.startsName
  | cons d source => exact hname d source rfl

/-- What opens no group with a name in the source opens none in front of a barrier either. -/
theorem first_construct (h : Renders barrier tail source rendered) (hbarrier : IsBarrier barrier)
    (hpython : ∀ name rest, source = 'P' :: '<' :: name :: rest → startsName name = false)
    (hangle : ∀ name rest, source = '<' :: name :: rest → startsName name = false) :
    Piece.first '(' ('?' :: rendered) = (.construct, rendered) := by
  refine Piece.first_construct ?_ ?_
  · rintro name rest rfl
    obtain ⟨_, rfl, hmark⟩ := h.of_cons (by decide) (by decide) (by decide)
      (hbarrier.ne (by decide))
    obtain ⟨_, rfl, hstart⟩ := hmark.of_cons (by decide) (by decide) (by decide)
      (hbarrier.ne (by decide))
    exact hstart.startsName_head hbarrier fun name rest heq => hpython name rest (by rw [heq])
  · rintro name rest rfl
    obtain ⟨_, rfl, hstart⟩ := h.of_cons (by decide) (by decide) (by decide)
      (hbarrier.ne (by decide))
    exact hstart.startsName_head hbarrier fun name rest heq => hangle name rest (by rw [heq])

/-- A parenthesis in front of anything but a question mark stays a capturing group. -/
theorem first_capture (h : Renders barrier tail source rendered) (hbarrier : IsBarrier barrier)
    (hquestion : ∀ rest, source ≠ '?' :: rest) :
    Piece.first '(' rendered = (.capture [], rendered) := by
  have hhead : ∀ rest, rendered ≠ '?' :: rest := by
    rintro rest rfl
    obtain ⟨source, rfl, -⟩ := h.of_cons (by decide) (by decide) (by decide)
      (hbarrier.ne (by decide))
    exact hquestion source rfl
  rw [Piece.first]
  · exact fun _ _ => hhead _
  · exact fun _ _ => hhead _
  · exact hhead

/-- A number ends where it did. -/
theorem first_reference {digits : List Char} (h : Renders barrier tail source rendered)
    (hbarrier : IsBarrier barrier) (hend : ∀ d, source.head? = some d → d.isDigit = false)
    (hnumber : IsNumber digits) :
    Piece.first '\\' (digits ++ rendered) = (.reference digits, rendered) := by
  have hstop : rendered.takeWhile Char.isDigit = [] ∧
      rendered.dropWhile Char.isDigit = rendered := by
    have hhead := h.head?_eq
    cases rendered with
    | nil => exact ⟨rfl, rfl⟩
    | cons d rendered =>
      rw [List.head?_cons, Option.some.injEq] at hhead
      have hdigit : d.isDigit = false := by
        cases hsource : source.head? with
        | none =>
          rw [hhead, hsource]
          cases hbarrier <;> decide
        | some e =>
          rw [hhead, hsource]
          exact hend e hsource
      simp [hdigit]
  cases hnumber with
  | intro hfirst hzero hdigits =>
    have htest : ∀ {c : Char}, c.isDigit = true → c ≠ '0' → (c.isDigit && c != '0') = true :=
      fun hdigit hzero => by simp [hdigit, hzero]
    rw [List.cons_append, Piece.first, if_pos (htest hfirst hzero),
      List.takeWhile_append_of_pos hdigits, List.dropWhile_append_of_pos hdigits, hstop.1, hstop.2,
      List.append_nil]

/-- A piece stays in front of what it stands in front of. -/
theorem first (h : Renders barrier tail after rendered) (hbarrier : IsBarrier barrier)
    {piece piece' : Piece} (hfirst : Piece.first c rest = (piece, after))
    (hclosed : piece ≠ .plain '[') (hended : piece = .plain '\\' → after ≠ [])
    (halike : Alike piece piece') :
    ofSource (piece'.text ++ rendered) = piece' :: ofSource rendered := by
  unfold Piece.first at hfirst
  split at hfirst
  · split at hfirst
    · next hbody =>
      cases hfirst
      cases halike
      rw [text, List.append_assoc, List.cons_append]
      exact ofSource_of_first (by rw [List.singleton_append, Piece.first, classBody?_append hbody])
    · cases hfirst
      exact absurd rfl hclosed
  · split at hfirst
    · next hname =>
      cases hfirst
      cases halike
      exact ofSource_of_first (by simp [Piece.first, hname])
    · next hname =>
      cases hfirst
      cases halike
      refine ofSource_of_first (h.first_construct hbarrier ?_ ?_)
      · rintro name rest heq
        cases heq
        simpa using hname
      · rintro name rest heq
        cases heq
  · split at hfirst
    · next hname =>
      cases hfirst
      cases halike
      exact ofSource_of_first (by simp [Piece.first, hname])
    · next hname =>
      cases hfirst
      cases halike
      refine ofSource_of_first (h.first_construct hbarrier ?_ ?_)
      · rintro name rest heq
        cases heq
      · rintro name rest heq
        cases heq
        simpa using hname
  · next hpython hangle =>
    cases hfirst
    cases halike
    exact ofSource_of_first (h.first_construct hbarrier
      (fun name rest heq => absurd heq (hpython name rest))
      (fun name rest heq => absurd heq (hangle name rest)))
  · next hquestion =>
    cases hfirst
    cases halike
    exact ofSource_of_first (h.first_capture hbarrier fun rest heq => hquestion rest heq)
  · next start tail' =>
    split at hfirst
    · next hdigit =>
      have hpiece : Piece.first '\\' (start :: tail') =
          (.reference (start :: tail'.takeWhile Char.isDigit), tail'.dropWhile Char.isDigit) := by
        rw [Piece.first, if_pos hdigit]
      have hnumber := isNumber_of_first hpiece
      cases hfirst
      cases halike with
      | same => exact ofSource_of_first (h.first_reference hbarrier hnumber.2 hnumber.1)
      | reference hnumber' => exact ofSource_of_first (h.first_reference hbarrier hnumber.2 hnumber')
    · next hdigit =>
      split at hfirst
      · next hline =>
        cases hfirst
        cases halike
        obtain rfl : start = '\n' := by simpa using hline
        obtain ⟨rendered, rfl, -⟩ := h.uncons (by decide) (by decide) (by decide)
        have hpiece : Piece.first '\\' ('\n' :: rendered) = (.plain '\\', '\n' :: rendered) := by
          rw [Piece.first, if_neg hdigit, if_pos hline]
        exact ofSource_of_first hpiece
      · next hline =>
        cases hfirst
        cases halike
        have hpiece : Piece.first '\\' (start :: rendered) = (.escape start, rendered) := by
          rw [Piece.first, if_neg hdigit, if_neg hline]
        exact ofSource_of_first hpiece
  · next hclass hparen _ _ _ hescape =>
    cases hfirst
    cases halike
    refine ofSource_plain (fun hc => hclosed (congrArg _ hc)) hparen ?_
    rintro rfl
    cases rest with
    | nil => exact hended rfl rfl
    | cons d rest => exact hescape d rest rfl rfl

end Renders

/-- A source that is read completely: no class in it is left open, and no backslash at its end has
nothing to escape. -/
structure IsWhole (source : List Char) : Prop where
  closed : .plain '[' ∉ ofSource source
  ended : (ofSource source).getLast? ≠ some (.plain '\\')

instance (source : List Char) : Decidable (IsWhole source) :=
  decidable_of_iff
    (.plain '[' ∉ ofSource source ∧ (ofSource source).getLast? ≠ some (.plain '\\'))
    ⟨fun h => ⟨h.1, h.2⟩, fun h => ⟨h.closed, h.ended⟩⟩

theorem ofSource_eq_nil_iff : ofSource source = [] ↔ source = [] := by
  cases source <;> simp [ofSource]

/-- What follows the first piece of such a source is such a source. -/
theorem IsWhole.of_first (h : IsWhole (c :: rest)) (hfirst : first c rest = (piece, after)) :
    piece ≠ .plain '[' ∧ (piece = .plain '\\' → after ≠ []) ∧ IsWhole after := by
  obtain ⟨hclosed, hended⟩ := h
  rw [ofSource_of_first hfirst] at hclosed hended
  refine ⟨fun heq => hclosed (heq ▸ List.mem_cons_self), fun heq hnil => hended ?_,
    fun hmem => hclosed (List.mem_cons_of_mem _ hmem), fun hlast => hended ?_⟩
  · rw [heq, hnil, ofSource]
    rfl
  · rw [List.getLast?_cons, hlast]
    rfl

/-- The pieces of a source that is read completely do not change in front of a barrier, whatever
numbers its references have got. -/
theorem ofSource_append_barrier (hbarrier : IsBarrier barrier) (hwhole : IsWhole source)
    (halike : List.Forall₂ Alike (ofSource source) pieces) :
    ofSource (pieces.flatMap text ++ barrier :: tail) =
      pieces ++ .plain barrier :: ofSource tail := by
  induction source using ofSource.induct generalizing pieces with
  | case1 =>
    rw [ofSource] at halike
    cases halike
    exact hbarrier.ofSource
  | case2 c rest ih =>
    cases hfirst : first c rest with
    | mk piece after =>
      rw [hfirst] at ih
      rw [ofSource_of_first hfirst] at halike
      obtain ⟨hclosed, hended, hafter⟩ := hwhole.of_first hfirst
      cases halike with
      | @cons _ piece' _ pieces hpiece hrest =>
        have hrenders : Renders barrier tail after (pieces.flatMap text ++ barrier :: tail) :=
          ⟨pieces, hrest, rfl⟩
        rw [List.flatMap_cons, List.append_assoc,
          hrenders.first hbarrier hfirst hclosed hended hpiece, ih hafter hrest, List.cons_append]

/-- A source that is read completely in front of a barrier. -/
theorem ofSource_append (hbarrier : IsBarrier barrier) (hwhole : IsWhole source) :
    ofSource (source ++ barrier :: tail) =
      ofSource source ++ .plain barrier :: ofSource tail := by
  have hpieces : ofSource ((ofSource source).flatMap text ++ barrier :: tail) =
      ofSource source ++ .plain barrier :: ofSource tail :=
    ofSource_append_barrier hbarrier hwhole (List.forall₂_same.mpr fun piece _ => .same piece)
  rwa [flatMap_text_ofSource] at hpieces

/-- The references of a source may move at once. -/
theorem forall₂_shift (offset : Nat) (source : List Char) :
    List.Forall₂ Alike (ofSource source) ((ofSource source).map (Piece.shift offset)) := by
  induction source using ofSource.induct with
  | case1 =>
    rw [ofSource]
    exact .nil
  | case2 c rest ih =>
    rw [ofSource]
    refine .cons (Alike.shift offset fun digits hdigits => ?_) ih
    exact (isNumber_of_first (Prod.ext hdigits rfl)).1

@[simp]
theorem isCapture_shift (offset : Nat) (piece : Piece) :
    (piece.shift offset).isCapture = piece.isCapture := by
  cases piece with
  | reference digits =>
    rw [Piece.shift]
    split <;> rfl
  | _ => rfl

/-- What moving a reference means for a piece: a reference to a number of a machine word names the
number moved up, and every other piece stays. -/
inductive Moved (offset : Nat) : Piece → Piece → Prop where
  | reference {digits digits' : List Char} {number : Nat}
      (hword : Text.unsigned? 64 digits = some number)
      (hmoved : Text.digitsValue digits' = number + offset) :
      Moved offset (.reference digits) (.reference digits')
  | same {piece : Piece}
      (hword : ∀ digits, piece = .reference digits → Text.unsigned? 64 digits = none) :
      Moved offset piece piece

theorem moved_shift (offset : Nat) (piece : Piece) : Moved offset piece (piece.shift offset) := by
  cases piece with
  | reference digits =>
    rw [Piece.shift]
    split
    · next number hword => exact .reference hword (Text.digitsValue_toDigits _)
    · next hword =>
      refine .same fun digits' heq => ?_
      cases heq
      exact hword
  | _ => exact .same fun _ heq => by cases heq

end Piece

end Pattern

end Highlighter
