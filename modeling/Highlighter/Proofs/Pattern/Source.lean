import Highlighter.Pattern.Source
import Highlighter.Proofs.Text.Number
import Highlighter.Regex.Reader

/-!
# Sources with other group numbers

What `shiftReferences` does to a source, told character by character as a reader meets it: escapes
and ordinary characters stay, the number of a reference grows. This holds of sources that refer to
groups by plain numbers only, with no such number where a class seems to be.
-/

namespace Highlighter

namespace Pattern

/-- Whether an escape in a list of characters is a digit or refers to a group by its name. -/
def escapesNumber : List Char → Bool
  | '\\' :: c :: rest => c.isDigit || c == 'k' || escapesNumber rest
  | _ :: rest => escapesNumber rest
  | [] => false

/-- Whether a piece refers to a group only if it is a numbered reference. -/
def Piece.isClear : Piece → Bool
  | .charClass body => !escapesNumber body
  | .escape c => c != '0' && c != 'k'
  | _ => true

/-- Whether what follows a parenthesis is a reference by name, after what a reader skips. -/
def opensReference (ignoreBlank : Bool) (source : List Char) : Bool :=
  match Regex.Tree.skipIgnored ignoreBlank source.length source with
  | .ok rest => ['?', 'P', '='].isPrefixOf rest
  | .error _ => false

/-- Whether some parenthesis in a source opens a reference by name. -/
def refersByName : List Char → Bool
  | '\\' :: _ :: rest => refersByName rest
  | c :: rest =>
    c == '(' && (opensReference false rest || opensReference true rest) || refersByName rest
  | [] => false

/-- A source that refers to groups by plain numbers only. -/
structure IsClear (source : List Char) : Prop where
  pieces : ∀ piece ∈ Piece.ofSource source, piece.isClear = true
  unnamed : refersByName source = false

instance (source : List Char) : Decidable (IsClear source) :=
  decidable_of_iff
    ((∀ piece ∈ Piece.ofSource source, piece.isClear = true) ∧ refersByName source = false)
    ⟨fun h => ⟨h.1, h.2⟩, fun h => ⟨h.pieces, h.unnamed⟩⟩

/-- The digits of a reference, moved up by `offset`. -/
def movedDigits (offset : Nat) (digits : List Char) : List Char :=
  match Text.unsigned? 64 digits with
  | some number => Nat.toDigits 10 (number + offset)
  | none => digits

theorem shift_reference_text (offset : Nat) (digits : List Char) :
    ((Piece.reference digits).shift offset).text = '\\' :: movedDigits offset digits := by
  simp only [Piece.shift, movedDigits]
  cases Text.unsigned? 64 digits <;> rfl

theorem isDigit_of_mem_movedDigits {offset : Nat} {digits : List Char}
    (hdigits : ∀ c ∈ digits, c.isDigit = true) : ∀ c ∈ movedDigits offset digits,
      c.isDigit = true := by
  intro c hc
  unfold movedDigits at hc
  split at hc
  · exact Text.isDigit_of_mem_toDigits hc
  · exact hdigits c hc

theorem movedDigits_ne_nil {offset : Nat} {c : Char} {digits : List Char} :
    movedDigits offset (c :: digits) ≠ [] := by
  unfold movedDigits
  split
  · exact Nat.toDigits_ne_nil
  · exact List.cons_ne_nil _ _

/-- The second source is the first one with its numbered references moved up by `offset`. -/
inductive Renumbers (offset : Nat) : List Char → List Char → Prop where
  | nil : Renumbers offset [] []
  | stray : Renumbers offset ['\\'] ['\\']
  | plain {c : Char} {source source' : List Char} (hplain : c ≠ '\\')
      (hunnamed : c = '(' → ∀ ignoreBlank, opensReference ignoreBlank source = false)
      (hrest : Renumbers offset source source') :
      Renumbers offset (c :: source) (c :: source')
  | escape {c : Char} {source source' : List Char} (hdigit : c.isDigit = false) (hname : c ≠ 'k')
      (hrest : Renumbers offset source source') :
      Renumbers offset ('\\' :: c :: source) ('\\' :: c :: source')
  | reference {c : Char} {digits source source' : List Char} (hzero : c ≠ '0')
      (hdigits : ∀ d ∈ c :: digits, d.isDigit = true)
      (hend : ∀ d, source.head? = some d → d.isDigit = false)
      (hrest : Renumbers offset source source') :
      Renumbers offset ('\\' :: (c :: digits ++ source))
        ('\\' :: (movedDigits offset (c :: digits) ++ source'))

namespace Renumbers

variable {offset : Nat}

theorem refersByName_cons {c : Char} (hplain : c ≠ '\\') (source : List Char) :
    refersByName (c :: source) =
      (c == '(' && (opensReference false source || opensReference true source) ||
        refersByName source) := by
  rw [refersByName]
  exact fun _ _ heq => absurd heq hplain

theorem refersByName_of_append {word source : List Char} (hword : ∀ c ∈ word, c ≠ '\\')
    (h : refersByName (word ++ source) = false) : refersByName source = false := by
  induction word with
  | nil => exact h
  | cons c word ih =>
    rw [List.cons_append, refersByName_cons (hword c List.mem_cons_self),
      Bool.or_eq_false_iff] at h
    exact ih (fun d hd => hword d (List.mem_cons_of_mem _ hd)) h.2

/-- Nothing but a backslash or a reference by name has a part in numbering. -/
theorem cons {c : Char} {source source' : List Char} (hplain : c ≠ '\\')
    (hunnamed : refersByName (c :: source) = false) (hrest : Renumbers offset source source') :
    Renumbers offset (c :: source) (c :: source') := by
  refine .plain hplain (fun hparen ignoreBlank => ?_) hrest
  subst hparen
  rw [refersByName_cons hplain, beq_self_eq_true, Bool.true_and, Bool.or_eq_false_iff,
    Bool.or_eq_false_iff] at hunnamed
  cases ignoreBlank
  · exact hunnamed.1.1
  · exact hunnamed.1.2

theorem append {word source source' : List Char} (hword : ∀ c ∈ word, c ≠ '\\')
    (hunnamed : refersByName (word ++ source) = false)
    (hrest : Renumbers offset source source') :
    Renumbers offset (word ++ source) (word ++ source') := by
  induction word with
  | nil => exact hrest
  | cons c word ih =>
    have hc := hword c List.mem_cons_self
    have htail : refersByName (word ++ source) = false := by
      rw [List.cons_append, refersByName_cons hc, Bool.or_eq_false_iff] at hunnamed
      exact hunnamed.2
    exact (ih (fun d hd => hword d (List.mem_cons_of_mem _ hd)) htail).cons hc hunnamed

/-- A class reads the same, as long as no escape in it is a number. -/
theorem classBody {source body rest : List Char}
    (h : Piece.classBody? source = some (body, rest)) (hclear : escapesNumber body = false)
    (hunnamed : refersByName source = false) :
    refersByName rest = false ∧ ∀ source', Renumbers offset rest source' →
      Renumbers offset source (body ++ ']' :: source') := by
  fun_induction Piece.classBody? source generalizing body with
  | case1 => cases h
  | case2 tail =>
    cases h
    exact ⟨hunnamed, fun source' hrest => hrest.cons (by decide) hunnamed⟩
  | case3 => cases h
  | case4 c tail _ ih =>
    simp only [Option.map_eq_some_iff, Prod.mk.injEq, Prod.exists] at h
    obtain ⟨inner, after, hinner, rfl, rfl⟩ := h
    simp only [escapesNumber, Bool.or_eq_false_iff, beq_eq_false_iff_ne] at hclear
    obtain ⟨hafter, htail⟩ := ih hinner hclear.2 hunnamed
    exact ⟨hafter, fun source' hrest => .escape hclear.1.1 hclear.1.2 (htail source' hrest)⟩
  | case5 => cases h
  | case6 c tail hbracket hescape hlast ih =>
    simp only [Option.map_eq_some_iff, Prod.mk.injEq, Prod.exists] at h
    obtain ⟨inner, after, hinner, rfl, rfl⟩ := h
    have hplain : c ≠ '\\' := by
      rintro rfl
      cases tail with
      | nil => exact hlast rfl rfl
      | cons d tail => exact hescape d tail rfl rfl
    have hinnerClear : escapesNumber inner = false := by
      rw [escapesNumber] at hclear
      · exact hclear
      · rintro d rest heq
        exact absurd heq hplain
    have htailUnnamed : refersByName tail = false := by
      rw [refersByName_cons hplain, Bool.or_eq_false_iff] at hunnamed
      exact hunnamed.2
    obtain ⟨hafter, htail⟩ := ih hinner hinnerClear htailUnnamed
    exact ⟨hafter, fun source' hrest => (htail source' hrest).cons hplain hunnamed⟩

/-- Adding what `first` cuts off a source. -/
theorem first {c : Char} {rest after : List Char} {piece : Piece}
    (hfirst : Piece.first c rest = (piece, after)) (hclear : piece.isClear = true)
    (hunnamed : refersByName (c :: rest) = false) :
    refersByName after = false ∧ ∀ source', Renumbers offset after source' →
      Renumbers offset (c :: rest) ((piece.shift offset).text ++ source') := by
  have hword : ∀ {word tail : List Char}, (∀ d ∈ word, d ≠ '\\') →
      refersByName (word ++ tail) = false → refersByName tail = false ∧
        ∀ source', Renumbers offset tail source' →
          Renumbers offset (word ++ tail) (word ++ source') :=
    fun hplain hnone => ⟨refersByName_of_append hplain hnone,
      fun _ hrest => append hplain hnone hrest⟩
  have hstart : ∀ {d : Char} {word : List Char}, Piece.startsName d = true →
      (∀ e ∈ word, e ≠ '\\') → ∀ e ∈ word ++ [d], e ≠ '\\' := by
    rintro d word hd hplain e hmem rfl
    rcases List.mem_append.mp hmem with hmem | hmem
    · exact hplain _ hmem rfl
    · cases List.mem_singleton.mp hmem
      exact absurd hd (by decide)
  unfold Piece.first at hfirst
  split at hfirst
  · have htail : refersByName rest = false :=
      refersByName_of_append (by simp : ∀ d ∈ ['['], d ≠ '\\') hunnamed
    split at hfirst
    · next body after' hbody =>
      cases hfirst
      obtain ⟨hafter, hclass⟩ := classBody hbody (by simpa [Piece.isClear] using hclear) htail
      refine ⟨hafter, fun source' hrest => ?_⟩
      simpa [Piece.shift, Piece.text] using (hclass source' hrest).cons (by decide) hunnamed
    · cases hfirst
      exact ⟨htail, fun source' hrest => hrest.cons (by decide) hunnamed⟩
  · next start tail =>
    split at hfirst
    · next hname =>
      cases hfirst
      exact hword (hstart hname (by simp : ∀ d ∈ ['(', '?', 'P', '<'], d ≠ '\\')) hunnamed
    · cases hfirst
      exact hword (by simp : ∀ d ∈ ['(', '?'], d ≠ '\\') hunnamed
  · next start tail =>
    split at hfirst
    · next hname =>
      cases hfirst
      exact hword (hstart hname (by simp : ∀ d ∈ ['(', '?', '<'], d ≠ '\\')) hunnamed
    · cases hfirst
      exact hword (by simp : ∀ d ∈ ['(', '?'], d ≠ '\\') hunnamed
  · cases hfirst
    exact hword (by simp : ∀ d ∈ ['(', '?'], d ≠ '\\') hunnamed
  · cases hfirst
    exact hword (by simp : ∀ d ∈ ['('], d ≠ '\\') hunnamed
  · next start tail =>
    split at hfirst
    · next hdigit =>
      simp only [Bool.and_eq_true, bne_iff_ne] at hdigit
      cases hfirst
      have hdigits : ∀ d ∈ tail.takeWhile Char.isDigit, d.isDigit = true :=
        fun d hd => List.all_eq_true.mp List.all_takeWhile d hd
      have hplain : ∀ d ∈ tail.takeWhile Char.isDigit, d ≠ '\\' := by
        rintro d hd rfl
        cases hdigits _ hd
      have hend : ∀ d, (tail.dropWhile Char.isDigit).head? = some d → d.isDigit = false := by
        intro d hd
        have hhead := List.head?_dropWhile_not Char.isDigit tail
        rw [hd] at hhead
        simpa using hhead
      have hsplit := List.takeWhile_append_dropWhile (p := Char.isDigit) (l := tail)
      refine ⟨refersByName_of_append hplain (by rwa [hsplit]), fun source' hrest => ?_⟩
      have hmoved := reference hdigit.2 (List.forall_mem_cons.mpr ⟨hdigit.1, hdigits⟩) hend hrest
      rw [List.cons_append, hsplit] at hmoved
      rwa [shift_reference_text]
    · next hdigit =>
      split at hfirst
      · next hline =>
        simp only [beq_iff_eq] at hline
        cases hfirst
        subst hline
        have htail : refersByName ('\n' :: tail) = false := by
          rw [refersByName_cons (by decide)]
          exact hunnamed
        refine ⟨htail, fun source' hrest => ?_⟩
        cases hrest with
        | plain _ _ hrest => exact .escape (by decide) (by decide) hrest
      · cases hfirst
        simp only [Piece.isClear, Bool.and_eq_true, bne_iff_ne, ne_eq] at hclear
        refine ⟨hunnamed, fun source' hrest => .escape ?_ hclear.2 hrest⟩
        simpa [hclear.1] using hdigit
  · next hbracket hparen _ _ _ hescape =>
    cases hfirst
    by_cases hstray : c = '\\'
    · subst hstray
      cases rest with
      | nil =>
        refine ⟨rfl, fun source' hrest => ?_⟩
        cases hrest
        exact .stray
      | cons d rest => exact absurd rfl (hescape d rest rfl)
    · have hrest : refersByName rest = false := by
        rw [refersByName_cons hstray, Bool.or_eq_false_iff] at hunnamed
        exact hunnamed.2
      exact ⟨hrest, fun source' hrest => hrest.cons hstray hunnamed⟩

/-- Moving the references of a clear source up does nothing else to it. -/
theorem of_isClear {source : List Char} (h : IsClear source) :
    Renumbers offset source
      ((Piece.ofSource source).flatMap fun piece => (piece.shift offset).text) := by
  obtain ⟨hclear, hunnamed⟩ := h
  induction source using Piece.ofSource.induct with
  | case1 =>
    rw [Piece.ofSource]
    exact .nil
  | case2 c rest ih =>
    rw [Piece.ofSource] at hclear ⊢
    rw [List.flatMap_cons]
    obtain ⟨hafter, hfirst⟩ := first rfl (hclear _ List.mem_cons_self) hunnamed
    exact hfirst _ (ih (fun piece hmem => hclear piece (List.mem_cons_of_mem _ hmem)) hafter)

theorem uncons {c : Char} {source moved : List Char} (h : Renumbers offset (c :: source) moved)
    (hplain : c ≠ '\\') : ∃ moved', moved = c :: moved' ∧ Renumbers offset source moved' := by
  cases h with
  | stray => exact absurd rfl hplain
  | plain _ _ hrest => exact ⟨_, rfl, hrest⟩
  | escape => exact absurd rfl hplain
  | reference => exact absurd rfl hplain

theorem of_append {word source moved : List Char} (h : Renumbers offset (word ++ source) moved)
    (hword : '\\' ∉ word) : ∃ moved', moved = word ++ moved' ∧ Renumbers offset source moved' := by
  induction word generalizing moved with
  | nil => exact ⟨moved, rfl, h⟩
  | cons c word ih =>
    rw [List.mem_cons, not_or] at hword
    obtain ⟨moved', rfl, htail⟩ := h.uncons (Ne.symm hword.1)
    obtain ⟨rest, rfl, hrest⟩ := ih htail hword.2
    exact ⟨rest, rfl, hrest⟩

/-- Sources start alike, also in front of something else. -/
theorem head?_append {source moved : List Char} (h : Renumbers offset source moved) (c : Char)
    (tail : List Char) : (moved ++ c :: tail).head? = some (source.head?.getD c) := by
  cases h <;> rfl

/-- Sources start with the same words, also in front of a closing parenthesis. -/
theorem prefix_append_iff {word source moved : List Char} (h : Renumbers offset source moved)
    (tail : List Char) (hbackslash : '\\' ∉ word) (hclose : ')' ∉ word) :
    word <+: moved ++ ')' :: tail ↔ word <+: source := by
  induction word generalizing source moved with
  | nil => simp
  | cons c word ih =>
    rw [List.mem_cons, not_or] at hbackslash hclose
    constructor
    · intro hprefix
      have hhead := h.head?_append ')' tail
      obtain ⟨rest, hrest⟩ := hprefix
      rw [← hrest, List.cons_append, List.head?_cons, Option.some.injEq] at hhead
      cases source with
      | nil => exact absurd hhead.symm hclose.1
      | cons d source =>
        cases hhead
        obtain ⟨moved', rfl, htail⟩ := h.uncons (Ne.symm hbackslash.1)
        rw [List.cons_append, List.cons_append, List.cons.injEq] at hrest
        exact (List.prefix_cons_inj _).mpr
          ((ih htail hbackslash.2 hclose.2).mp ⟨rest, hrest.2⟩)
    · rintro ⟨rest, rfl⟩
      obtain ⟨moved', rfl, htail⟩ := h.uncons (Ne.symm hbackslash.1)
      rw [List.cons_append, List.prefix_cons_inj]
      exact (ih htail hbackslash.2 hclose.2).mpr ⟨rest, rfl⟩

end Renumbers

end Pattern

end Highlighter
