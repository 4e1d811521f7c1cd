import Highlighter.Proofs.Regex.Quantifier
import Highlighter.Proofs.Regex.Shift

/-!
# Constructs side by side

Escapes, classes and flags read the same for two aligned readers, except that references get their
higher numbers.
-/

namespace Highlighter.Regex.Tree

open Pattern (Renumbers)

/-- From one place to another, two readers have stayed aligned, and the groups with the given
numbers have been opened on the way. -/
structure Mirror (offset : Nat) (base : List Nat) (tail : List Char) (numbers : List Nat)
    (place place' after after' : Place) : Prop where
  aligned : Aligned offset base tail after after'
  passes : Passes place.source place'.source after.source after'.source
  opened : place.progress.groups ≤ after.progress.groups
  numbers : ∀ number ∈ numbers, place.progress.groups < number ∧ number ≤ after.progress.groups

variable {offset : Nat} {base : List Nat} {tail : List Char} {progress progress' : Progress}
  {source source' rest rest' : List Char}

theorem Mirror.trans {numbers numbers' : List Nat} {place place' middle middle' after after' : Place}
    (h : Mirror offset base tail numbers place place' middle middle')
    (h' : Mirror offset base tail numbers' middle middle' after after') :
    Mirror offset base tail (numbers ++ numbers') place place' after after' where
  aligned := h'.aligned
  passes := h.passes.trans h'.passes
  opened := Nat.le_trans h.opened h'.opened
  numbers number hmem := by
    have hopened := h.opened
    have hopened' := h'.opened
    rcases List.mem_append.mp hmem with hmem | hmem
    · have hnumber := h.numbers number hmem
      omega
    · have hnumber := h'.numbers number hmem
      omega

/-- Readers that open no groups stay aligned where they pass the same part of the source. -/
theorem Mirror.of_passes
    (haligned : Aligned offset base tail ⟨progress, rest⟩ ⟨progress', rest'⟩)
    (hpasses : Passes source source' rest rest') :
    Mirror offset base tail [] ⟨progress, source⟩ ⟨progress', source'⟩ ⟨progress, rest⟩
      ⟨progress', rest'⟩ :=
  ⟨haligned, hpasses, Nat.le_refl _, fun _ hmem => by cases hmem⟩

/-- A local reader reads the same in either source. -/
theorem Aligned.readLocal {α : Type} {read : List Char → Except Error (α × List Char)} {a : α}
    (h : Aligned offset base tail ⟨progress, source⟩ ⟨progress', source'⟩) (hlocal : IsLocal read)
    (hread : read source = .ok (a, rest)) :
    ∃ rest', read source' = .ok (a, rest') ∧
      Aligned offset base tail ⟨progress, rest⟩ ⟨progress', rest'⟩ ∧
      Passes source source' rest rest' := by
  obtain ⟨moved, hsource, hmoved⟩ := h.source
  simp only at hsource hmoved
  subst hsource
  obtain ⟨word, rfl, hword, hread⟩ := hlocal source a rest hread
  obtain ⟨moved', rfl, hrest⟩ := hmoved.of_append hword.notMem_backslash
  refine ⟨_, ?_, h.withSource hrest, (Passes.of_word word rest moved').append _⟩
  rw [List.append_assoc, hread]

/-! ## Escapes -/

/-- The tree of an escape that refers to no group. -/
def ofEscape (ignoreCase : Bool) : Escape → Tree
  | .char c => .char ((CharSet.single c).foldIf ignoreCase)
  | .set members => .char members
  | .property negated members => .char ((members.foldIf ignoreCase).complIf negated)
  | .anchor position => .anchor position
  | .reference _ | .namedReference _ => .empty

theorem readEscape_eq {escape : Escape} (hread : Escape.read false source = .ok (escape, rest))
    (hescape : escape.isReference = false) :
    readEscape progress source = .ok (ofEscape progress.flags.ignoreCase escape, progress, rest) := by
  simp only [readEscape, hread]
  cases escape with
  | reference => cases hescape
  | namedReference => cases hescape
  | _ => rfl

theorem ofEscape_shift (ignoreCase : Bool) (escape : Escape) :
    (ofEscape ignoreCase escape).shift offset = ofEscape ignoreCase escape := by
  cases escape <;> rfl

theorem ofEscape_groupNumbers (ignoreCase : Bool) (escape : Escape) :
    (ofEscape ignoreCase escape).groupNumbers = [] := by
  cases escape <;> rfl

theorem reference_eq_ok {number : Nat} {tree : Tree} {after : Progress}
    (h : reference number progress source = .ok (tree, after, rest)) :
    number ≤ progress.groups ∧ tree = .backref number ∧ rest = source ∧
      after = { progress with referenced := number :: progress.referenced } := by
  unfold reference at h
  split at h
  · cases h
  · next hnumber =>
    cases h
    exact ⟨Nat.le_of_not_lt hnumber, rfl, rfl, rfl⟩

theorem readEscape_number {digits : List Char} (hne : digits ≠ [])
    (hdigits : ∀ c ∈ digits, c.isDigit = true)
    (hend : ∀ c, source.head? = some c → c.isDigit = false) {tree : Tree} {after : Progress}
    (h : readEscape progress (digits ++ source) = .ok (tree, after, rest)) :
    ∃ number, Escape.decimal? digits = some number ∧ number ≤ progress.groups ∧
      tree = .backref number ∧ rest = source ∧
      after = { progress with
        hasNumbered := true
        referenced := number :: progress.referenced } := by
  simp only [readEscape, Escape.read_number hne hdigits hend] at h
  cases hnumber : Escape.decimal? digits with
  | none =>
    rw [hnumber] at h
    cases h
  | some number =>
    rw [hnumber] at h
    obtain ⟨hle, htree, hrest, hafter⟩ := reference_eq_ok h
    exact ⟨number, rfl, hle, htree, hrest, hafter⟩

theorem readEscape_mirror {tree tree' : Tree} {after after' : Progress}
    (h : Aligned offset base tail ⟨progress, '\\' :: source⟩ ⟨progress', '\\' :: source'⟩)
    (hread : readEscape progress source = .ok (tree, after, rest))
    (hread' : readEscape progress' source' = .ok (tree', after', rest')) :
    tree' = tree.shift offset ∧ Mirror offset base tail tree.groupNumbers
      ⟨progress, source⟩ ⟨progress', source'⟩ ⟨after, rest⟩ ⟨after', rest'⟩ := by
  obtain ⟨moved, hsource, hmoved⟩ := h.source
  simp only at hsource hmoved
  cases hmoved with
  | stray => cases hread
  | plain hplain => exact absurd rfl hplain
  | @escape c inner moved hdigit hname hrest =>
    obtain rfl : source' = c :: (moved ++ ')' :: tail) := (List.cons.inj hsource).2
    have haligned := h.withSource hrest
    cases hescape : Escape.read false (c :: inner) with
    | error error =>
      simp only [readEscape, hescape] at hread
      cases hread
    | ok result =>
      obtain ⟨escape, last⟩ := result
      obtain ⟨last', hescape', hlast, hpasses⟩ :=
        haligned.readLocal (Escape.read_local false hdigit hname) hescape
      have hplain := Escape.read_isReference hdigit hname hescape
      rw [readEscape_eq hescape hplain] at hread
      rw [readEscape_eq hescape' hplain] at hread'
      cases hread
      cases hread'
      have hflags : progress'.flags = progress.flags := h.flags
      refine ⟨by rw [hflags, ofEscape_shift], ?_⟩
      rw [ofEscape_groupNumbers]
      have hstart : Passes (c :: inner) (c :: (moved ++ ')' :: tail)) inner
          (moved ++ ')' :: tail) := .of_word [c] _ _
      exact .of_passes hlast (hstart.trans hpasses)
  | @reference c digits inner moved hzero hdigits hend hrest =>
    have hsource' : source' =
        Pattern.movedDigits offset (c :: digits) ++ (moved ++ ')' :: tail) :=
      (List.cons.inj hsource).2.trans (List.append_assoc ..)
    subst hsource'
    have hend' : ∀ d, (moved ++ ')' :: tail).head? = some d → d.isDigit = false := by
      intro d hd
      rw [hrest.head?_append, Option.some.injEq] at hd
      subst hd
      cases inner with
      | nil => rfl
      | cons d inner => exact hend d rfl
    obtain ⟨number, hnumber, hle, rfl, rfl, rfl⟩ :=
      readEscape_number (List.cons_ne_nil c digits) hdigits hend hread
    obtain ⟨number', hnumber', -, rfl, rfl, rfl⟩ := readEscape_number
      Pattern.movedDigits_ne_nil (Pattern.isDigit_of_mem_movedDigits hdigits) hend' hread'
    have hmovedDigits : Pattern.movedDigits offset (c :: digits) =
        Nat.toDigits 10 (number + offset) := by
      have hunsigned : Text.unsigned? 64 (c :: digits) = some number := hnumber
      rw [Pattern.movedDigits, hunsigned]
    rw [hmovedDigits] at hnumber'
    obtain rfl := Text.unsigned?_toDigits hnumber'
    have hpositive := Text.unsigned?_pos (hdigits c List.mem_cons_self) hzero hnumber
    have hsome : 0 < (Pattern.movedDigits offset (c :: digits)).length :=
      List.length_pos_iff.mpr Pattern.movedDigits_ne_nil
    refine ⟨rfl, ⟨⟨⟨moved, rfl, hrest⟩, h.flags, h.groups, ?_, ?_⟩, ?_, Nat.le_refl _, ?_⟩⟩
    · have hreferenced : progress'.referenced = _ := h.referenced
      simp only [hreferenced, List.map_cons, List.cons_append]
    · intro other hother
      rcases List.mem_cons.mp hother with rfl | hother
      · exact ⟨hpositive, hle⟩
      · exact h.known other hother
    · refine .inr ⟨?_, ?_⟩ <;>
        simp only [List.length_cons, List.length_append] <;> omega
    · intro other hother
      cases hother

end Highlighter.Regex.Tree

/-! ## Classes -/

namespace Highlighter.Regex.Class

open Pattern (Renumbers)

variable {offset : Nat} {ignoreCase : Bool} {source moved rest : List Char} {items : List Item}

theorem scanItems_escape {fuel depth : Nat} {last : List Char} {escape : Escape} {item : Item}
    (hescape : Escape.read true source = .ok (escape, rest))
    (hitem : itemOfEscape ignoreCase escape = .ok item)
    (hitems : scanItems ignoreCase fuel depth rest = .ok (items, last)) :
    scanItems ignoreCase (fuel + 1) depth ('\\' :: source) = .ok (item :: items, last) := by
  simp only [scanItems, beq_self_eq_true, if_true, hescape]
  simp only [bind, Except.bind, hitem, hitems]
  rfl

/-- How many classes are open after a character. -/
def depthAfter (depth : Nat) (c : Char) : Nat :=
  if c == '[' then depth + 1 else if c == ']' then depth - 1 else depth

theorem scanItems_plain {fuel depth : Nat} {c : Char} (hplain : c ≠ '\\') :
    scanItems ignoreCase (fuel + 1) depth (c :: source) =
      if c == ']' && depth == 0 then .ok ([], source)
      else do
        let (items, rest) ← scanItems ignoreCase fuel (depthAfter depth c) source
        return (.plain c :: items, rest) := by
  simp only [scanItems, beq_eq_false_iff_ne.mpr hplain, Bool.false_eq_true, if_false]
  rfl

/-- The items of a class are the same, and the class ends at the same place. -/
theorem scanItems_renumbers {fuel depth : Nat} (fuel' : Nat) (h : Renumbers offset source moved)
    (tail : List Char) (hfuel : moved.length < fuel')
    (hscan : scanItems ignoreCase fuel depth source = .ok (items, rest)) :
    ∃ moved', scanItems ignoreCase fuel' depth (moved ++ ')' :: tail) =
        .ok (items, moved' ++ ')' :: tail) ∧
      Renumbers offset rest moved' ∧ rest.length < source.length ∧
      moved'.length < moved.length := by
  induction fuel generalizing source moved fuel' depth items with
  | zero => cases hscan
  | succ fuel ih =>
    obtain ⟨fuel', rfl⟩ := Nat.exists_eq_succ_of_ne_zero (Nat.ne_of_gt (Nat.zero_lt_of_lt hfuel))
    cases h with
    | nil => cases hscan
    | stray => cases hscan
    | @reference c digits inner moved hzero hdigits hend hrest =>
      simp only [scanItems, beq_self_eq_true, if_true,
        Escape.read_number (List.cons_ne_nil c digits) hdigits hend] at hscan
      cases hnumber : Escape.decimal? (c :: digits) with
      | none =>
        rw [hnumber] at hscan
        cases hscan
      | some number =>
        rw [hnumber] at hscan
        cases hscan
    | @escape c inner moved hdigit hname hrest =>
      simp only [scanItems, beq_self_eq_true, if_true] at hscan
      obtain ⟨⟨escape, last⟩, hescape, hscan⟩ := ok_of_bind_eq_ok hscan
      obtain ⟨item, hitem, hscan⟩ := ok_of_bind_eq_ok hscan
      obtain ⟨⟨others, last'⟩, hothers, hpure⟩ := ok_of_bind_eq_ok hscan
      cases hpure
      obtain ⟨word, rfl, hword, hread⟩ := Escape.read_local true hdigit hname inner _ _ hescape
      obtain ⟨moved, rfl, hlast⟩ := hrest.of_append hword.notMem_backslash
      simp only [List.length_cons, List.length_append] at hfuel ⊢
      obtain ⟨moved', hagain, hmoved', hlt, hlt'⟩ := ih fuel' hlast (by omega) hothers
      simp only at hlt
      refine ⟨moved', ?_, hmoved', by omega, by omega⟩
      have hescape' : Escape.read true (c :: (word ++ moved ++ ')' :: tail)) =
          .ok (escape, moved ++ ')' :: tail) := by
        rw [List.append_assoc]
        exact hread _
      exact scanItems_escape hescape' hitem hagain
    | @plain c inner moved hplain hunnamed hrest =>
      simp only [List.length_cons] at hfuel ⊢
      rw [scanItems_plain hplain] at hscan
      rw [List.cons_append, scanItems_plain hplain]
      split at hscan
      · next hclose =>
        rw [if_pos hclose]
        cases hscan
        exact ⟨moved, rfl, hrest, Nat.lt_succ_self _, Nat.lt_succ_self _⟩
      · next hclose =>
        rw [if_neg hclose]
        obtain ⟨⟨others, last⟩, hothers, hpure⟩ := ok_of_bind_eq_ok hscan
        cases hpure
        obtain ⟨moved', hagain, hmoved', hlt, hlt'⟩ := ih fuel' hrest (by omega) hothers
        refine ⟨moved', ?_, hmoved', Nat.lt_succ_of_lt hlt, Nat.lt_succ_of_lt hlt'⟩
        rw [hagain]
        rfl

/-- Reading a class after the sign of negation, if there is one. -/
def scanSigned (ignoreCase : Bool) (sign : List Item) (source : List Char) :
    Except Error (List Item × List Char) :=
  if source.head? = some ']' then do
    let (items, rest) ← scanItems ignoreCase (source.tail.length + 1) 0 source.tail
    return (sign ++ [.plain ']'] ++ items, rest)
  else do
    let (items, rest) ← scanItems ignoreCase (source.length + 1) 0 source
    return (sign ++ [] ++ items, rest)

theorem scan_eq (ignoreCase : Bool) (source : List Char) :
    scan ignoreCase source =
      if source.head? = some '^' then scanSigned ignoreCase [.plain '^'] source.tail
      else scanSigned ignoreCase [] source := by
  cases source with
  | nil => rfl
  | cons c source =>
    by_cases hsign : c = '^'
    · subst hsign
      cases source with
      | nil => rfl
      | cons d source =>
        by_cases hbracket : d = ']'
        · subst hbracket
          rfl
        · simp [scan, scanSigned, hbracket]
    · by_cases hbracket : c = ']'
      · subst hbracket
        rfl
      · simp [scan, scanSigned, hsign, hbracket]

end Highlighter.Regex.Class

namespace Highlighter.Regex.Tree

variable {offset : Nat} {base : List Nat} {tail : List Char} {progress progress' : Progress}
  {source source' rest rest' : List Char} {ignoreCase : Bool} {items : List Class.Item}

theorem scanItems_aligned
    (h : Aligned offset base tail ⟨progress, source⟩ ⟨progress', source'⟩)
    (hscan : Class.scanItems ignoreCase (source.length + 1) 0 source = .ok (items, rest)) :
    ∃ rest', Class.scanItems ignoreCase (source'.length + 1) 0 source' = .ok (items, rest') ∧
      Aligned offset base tail ⟨progress, rest⟩ ⟨progress', rest'⟩ ∧
      Passes source source' rest rest' := by
  obtain ⟨moved, hsource, hmoved⟩ := h.source
  simp only at hsource hmoved
  subst hsource
  have hfuel : moved.length < (moved ++ ')' :: tail).length + 1 := by
    rw [List.length_append]
    omega
  obtain ⟨moved', hagain, hmoved', hlt, hlt'⟩ :=
    Class.scanItems_renumbers _ hmoved tail hfuel hscan
  have hpasses : Passes source moved rest moved' := .inr ⟨hlt, hlt'⟩
  exact ⟨_, hagain, h.withSource hmoved', hpasses.append _⟩

theorem scanSigned_aligned {sign : List Class.Item}
    (h : Aligned offset base tail ⟨progress, source⟩ ⟨progress', source'⟩)
    (hscan : Class.scanSigned ignoreCase sign source = .ok (items, rest)) :
    ∃ rest', Class.scanSigned ignoreCase sign source' = .ok (items, rest') ∧
      Aligned offset base tail ⟨progress, rest⟩ ⟨progress', rest'⟩ ∧
      Passes source source' rest rest' := by
  have hbracket := h.head?_eq_some_iff (c := ']') (by decide)
  unfold Class.scanSigned at hscan ⊢
  simp only [hbracket]
  split at hscan
  · next hhead =>
    rw [if_pos hhead]
    obtain ⟨inner, rfl⟩ := List.head?_eq_some_iff.mp hhead
    obtain ⟨inner', rfl, hinner⟩ := h.uncons (by decide)
    obtain ⟨⟨others, last⟩, hothers, hpure⟩ := ok_of_bind_eq_ok hscan
    cases hpure
    obtain ⟨last', hagain, hlast, hpasses⟩ := scanItems_aligned hinner hothers
    have hfirst : Passes (']' :: inner) (']' :: inner') inner inner' := .of_word [']'] _ _
    refine ⟨last', ?_, hlast, hfirst.trans hpasses⟩
    simp only [List.tail_cons, hagain]
    rfl
  · next hhead =>
    rw [if_neg hhead]
    obtain ⟨⟨others, last⟩, hothers, hpure⟩ := ok_of_bind_eq_ok hscan
    cases hpure
    obtain ⟨last', hagain, hlast, hpasses⟩ := scanItems_aligned h hothers
    refine ⟨last', ?_, hlast, hpasses⟩
    rw [hagain]
    rfl

/-- Both readers read the same class. -/
theorem readClass_aligned {members : CharSet}
    (h : Aligned offset base tail ⟨progress, source⟩ ⟨progress', source'⟩)
    (hread : Class.read ignoreCase source = .ok (members, rest)) :
    ∃ rest', Class.read ignoreCase source' = .ok (members, rest') ∧
      Aligned offset base tail ⟨progress, rest⟩ ⟨progress', rest'⟩ ∧
      Passes source source' rest rest' := by
  obtain ⟨⟨items, last⟩, hscan, hread⟩ := ok_of_bind_eq_ok hread
  obtain ⟨set, hset, hpure⟩ := ok_of_bind_eq_ok hread
  cases hpure
  have hsign := h.head?_eq_some_iff (c := '^') (by decide)
  have hagain : ∃ last', Class.scan ignoreCase source' = .ok (items, last') ∧
      Aligned offset base tail ⟨progress, rest⟩ ⟨progress', last'⟩ ∧
      Passes source source' rest last' := by
    rw [Class.scan_eq] at hscan ⊢
    simp only [hsign]
    split at hscan
    · next hhead =>
      rw [if_pos hhead]
      obtain ⟨inner, rfl⟩ := List.head?_eq_some_iff.mp hhead
      obtain ⟨inner', rfl, hinner⟩ := h.uncons (by decide)
      obtain ⟨last', hagain, hlast, hpasses⟩ := scanSigned_aligned hinner hscan
      have hfirst : Passes ('^' :: inner) ('^' :: inner') inner inner' := .of_word ['^'] _ _
      exact ⟨last', hagain, hlast, hfirst.trans hpasses⟩
    · next hhead =>
      rw [if_neg hhead]
      exact scanSigned_aligned h hscan
  obtain ⟨last', hscan', hlast, hpasses⟩ := hagain
  refine ⟨last', ?_, hlast, hpasses⟩
  unfold Class.read
  simp only [bind, Except.bind, hscan', hset]
  rfl

/-! ## Flags -/

theorem set?_blank {flags flags' last : Flags} {value : Bool} {c : Char}
    (hblank : flags'.ignoreBlank = flags.ignoreBlank) (h : Flags.set? flags value c = some last) :
    c ∉ delimiters ∧
      ∃ last', Flags.set? flags' value c = some last' ∧ last'.ignoreBlank = last.ignoreBlank := by
  unfold Flags.set? at h
  split at h
  case h_6 =>
    split at h
    · next hvalue =>
      cases h
      exact ⟨by decide, _, if_pos hvalue, hblank⟩
    · cases h
  case h_7 => cases h
  case h_5 =>
    cases h
    exact ⟨by decide, _, rfl, rfl⟩
  all_goals
    cases h
    exact ⟨by decide, _, rfl, hblank⟩

/-- What is ignored after flag letters depends on what has been ignored before, not on the other
flags. -/
theorem readFlags_blank {flags flags' last : Flags} {seen : Nat} {off hasBody : Bool}
    (hblank : flags'.ignoreBlank = flags.ignoreBlank)
    (h : readFlags flags seen off source = .ok (last, hasBody, rest)) :
    (∃ word, source = word ++ (if hasBody then ':' else ')') :: rest ∧ IsInert word) ∧
      ∃ last', readFlags flags' seen off source = .ok (last', hasBody, rest) ∧
        last'.ignoreBlank = last.ignoreBlank := by
  fun_induction readFlags flags seen off source generalizing flags' with
  | case1 => cases h
  | case2 => cases h
  | case3 flags seen off inner hseen =>
    cases h
    exact ⟨⟨[], rfl, .nil⟩, _, by rw [readFlags, if_neg hseen], hblank⟩
  | case4 => cases h
  | case5 flags seen off inner hseen =>
    cases h
    exact ⟨⟨[], rfl, .nil⟩, _, by rw [readFlags, if_neg hseen], hblank⟩
  | case6 => cases h
  | case7 flags seen off inner hoff ih =>
    obtain ⟨⟨word, rfl, hword⟩, last', hread, hlast⟩ := ih hblank h
    exact ⟨⟨'-' :: word, rfl, .cons (by decide) hword⟩, last',
      by rw [readFlags, if_neg hoff, hread], hlast⟩
  | case8 flags seen off c inner hclose hcolon hhyphen set hset ih =>
    obtain ⟨hc, set', hset', hsetBlank⟩ := set?_blank hblank hset
    obtain ⟨⟨word, rfl, hword⟩, last', hread, hlast⟩ := ih hsetBlank h
    refine ⟨⟨c :: word, rfl, .cons hc hword⟩, last', ?_, hlast⟩
    rw [readFlags, hset']
    · exact hread
    · exact hclose
    · exact hcolon
    · exact hhyphen
  | case9 => cases h

theorem readFlags_aligned {flags last : Flags} {seen : Nat} {off hasBody : Bool}
    (h : Aligned offset base tail ⟨progress, source⟩ ⟨progress', source'⟩)
    (hread : readFlags flags seen off source = .ok (last, hasBody, rest)) :
    ∃ rest', readFlags flags seen off source' = .ok (last, hasBody, rest') ∧
      Aligned offset base tail ⟨progress, rest⟩ ⟨progress', rest'⟩ ∧
      Passes source source' rest rest' := by
  fun_induction readFlags flags seen off source generalizing source' with
  | case1 => cases hread
  | case2 => cases hread
  | case3 flags seen off inner hseen =>
    cases hread
    obtain ⟨inner', rfl, hinner⟩ := h.uncons (by decide)
    exact ⟨inner', by rw [readFlags, if_neg hseen], hinner, .of_word [')'] _ _⟩
  | case4 => cases hread
  | case5 flags seen off inner hseen =>
    cases hread
    obtain ⟨inner', rfl, hinner⟩ := h.uncons (by decide)
    exact ⟨inner', by rw [readFlags, if_neg hseen], hinner, .of_word [':'] _ _⟩
  | case6 => cases hread
  | case7 flags seen off inner hoff ih =>
    obtain ⟨inner', rfl, hinner⟩ := h.uncons (by decide)
    obtain ⟨rest', hread', hrest, hpasses⟩ := ih hinner hread
    have hfirst : Passes ('-' :: inner) ('-' :: inner') inner inner' := .of_word ['-'] _ _
    exact ⟨rest', by rw [readFlags, if_neg hoff, hread'], hrest, hfirst.trans hpasses⟩
  | case8 flags seen off c inner hclose hcolon hhyphen set hset ih =>
    have hplain : c ≠ '\\' := by
      rintro rfl
      cases hset
    obtain ⟨inner', rfl, hinner⟩ := h.uncons hplain
    obtain ⟨rest', hread', hrest, hpasses⟩ := ih hinner hread
    have hfirst : Passes (c :: inner) (c :: inner') inner inner' := .of_word [c] _ _
    refine ⟨rest', ?_, hrest, hfirst.trans hpasses⟩
    rw [readFlags, hset]
    · exact hread'
    · exact hclose
    · exact hcolon
    · exact hhyphen
  | case9 => cases hread

end Highlighter.Regex.Tree
