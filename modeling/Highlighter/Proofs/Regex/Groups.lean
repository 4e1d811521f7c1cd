import Highlighter.Proofs.Pattern.Pieces
import Highlighter.Proofs.Regex.Reader
import Mathlib

/-!
# Counting groups before reading

The pieces of a source show its capturing groups without reading it. A reader that has come to some
place has opened as many groups as the pieces in front of that place have shown, as long as the
pieces and the reader agree on every class, comment and group name: the groups that have been
opened and the groups that the rest of the source shows are always the same number together.
-/

namespace Highlighter

namespace Pattern

open Regex (delimiters IsInert)

/-- The number of capturing groups that the pieces of a source show. -/
def captures (source : List Char) : Nat :=
  (Piece.ofSource source).countP Piece.isCapture

variable {c : Char} {source rest text : List Char}

theorem captures_nil : captures [] = 0 := by
  rw [captures, Piece.ofSource]
  rfl

theorem captures_plain (hclass : c ≠ '[') (hparen : c ≠ '(') (hbackslash : c ≠ '\\') :
    captures (c :: rest) = captures rest := by
  rw [captures, Piece.ofSource_plain hclass hparen hbackslash, List.countP_cons_of_neg Bool.false_ne_true]
  rfl

theorem captures_inert (hc : c ∉ delimiters) : captures (c :: rest) = captures rest :=
  captures_plain (fun h => hc (h ▸ by decide)) (fun h => hc (h ▸ by decide))
    (fun h => hc (h ▸ by decide))

theorem captures_append {word : List Char} (hword : IsInert word) :
    captures (word ++ rest) = captures rest := by
  induction word with
  | nil => rfl
  | cons c word ih =>
    rw [List.cons_append, captures_inert (hword c List.mem_cons_self),
      ih fun d hd => hword d (List.mem_cons_of_mem _ hd)]

theorem isInert_digits (source : List Char) : IsInert (source.takeWhile Char.isDigit) :=
  .of_all (fun c hc => List.all_eq_true.mp List.all_takeWhile c hc) (by decide)

/-- An escape shows no group, however many characters belong to it. -/
theorem captures_escape : captures ('\\' :: c :: rest) = captures rest := by
  by_cases hdigit : (c.isDigit && c != '0') = true
  · have hfirst : Piece.first '\\' (c :: rest) =
        (.reference (c :: rest.takeWhile Char.isDigit), rest.dropWhile Char.isDigit) := by
      rw [Piece.first, if_pos hdigit]
    rw [captures, Piece.ofSource_of_first hfirst, List.countP_cons_of_neg Bool.false_ne_true]
    have hdigits : captures (rest.takeWhile Char.isDigit ++ rest.dropWhile Char.isDigit) =
        captures (rest.dropWhile Char.isDigit) := captures_append (isInert_digits rest)
    rw [List.takeWhile_append_dropWhile] at hdigits
    exact hdigits.symm
  · by_cases hline : (c == '\n') = true
    · have hfirst : Piece.first '\\' (c :: rest) = (.plain '\\', c :: rest) := by
        rw [Piece.first, if_neg hdigit, if_pos hline]
      rw [captures, Piece.ofSource_of_first hfirst, List.countP_cons_of_neg Bool.false_ne_true]
      obtain rfl : c = '\n' := by simpa using hline
      exact captures_plain (by decide) (by decide) (by decide)
    · have hfirst : Piece.first '\\' (c :: rest) = (.escape c, rest) := by
        rw [Piece.first, if_neg hdigit, if_neg hline]
      rw [captures, Piece.ofSource_of_first hfirst, List.countP_cons_of_neg Bool.false_ne_true]
      rfl

/-- Whether a text is read completely piece by piece and shows no group. -/
def isSilent (text : List Char) : Bool :=
  decide (Piece.IsWhole text) && captures text == 0

theorem captures_silent {barrier : Char} (hbarrier : Piece.IsBarrier barrier)
    (h : isSilent text = true) : captures (text ++ barrier :: rest) = captures rest := by
  simp only [isSilent, Bool.and_eq_true, decide_eq_true_eq, beq_iff_eq] at h
  have hcount : (Piece.ofSource text).countP Piece.isCapture = 0 := h.2
  rw [captures, Piece.ofSource_append hbarrier h.1, List.countP_append, hcount,
    List.countP_cons_of_neg Bool.false_ne_true, Nat.zero_add]
  rfl

/-- The text in front of a character and the rest of a source. -/
def textBefore (source rest : List Char) : List Char :=
  source.take (source.length - rest.length - 1)

theorem textBefore_append (text : List Char) (c : Char) (rest : List Char) :
    textBefore (text ++ c :: rest) rest = text := by
  have hlength : (text ++ c :: rest).length - rest.length - 1 = text.length := by
    simp only [List.length_append, List.length_cons]
    omega
  rw [textBefore, hlength, List.take_left]

end Pattern

namespace Regex

namespace Class

/-- What follows the bracket that closes a class, when `depth` classes inside it are open. -/
def rest? (depth : Nat) : List Char → Option (List Char)
  | [] => none
  | '\\' :: _ :: rest => rest? depth rest
  | c :: rest => if c = ']' ∧ depth = 0 then some rest else rest? (depthAfter depth c) rest

/-- A source without a character at its front. -/
def dropFirst (c : Char) (source : List Char) : List Char :=
  if source.head? = some c then source.tail else source

/-- What follows a class whose opening bracket has been read. -/
def after? (source : List Char) : Option (List Char) :=
  rest? 0 (dropFirst ']' (dropFirst '^' source))

variable {ignoreCase : Bool} {depth fuel : Nat} {source rest : List Char} {items : List Item}

theorem rest?_plain {c : Char} (hplain : c ≠ '\\') :
    rest? depth (c :: source) =
      if c = ']' ∧ depth = 0 then some source else rest? (depthAfter depth c) source := by
  rw [rest?]
  exact fun _ _ h => absurd h hplain

theorem rest?_append {word : List Char} (hword : IsInert word) :
    rest? depth (word ++ source) = rest? depth source := by
  induction word with
  | nil => rfl
  | cons c word ih =>
    have hc := hword c List.mem_cons_self
    have hopen : c ≠ '[' := fun h => hc (h ▸ by decide)
    have hclose : c ≠ ']' := fun h => hc (h ▸ by decide)
    have hdepth : depthAfter depth c = depth := by
      rw [depthAfter, if_neg (by simpa using hopen), if_neg (by simpa using hclose)]
    have hplain : c ≠ '\\' := fun h => hc (h ▸ by decide)
    rw [List.cons_append, rest?_plain hplain, if_neg fun h => hclose h.1,
      hdepth, ih fun d hd => hword d (List.mem_cons_of_mem _ hd)]

theorem rest?_of_scanItems (h : scanItems ignoreCase fuel depth source = .ok (items, rest)) :
    rest? depth source = some rest := by
  induction fuel generalizing source depth items with
  | zero => cases h
  | succ fuel ih =>
    cases source with
    | nil => cases h
    | cons c source =>
      by_cases hplain : c = '\\'
      · subst hplain
        simp only [scanItems, beq_self_eq_true, if_true] at h
        obtain ⟨⟨escape, after⟩, hescape, h⟩ := ok_of_bind_eq_ok h
        obtain ⟨item, -, h⟩ := ok_of_bind_eq_ok h
        obtain ⟨⟨others, last⟩, hothers, hpure⟩ := ok_of_bind_eq_ok h
        cases hpure
        cases source with
        | nil => cases hescape
        | cons d source =>
          obtain ⟨word, rfl, hword⟩ := Escape.read_word hescape
          rw [rest?, rest?_append hword]
          exact ih hothers
      · rw [scanItems_plain hplain] at h
        rw [rest?_plain hplain]
        split at h
        · next hclose =>
          cases h
          rw [if_pos (by simpa using hclose)]
        · next hclose =>
          obtain ⟨⟨others, last⟩, hothers, hpure⟩ := ok_of_bind_eq_ok h
          cases hpure
          rw [if_neg (by simpa using hclose)]
          exact ih hothers

theorem after?_of_read {members : CharSet} (h : read ignoreCase source = .ok (members, rest)) :
    after? source = some rest := by
  obtain ⟨⟨items, after⟩, hscan, h⟩ := ok_of_bind_eq_ok h
  obtain ⟨members, -, hpure⟩ := ok_of_bind_eq_ok h
  cases hpure
  have hsigned : ∀ {sign : List Item} {source : List Char},
      scanSigned ignoreCase sign source = .ok (items, rest) →
        rest? 0 (dropFirst ']' source) = some rest := by
    intro sign source h
    unfold scanSigned at h
    unfold dropFirst
    split at h
    · next hhead =>
      obtain ⟨_, hitems, hpure⟩ := ok_of_bind_eq_ok h
      cases hpure
      rw [if_pos hhead]
      exact rest?_of_scanItems hitems
    · next hhead =>
      obtain ⟨_, hitems, hpure⟩ := ok_of_bind_eq_ok h
      cases hpure
      rw [if_neg hhead]
      exact rest?_of_scanItems hitems
  rw [scan_eq] at hscan
  unfold after?
  rw [dropFirst.eq_1 '^']
  split at hscan
  · next hhead =>
    rw [if_pos hhead]
    exact hsigned hscan
  · next hhead =>
    rw [if_neg hhead]
    exact hsigned hscan

/-- A class ends with its bracket. -/
theorem rest?_source (h : rest? depth source = some rest) : ∃ text, source = text ++ ']' :: rest := by
  fun_induction rest? depth source with
  | case1 => cases h
  | case2 depth c source ih =>
    obtain ⟨text, rfl⟩ := ih h
    exact ⟨'\\' :: c :: text, rfl⟩
  | case3 depth c source _ hclose =>
    cases h
    exact ⟨[], by rw [hclose.1]; rfl⟩
  | case4 depth c source _ _ ih =>
    obtain ⟨text, rfl⟩ := ih h
    exact ⟨c :: text, rfl⟩

theorem after?_source (h : after? source = some rest) : ∃ text, source = text ++ ']' :: rest := by
  have hdrop : ∀ (c : Char) (source : List Char), dropFirst c source <:+ source := by
    intro c source
    unfold dropFirst
    split
    · exact List.tail_suffix source
    · exact List.suffix_rfl
  obtain ⟨text, htext⟩ := rest?_source h
  obtain ⟨front, hfront⟩ := (hdrop ']' (dropFirst '^' source)).trans (hdrop '^' source)
  exact ⟨front ++ text, by rw [List.append_assoc, ← htext, hfront]⟩

end Class

namespace Tree

open Pattern (captures isSilent textBefore)

/-! ## Sources whose groups show -/

/-- A class whose pieces show no group: either it is one piece, or its pieces end in front of its
last bracket. -/
def isClearClass (source rest : List Char) : Bool :=
  (Pattern.Piece.classBody? source).any (·.2 == rest) || isSilent ('[' :: textBefore source rest)

/-- A parenthesis that opens a capturing group exactly if its pieces say so: a name starts with a
letter or an underscore, and nothing that is ignored stands between the parenthesis and a question
mark. -/
def opensClearly (ignoreBlank : Bool) (source : List Char) : Bool :=
  match (opening source).1 with
  | .named => (opening source).2.head?.any Pattern.Piece.startsName
  | .plain =>
    match skipIgnored ignoreBlank source.length source with
    | .ok rest => rest.head? != some '?'
    | .error _ => true
  | _ => true

/-- Whether blanks are ignored after what opens a construct, and whether they are again after its
end, where its end changes that. -/
def blanksInside (ignoreBlank : Bool) (source : List Char) : Bool × Option Bool :=
  match opening source with
  | (.flags, rest) =>
    match readFlags { ignoreBlank := ignoreBlank } 0 false rest with
    | .ok (flags, hasBody, _) => (flags.ignoreBlank, if hasBody then some ignoreBlank else none)
    | .error _ => (ignoreBlank, none)
  | _ => (ignoreBlank, none)

/-- A source whose groups show in its pieces: its classes and comments show none, and its other
parentheses open clearly. `outer` says for each open parenthesis whether its end changes what is
ignored. -/
def showsGroups (outer : List (Option Bool)) (ignoreBlank : Bool) : List Char → Bool
  | [] => true
  | c :: rest =>
    if c = '\\' then showsGroups outer ignoreBlank rest.tail
    else if c = '[' then
      match _h : Class.after? rest with
      | some after => isClearClass rest after && showsGroups outer ignoreBlank after
      | none => true
    else if c = '(' then
      if ['?', '#'].isPrefixOf rest then
        match _h : skipComment (rest.drop 2) with
        | .ok after => isSilent ('(' :: textBefore rest after) && showsGroups outer ignoreBlank after
        | .error _ => true
      else
        opensClearly ignoreBlank rest &&
          showsGroups ((blanksInside ignoreBlank rest).2 :: outer) (blanksInside ignoreBlank rest).1
            rest
    else if c = ')' then showsGroups outer.tail (outer.head?.join.getD ignoreBlank) rest
    else if c = '#' ∧ ignoreBlank = true then
      isSilent ('#' :: rest.takeWhile (· != '\n')) && showsGroups outer ignoreBlank (afterLine rest)
    else showsGroups outer ignoreBlank rest
termination_by source => source.length
decreasing_by
  · simp only [List.length_tail, List.length_cons]
    omega
  · obtain ⟨text, rfl⟩ := Class.after?_source _h
    simp only [List.length_cons, List.length_append]
    omega
  · have := (skipComment_suffix _h).length_le
    simp only [List.length_drop, List.length_cons] at *
    omega
  · simp
  · simp
  · have := (afterLine_suffix rest).length_le
    simp only [List.length_cons]
    omega
  · simp

/-! ## Steps of a reader -/

/-- A reader is at a place of a source whose groups show, and has opened all but those that the rest
shows. -/
structure Counted (outer : List (Option Bool)) (total : Nat) (progress : Progress)
    (source : List Char) : Prop where
  shows : showsGroups outer progress.flags.ignoreBlank source = true
  count : progress.groups + captures source = total

variable {outer : List (Option Bool)} {total : Nat} {progress : Progress} {c : Char}
  {source rest word : List Char} {ignoreBlank : Bool}

namespace Counted

/-- A character that opens, closes and escapes nothing. -/
theorem plain (h : Counted outer total progress (c :: rest)) (hc : c ∉ ['\\', '[', '(', ')'])
    (hline : c = '#' → progress.flags.ignoreBlank = false) :
    Counted outer total progress rest := by
  have hne : ∀ {d : Char}, d ∈ ['\\', '[', '(', ')'] → c ≠ d := fun hd heq => hc (heq ▸ hd)
  have hcomment : ¬ (c = '#' ∧ progress.flags.ignoreBlank = true) := by
    rintro ⟨hhash, hblank⟩
    rw [hline hhash] at hblank
    cases hblank
  obtain ⟨hshows, hcount⟩ := h
  rw [showsGroups, if_neg (hne (by decide)), if_neg (hne (by decide)), if_neg (hne (by decide)),
    if_neg (hne (by decide)), if_neg hcomment] at hshows
  rw [Pattern.captures_plain (hne (by decide)) (hne (by decide)) (hne (by decide))] at hcount
  exact ⟨hshows, hcount⟩

theorem inert (h : Counted outer total progress (c :: rest)) (hc : c ∉ delimiters) :
    Counted outer total progress rest := by
  refine h.plain (fun hmem => hc ?_) (fun heq => absurd (heq ▸ by decide) hc)
  simp only [List.mem_cons, List.not_mem_nil, or_false] at hmem
  obtain rfl | rfl | rfl | rfl := hmem <;> decide

theorem skipWord (h : Counted outer total progress (word ++ rest)) (hword : IsInert word) :
    Counted outer total progress rest := by
  induction word with
  | nil => exact h
  | cons c word ih =>
    exact ih (h.inert (hword c List.mem_cons_self)) fun d hd => hword d (List.mem_cons_of_mem _ hd)

theorem tail (h : Counted outer total progress source) (hhead : source.head? = some c)
    (hc : c ∉ delimiters) : Counted outer total progress source.tail := by
  obtain ⟨rest, rfl⟩ := List.head?_eq_some_iff.mp hhead
  exact h.inert hc

theorem digits (h : Counted outer total progress source) :
    Counted outer total progress (source.dropWhile Char.isDigit) := by
  have hsplit := List.takeWhile_append_dropWhile (p := Char.isDigit) (l := source)
  rw [← hsplit] at h
  exact h.skipWord (Pattern.isInert_digits source)

theorem escape (h : Counted outer total progress ('\\' :: c :: rest)) :
    Counted outer total progress rest := by
  obtain ⟨hshows, hcount⟩ := h
  rw [showsGroups, if_pos rfl, List.tail_cons] at hshows
  exact ⟨hshows, Pattern.captures_escape (c := c) ▸ hcount⟩

theorem close (h : Counted (none :: outer) total progress (')' :: rest)) :
    Counted outer total progress rest := by
  obtain ⟨hshows, hcount⟩ := h
  rw [showsGroups, if_neg (by decide), if_neg (by decide), if_neg (by decide), if_pos rfl] at hshows
  rw [Pattern.captures_plain (by decide) (by decide) (by decide)] at hcount
  exact ⟨hshows, hcount⟩

/-- The end of a construct with flags of its own. -/
theorem closeFlags {flags : Flags}
    (h : Counted (some flags.ignoreBlank :: outer) total progress (')' :: rest)) :
    Counted outer total { progress with flags := flags } rest := by
  obtain ⟨hshows, hcount⟩ := h
  rw [showsGroups, if_neg (by decide), if_neg (by decide), if_neg (by decide), if_pos rfl] at hshows
  rw [Pattern.captures_plain (by decide) (by decide) (by decide)] at hcount
  exact ⟨hshows, hcount⟩

/-- A class shows no group. -/
theorem classEnd {ignoreCase : Bool} {members : CharSet}
    (h : Counted outer total progress ('[' :: source))
    (hread : Class.read ignoreCase source = .ok (members, rest)) :
    Counted outer total progress rest := by
  have hafter := Class.after?_of_read hread
  obtain ⟨text, htext⟩ := Class.after?_source hafter
  obtain ⟨hshows, hcount⟩ := h
  rw [showsGroups, if_neg (by decide), if_pos rfl] at hshows
  split at hshows
  · next after hafter' =>
    obtain rfl : rest = after := Option.some.inj (hafter.symm.trans hafter')
    simp only [Bool.and_eq_true, isClearClass, Bool.or_eq_true, Option.any_eq_true,
      beq_iff_eq] at hshows
    refine ⟨hshows.2, ?_⟩
    obtain ⟨⟨body, after⟩, hbody, rfl⟩ | hsilent := hshows.1
    · have hfirst : Pattern.Piece.first '[' source = (.charClass body, after) := by
        rw [Pattern.Piece.first, hbody]
      rw [captures, Pattern.Piece.ofSource_of_first hfirst,
        List.countP_cons_of_neg Bool.false_ne_true] at hcount
      exact hcount
    · rw [htext, Pattern.textBefore_append] at hsilent
      rw [htext, ← List.cons_append, Pattern.captures_silent .bracket hsilent] at hcount
      exact hcount
  · next hnone => cases hafter.symm.trans hnone

/-- A comment in parentheses shows no group. -/
theorem comment (h : Counted outer total progress ('(' :: '?' :: '#' :: source))
    (hskip : skipComment source = .ok rest) : Counted outer total progress rest := by
  obtain ⟨text, rfl⟩ := skipComment_source hskip
  obtain ⟨hshows, hcount⟩ := h
  have hmark : ∀ source, ['?', '#'].isPrefixOf ('?' :: '#' :: source) = true := fun _ => rfl
  rw [showsGroups, if_neg (by decide), if_neg (by decide), if_pos rfl, if_pos (hmark _)] at hshows
  split at hshows
  · next after hafter =>
    obtain rfl : rest = after := Except.ok.inj (hskip.symm.trans hafter)
    rw [Bool.and_eq_true, ← List.cons_append, ← List.cons_append,
      Pattern.textBefore_append] at hshows
    refine ⟨hshows.2, ?_⟩
    rw [← List.cons_append, ← List.cons_append, ← List.cons_append,
      Pattern.captures_silent .close hshows.1] at hcount
    exact hcount
  · next hnone => cases hskip.symm.trans hnone

/-- A comment to the end of a line shows no group. -/
theorem line (h : Counted outer total progress ('#' :: source))
    (hblank : progress.flags.ignoreBlank = true) :
    Counted outer total progress (afterLine source) := by
  obtain ⟨hshows, hcount⟩ := h
  rw [showsGroups, if_neg (by decide), if_neg (by decide), if_neg (by decide), if_neg (by decide),
    if_pos ⟨rfl, hblank⟩, Bool.and_eq_true] at hshows
  refine ⟨hshows.2, ?_⟩
  rw [← hcount]
  congr 1
  have hsplit := List.takeWhile_append_dropWhile (p := (· != '\n')) (l := source)
  have hhead := List.head?_dropWhile_not (· != '\n') source
  unfold afterLine
  cases hline : source.dropWhile (· != '\n') with
  | nil =>
    rw [hline, List.append_nil] at hsplit
    rw [hsplit] at hshows
    simp only [isSilent, Bool.and_eq_true, beq_iff_eq] at hshows
    rw [hshows.1.2]
    exact Pattern.captures_nil
  | cons d after =>
    rw [hline] at hhead hsplit
    obtain rfl : d = '\n' := by simpa using hhead
    rw [← hsplit, ← List.cons_append, Pattern.captures_silent .lineEnd hshows.1]
    rfl

theorem skipIgnored {fuel : Nat} (h : Counted outer total progress source)
    (hskip : Tree.skipIgnored progress.flags.ignoreBlank fuel source = .ok rest) :
    Counted outer total progress rest := by
  generalize hblank : progress.flags.ignoreBlank = ignoreBlank at hskip
  fun_induction Tree.skipIgnored ignoreBlank fuel source with
  | case1 =>
    cases hskip
    exact h
  | case2 fuel inside ih =>
    obtain ⟨after, hafter, hskip⟩ := ok_of_bind_eq_ok hskip
    exact ih after (h.comment hafter) hskip
  | case3 fuel inside hflag ih => exact ih (h.line (hblank.trans hflag)) hskip
  | case4 =>
    cases hskip
    exact h
  | case5 fuel c inside _ _ hspace ih =>
    refine ih (h.inert fun hmem => ?_) hskip
    have hdelimiters : ∀ d ∈ delimiters, (d == ' ' || d == '\r' || d == '\n' || d == '\t') = false := by
      simp [delimiters]
    rw [hdelimiters c hmem, Bool.and_false] at hspace
    cases hspace
  | case6 =>
    cases hskip
    exact h
  | case7 =>
    cases hskip
    exact h

theorem skip (h : Counted outer total progress source)
    (hskip : Tree.skip progress source = .ok rest) : Counted outer total progress rest :=
  h.skipIgnored hskip

end Counted

/-! ## Quantifiers -/

namespace Counted

variable {bounds : Bounds}

theorem closeBounds? {least : Nat} {most : Option Nat} (h : Counted outer total progress source)
    (hread : Tree.closeBounds? progress least most source = some (bounds, rest)) :
    Counted outer total progress rest := by
  obtain ⟨skipped, hskip, hread⟩ := Option.bind_eq_some_iff.mp hread
  split at hread
  · next hhead =>
    cases hread
    exact (h.skip (eq_ok_of_toOption hskip)).tail hhead (by decide)
  · cases hread

theorem mostBounds? {least : Nat} (h : Counted outer total progress source)
    (hread : Tree.mostBounds? progress least source = some (bounds, rest)) :
    Counted outer total progress rest := by
  obtain ⟨skipped, hskip, hread⟩ := Option.bind_eq_some_iff.mp hread
  have hskipped := h.skip (eq_ok_of_toOption hskip)
  split at hread
  · exact hskipped.closeBounds? hread
  · split at hread
    · next hhead =>
      obtain ⟨after, hafter, hread⟩ := Option.bind_eq_some_iff.mp hread
      have hinside := (hskipped.tail hhead (by decide)).skip (eq_ok_of_toOption hafter)
      split at hread
      · exact hinside.digits.closeBounds? hread
      · exact hinside.closeBounds? hread
    · cases hread

theorem readBounds? (h : Counted outer total progress source)
    (hread : Tree.readBounds? progress source = some (bounds, rest)) :
    Counted outer total progress rest := by
  rw [readBounds?_eq] at hread
  obtain ⟨skipped, hskip, hread⟩ := Option.bind_eq_some_iff.mp hread
  have hskipped := h.skip (eq_ok_of_toOption hskip)
  split at hread
  · exact hskipped.mostBounds? hread
  · obtain ⟨least, -, hread⟩ := Option.bind_eq_some_iff.mp hread
    exact hskipped.digits.mostBounds? hread

theorem readQuantifier? (h : Counted outer total progress source)
    (hread : Tree.readQuantifier? progress source = some (bounds, rest)) :
    Counted outer total progress rest := by
  unfold Tree.readQuantifier? at hread
  split at hread
  · cases hread
    exact h.inert (by decide)
  · cases hread
    exact h.inert (by decide)
  · cases hread
    exact h.inert (by decide)
  · exact (h.inert (by decide)).readBounds? hread
  · cases hread

theorem repeatAtom {atom tree : Tree} {after : Progress} (h : Counted outer total progress source)
    (hread : Tree.repeatAtom progress atom bounds source = (tree, after, rest)) :
    Counted outer total after rest := by
  have hmarked : Counted outer total progress
      (if source.head? = some '?' then source.tail else source) := by
    split
    · next hhead => exact h.tail hhead (by decide)
    · exact h
  unfold Tree.repeatAtom at hread
  dsimp only at hread
  generalize (if source.head? = some '?' then source.tail else source) = marked at hread hmarked
  split at hread
  · next hplus =>
    cases hread
    exact hmarked.tail hplus (by decide)
  · cases hread
    exact hmarked

theorem readRepeated {atom tree : Tree} {after : Progress}
    (h : Counted outer total progress source)
    (hread : Tree.readRepeated progress atom source = .ok (tree, after, rest)) :
    Counted outer total after rest := by
  unfold Tree.readRepeated at hread
  split at hread
  · cases hread
    exact h
  · next bounds inside hquantifier =>
    split at hread
    · cases hskip : Tree.skip progress inside with
      | error error =>
        rw [hskip] at hread
        cases hread
      | ok skipped =>
        rw [hskip] at hread
        exact ((h.readQuantifier? hquantifier).skip hskip).repeatAtom (Except.ok.inj hread)
    · cases hread

end Counted

/-! ## Openings -/

/-- The number of groups that an opening opens. -/
def Opening.groups : Opening → Nat
  | .named | .plain => 1
  | _ => 0

theorem opening_named (h : opening source = (.named, rest)) :
    source = '?' :: 'P' :: '<' :: rest ∨ source = '?' :: '<' :: rest := by
  unfold opening at h
  split at h
  · next hmark =>
    obtain ⟨marked, rfl⟩ := List.head?_eq_some_iff.mp hmark
    dsimp only [List.tail_cons] at h
    split at h
    · cases h
    split at h
    · cases h
    split at h
    · next hangle =>
      obtain ⟨inside, rfl⟩ := List.head?_eq_some_iff.mp hangle
      repeat' split at h
      all_goals cases h
      exact .inr rfl
    · split at h
      · next hpython =>
        obtain ⟨inside, rfl⟩ := List.head?_eq_some_iff.mp hpython.1
        obtain ⟨name, rfl⟩ := List.head?_eq_some_iff.mp hpython.2
        cases h
        exact .inl rfl
      · repeat' split at h
        all_goals cases h
  · cases h

/-- What starts with a name behind a question mark opens as a name. -/
theorem opening_of_startsName {name : Char} (hname : Pattern.Piece.startsName name = true) :
    opening ('?' :: 'P' :: '<' :: name :: rest) = (.named, name :: rest) ∧
      opening ('?' :: '<' :: name :: rest) = (.named, name :: rest) := by
  have hequals : name ≠ '=' := by
    rintro rfl
    cases hname
  have hbang : name ≠ '!' := by
    rintro rfl
    cases hname
  exact ⟨rfl, by simp [opening, hequals, hbang]⟩

/-- A construct that opens no group shows none. -/
theorem captures_construct {kind : Opening} (h : opening source = (kind, rest))
    (hgroups : kind.groups = 0) : captures ('(' :: source) = captures source := by
  by_cases hmark : source.head? = some '?'
  · obtain ⟨marked, rfl⟩ := List.head?_eq_some_iff.mp hmark
    have hname : ∀ {name : Char} {rest : List Char},
        marked = 'P' :: '<' :: name :: rest ∨ marked = '<' :: name :: rest →
          Pattern.Piece.startsName name = false := by
      intro name rest hmarked
      by_contra hname
      rw [Bool.not_eq_false] at hname
      obtain rfl | rfl := hmarked
      · cases h.symm.trans (opening_of_startsName hname).1
        cases hgroups
      · cases h.symm.trans (opening_of_startsName hname).2
        cases hgroups
    have hfirst : Pattern.Piece.first '(' ('?' :: marked) = (.construct, marked) :=
      Pattern.Piece.first_construct (fun name rest heq => hname (.inl heq))
        (fun name rest heq => hname (.inr heq))
    rw [Pattern.captures_inert (c := '?') (by decide), captures,
      Pattern.Piece.ofSource_of_first hfirst, List.countP_cons_of_neg Bool.false_ne_true]
    rfl
  · rw [opening_of_ne hmark] at h
    cases h
    cases hgroups

/-- Where a parenthesis opens clearly, it shows the group that it opens. -/
theorem captures_open (hclear : opensClearly ignoreBlank source = true) :
    captures ('(' :: source) = (opening source).1.groups + captures source := by
  have hcapture : ∀ (naming : List Char) {rest : List Char}, IsInert naming →
      source = naming ++ rest → Pattern.Piece.first '(' source = (.capture naming, rest) →
        captures ('(' :: source) = 1 + captures source := by
    intro naming rest hnaming hsource hfirst
    rw [captures, Pattern.Piece.ofSource_of_first hfirst, List.countP_cons_of_pos rfl, hsource,
      Pattern.captures_append hnaming, Nat.add_comm]
    rfl
  have hstart : ∀ {name : Char}, Pattern.Piece.startsName name = true → name ∉ delimiters := by
    intro name hname hmem
    have hnone : ∀ d ∈ delimiters, Pattern.Piece.startsName d = false := by
      simp [delimiters, Pattern.Piece.startsName, Char.isAlpha]
    rw [hnone name hmem] at hname
    cases hname
  generalize hopening : opening source = opened
  obtain ⟨kind, after⟩ := opened
  simp only [opensClearly, hopening] at hclear
  cases kind with
  | plain =>
    have hmark : ∀ rest, source ≠ '?' :: rest := fun rest heq =>
      opening_plain hopening (by rw [heq]; rfl)
    refine hcapture [] .nil rfl ?_
    rw [Pattern.Piece.first]
    · exact fun _ _ => hmark _
    · exact fun _ _ => hmark _
    · exact hmark
  | named =>
    obtain ⟨name, after, rfl, hname⟩ : ∃ name rest, after = name :: rest ∧
        Pattern.Piece.startsName name = true := by
      cases after with
      | nil => cases hclear
      | cons name after => exact ⟨name, after, rfl, hclear⟩
    obtain rfl | rfl := opening_named hopening
    · refine hcapture ['?', 'P', '<', name] ?_ rfl ?_
      · exact .cons (by decide) (.cons (by decide) (.cons (by decide) (.cons (hstart hname) .nil)))
      · simp [Pattern.Piece.first, hname]
    · refine hcapture ['?', '<', name] ?_ rfl ?_
      · exact .cons (by decide) (.cons (by decide) (.cons (hstart hname) .nil))
      · simp [Pattern.Piece.first, hname]
  | look => exact (captures_construct hopening rfl).trans (Nat.zero_add _).symm
  | reference => exact (captures_construct hopening rfl).trans (Nat.zero_add _).symm
  | atomic => exact (captures_construct hopening rfl).trans (Nat.zero_add _).symm
  | flags => exact (captures_construct hopening rfl).trans (Nat.zero_add _).symm

/-! ## Readers -/

variable {tree : Tree} {after : Progress} {inner : Option (Reader Tree)} {read : Reader Tree}

/-- A reader keeps the count. -/
def Keeps (read : Reader Tree) : Prop :=
  ∀ ⦃outer : List (Option Bool)⦄ ⦃total : Nat⦄ ⦃progress : Progress⦄ ⦃source : List Char⦄
    ⦃tree : Tree⦄ ⦃after : Progress⦄ ⦃rest : List Char⦄,
    Counted outer total progress source → read progress source = .ok (tree, after, rest) →
      Counted outer total after rest

theorem readBody_counted (hread : Keeps read) (h : Counted (none :: outer) total progress source)
    (hbody : readBody read progress source = .ok (tree, after, rest)) :
    Counted outer total after rest := by
  obtain ⟨⟨body, between, middle⟩, hinner, hbody⟩ := ok_of_bind_eq_ok hbody
  obtain ⟨⟨⟨⟩, last, final⟩, hclose, hpure⟩ := ok_of_bind_eq_ok hbody
  cases hpure
  obtain ⟨rfl, hskip⟩ := readClose_eq_ok hclose
  exact ((hread h hinner).skip hskip).close

theorem readGroup_counted (hread : Keeps read) {name : Option (List Char)}
    (h : Counted (none :: outer) total { progress with groups := progress.groups + 1 } source)
    (hgroup : readGroup read name progress source = .ok (tree, after, rest)) :
    Counted outer total after rest := by
  obtain ⟨⟨body, between, middle⟩, hbody, hpure⟩ := ok_of_bind_eq_ok hgroup
  cases hpure
  refine readBody_counted hread ?_ hbody
  exact ⟨h.shows, h.count⟩

theorem reference_counted {number : Nat} (h : Counted outer total progress source)
    (hreference : reference number progress source = .ok (tree, after, rest)) :
    Counted outer total after rest := by
  obtain ⟨-, -, rfl, rfl⟩ := reference_eq_ok hreference
  exact ⟨h.shows, h.count⟩

theorem readEscape_counted (h : Counted outer total progress ('\\' :: source))
    (hescape : readEscape progress source = .ok (tree, after, rest)) :
    Counted outer total after rest := by
  obtain ⟨⟨escape, middle⟩, hread, hescape⟩ := ok_of_bind_eq_ok hescape
  cases source with
  | nil => cases hread
  | cons c source =>
    obtain ⟨word, rfl, hword⟩ := Escape.read_word hread
    have hmiddle := h.escape.skipWord hword
    cases escape with
    | reference number =>
      have hnumbered : Counted outer total { progress with hasNumbered := true } middle :=
        ⟨hmiddle.shows, hmiddle.count⟩
      exact reference_counted hnumbered hescape
    | namedReference name =>
      obtain ⟨number, -, hescape⟩ := ok_of_bind_eq_ok hescape
      exact reference_counted hmiddle hescape
    | _ =>
      cases hescape
      exact hmiddle

/-- What stands after a parenthesis that opens clearly, and the groups with that of it. -/
theorem Counted.paren (h : Counted outer total progress ('(' :: source))
    (hcomment : ¬ ['?', '#'] <+: source) {kind : Opening} (hopening : opening source = (kind, rest)) :
    opensClearly progress.flags.ignoreBlank source = true ∧
      showsGroups ((blanksInside progress.flags.ignoreBlank source).2 :: outer)
        (blanksInside progress.flags.ignoreBlank source).1 source = true ∧
      progress.groups + kind.groups + captures source = total := by
  obtain ⟨hshows, hcount⟩ := h
  rw [showsGroups, if_neg (by decide), if_neg (by decide), if_pos rfl,
    if_neg (by rwa [List.isPrefixOf_iff_prefix]), Bool.and_eq_true] at hshows
  rw [captures_open hshows.1, hopening, ← Nat.add_assoc] at hcount
  exact ⟨hshows.1, hshows.2, hcount⟩

theorem readOpened_counted (hread : Keeps read) (h : Counted outer total progress ('(' :: source))
    (hcomment : ¬ ['?', '#'] <+: source) (hmark : source.head? = some '?')
    (hopened : readOpened read progress (opening source) = .ok (tree, after, rest)) :
    Counted outer total after rest := by
  obtain ⟨word, hword, hinert⟩ := opening_word source
  generalize hopening : opening source = opened at hword hopened
  obtain ⟨kind, inside⟩ := opened
  obtain ⟨-, hshows, hcount⟩ := h.paren hcomment hopening
  dsimp only at hword
  have hplain : (∀ rest, opening source ≠ (.flags, rest)) →
      Counted (none :: outer) total { progress with groups := progress.groups + kind.groups }
        inside := by
    intro hflags
    have hblanks : blanksInside progress.flags.ignoreBlank source =
        (progress.flags.ignoreBlank, none) := by
      unfold blanksInside
      split
      · next heq => exact absurd heq (hflags _)
      · rfl
    rw [hblanks] at hshows
    have hstart : Counted (none :: outer) total
        { progress with groups := progress.groups + kind.groups } (word ++ inside) := by
      rw [← hword]
      exact ⟨hshows, hcount⟩
    exact hstart.skipWord hinert
  rw [hopening] at hplain
  cases kind with
  | plain => exact absurd hmark (opening_plain hopening)
  | look side negated =>
    obtain ⟨⟨body, between, middle⟩, hbody, hpure⟩ := ok_of_bind_eq_ok hopened
    cases hpure
    exact readBody_counted hread (hplain fun _ heq => by cases heq) hbody
  | atomic =>
    obtain ⟨⟨body, between, middle⟩, hbody, hpure⟩ := ok_of_bind_eq_ok hopened
    cases hpure
    exact readBody_counted hread (hplain fun _ heq => by cases heq) hbody
  | named =>
    obtain ⟨⟨name, middle⟩, hname, hgroup⟩ := ok_of_bind_eq_ok hopened
    obtain ⟨hinside, hnameInert⟩ := Escape.readName_source hname
    rw [hinside, List.nil_append] at hplain
    have hmiddle := ((hplain fun _ heq => by cases heq).skipWord hnameInert).inert
      (by decide)
    dsimp only at hgroup
    split at hgroup
    · cases hgroup
    · exact readGroup_counted hread hmiddle hgroup
  | reference =>
    obtain ⟨⟨name, middle⟩, hname, hreference⟩ := ok_of_bind_eq_ok hopened
    obtain ⟨hinside, hnameInert⟩ := Escape.readName_source hname
    rw [hinside, List.nil_append] at hplain
    have hmiddle := ((hplain fun _ heq => by cases heq).skipWord hnameInert).close
    dsimp only at hreference
    split at hreference
    · cases hreference
    · obtain ⟨number, -, hreference⟩ := ok_of_bind_eq_ok hreference
      exact reference_counted hmiddle hreference
  | flags =>
    obtain ⟨⟨flags, hasBody, middle⟩, hflags, hbody⟩ := ok_of_bind_eq_ok hopened
    have hblank : ({ ignoreBlank := progress.flags.ignoreBlank } : Flags).ignoreBlank =
        progress.flags.ignoreBlank := rfl
    obtain ⟨⟨letters, hletters, hlettersInert⟩, last, hagain, hlast⟩ :=
      readFlags_blank hblank hflags
    have hblanks : blanksInside progress.flags.ignoreBlank source =
        (flags.ignoreBlank, if hasBody then some progress.flags.ignoreBlank else none) := by
      simp only [blanksInside, hopening, hagain, hlast]
    rw [hblanks] at hshows
    have hstart : Counted ((if hasBody then some progress.flags.ignoreBlank else none) :: outer)
        total { progress with flags := flags } (word ++ inside) := by
      rw [← hword]
      exact ⟨hshows, hcount⟩
    have hend := hstart.skipWord hinert
    rw [hletters] at hend
    have hinside := hend.skipWord hlettersInert
    cases hasBody with
    | false =>
      cases hbody
      exact hinside.close
    | true =>
      obtain ⟨⟨body, between, last⟩, hread', hend'⟩ := ok_of_bind_eq_ok hbody
      have hbetween := hread (hinside.inert (by decide)) hread'
      dsimp only at hend'
      split at hend'
      · cases hend'
        exact hbetween.closeFlags
      · cases hend'
      · cases hend'

/-- Once skipped, a source starts with no comment. -/
theorem not_comment_of_skip (hskip : skip progress ('(' :: source) = .ok ('(' :: source)) :
    ¬ ['?', '#'] <+: source := by
  rintro ⟨body, rfl⟩
  obtain ⟨after, hafter, hskip⟩ := ok_of_bind_eq_ok (x := skipComment body) hskip
  have hcomment := (skipComment_suffix hafter).length_le
  have hlength := (skipIgnored_suffix hskip).length_le
  simp only [List.length_cons, List.length_append] at hlength
  omega

theorem not_line_of_skip (hskip : skip progress ('#' :: source) = .ok ('#' :: source)) :
    progress.flags.ignoreBlank = false := by
  by_contra hblank
  rw [Bool.not_eq_false] at hblank
  have hline : skipIgnored progress.flags.ignoreBlank source.length (afterLine source) =
      .ok ('#' :: source) := by
    rw [skip, List.length_cons, skipIgnored_line, if_pos hblank] at hskip
    exact hskip
  have hlength := ((skipIgnored_suffix hline).trans (afterLine_suffix source)).length_le
  simp only [List.length_cons] at hlength
  omega

theorem readParenthesis_counted (hread : Keeps read)
    (h : Counted outer total progress ('(' :: source)) (hcomment : ¬ ['?', '#'] <+: source)
    (hparen : readParenthesis read progress source = .ok (tree, after, rest)) :
    Counted outer total after rest := by
  rw [readParenthesis_eq] at hparen
  obtain ⟨skipped, hskip, hopened⟩ := ok_of_bind_eq_ok hparen
  by_cases hmark : source.head? = some '?'
  · obtain ⟨marked, rfl⟩ := List.head?_eq_some_iff.mp hmark
    have hsame : skip progress ('?' :: marked) = .ok ('?' :: marked) :=
      skipIgnored_id (by decide) (fun h => absurd h (by decide)) (by decide) _ _
    obtain rfl : '?' :: marked = skipped := Except.ok.inj (hsame.symm.trans hskip)
    exact readOpened_counted hread h hcomment hmark hopened
  · have hopening := opening_of_ne hmark
    obtain ⟨hclear, hshows, hcount⟩ := h.paren hcomment hopening
    simp only [opensClearly, hopening] at hclear
    simp only [blanksInside, hopening] at hshows
    have hskip' : skipIgnored progress.flags.ignoreBlank source.length source = .ok skipped := hskip
    rw [hskip'] at hclear
    have hmark' : skipped.head? ≠ some '?' := by simpa using hclear
    rw [opening_of_ne hmark'] at hopened
    have hinside : Counted (none :: outer) total
        { progress with groups := progress.groups + 1 } source := ⟨hshows, hcount⟩
    have hgroup : readGroup read none progress skipped = .ok (tree, after, rest) := hopened
    exact readGroup_counted hread (hinside.skip hskip) hgroup

theorem readFirst_counted (hinner : ∀ read ∈ inner, Keeps read)
    (h : Counted outer total progress source) (hskip : skip progress source = .ok source)
    (hfirst : readFirst inner progress source = .ok (tree, after, rest)) :
    Counted outer total after rest := by
  cases source with
  | nil =>
    cases hfirst
    exact h
  | cons c source =>
    rw [readFirst] at hfirst
    split at hfirst
    · next hparen =>
      subst hparen
      cases inner with
      | none => cases hfirst
      | some read =>
        exact readParenthesis_counted (hinner read rfl) h (not_comment_of_skip hskip) hfirst
    split at hfirst
    · next hbackslash =>
      subst hbackslash
      exact readEscape_counted h hfirst
    split at hfirst
    · next hclass =>
      subst hclass
      obtain ⟨⟨members, last⟩, hread, hpure⟩ := ok_of_bind_eq_ok hfirst
      cases hpure
      exact h.classEnd hread
    · next hparen hbackslash hclass =>
      split at hfirst
      · next tree hsingle =>
        cases hfirst
        refine h.plain ?_ ?_
        · have hclose : c ≠ ')' := by
            rintro rfl
            cases hsingle
          simp [hparen, hbackslash, hclass, hclose]
        · rintro rfl
          exact not_line_of_skip hskip
      · cases hfirst
        exact h

theorem readPiece_counted (hinner : ∀ read ∈ inner, Keeps read) : Keeps (readPiece inner) := by
  intro outer total progress source tree after rest h hread
  rw [readPiece_eq] at hread
  obtain ⟨⟨atom, between, middle⟩, hatom, hread⟩ := ok_of_bind_eq_ok hread
  obtain ⟨skipped, hskip, hrepeated⟩ := ok_of_bind_eq_ok hread
  rw [readAtom_eq] at hatom
  obtain ⟨start, hstart, hfirst⟩ := ok_of_bind_eq_ok hatom
  have hmiddle := readFirst_counted hinner (h.skip hstart) (skip_skip hstart) hfirst
  exact (hmiddle.skip hskip).readRepeated hrepeated

theorem readItems_counted (hinner : ∀ read ∈ inner, Keeps read) {fuel : Nat} {items : List Tree}
    (h : Counted outer total progress source)
    (hread : readItems inner fuel progress source = .ok (items, after, rest)) :
    Counted outer total after rest := by
  induction fuel generalizing progress source items with
  | zero =>
    cases hread
    exact h
  | succ fuel ih =>
    by_cases hsource : source = []
    · subst hsource
      rw [readItems_nil] at hread
      cases hread
      exact h
    · obtain ⟨item, middle, inside, hpiece, hrest⟩ := readItems_eq_ok hsource hread
      obtain ⟨-, -, rfl, rfl⟩ | ⟨-, others, hothers, -⟩ := hrest
      · exact h
      · exact ih (readPiece_counted hinner h hpiece) hothers

theorem readBranch_counted (hinner : ∀ read ∈ inner, Keeps read) : Keeps (readBranch inner) := by
  intro outer total progress source tree after rest h hread
  obtain ⟨⟨items, last, final⟩, hitems, hpure⟩ := ok_of_bind_eq_ok hread
  cases hpure
  exact readItems_counted hinner h hitems

theorem readMore_counted (hinner : ∀ read ∈ inner, Keeps read) {fuel : Nat} {choices : List Tree}
    (h : Counted outer total progress source)
    (hread : readMore inner fuel progress source = .ok (choices, after, rest)) :
    Counted outer total after rest := by
  induction fuel generalizing progress source choices with
  | zero =>
    cases hread
    exact h
  | succ fuel ih =>
    obtain ⟨skipped, hskip, hrest⟩ := readMore_eq_ok hread
    have hskipped := h.skip hskip
    obtain ⟨-, -, rfl, rfl⟩ | ⟨inside, choice, middle, between, others, rfl, hbranch, hmore, -⟩ :=
      hrest
    · exact hskipped
    · exact ih (readBranch_counted hinner (hskipped.inert (by decide)) hbranch) hmore

/-- Reading an expression keeps the count, however deep its parentheses are nested. -/
theorem readExpression_counted (levels : Nat) : Keeps (readExpression levels) := by
  induction levels with
  | zero =>
    intro outer total progress source tree after rest h hread
    obtain ⟨first, middle, between, choices, hbranch, hmore, -⟩ := readChoice_eq_ok hread
    have hinner : ∀ read ∈ (none : Option (Reader Tree)), Keeps read := fun _ hmem => by cases hmem
    exact readMore_counted hinner (readBranch_counted hinner h hbranch) hmore
  | succ levels ih =>
    intro outer total progress source tree after rest h hread
    obtain ⟨first, middle, between, choices, hbranch, hmore, -⟩ := readChoice_eq_ok hread
    have hinner : ∀ read ∈ some (readExpression levels), Keeps read := by
      rintro read hmem
      cases hmem
      exact ih
    exact readMore_counted hinner (readBranch_counted hinner h hbranch) hmore

end Tree

/-- A regular expression has as many groups as its source shows. -/
theorem groups_eq_countGroups {ignoreCase : Bool} {source : String} {regex : Regex}
    (hcompile : Regex.compile ignoreCase source = .ok regex)
    (hshows : Tree.showsGroups [] false source.toList = true) :
    Pattern.countGroups source = regex.groups := by
  obtain ⟨read, hread, hcompile⟩ := ok_of_bind_eq_ok hcompile
  obtain ⟨program, -, hpure⟩ := ok_of_bind_eq_ok hcompile
  cases hpure
  obtain ⟨⟨tree, progress, rest⟩, hexpression, hend⟩ := ok_of_bind_eq_ok hread
  dsimp only at hend
  split at hend
  · next hempty =>
    cases hend
    have hstart : Tree.Counted [] (Pattern.countGroups source)
        { flags := { ignoreCase := ignoreCase, multiLine := true } } source.toList :=
      ⟨hshows, Nat.zero_add _⟩
    have hcount := (Tree.readExpression_counted _ hstart hexpression).count
    rw [List.isEmpty_iff.mp hempty, Pattern.captures_nil] at hcount
    exact hcount.symm
  · cases hend

/-- A source with classes of every form, groups with and without names, lookarounds, flags and
comments. -/
def mixedGroups : String :=
  "[]a](?<n>[^(\\]])(?=[[c]d])(?x: (e) # f\n)(?#[g])\\((?P<m>(?!h)\\p\x7bL\x7d)"

theorem groups_eq_countGroups_mixed : ∃ regex, Regex.compile false mixedGroups = .ok regex ∧
    Tree.showsGroups [] false mixedGroups.toList = true ∧
    Pattern.countGroups mixedGroups = regex.groups ∧ regex.groups = 3 := by
  obtain ⟨hok, hshows, hthree⟩ : (Regex.compile false mixedGroups).isOk = true ∧
      Tree.showsGroups [] false mixedGroups.toList = true ∧
      ((Regex.compile false mixedGroups).toOption.getD default).groups = 3 := by decide +kernel
  have hcompile := eq_ok_of_isOk hok default
  exact ⟨_, hcompile, hshows, groups_eq_countGroups hcompile hshows, hthree⟩

/-- A class that starts with a closing bracket is taken for one that ends there, so the parenthesis
in it counts as a group. -/
theorem countGroups_ne_groups : ∃ regex, Regex.compile false "[](]" = .ok regex ∧
    regex.groups = 0 ∧ Pattern.countGroups "[](]" = 1 := by
  obtain ⟨hok, hnone, hone⟩ : (Regex.compile false "[](]").isOk = true ∧
      ((Regex.compile false "[](]").toOption.getD default).groups = 0 ∧
      Pattern.countGroups "[](]" = 1 := by decide +kernel
  exact ⟨_, eq_ok_of_isOk hok default, hnone, hone⟩

end Regex

end Highlighter
