import Highlighter.Proofs.Regex.Bounds
import Highlighter.Proofs.Regex.Run

/-!
# Deleting tags

A tag is what the expression `<[^>]*>` matches: an angle that opens, up to the first one that
closes. Deleting all tags of a text reads it once from left to right: an angle that opens takes
everything up to the next one that closes with it, and stays where none comes.
-/

namespace Highlighter

namespace Regex

/-- What of a text stands at `start` or later and outside of stretches that follow one another. -/
def outside (text : List Char) : (start : Nat) → List Span → List Char
  | start, [] => text.drop start
  | start, span :: spans => (text.take span.start).drop start ++ outside text span.stop spans

/-- A text without the matches of an expression. -/
def deleteAll (regex : Regex) (text : String) : String :=
  String.ofList (outside text.toList 0 (regex.findAll text.toList.toArray))

namespace Tag

/-- What a tag ends with. -/
def close : Program := .char (.range '>' '>')

/-- A character inside of a tag. -/
def inside : Program := .char (.compl (.union (.union .empty .empty) (.range '>' '>')))

/-- The expression for tags. -/
def regex : Regex where
  program := .settled 0 0 (.seq (.char (.range '<' '<')) (.seq
    (.times (.plus inside true) 0 1 true) close))
  groups := 0

theorem compile_regex : Regex.compile false "<[^>]*>" = .ok regex := by
  cbv

/-! ## One match -/

section Match

variable {text : List Char} {position : Nat} {groups : List (Nat × Option Span)} {c : Char}
  {rest : List Char}

theorem drop_succ (h : text.drop position = c :: rest) : text.drop (position + 1) = rest := by
  rw [← List.drop_drop, h]
  rfl

theorem run_char (set : CharSet) (next : Continuation) (h : text.drop position = c :: rest) :
    (Program.char set).run text.toArray next ⟨position, groups⟩ =
      if set.has c then next ⟨position + 1, groups⟩ else none := by
  have hget : text.toArray[position]? = some c := by
    rw [List.getElem?_toArray, ← List.head?_drop, h]
    rfl
  simp only [Program.run, hget]

theorem run_char_end (set : CharSet) (next : Continuation) (h : text.drop position = []) :
    (Program.char set).run text.toArray next ⟨position, groups⟩ = none := by
  have hget : text.toArray[position]? = none := by
    rw [List.getElem?_toArray, ← List.head?_drop, h]
    rfl
  simp only [Program.run, hget]

theorem run_close (next : Continuation) (h : text.drop position = '>' :: rest) :
    close.run text.toArray next ⟨position, groups⟩ = next ⟨position + 1, groups⟩ :=
  run_char _ next h

theorem run_close_of_ne (next : Continuation) (h : text.drop position = c :: rest) (hc : c ≠ '>') :
    close.run text.toArray next ⟨position, groups⟩ = none := by
  have hhas := CharSet.has_single '>' c
  rw [beq_eq_false_iff_ne.mpr hc.symm] at hhas
  rw [close, run_char _ next h]
  exact if_neg (ne_true_of_eq_false hhas)

theorem run_inside (next : Continuation) (h : text.drop position = c :: rest) (hc : c ≠ '>') :
    inside.run text.toArray next ⟨position, groups⟩ = next ⟨position + 1, groups⟩ := by
  have hhas := CharSet.has_single '>' c
  rw [beq_eq_false_iff_ne.mpr hc.symm] at hhas
  rw [inside, run_char _ next h]
  refine if_pos ?_
  rw [CharSet.has, CharSet.has, CharSet.has, CharSet.has]
  exact congrArg (fun isClose => !(false || false || isClose)) hhas

theorem run_inside_congr {next next' : Continuation}
    (h : next ⟨position + 1, groups⟩ = next' ⟨position + 1, groups⟩) :
    inside.run text.toArray next ⟨position, groups⟩ =
      inside.run text.toArray next' ⟨position, groups⟩ := by
  rw [inside, Program.run, Program.run]
  split
  · rw [h]
  · rfl

theorem run_inside_close (next : Continuation) (h : text.drop position = '>' :: rest) :
    inside.run text.toArray next ⟨position, groups⟩ = none :=
  run_char _ next h

/-- One more copy is taken where a match comes of it. -/
theorem moving_of_some {step : Step} {next : Continuation} {state result : State} {count : Nat}
    (h : step (fun after => if state.position < after.position then
      moving step true next count after else none) state = some result) :
    moving step true next (count + 1) state = some result := by
  simp only [moving, prefer, h, if_true]

theorem moving_of_none {step : Step} {next : Continuation} {state : State} {count : Nat}
    (h : step (fun after => if state.position < after.position then
      moving step true next count after else none) state = none) :
    moving step true next (count + 1) state = next state := by
  simp only [moving, prefer, h, if_true]

/-- Inside of a tag, a match goes on to the next angle that closes. -/
theorem moving_of_closed {body : List Char} (hbody : '>' ∉ body)
    (h : text.drop position = body ++ '>' :: rest) {count : Nat} (hcount : body.length ≤ count) :
    moving (inside.run text.toArray) true (close.run text.toArray some) count ⟨position, groups⟩ =
      some ⟨position + body.length + 1, groups⟩ := by
  induction body generalizing position count with
  | nil =>
    cases count with
    | zero => exact run_close some h
    | succ count => exact (moving_of_none (run_inside_close _ h)).trans (run_close some h)
  | cons c body ih =>
    obtain ⟨hc, hbody⟩ := not_or.mp (mt List.mem_cons.mpr hbody)
    rw [List.length_cons] at hcount
    obtain ⟨count, rfl⟩ := Nat.exists_eq_add_of_le' (Nat.le_trans (Nat.le_add_left 1 _) hcount)
    have hrest := ih hbody (drop_succ h) (Nat.le_of_succ_le_succ hcount)
    rw [List.length_cons, ← Nat.add_assoc, Nat.add_right_comm position]
    refine moving_of_some ?_
    rw [run_inside _ h (Ne.symm hc), if_pos (Nat.lt_succ_self position), hrest]

theorem run_close_of_open (next : Continuation) (h : '>' ∉ text.drop position) :
    close.run text.toArray next ⟨position, groups⟩ = none := by
  cases hdrop : text.drop position with
  | nil => exact run_char_end _ next hdrop
  | cons c rest =>
    rw [hdrop] at h
    exact run_close_of_ne next hdrop fun hc => h (hc ▸ List.mem_cons_self)

/-- Where no angle closes, there is no match. -/
theorem moving_of_open (h : '>' ∉ text.drop position) (count : Nat) :
    moving (inside.run text.toArray) true (close.run text.toArray some) count ⟨position, groups⟩ =
      none := by
  induction count generalizing position with
  | zero => exact run_close_of_open some h
  | succ count ih =>
    refine (moving_of_none ?_).trans (run_close_of_open some h)
    cases hdrop : text.drop position with
    | nil => exact run_char_end _ _ hdrop
    | cons c rest =>
      rw [hdrop] at h
      obtain ⟨hc, hrest⟩ := not_or.mp (mt List.mem_cons.mpr h)
      rw [run_inside _ hdrop (Ne.symm hc), if_pos (Nat.lt_succ_self position)]
      refine ih ?_
      rwa [drop_succ hdrop]

theorem matchAt?_eq (text : List Char) (position : Nat) :
    regex.matchAt? text.toArray position =
      ((Program.char (.range '<' '<')).run text.toArray
        ((Program.times (.plus inside true) 0 1 true).run text.toArray
          (close.run text.toArray some)) ⟨position, []⟩).map fun state => ⟨⟨position, state.position⟩, state.groups⟩ := by
  rw [matchAt?, regex, Program.run_settled]
  rfl

/-- A match starts with an angle that opens. -/
theorem matchAt?_other (h : text.drop position = c :: rest) (hc : c ≠ '<') :
    regex.matchAt? text.toArray position = none := by
  have hhas : (CharSet.range '<' '<').has c = false :=
    (CharSet.has_single '<' c).trans (beq_eq_false_iff_ne.mpr hc.symm)
  rw [matchAt?_eq, run_char _ _ h, if_neg (ne_true_of_eq_false hhas)]
  rfl

/-- Behind the angle that opens, a match goes on as inside of a tag. -/
theorem matchAt?_angle (h : text.drop position = '<' :: rest) :
    regex.matchAt? text.toArray position =
      (moving (inside.run text.toArray) true (close.run text.toArray some) (text.length + 2)
        ⟨position + 1, []⟩).map fun state => ⟨⟨position, state.position⟩, state.groups⟩ := by
  have hhas : (CharSet.range '<' '<').has '<' = true := by decide +kernel
  rw [matchAt?_eq, run_char _ _ h, if_pos hhas]
  refine congrArg (Option.map _) ?_
  have hcopy : inside.run text.toArray
      (fun after => if position + 1 < after.position then
        moving (inside.run text.toArray) true (close.run text.toArray some) (text.length + 1) after
        else close.run text.toArray some after) ⟨position + 1, []⟩ =
      inside.run text.toArray
      (fun after => if position + 1 < after.position then
        moving (inside.run text.toArray) true (close.run text.toArray some) (text.length + 1) after
        else none) ⟨position + 1, []⟩ := by
    refine run_inside_congr ?_
    rw [if_pos (Nat.lt_succ_self _), if_pos (Nat.lt_succ_self _)]
  exact congrArg (fun copy => prefer true (fun _ => copy)
    fun _ => close.run text.toArray some ⟨position + 1, []⟩) hcopy

/-- A tag that is closed is matched up to the first angle that closes. -/
theorem matchAt?_closed {body : List Char} (hbody : '>' ∉ body)
    (h : text.drop position = '<' :: (body ++ '>' :: rest)) :
    regex.matchAt? text.toArray position =
      some ⟨⟨position, position + body.length + 2⟩, []⟩ := by
  have hlength : body.length ≤ text.length + 2 := by
    have := congrArg List.length h
    simp only [List.length_drop, List.length_cons, List.length_append] at this
    omega
  rw [matchAt?_angle h, moving_of_closed hbody (drop_succ h) hlength, Option.map_some,
    Nat.add_right_comm position 1]

/-- An angle that is not closed is not matched. -/
theorem matchAt?_open (h : text.drop position = '<' :: rest) (hrest : '>' ∉ rest) :
    regex.matchAt? text.toArray position = none := by
  rw [← drop_succ h] at hrest
  rw [matchAt?_angle h, moving_of_open hrest, Option.map_none]

theorem matchAt?_end (h : text.drop position = []) :
    regex.matchAt? text.toArray position = none := by
  rw [matchAt?_eq, run_char_end _ _ h, Option.map_none]

end Match

end Tag

/-! ## All matches -/

section Search

variable {regex : Regex} {text : Array Char} {start : Nat}

/-- A search goes on behind a position without a match. -/
theorem find?_succ (hle : start ≤ text.size) (h : regex.matchAt? text start = none) :
    regex.find? text start = regex.find? text (start + 1) := by
  rw [find?, Nat.succ_sub hle, findWithin, h, find?, Nat.add_sub_add_right]

theorem find?_of_matchAt? {found : Match} (hle : start ≤ text.size)
    (h : regex.matchAt? text start = some found) : regex.find? text start = some found := by
  rw [find?, Nat.succ_sub hle, findWithin, h]

theorem findAllFrom_succ (hle : start ≤ text.size) (h : regex.matchAt? text start = none)
    (count : Nat) (last : Option Nat) :
    regex.findAllFrom text count start last = regex.findAllFrom text count (start + 1) last := by
  cases count with
  | zero => rfl
  | succ count => rw [findAllFrom, findAllFrom, find?_succ hle h]

end Search

/-- A character before all stretches stands outside of them. -/
theorem outside_succ {text : List Char} {start : Nat} {c : Char} {rest : List Char}
    {spans : List Span}
    (hc : text.drop start = c :: rest) (h : Consecutive text.length (start + 1) spans) :
    outside text start spans = c :: outside text (start + 1) spans := by
  have hrest := Tag.drop_succ hc
  cases spans with
  | nil => rw [outside, outside, hc, hrest]
  | cons span spans =>
    have hlt : start + 1 ≤ span.start := h.1
    obtain ⟨skipped, hskipped⟩ := Nat.exists_eq_add_of_le hlt
    have hsub : span.start - start = skipped + 1 := by omega
    have hsub' : span.start - (start + 1) = skipped := by omega
    rw [outside, outside, List.drop_take, List.drop_take, hc, hrest, hsub, hsub',
      List.take_succ_cons, List.cons_append]

namespace Tag

/-- A text without its tags, read from inside or from outside of a tag. -/
def strip : (isInside : Bool) → List Char → List Char
  | _, [] => []
  | true, c :: rest => strip (c != '>') rest
  | false, c :: rest => if c = '<' ∧ '>' ∈ rest then strip true rest else c :: strip false rest

/-- Text that opens no tag stays. -/
theorem strip_append {word : List Char} (h : '<' ∉ word) (rest : List Char) :
    strip false (word ++ rest) = word ++ strip false rest := by
  induction word with
  | nil => rfl
  | cons c word ih =>
    obtain ⟨hc, hword⟩ := not_or.mp (mt List.mem_cons.mpr h)
    rw [List.cons_append, strip, if_neg fun htag => hc htag.1.symm, ih hword, List.cons_append]

/-- A tag is taken away up to the first angle that closes. -/
theorem strip_tag {body : List Char} (h : '>' ∉ body) (rest : List Char) :
    strip false ('<' :: (body ++ '>' :: rest)) = strip false rest := by
  have hinside : strip true (body ++ '>' :: rest) = strip false rest := by
    induction body with
    | nil => rfl
    | cons c body ih =>
      obtain ⟨hc, hbody⟩ := not_or.mp (mt List.mem_cons.mpr h)
      rw [List.cons_append, strip, bne_iff_ne.mpr (Ne.symm hc), ih hbody]
  have hclosed : '>' ∈ body ++ '>' :: rest := List.mem_append_right body List.mem_cons_self
  rw [strip, if_pos ⟨rfl, hclosed⟩, hinside]

/-- Where no tag starts that is closed, there is no match. -/
theorem matchAt?_eq_none {text : List Char} {start : Nat} {c : Char} {rest : List Char}
    (h : text.drop start = c :: rest) (htag : ¬ (c = '<' ∧ '>' ∈ rest)) :
    regex.matchAt? text.toArray start = none := by
  by_cases hc : c = '<'
  · subst hc
    exact matchAt?_open h fun hmem => htag ⟨rfl, hmem⟩
  · exact matchAt?_other h hc

theorem findAllFrom_end (text : List Char) (count : Nat) (last : Option Nat) :
    regex.findAllFrom text.toArray count text.length last = [] := by
  have hle : text.length ≤ text.toArray.size := Nat.le_refl _
  rw [findAllFrom_succ hle (matchAt?_end List.drop_length)]
  cases count with
  | zero => rfl
  | succ count =>
    have hfind : regex.find? text.toArray (text.length + 1) = none := by
      rw [find?, List.size_toArray, Nat.sub_self, findWithin]
    rw [findAllFrom, hfind]

/-- A tag that is closed is the next match, and a search goes on behind it. -/
theorem findAllFrom_closed {text body rest : List Char} {start : Nat} (hle : start ≤ text.length)
    (hbody : '>' ∉ body) (h : text.drop start = '<' :: (body ++ '>' :: rest)) (count : Nat)
    (last : Option Nat) :
    regex.findAllFrom text.toArray (count + 1) start last =
      ⟨start, start + body.length + 2⟩ :: regex.findAllFrom text.toArray count
        (start + body.length + 2) (some (start + body.length + 2)) := by
  have hempty : ¬ (start == start + body.length + 2) = true := by
    rw [beq_iff_eq]
    omega
  rw [findAllFrom, find?_of_matchAt? hle (matchAt?_closed hbody h)]
  exact if_neg hempty

/-- What stands outside of all tags is the text without its tags. -/
theorem outside_findAllFrom {text : List Char} {start count : Nat} (last : Option Nat)
    (hle : start ≤ text.length) (hcount : text.length < start + count) :
    outside text start (regex.findAllFrom text.toArray count start last) =
      strip false (text.drop start) := by
  -- the search goes on behind a tag or one character later, so the induction is on what is left
  induction hsize : text.length - start using Nat.strongRecOn generalizing start count last with
  | ind size ih =>
    subst hsize
    have hlater : ∀ {later fewer : Nat} (last : Option Nat), start < later → later ≤ text.length →
        text.length < later + fewer →
        outside text later (regex.findAllFrom text.toArray fewer later last) =
          strip false (text.drop later) := by
      intro later fewer last hlt hle hcount
      exact ih (text.length - later) (by omega) last hle hcount rfl
    cases hdrop : text.drop start with
    | nil =>
      have hend : start = text.length := Nat.le_antisymm hle (List.drop_eq_nil_iff.mp hdrop)
      rw [hend] at hdrop ⊢
      rw [findAllFrom_end, outside, hdrop, strip]
    | cons c rest =>
      have hlength := congrArg List.length hdrop
      rw [List.length_drop, List.length_cons] at hlength
      by_cases htag : c = '<' ∧ '>' ∈ rest
      · obtain ⟨rfl, hclosed⟩ := htag
        obtain ⟨body, after, rfl, hbody⟩ := List.eq_append_cons_of_mem hclosed
        rw [List.length_append, List.length_cons] at hlength
        have hclose : text.drop (start + 1 + body.length) = '>' :: after := by
          rw [← List.drop_drop, drop_succ hdrop, List.drop_left]
        have hafter := drop_succ hclose
        rw [Nat.add_right_comm start] at hafter
        obtain ⟨count, rfl⟩ : ∃ fewer, count = fewer + 1 :=
          Nat.exists_eq_succ_of_ne_zero (by omega)
        have hrest := @hlater (start + body.length + 2) count (some (start + body.length + 2))
          (by omega) (by omega) (by omega)
        rw [findAllFrom_closed hle hbody hdrop, outside, List.drop_take, Nat.sub_self,
          List.take_zero, List.nil_append, hrest, hafter, strip_tag hbody]
      · have hconsecutive := @findAllFrom_consecutive regex text.toArray count (start + 1) last
        rw [findAllFrom_succ hle (matchAt?_eq_none hdrop htag), outside_succ hdrop hconsecutive,
          hlater last (by omega) (by omega) (by omega), drop_succ hdrop, strip, if_neg htag]

/-- Deleting all matches of the expression for tags takes the tags away. -/
theorem deleteAll_regex (text : String) :
    regex.deleteAll text = String.ofList (strip false text.toList) := by
  have hcount : text.toList.length < 0 + (text.toList.toArray.size + 2) := by
    rw [List.size_toArray]
    omega
  rw [deleteAll, findAll, outside_findAllFrom none (Nat.zero_le _) hcount, List.drop_zero]

end Tag

end Regex

end Highlighter
