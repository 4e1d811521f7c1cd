import Highlighter.Proofs.Regex.Ends
import Highlighter.Proofs.Regex.Plan

/-!
# Groups one after the other

Groups that stand next to each other and come with nothing between them take a match apart: each of
them starts where the one before it stops. It does not matter which of them are settled together,
since a settled part forgets no groups but its own.
-/

namespace Highlighter.Regex

variable {text : Array Char} {first last number start stop : Nat} {state after : State}

/-! ## Groups that a program leaves alone -/

/-- A program records and forgets no groups but those from a number on. -/
def Program.GroupsFrom (bound : Nat) : Program → Prop
  | .empty | .char _ | .anchor _ | .backref _ => True
  | .seq first second | .alt first second => first.GroupsFrom bound ∧ second.GroupsFrom bound
  | .group number body => bound ≤ number ∧ body.GroupsFrom bound
  | .times body _ _ _ | .more body _ | .plus body _ | .ahead _ body | .behind _ _ body
  | .atomic body => body.GroupsFrom bound
  | .settled first last body => (first < last → bound ≤ first) ∧ body.GroupsFrom bound

theorem groupsFrom_hereditary (bound : Nat) :
    Program.Hereditary (bound ≤ ·) (fun _ => True) (Program.GroupsFrom bound) where
  empty := trivial
  char _ := trivial
  anchor _ := trivial
  seq hfirst hsecond := ⟨hfirst, hsecond⟩
  alt hfirst hsecond := ⟨hfirst, hsecond⟩
  group hnumber hbody := ⟨hnumber, hbody⟩
  times _ _ _ hbody := hbody
  more _ hbody := hbody
  plus _ hbody := hbody
  ahead _ hbody := hbody
  behind _ _ hbody := hbody
  atomic hbody := hbody
  settled hfirst hbody := ⟨hfirst, hbody⟩
  backref _ := trivial

namespace Ends

/-- Every end knows a group just as the state does that the match begins in. -/
def Keeps (number : Nat) (ends : Ends) : Prop :=
  ∀ state, ∀ after ∈ ends state, after.group? number = state.group? number

variable {ends ends' : Ends}

theorem Keeps.comp (h : ends.Keeps number) (h' : ends'.Keeps number) :
    Ends.Keeps number fun state => (ends state).flatMap ends' := by
  intro state after hafter
  obtain ⟨between, hbetween, hafter⟩ := List.mem_flatMap.mp hafter
  exact (h' between after hafter).trans (h state between hbetween)

theorem mem_prefer {greedy : Bool} {found found' : List State} :
    after ∈ prefer greedy found found' ↔ after ∈ found ∨ after ∈ found' := by
  cases greedy with
  | true => exact List.mem_append
  | false => exact List.mem_append.trans Or.comm

theorem Keeps.prefer (h : ends.Keeps number) (greedy : Bool) :
    Ends.Keeps number fun state => Ends.prefer greedy (ends state) [state] := by
  intro state after hafter
  rcases mem_prefer.mp hafter with hafter | hafter
  · exact h state after hafter
  · rw [List.mem_singleton.mp hafter]

theorem keeps_self : Ends.Keeps number fun state => [state] :=
  fun _ _ hafter => by rw [List.mem_singleton.mp hafter]

theorem Keeps.copies (h : ends.Keeps number) (count : Nat) : (ends.copies count).Keeps number := by
  induction count with
  | zero => exact keeps_self
  | succ count ih => exact h.comp ih

theorem Keeps.optionals (h : ends.Keeps number) (greedy : Bool) (count : Nat) :
    (ends.optionals greedy count).Keeps number := by
  induction count with
  | zero => exact keeps_self
  | succ count ih => exact (h.comp ih).prefer greedy

/-- Ends from which a match may go on only if it has moved forward. -/
theorem Keeps.moves (h : ends.Keeps number) (h' : ends'.Keeps number) (others : Ends)
    (hothers : others.Keeps number) :
    Ends.Keeps number fun state => (ends state).flatMap fun after =>
      if state.position < after.position then ends' after else others after := by
  intro state after hafter
  obtain ⟨between, hbetween, hafter⟩ := List.mem_flatMap.mp hafter
  rw [← h state between hbetween]
  split at hafter
  · exact h' between after hafter
  · exact hothers between after hafter

theorem Keeps.moving (h : ends.Keeps number) (greedy : Bool) (count : Nat) :
    (ends.moving greedy count).Keeps number := by
  induction count with
  | zero => exact keeps_self
  | succ count ih => exact (h.moves ih (fun _ => []) nofun).prefer greedy

end Ends

theorem Program.GroupsFrom.keeps {bound : Nat} {program : Program} (h : program.GroupsFrom bound)
    (hnumber : number < bound) : (program.ends text).Keeps number := by
  induction program with
  | empty => exact Ends.keeps_self
  | char set =>
    intro state after hafter
    rw [ends] at hafter
    split at hafter
    · split at hafter
      · rw [List.mem_singleton.mp hafter]
        rfl
      · cases hafter
    · cases hafter
  | anchor position =>
    intro state after hafter
    rw [ends] at hafter
    split at hafter
    · rw [List.mem_singleton.mp hafter]
    · cases hafter
  | seq first second ihfirst ihsecond => exact (ihfirst h.1).comp (ihsecond h.2)
  | alt first second ihfirst ihsecond =>
    intro state after hafter
    rcases List.mem_append.mp hafter with hafter | hafter
    · exact ihfirst h.1 state after hafter
    · exact ihsecond h.2 state after hafter
  | group other body ih =>
    intro state after hafter
    obtain ⟨between, hbetween, rfl⟩ := List.mem_map.mp hafter
    have hle : bound ≤ other := h.1
    rw [State.group?_close, if_neg (by omega)]
    exact ih h.2 state between hbetween
  | times body least extra greedy ih =>
    exact ((ih h).copies least).comp ((ih h).optionals greedy extra)
  | more body greedy ih => exact (ih h).moving greedy _
  | plus body greedy ih => exact (ih h).moves ((ih h).moving greedy _) _ Ends.keeps_self
  | ahead negated body ih =>
    intro state after hafter
    rw [ends] at hafter
    split at hafter
    · split at hafter
      · rw [List.mem_singleton.mp hafter]
      · cases hafter
    · obtain ⟨between, hbetween, rfl⟩ := List.mem_map.mp hafter
      exact ih h state between hbetween
  | behind length negated body ih =>
    intro state after hafter
    rw [ends] at hafter
    split at hafter
    · split at hafter
      · rw [List.mem_singleton.mp hafter]
      · cases hafter
    · dsimp only at hafter
      split at hafter
      · split at hafter
        · rw [List.mem_singleton.mp hafter]
        · cases hafter
      · obtain ⟨between, hbetween, rfl⟩ := List.mem_map.mp hafter
        have hkept := ih h _ between hbetween
        exact hkept
  | atomic body ih =>
    intro state after hafter
    exact ih h state after (List.mem_of_head? (Option.mem_toList.mp hafter))
  | settled first last body ih =>
    intro state after hafter
    have hbody := ih h.2 _ after (List.mem_of_head? (Option.mem_toList.mp hafter))
    have hfirst : first < last → bound ≤ first := h.1
    rw [hbody, State.group?_forget, if_neg (by omega)]
  | backref other =>
    intro state after hafter
    rw [ends] at hafter
    split at hafter
    · split at hafter
      · rw [List.mem_singleton.mp hafter]
        rfl
      · cases hafter
    · cases hafter

/-! ## Stretches one after the other -/

/-- The groups with the given numbers lie next to each other, from one position to another. -/
def Tiles (group? : Nat → Option Span) : List Nat → Nat → Nat → Prop
  | [], start, stop => start = stop
  | number :: numbers, start, stop =>
    ∃ middle, group? number = some ⟨start, middle⟩ ∧ Tiles group? numbers middle stop

section

variable {group? group?' : Nat → Option Span} {numbers numbers' : List Nat}

theorem Tiles.congr (h : Tiles group? numbers start stop)
    (hsame : ∀ number ∈ numbers, group?' number = group? number) :
    Tiles group?' numbers start stop := by
  induction numbers generalizing start with
  | nil => exact h
  | cons number numbers ih =>
    obtain ⟨hnumber, hnumbers⟩ := List.forall_mem_cons.mp hsame
    obtain ⟨middle, hgroup, hrest⟩ := h
    exact ⟨middle, hnumber.trans hgroup, ih hrest hnumbers⟩

theorem Tiles.append {middle : Nat} (h : Tiles group? numbers start middle)
    (h' : Tiles group? numbers' middle stop) : Tiles group? (numbers ++ numbers') start stop := by
  induction numbers generalizing start with
  | nil =>
    obtain rfl : start = middle := h
    exact h'
  | cons number numbers ih =>
    obtain ⟨between, hgroup, hrest⟩ := h
    exact ⟨between, hgroup, ih hrest⟩

end

namespace Program

variable {numbers numbers' : List Nat} {program program' body : Program}
  {programs programs' : List Program}

/-- Every match of a program consists of the groups with the given numbers, one after the other, and
knows the groups before them just as before. -/
def Lays (text : Array Char) (numbers : List Nat) (program : Program) : Prop :=
  ∀ state, ∀ after ∈ program.ends text state,
    Tiles after.group? numbers state.position after.position ∧
      ∀ number, (∀ other ∈ numbers, number < other) → after.group? number = state.group? number

theorem lays_empty : Lays text [] .empty := by
  intro state after hafter
  rw [List.mem_singleton.mp hafter]
  exact ⟨rfl, fun _ _ => rfl⟩

theorem lays_group (hbody : body.GroupsFrom number) : Lays text [number] (.group number body) := by
  intro state after hafter
  obtain ⟨between, hbetween, rfl⟩ := List.mem_map.mp hafter
  refine ⟨⟨between.position, ?_, rfl⟩, fun other hless => ?_⟩
  · rw [State.group?_close, if_pos rfl]
  · have hother := hless number List.mem_cons_self
    rw [State.group?_close, if_neg (Nat.ne_of_lt hother)]
    exact hbody.keeps hother state between hbetween

theorem Lays.seq (h : Lays text numbers program) (h' : Lays text numbers' program')
    (hless : ∀ number ∈ numbers, ∀ other ∈ numbers', number < other) :
    Lays text (numbers ++ numbers') (.seq program program') := by
  intro state after hafter
  obtain ⟨between, hbetween, hafter⟩ := List.mem_flatMap.mp hafter
  obtain ⟨htiled, hkept⟩ := h state between hbetween
  obtain ⟨htiled', hkept'⟩ := h' between after hafter
  refine ⟨(htiled.congr fun number hnumber => hkept' number (hless number hnumber)).append
    htiled', fun number hnumber => ?_⟩
  obtain ⟨hnumbers, hnumbers'⟩ := List.forall_mem_append.mp hnumber
  rw [hkept' number hnumbers', hkept number hnumbers]

theorem Lays.settled (h : Lays text numbers program)
    (hfirst : first < last → ∀ number, (∀ other ∈ numbers, number < other) → number < first) :
    Lays text numbers (.settled first last program) := by
  intro state after hafter
  obtain ⟨htiled, hkept⟩ := h _ after (List.mem_of_head? (Option.mem_toList.mp hafter))
  refine ⟨htiled, fun number hnumber => ?_⟩
  have hbefore : ¬ (first ≤ number ∧ number < last) := by
    rintro ⟨hle, hlt⟩
    have hless := hfirst (Nat.lt_of_le_of_lt hle hlt) number hnumber
    omega
  rw [hkept number hnumber, State.group?_forget, if_neg hbefore]

theorem ends_seqs_cons (program : Program) (programs : List Program) (state : State) :
    (seqs (program :: programs)).ends text state =
      (program.ends text state).flatMap ((seqs programs).ends text) := by
  cases programs with
  | nil =>
    have hself : (seqs []).ends text = fun state => [state] := rfl
    rw [hself, List.flatMap_singleton']
    rfl
  | cons => rfl

theorem Lays.cons (h : Lays text numbers program) (h' : Lays text numbers' (seqs programs))
    (hless : ∀ number ∈ numbers, ∀ other ∈ numbers', number < other) :
    Lays text (numbers ++ numbers') (seqs (program :: programs)) := by
  intro state after hafter
  rw [ends_seqs_cons] at hafter
  exact h.seq h' hless state after hafter

theorem ends_seqs_append (programs programs' : List Program) (state : State) :
    (seqs (programs ++ programs')).ends text state =
      ((seqs programs).ends text state).flatMap ((seqs programs').ends text) := by
  induction programs generalizing state with
  | nil => exact (List.flatMap_singleton ..).symm
  | cons program programs ih =>
    rw [List.cons_append, ends_seqs_cons, ends_seqs_cons, List.flatMap_assoc]
    exact congrArg (List.flatMap · _) (funext ih)

theorem Lays.append (h : Lays text numbers (seqs programs))
    (h' : Lays text numbers' (seqs programs'))
    (hless : ∀ number ∈ numbers, ∀ other ∈ numbers', number < other) :
    Lays text (numbers ++ numbers') (seqs (programs ++ programs')) := by
  intro state after hafter
  rw [ends_seqs_append] at hafter
  exact h.seq h' hless state after hafter

end Program

/-! ## Rows of groups -/

namespace Tree

variable {referenced : List Nat} {items others : List Tree} {numbers : List Nat}
  {programs : List Program} {program : Program}

/-- Groups with rising numbers, each of which has none inside with a number below its own. -/
inductive Row : List Tree → List Nat → Prop where
  | nil : Row [] []
  | cons {number : Nat} {body : Tree} {items : List Tree} {numbers : List Nat}
      (hbody : ∀ inner ∈ body.groupNumbers, number ≤ inner)
      (hlater : ∀ other ∈ numbers, number < other) (hrest : Row items numbers) :
      Row (.group number body :: items) (number :: numbers)

theorem Row.of_append (h : Row (items ++ others) numbers) :
    ∃ front back, numbers = front ++ back ∧ Row items front ∧ Row others back ∧
      ∀ number ∈ front, ∀ other ∈ back, number < other := by
  induction items generalizing numbers with
  | nil => exact ⟨[], numbers, rfl, .nil, h, List.forall_mem_nil _⟩
  | cons item items ih =>
    cases h with
    | @cons number body _ numbers hbody hlater hrest =>
      obtain ⟨front, back, rfl, hfront, hback, hless⟩ := ih hrest
      obtain ⟨hlaterFront, hlaterBack⟩ := List.forall_mem_append.mp hlater
      exact ⟨number :: front, back, rfl, .cons hbody hlaterFront hfront, hback,
        List.forall_mem_cons.mpr ⟨hlaterBack, hless⟩⟩

theorem Row.lays_settleAll (h : Row items numbers) (hsettle : settleAll items = .ok programs) :
    Program.Lays text numbers (.seqs programs) := by
  induction h generalizing programs with
  | nil =>
    cases hsettle
    exact Program.lays_empty
  | @cons number body items numbers hbody hlater _ ih =>
    obtain ⟨first, hfirst, hsettle⟩ := ok_of_bind_eq_ok hsettle
    obtain ⟨rest, hrest, hpure⟩ := ok_of_bind_eq_ok hsettle
    cases hpure
    obtain ⟨inner, hinner, hpure⟩ := ok_of_bind_eq_ok hfirst
    cases hpure
    have hfrom := settle_induct (groupsFrom_hereditary number) hbody hinner
    exact (Program.lays_group hfrom).cons (ih hrest) (List.forall_mem_singleton.mpr hlater)

/-- A part that is settled starts to forget with its first group. -/
theorem Row.lays_settlePart (h : Row items numbers) (hsettle : settlePart items = .ok programs) :
    Program.Lays text numbers (.seqs programs) := by
  cases h with
  | nil =>
    cases hsettle
    exact Program.lays_empty
  | @cons number body items numbers hbody hlater hrest =>
    unfold settlePart at hsettle
    obtain ⟨parts, hparts, hsettle⟩ := ok_of_bind_eq_ok hsettle
    cases hsettle
    refine ((Row.cons hbody hlater hrest).lays_settleAll hparts).settled fun _ other hless => ?_
    exact hless number List.mem_cons_self

theorem Row.lays_planAll (h : Row items numbers)
    (hplan : allOk (planAll referenced true items) = .ok programs) :
    Program.Lays text numbers (.seqs programs) := by
  induction h generalizing programs with
  | nil =>
    cases hplan
    exact Program.lays_empty
  | @cons number body items numbers hbody hlater _ ih =>
    obtain ⟨first, hfirst, hplan⟩ := ok_of_bind_eq_ok hplan
    obtain ⟨rest, hrest, hpure⟩ := ok_of_bind_eq_ok hplan
    cases hpure
    obtain ⟨inner, hinner, hpure⟩ := ok_of_bind_eq_ok hfirst
    cases hpure
    have hfrom := plan_induct (groupsFrom_hereditary number) hbody (fun _ _ => trivial) hinner
    exact (Program.lays_group hfrom).cons (ih hrest) (List.forall_mem_singleton.mpr hlater)

theorem planAll_eq_map (hard : Bool) (items : List Tree) :
    planAll referenced hard items = items.map (·.plan referenced hard) := by
  induction items with
  | nil => rfl
  | cons item items ih => rw [planAll, ih, List.map_cons]

/-- The items of a concatenation are a first part of fixed size and a last part, both of which are
settled, and what lies between them. -/
theorem exists_parts (referenced : List Nat) (hard : Bool) (items : List Tree) :
    ∃ first middle last, items = first ++ (middle ++ last) ∧
      (∀ item ∈ first, item.isHard referenced = false ∧ item.hasFixedSize = true) ∧
      (∀ item ∈ last, item.isHard referenced = false ∧ (hard = true → item.hasFixedSize = true)) ∧
      planConcat referenced hard items (planAll referenced true items) = do
        return .seqs ((← settlePart first) ++ (← allOk (planAll referenced true middle)) ++
          (← settlePart last)) := by
  let first := items.takeWhile fun tree => tree.hasFixedSize && !tree.isHard referenced
  let later := items.drop first.length
  let last := (later.reverse.takeWhile fun tree =>
    !tree.isHard referenced && (!hard || tree.hasFixedSize)).reverse
  have hitems : items = first ++ later :=
    (List.prefix_iff_eq_append.mp (List.takeWhile_prefix _)).symm
  have hlast : last = later.drop (later.length - last.length) := by
    rw [← List.suffix_iff_eq_drop, ← List.reverse_prefix, List.reverse_reverse]
    exact List.takeWhile_prefix _
  have hlater : later.take (later.length - last.length) ++ last = later :=
    (congrArg (later.take (later.length - last.length) ++ ·) hlast).trans
      (List.take_append_drop _ _)
  refine ⟨first, later.take (later.length - last.length), last,
    hitems.trans (congrArg (first ++ ·) hlater.symm), ?_, ?_, ?_⟩
  · intro item hitem
    have hsettled := List.all_eq_true.mp List.all_takeWhile item hitem
    simpa [and_comm] using hsettled
  · intro item hitem
    have hsettled := List.all_eq_true.mp List.all_takeWhile item (List.mem_reverse.mp hitem)
    rw [Bool.and_eq_true, Bool.not_eq_true', Bool.or_eq_true, Bool.not_eq_true'] at hsettled
    refine ⟨hsettled.1, fun hhard => hsettled.2.resolve_left ?_⟩
    rw [hhard]
    exact Bool.noConfusion
  · rw [planAll_eq_map, planAll_eq_map, List.map_take, List.map_drop]
    rfl

/-- The program of a concatenation has a settled part of fixed size, then the programs of some items,
and then another settled part. -/
theorem planConcat_eq_ok {hard : Bool}
    (h : planConcat referenced hard items (planAll referenced true items) = .ok program) :
    ∃ first middle last parts programs parts', items = first ++ (middle ++ last) ∧
      settlePart first = .ok parts ∧ allOk (planAll referenced true middle) = .ok programs ∧
      settlePart last = .ok parts' ∧ program = .seqs (parts ++ programs ++ parts') ∧
      (∀ item ∈ first, item.isHard referenced = false ∧ item.hasFixedSize = true) ∧
      ∀ item ∈ last, item.isHard referenced = false ∧ (hard = true → item.hasFixedSize = true) := by
  obtain ⟨first, middle, last, hitems, hfirst, hlast, hplan⟩ := exists_parts referenced hard items
  rw [hplan] at h
  obtain ⟨parts, hparts, h⟩ := ok_of_bind_eq_ok h
  obtain ⟨programs, hprograms, h⟩ := ok_of_bind_eq_ok h
  obtain ⟨parts', hparts', hpure⟩ := ok_of_bind_eq_ok h
  cases hpure
  exact ⟨first, middle, last, parts, programs, parts', hitems, hparts, hprograms, hparts', rfl,
    hfirst, hlast⟩

/-- However a row of groups is planned, its matches consist of the groups. -/
theorem Row.lays_planConcat {hard : Bool} (h : Row items numbers)
    (hplan : planConcat referenced hard items (planAll referenced true items) = .ok program) :
    Program.Lays text numbers program := by
  obtain ⟨first, middle, last, parts, programs, parts', rfl, hfirst, hmiddle, hlast, rfl, -⟩ :=
    planConcat_eq_ok hplan
  obtain ⟨front, others, rfl, hfront, hothers, hless⟩ := h.of_append
  obtain ⟨between, back, rfl, hbetween, hback, hless'⟩ := hothers.of_append
  rw [List.append_assoc]
  exact (hfront.lays_settlePart hfirst).append
    ((hbetween.lays_planAll hmiddle).append (hback.lays_settlePart hlast) hless') hless

theorem Row.lays_plan (h : Row items numbers)
    (hplan : (ofItems items).plan referenced false = .ok program) :
    Program.Lays text numbers program := by
  cases hhard : (ofItems items).isHard referenced with
  | false =>
    unfold plan at hplan
    rw [hhard] at hplan
    obtain ⟨parts, hparts, hpure⟩ := ok_of_bind_eq_ok hplan
    cases hpure
    cases h with
    | nil =>
      cases hparts
      exact Program.lays_empty.settled fun hless => absurd hless (Nat.lt_irrefl 0)
    | @cons number body items numbers hbody hlater hrest =>
      cases items with
      | nil => exact (Row.cons hbody hlater hrest).lays_settlePart hparts
      | cons second items =>
        obtain ⟨programs, hprograms, hparts⟩ := ok_of_bind_eq_ok hparts
        cases hparts
        obtain ⟨whole, hwhole, hpure⟩ := ok_of_bind_eq_ok hprograms
        cases hpure
        obtain ⟨settled, hsettled, hpure⟩ := ok_of_bind_eq_ok hwhole
        cases hpure
        refine ((Row.cons hbody hlater hrest).lays_settleAll hsettled).settled
          fun _ other hless => ?_
        exact hless number List.mem_cons_self
  | true =>
    unfold plan at hplan
    rw [hhard] at hplan
    cases h with
    | nil => cases hhard
    | @cons number body items numbers hbody hlater hrest =>
      cases items with
      | nil =>
        cases hrest
        obtain ⟨inner, hinner, hpure⟩ := ok_of_bind_eq_ok hplan
        cases hpure
        exact Program.lays_group
          (plan_induct (groupsFrom_hereditary number) hbody (fun _ _ => trivial) hinner)
      | cons second items => exact (Row.cons hbody hlater hrest).lays_planConcat hplan

end Tree

end Highlighter.Regex
