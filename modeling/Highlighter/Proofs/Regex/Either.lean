import Highlighter.Proofs.Regex.Choice
import Mathlib.Data.List.Forall2

/-!
# Expressions side by side

Two sources with a bar between them are meant as an alternation. They read as one when neither
changes how the other is read: the first one leaves no flags in force, and the second one does not
refer to its groups by numbers that the groups of the first one have now taken. In that case the two
match together as the first one does alone, and where that one does not match as the second one
does, whose groups then come after those of the first. How the alternatives are settled, one by one
or all at once, does not matter for this.
-/

namespace Highlighter.Regex

variable {text : Array Char} {offset bound : Nat}

namespace Program

variable {program program' : Program}

/-- Where no group has taken part yet, the second program matches where the first one does, and it
knows the groups of that one under numbers moved up by `offset`. -/
def Moves (text : Array Char) (offset bound : Nat) (program program' : Program) : Prop :=
  ∀ state state' : State, state.Fresh → state'.Fresh → state'.position = state.position →
    Option.Rel (State.Moved offset bound) (program.run text some state)
      (program'.run text some state')

theorem moves_shift (hgroups : program.GroupsUpTo bound) :
    Moves text offset bound program (program.shift offset) :=
  fun _ _ hfresh hfresh' hposition =>
    (run_shift text program hgroups).alone _ _ (hfresh.moved hfresh' hposition)

theorem Moves.settled_left (h : Moves text offset bound program program') (first last : Nat) :
    Moves text offset bound (.settled first last program) program' := by
  intro state state' hfresh hfresh' hposition
  rw [run_settled]
  exact h _ _ (hfresh.forget first last) hfresh' hposition

theorem Moves.settled_right (h : Moves text offset bound program program') (first last : Nat) :
    Moves text offset bound program (.settled first last program') := by
  intro state state' hfresh hfresh' hposition
  rw [run_settled]
  exact h _ _ hfresh (hfresh'.forget first last) hposition

/-- Programs that are tried in turn. -/
theorem findSome?_moves {programs programs' : List Program}
    (h : List.Forall₂ (Moves text offset bound) programs programs') {state state' : State}
    (hfresh : state.Fresh) (hfresh' : state'.Fresh) (hposition : state'.position = state.position) :
    Option.Rel (State.Moved offset bound)
      (programs.findSome? fun program => program.run text some state)
      (programs'.findSome? fun program => program.run text some state') := by
  induction h with
  | nil => exact .none
  | @cons program program' programs programs' hfirst _ ih =>
    have hmoves := hfirst state state' hfresh hfresh' hposition
    rw [List.findSome?_cons, List.findSome?_cons]
    generalize program.run text some state = result at hmoves ⊢
    generalize program'.run text some state' = result' at hmoves ⊢
    cases hmoves with
    | some hmoved => exact .some hmoved
    | none => exact ih

end Program

namespace Tree

variable {referenced referenced' : List Nat} {tree : Tree} {program program' : Program}

/-- The alternatives of a tree. -/
def choices : Tree → List Tree
  | .alt (choice :: choices) => choice :: choices
  | tree => [tree]

theorem choices_ne_nil (tree : Tree) : tree.choices ≠ [] := by
  unfold choices
  split <;> exact List.cons_ne_nil _ _

mutual
theorem shift_zero (tree : Tree) : tree.shift 0 = tree := by
  match tree with
  | .empty | .char _ | .anchor _ | .backref _ => rfl
  | .concat items | .alt items => simp only [shift, shiftAll_zero items]
  | .group number body => simp only [shift, shift_zero body, Nat.add_zero]
  | .repeated body _ _ _ | .look _ _ body | .atomic body => simp only [shift, shift_zero body]

theorem shiftAll_zero (items : List Tree) : shiftAll 0 items = items := by
  match items with
  | [] => rfl
  | item :: items => simp only [shiftAll, shift_zero item, shiftAll_zero items]
end

theorem choices_shift (offset : Nat) (tree : Tree) :
    (tree.shift offset).choices = tree.choices.map (shift offset) := by
  cases tree with
  | alt items =>
    cases items with
    | nil => rfl
    | cons choice choices => simp [shift, shiftAll, shiftAll_eq_map, Tree.choices]
  | _ => rfl

theorem groupNumbers_choices {number : Nat} {choice : Tree} (hchoice : choice ∈ tree.choices)
    (h : number ∈ choice.groupNumbers) : number ∈ tree.groupNumbers := by
  cases tree with
  | alt items =>
    cases items with
    | nil =>
      cases List.mem_singleton.mp hchoice
      exact h
    | cons first others => exact mem_groupNumbersOf.mpr ⟨choice, hchoice, h⟩
  | _ =>
    cases List.mem_singleton.mp hchoice
    exact h

/-- The program of an alternative: what it is planned as, or settled as where it is not hard. -/
def RunsAs (referenced : List Nat) (tree : Tree) (program : Program) : Prop :=
  tree.plan referenced false = .ok program ∨
    tree.isHard referenced = false ∧ tree.settle = .ok program

theorem RunsAs.planned (h : tree.RunsAs referenced program)
    (hhard : tree.isHard referenced = true) : tree.plan referenced false = .ok program := by
  rcases h with hplan | ⟨heasy, -⟩
  · exact hplan
  · cases heasy.symm.trans hhard

theorem RunsAs.settled (h : tree.RunsAs referenced program)
    (heasy : tree.isHard referenced = false) :
    ∃ body, tree.settle = .ok body ∧
      (program = body ∨ ∃ first last, program = .settled first last body) := by
  rcases h with hplan | ⟨-, hsettle⟩
  · obtain ⟨first, last, body, hbody, rfl⟩ := plan_of_not_isHard heasy hplan
    exact ⟨body, hbody, .inr ⟨first, last, rfl⟩⟩
  · exact ⟨program, hsettle, .inl rfl⟩

/-- However an alternative and the same alternative with higher group numbers are run, they match
alike. -/
theorem RunsAs.moves (h : tree.RunsAs referenced program)
    (h' : (tree.shift offset).RunsAs referenced' program')
    (hnumbers : ∀ number ∈ tree.groupNumbers, 0 < number ∧ number ≤ bound)
    (hsame : SameReferences offset referenced referenced' tree.groupNumbers) (text : Array Char) :
    Program.Moves text offset bound program program' := by
  have hhard := isHard_shift tree hsame
  cases hcase : tree.isHard referenced with
  | true =>
    have hplan := h.planned hcase
    have hplan' := h'.planned (hhard.trans hcase)
    rw [plan_shift false tree hsame, hplan] at hplan'
    cases hplan'
    exact Program.moves_shift (plan_groupsUpTo hnumbers hplan)
  | false =>
    obtain ⟨body, hbody, hprogram⟩ := h.settled hcase
    obtain ⟨body', hbody', hprogram'⟩ := h'.settled (hhard.trans hcase)
    rw [settle_shift, hbody] at hbody'
    cases hbody'
    have hmoves : Program.Moves text offset bound body (body.shift offset) :=
      Program.moves_shift (settle_groupsUpTo hnumbers hbody)
    rcases hprogram with rfl | ⟨first, last, rfl⟩ <;>
      rcases hprogram' with rfl | ⟨first', last', rfl⟩
    · exact hmoves
    · exact hmoves.settled_right first' last'
    · exact hmoves.settled_left first last
    · exact (hmoves.settled_left first last).settled_right first' last'

theorem forall₂_settleAll {items : List Tree} {programs : List Program}
    (heasy : anyHard referenced items = false) (h : settleAll items = .ok programs) :
    List.Forall₂ (RunsAs referenced) items programs := by
  induction items generalizing programs with
  | nil =>
    cases h
    exact .nil
  | cons item items ih =>
    obtain ⟨first, hfirst, h⟩ := ok_of_bind_eq_ok h
    obtain ⟨others, hothers, hpure⟩ := ok_of_bind_eq_ok h
    cases hpure
    rw [anyHard, Bool.or_eq_false_iff] at heasy
    exact .cons (.inr ⟨heasy.1, hfirst⟩) (ih heasy.2 hothers)

theorem forall₂_planAll {items : List Tree} {programs : List Program}
    (h : allOk (planAll referenced false items) = .ok programs) :
    List.Forall₂ (RunsAs referenced) items programs := by
  induction items generalizing programs with
  | nil =>
    cases h
    exact .nil
  | cons item items ih =>
    obtain ⟨first, hfirst, h⟩ := ok_of_bind_eq_ok h
    obtain ⟨others, hothers, hpure⟩ := ok_of_bind_eq_ok h
    cases hpure
    exact .cons (.inl hfirst) (ih hothers)

/-- The plan of a tree runs its alternatives in turn. -/
theorem exists_runsAs (h : tree.plan referenced false = .ok program) (text : Array Char) :
    ∃ programs, List.Forall₂ (RunsAs referenced) tree.choices programs ∧
      RunsEach text program programs := by
  have hsingle : tree.choices = [tree] →
      ∃ programs, List.Forall₂ (RunsAs referenced) tree.choices programs ∧
        RunsEach text program programs := by
    intro hchoices
    rw [hchoices]
    have hruns : RunsEach text (.alts [program]) [program] :=
      runsEach_alts (List.cons_ne_nil _ _)
    exact ⟨[program], .cons (.inl h) .nil, hruns⟩
  have hsome : ∀ {first : Tree} {others : List Tree} {programs : List Program},
      List.Forall₂ (RunsAs referenced) (first :: others) programs → programs ≠ [] := by
    rintro first others programs hall rfl
    cases hall
  cases tree with
  | alt items =>
    cases items with
    | nil => exact hsingle rfl
    | cons first others =>
      cases hhard : (Tree.alt (first :: others)).isHard referenced with
      | false =>
        obtain ⟨start, stop, body, hbody, rfl⟩ := plan_of_not_isHard hhard h
        obtain ⟨programs, hprograms, hpure⟩ := ok_of_bind_eq_ok hbody
        cases hpure
        have hall := forall₂_settleAll hhard hprograms
        exact ⟨programs, hall, (runsEach_alts (hsome hall)).settled start stop⟩
      | true =>
        unfold plan at h
        rw [hhard] at h
        obtain ⟨programs, hprograms, hpure⟩ := ok_of_bind_eq_ok h
        cases hpure
        have hall := forall₂_planAll hprograms
        exact ⟨programs, hall, runsEach_alts (hsome hall)⟩
  | _ => exact hsingle rfl

/-- Alternatives that run as programs, and the same alternatives under higher group numbers. -/
theorem forall₂_moves {items : List Tree} {programs programs' : List Program}
    (h : List.Forall₂ (RunsAs referenced) items programs)
    (h' : List.Forall₂ (RunsAs referenced') (items.map (shift offset)) programs')
    (hnumbers : ∀ item ∈ items, ∀ number ∈ item.groupNumbers, 0 < number ∧ number ≤ bound)
    (hsame : ∀ item ∈ items, SameReferences offset referenced referenced' item.groupNumbers)
    (text : Array Char) :
    List.Forall₂ (Program.Moves text offset bound) programs programs' := by
  induction h generalizing programs' with
  | nil =>
    cases h'
    exact .nil
  | cons hfirst _ ih =>
    cases h' with
    | cons hfirst' hrest' =>
      obtain ⟨hnumber, hnumbers⟩ := List.forall_mem_cons.mp hnumbers
      obtain ⟨hsame, hsames⟩ := List.forall_mem_cons.mp hsame
      exact .cons (hfirst.moves hfirst' hnumber hsame text) (ih hrest' hnumbers hsames)

/-! ## Two sources -/

/-- What two sources with a bar between them are meant to read as. -/
def Source.either (first second : Source) : Source where
  tree := .alt (first.tree.choices ++ (second.tree.shift first.groups).choices)
  groups := first.groups + second.groups
  referenced := second.referenced.map (· + first.groups) ++ first.referenced

theorem Source.choices_either (first second : Source) :
    (first.either second).tree.choices =
      first.tree.choices.map (shift 0) ++ second.tree.choices.map (shift first.groups) := by
  have hzero : first.tree.choices.map (shift 0) = first.tree.choices := by
    rw [← choices_shift, shift_zero]
  rw [hzero, ← choices_shift, either]
  cases hchoices : first.tree.choices with
  | nil => exact absurd hchoices (choices_ne_nil _)
  | cons choice choices => rfl

variable {first second : Source}

/-- Among the groups of the first source, those that it references itself are referenced. -/
theorem Source.Closed.sameReferences_first (hfirst : first.Closed) (hsecond : second.Closed)
    {choice : Tree} (hchoice : choice ∈ first.tree.choices) :
    SameReferences 0 first.referenced (first.either second).referenced choice.groupNumbers := by
  intro number hnumber
  obtain ⟨-, hle⟩ := hfirst.numbers number (groupNumbers_choices hchoice hnumber)
  have hnot : number ∉ second.referenced.map (· + first.groups) := by
    intro hmem
    obtain ⟨other, hother, rfl⟩ := List.mem_map.mp hmem
    obtain ⟨hpositive, -⟩ := hsecond.referenced other hother
    omega
  rw [Bool.eq_iff_iff, List.contains_iff_mem, List.contains_iff_mem, either, List.mem_append,
    Nat.add_zero, or_iff_right hnot]

/-- Among the groups of the second source, which have moved up, those that it references itself are
referenced. -/
theorem Source.Closed.sameReferences_second (hfirst : first.Closed) (hsecond : second.Closed)
    {choice : Tree} (hchoice : choice ∈ second.tree.choices) :
    SameReferences first.groups second.referenced (first.either second).referenced
      choice.groupNumbers := by
  intro number hnumber
  obtain ⟨hpositive, -⟩ := hsecond.numbers number (groupNumbers_choices hchoice hnumber)
  have hnot : number + first.groups ∉ first.referenced := by
    intro hmem
    obtain ⟨-, hle⟩ := hfirst.referenced _ hmem
    omega
  rw [Bool.eq_iff_iff, List.contains_iff_mem, List.contains_iff_mem, either, List.mem_append,
    or_iff_left hnot]
  simp only [List.mem_map, Nat.add_right_cancel_iff, exists_eq_right]

/-- Of the programs of an alternation, the first ones run as those of the first source do, and the
others as those of the second one. -/
theorem Source.exists_either (hfirst : first.Closed) (hsecond : second.Closed)
    {own outer joined : Regex} (hown : first.regex = .ok own) (houter : second.regex = .ok outer)
    (hjoined : (first.either second).regex = .ok joined) (text : Array Char) :
    ∃ owns outers owns' outers', RunsEach text own.program owns ∧
      RunsEach text outer.program outers ∧ RunsEach text joined.program (owns' ++ outers') ∧
      List.Forall₂ (Program.Moves text 0 first.groups) owns owns' ∧
      List.Forall₂ (Program.Moves text first.groups second.groups) outers outers' := by
  obtain ⟨ownProgram, hownPlan, hpure⟩ := ok_of_bind_eq_ok hown
  cases hpure
  obtain ⟨outerProgram, houterPlan, hpure⟩ := ok_of_bind_eq_ok houter
  cases hpure
  obtain ⟨program, hplan, hpure⟩ := ok_of_bind_eq_ok hjoined
  cases hpure
  obtain ⟨programs, hprograms, hruns⟩ := exists_runsAs hplan text
  obtain ⟨owns, howns, hownRuns⟩ := exists_runsAs hownPlan text
  obtain ⟨outers, houters, houterRuns⟩ := exists_runsAs houterPlan text
  rw [choices_either] at hprograms
  have hleft := (List.forall₂_take_append _ _ _ hprograms.flip).flip
  have hright := (List.forall₂_drop_append _ _ _ hprograms.flip).flip
  rw [← List.take_append_drop (first.tree.choices.map (shift 0)).length programs] at hruns
  refine ⟨owns, outers, _, _, hownRuns, houterRuns, hruns, ?_, ?_⟩
  · exact forall₂_moves howns hleft
      (fun choice hchoice number hmem => hfirst.numbers number (groupNumbers_choices hchoice hmem))
      (fun choice hchoice => hfirst.sameReferences_first hsecond hchoice) text
  · exact forall₂_moves houters hright
      (fun choice hchoice number hmem => hsecond.numbers number (groupNumbers_choices hchoice hmem))
      (fun choice hchoice => hfirst.sameReferences_second hsecond hchoice) text

/-- With a bar between them, two sources read as an alternation of what they read as alone. -/
def ReadsAsEither (flags : Flags) (own outer : String) : Prop :=
  ∃ first second, read flags own = .ok first ∧ read flags outer = .ok second ∧
    first.Closed ∧ second.Closed ∧ read flags (own ++ "|" ++ outer) = .ok (first.either second)

end Tree

/-- The second match is the first one, whose groups are known under numbers moved up by `offset`. -/
structure Match.Moved (offset : Nat) (hit hit' : Match) : Prop where
  span : hit'.span = hit.span
  moved : ∀ number, 0 < number → hit'.group? (number + offset) = hit.group? number
  below : ∀ number, 0 < number → number ≤ offset → hit'.group? number = none

namespace Match.Moved

theorem refl (hit : Match) : Moved 0 hit hit :=
  ⟨rfl, fun _ _ => rfl, fun _ hpositive hle => absurd hpositive (Nat.not_lt.mpr hle)⟩

theorem trans {hit hit' hit'' : Match} {offset' : Nat} (h : Moved offset hit hit')
    (h' : Moved offset' hit' hit'') : Moved (offset + offset') hit hit'' where
  span := h'.span.trans h.span
  moved number hpositive := by
    rw [← Nat.add_assoc, h'.moved _ (Nat.add_pos_left hpositive offset), h.moved number hpositive]
  below number hpositive hle := by
    by_cases hinner : number ≤ offset'
    · exact h'.below number hpositive hinner
    · have hmoved := h'.moved (number - offset') (by omega)
      rw [Nat.sub_add_cancel (by omega)] at hmoved
      rw [hmoved, h.below _ (by omega) (by omega)]

end Match.Moved

theorem State.Moved.match (start : Nat) {after after' : State}
    (h : State.Moved offset bound after after') :
    Match.Moved offset ⟨⟨start, after.position⟩, after.groups⟩
      ⟨⟨start, after'.position⟩, after'.groups⟩ where
  span := by rw [h.position]
  moved number hpositive := by
    rw [Match.group?_of_state _ _ (Nat.add_pos_left hpositive offset),
      Match.group?_of_state _ _ hpositive, h.moved]
  below number hpositive hle := by
    rw [Match.group?_of_state _ _ hpositive, h.below number hle]

/-- An expression matches at a position as the first of two does, and where that one does not match
as the second one does, behind the groups of the first. -/
structure AlternatesAt (own outer joined : Regex) (text : Array Char) (position : Nat) : Prop where
  first : ∀ hit, own.matchAt? text position = some hit →
    ∃ hit', joined.matchAt? text position = some hit' ∧ Match.Moved 0 hit hit'
  second : own.matchAt? text position = none →
    Option.Rel (Match.Moved own.groups) (outer.matchAt? text position)
      (joined.matchAt? text position)

/-- Where two sources read as an alternation, they match as one. -/
theorem Tree.ReadsAsEither.alternatesAt {ignoreCase : Bool} {own outer : String}
    {ownRegex outerRegex joined : Regex}
    (h : ReadsAsEither { ignoreCase := ignoreCase, multiLine := true } own outer)
    (hown : compile ignoreCase own = .ok ownRegex)
    (houter : compile ignoreCase outer = .ok outerRegex)
    (hjoined : compile ignoreCase (own ++ "|" ++ outer) = .ok joined) (text : Array Char)
    (position : Nat) : AlternatesAt ownRegex outerRegex joined text position := by
  obtain ⟨first, second, hfirst, hsecond, hclosed, hclosed', heither⟩ := h
  simp only [compile, hfirst, hsecond, heither, bind, Except.bind] at hown houter hjoined
  obtain ⟨owns, outers, owns', outers', hownRuns, houterRuns, hruns, howns, houters⟩ :=
    Source.exists_either hclosed hclosed' hown houter hjoined text
  obtain ⟨start, hfresh, hstart, hownRun⟩ := hownRuns _ (State.fresh_start position)
  obtain ⟨start', hfresh', hstart', houterRun⟩ := houterRuns _ (State.fresh_start position)
  obtain ⟨begun, hbegun, hposition, hrun⟩ := hruns _ (State.fresh_start position)
  have hleft := Program.findSome?_moves howns hfresh hbegun (hposition.trans hstart.symm)
  have hright := Program.findSome?_moves houters hfresh' hbegun (hposition.trans hstart'.symm)
  have hgroups : ownRegex.groups = first.groups := by
    obtain ⟨_, -, hpure⟩ := ok_of_bind_eq_ok hown
    cases hpure
    rfl
  rw [← hownRun] at hleft
  rw [← houterRun] at hright
  rw [List.findSome?_append] at hrun
  generalize owns'.findSome? _ = result at hleft hrun
  generalize outers'.findSome? _ = result' at hright hrun
  constructor
  · intro hit hhit
    rw [matchAt?, Option.map_eq_some_iff] at hhit
    obtain ⟨after, hafter, rfl⟩ := hhit
    rw [hafter] at hleft
    cases hleft with
    | some hmoved =>
      rw [Option.some_or] at hrun
      exact ⟨_, by rw [matchAt?, hrun, Option.map_some], hmoved.match position⟩
  · intro hmiss
    rw [matchAt?, Option.map_eq_none_iff] at hmiss
    rw [hmiss] at hleft
    cases hleft
    rw [Option.none_or] at hrun
    rw [matchAt?, matchAt?, hrun, hgroups]
    generalize outerRegex.program.run text some _ = after at hright ⊢
    cases hright with
    | some hmoved => exact .some (hmoved.match position)
    | none => exact .none

/-- Where two sources read as an alternation, they match together where one of them does alone. -/
theorem AlternatesAt.isSome_matchAt? {own outer joined : Regex} {position : Nat}
    (h : AlternatesAt own outer joined text position) :
    (joined.matchAt? text position).isSome =
      ((own.matchAt? text position).isSome || (outer.matchAt? text position).isSome) := by
  cases hown : own.matchAt? text position with
  | some hit =>
    obtain ⟨hit', hhit', -⟩ := h.first hit hown
    rw [hhit', Option.isSome_some, Option.isSome_some, Bool.true_or]
  | none =>
    have hsecond := h.second hown
    generalize outer.matchAt? text position = result at hsecond ⊢
    generalize joined.matchAt? text position = result' at hsecond ⊢
    cases hsecond <;> rfl

end Highlighter.Regex
