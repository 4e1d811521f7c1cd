import Highlighter.Proofs.Regex.Joined
import Highlighter.Proofs.Regex.Plan
import Highlighter.Proofs.Regex.Run

/-!
# Running joined expressions

The program of joined sources tries one source after the other, and each of them runs as it does on
its own. It does not matter whether a source is settled as a whole, alone or together with others:
nothing follows it, so its first match is its only one.
-/

namespace Highlighter.Regex

/-- No group has taken part yet. -/
def State.Fresh (state : State) : Prop :=
  ∀ number, state.group? number = none

theorem State.Fresh.forget {state : State} (h : state.Fresh) (first last : Nat) :
    (state.forget first last).Fresh := by
  intro number
  rw [group?_forget, h number, ite_self]

theorem State.fresh_start (position : Nat) : State.Fresh { position := position } :=
  fun _ => rfl

theorem State.Fresh.moved {offset bound : Nat} {state state' : State} (h : state.Fresh)
    (h' : state'.Fresh) (hposition : state'.position = state.position) :
    State.Moved offset bound state state' :=
  ⟨hposition, fun number => by rw [h, h'], fun number _ => h' number, fun number _ => h number⟩

/-- A match in a group of its own, in front of whose groups stand `offset` others, that group
included. -/
structure State.Grouped (offset bound start : Nat) (after after' : State) : Prop where
  position : after'.position = after.position
  whole : after'.group? offset = some ⟨start, after.position⟩
  moved : ∀ number, 0 < number → after'.group? (number + offset) = after.group? number
  below : ∀ number, number < offset → after'.group? number = none
  beyond : ∀ number, bound < number → after.group? number = none

/-- The second program matches where the first one does, in a group of its own. -/
def Program.Tries (text : Array Char) (offset bound : Nat) (alone choice : Program) : Prop :=
  ∀ state state' : State, state.Fresh → state'.Fresh → state'.position = state.position →
    Option.Rel (State.Grouped offset bound state.position) (alone.run text some state)
      (choice.run text some state')

namespace Program

variable {text : Array Char} {offset bound : Nat} {alone choice : Program}

theorem tries_group (hgroups : alone.GroupsUpTo bound) :
    Tries text offset bound alone (.group offset (alone.shift offset)) := by
  intro state state' hfresh hfresh' hposition
  refine run_shift text alone hgroups _ _ _ (fun after after' hafter => .some ?_) _ _
    (hfresh.moved hfresh' hposition)
  have hgroup : ∀ number, (after'.close offset state'.position).group? number =
      if number = offset then some ⟨state'.position, after'.position⟩ else after'.group? number :=
    State.group?_close after' offset state'.position
  refine ⟨hafter.position, ?_, fun number hpositive => ?_, fun number hless => ?_, hafter.beyond⟩
  · rw [hgroup, if_pos rfl, hposition, hafter.position]
  · rw [hgroup, if_neg (by omega), hafter.moved]
  · rw [hgroup, if_neg (Nat.ne_of_lt hless), hafter.below number (Nat.le_of_lt hless)]

theorem Tries.settled_left (h : Tries text offset bound alone choice) (first last : Nat) :
    Tries text offset bound (.settled first last alone) choice := by
  intro state state' hfresh hfresh' hposition
  rw [run_settled]
  exact h _ _ (hfresh.forget first last) hfresh' hposition

theorem Tries.settled_right (h : Tries text offset bound alone choice) (first last : Nat) :
    Tries text offset bound alone (.settled first last choice) := by
  intro state state' hfresh hfresh' hposition
  rw [run_settled]
  exact h _ _ hfresh (hfresh'.forget first last) hposition

theorem run_alts {choices : List Program} (hsome : choices ≠ []) (state : State) :
    (alts choices).run text some state =
      choices.findSome? fun choice => choice.run text some state := by
  induction choices with
  | nil => exact absurd rfl hsome
  | cons choice choices ih =>
    cases choices with
    | nil =>
      rw [List.findSome?_cons, List.findSome?_nil]
      cases hchoice : choice.run text some state with
      | none => exact hchoice
      | some after => exact hchoice
    | cons other choices =>
      rw [List.findSome?_cons, ← ih (List.cons_ne_nil _ _)]
      have halt : alts (choice :: other :: choices) = .alt choice (alts (other :: choices)) := rfl
      rw [halt, run, prefer, if_pos rfl]
      cases choice.run text some state <;> rfl

end Program

namespace Tree

open Program (Tries)

variable {text : Array Char} {offset bound : Nat} {referenced referenced' : List Nat} {tree : Tree}
  {alone choice : Program}

theorem settlePart_single {parts : List Program} (h : settlePart [tree] = .ok parts) :
    ∃ first last body, tree.settle = .ok body ∧ parts = [.settled first last body] := by
  obtain ⟨bodies, hbodies, h⟩ := ok_of_bind_eq_ok h
  obtain ⟨body, hbody, hbodies⟩ := ok_of_bind_eq_ok hbodies
  cases hbodies
  split at h
  · cases h
    exact ⟨_, _, body, hbody, rfl⟩
  · cases h
    exact ⟨_, _, body, hbody, rfl⟩

theorem plan_of_not_isHard (heasy : tree.isHard referenced = false)
    (h : tree.plan referenced false = .ok alone) :
    ∃ first last body, tree.settle = .ok body ∧ alone = .settled first last body := by
  unfold plan at h
  rw [heasy] at h
  obtain ⟨parts, hparts, h⟩ := ok_of_bind_eq_ok h
  obtain ⟨first, last, body, hbody, rfl⟩ := settlePart_single hparts
  cases h
  exact ⟨first, last, body, hbody, rfl⟩

/-- A choice that is settled together with the others. -/
theorem tries_settle (hnumbers : ∀ number ∈ tree.groupNumbers, 0 < number ∧ number ≤ bound)
    (heasy : tree.isHard referenced = false) (halone : tree.plan referenced false = .ok alone)
    (hchoice : (group offset (tree.shift offset)).settle = .ok choice) :
    Tries text offset bound alone choice := by
  obtain ⟨first, last, body, hbody, rfl⟩ := plan_of_not_isHard heasy halone
  rw [settle, settle_shift, hbody] at hchoice
  cases hchoice
  exact (Program.tries_group (settle_groupsUpTo hnumbers hbody)).settled_left first last

/-- A group that nothing refers to adds nothing that is hard. -/
theorem isHard_group
    (hsame : SameReferences offset referenced referenced' tree.groupNumbers)
    (hunnamed : offset ∉ referenced') :
    (group offset (tree.shift offset)).isHard referenced' = tree.isHard referenced := by
  have hcontains : referenced'.contains offset = false := by simpa using hunnamed
  rw [isHard, isHard_shift tree hsame, hcontains, Bool.false_or]

/-- A choice with a plan of its own. -/
theorem tries_plan (hnumbers : ∀ number ∈ tree.groupNumbers, 0 < number ∧ number ≤ bound)
    (hsame : SameReferences offset referenced referenced' tree.groupNumbers)
    (hunnamed : offset ∉ referenced') (halone : tree.plan referenced false = .ok alone)
    (hchoice : (group offset (tree.shift offset)).plan referenced' false = .ok choice) :
    Tries text offset bound alone choice := by
  have hhard := isHard_group hsame hunnamed
  cases hcase : tree.isHard referenced with
  | false =>
    rw [hcase] at hhard
    obtain ⟨first, last, body, hbody, rfl⟩ := plan_of_not_isHard hhard hchoice
    exact (tries_settle hnumbers hcase halone hbody).settled_right first last
  | true =>
    unfold plan at hchoice
    rw [hhard, hcase] at hchoice
    simp only [plan_shift false tree hsame, halone] at hchoice
    cases hchoice
    exact Program.tries_group (plan_groupsUpTo hnumbers halone)

/-! ## References to groups of joined sources -/

variable {groups : Nat} {read : Source} {reads : List Source}

theorem lt_of_mem_wrapReferences (hclosed : ∀ read ∈ reads, read.Closed) {number : Nat}
    (hmem : number ∈ wrapReferences groups reads) : groups + 1 < number := by
  induction reads generalizing groups with
  | nil => cases hmem
  | cons read reads ih =>
    obtain ⟨hfirst, hrest⟩ := List.forall_mem_cons.mp hclosed
    rw [wrapReferences, List.mem_append] at hmem
    rcases hmem with hmem | hmem
    · have hless := ih hrest hmem
      omega
    · obtain ⟨other, hother, rfl⟩ := List.mem_map.mp hmem
      obtain ⟨hpositive, -⟩ := hfirst.referenced other hother
      omega

/-- Beyond the first `groups` groups, just the groups that these sources reference are
referenced. -/
def Covers (referenced : List Nat) (groups : Nat) (reads : List Source) : Prop :=
  ∀ number, groups < number → (number ∈ referenced ↔ number ∈ wrapReferences groups reads)

theorem Covers.not_mem (h : Covers referenced' groups reads)
    (hclosed : ∀ read ∈ reads, read.Closed) : groups + 1 ∉ referenced' := by
  rw [h _ (Nat.lt_succ_self groups)]
  intro hmem
  exact Nat.lt_irrefl _ (lt_of_mem_wrapReferences hclosed hmem)

theorem Covers.sameReferences (h : Covers referenced' groups (read :: reads))
    (hclosed : ∀ other ∈ read :: reads, other.Closed) :
    SameReferences (groups + 1) read.referenced referenced' read.tree.groupNumbers := by
  obtain ⟨hfirst, hrest⟩ := List.forall_mem_cons.mp hclosed
  intro number hnumber
  obtain ⟨hpositive, hle⟩ := hfirst.numbers number hnumber
  have hlater : number + (groups + 1) ∉ wrapReferences (groups + 1 + read.groups) reads := by
    intro hmem
    have hless := lt_of_mem_wrapReferences hrest hmem
    omega
  have hown : number + (groups + 1) ∈ read.referenced.map (· + (groups + 1)) ↔
      number ∈ read.referenced := by
    simp only [List.mem_map, Nat.add_right_cancel_iff, exists_eq_right]
  have hiff : number + (groups + 1) ∈ referenced' ↔ number ∈ read.referenced := by
    rw [h _ (by omega), wrapReferences, List.mem_append, or_iff_right hlater, hown]
  rw [Bool.eq_iff_iff, List.contains_iff_mem, List.contains_iff_mem]
  exact hiff

theorem Covers.tail (h : Covers referenced' groups (read :: reads))
    (hclosed : ∀ other ∈ read :: reads, other.Closed) :
    Covers referenced' (groups + 1 + read.groups) reads := by
  obtain ⟨hfirst, -⟩ := List.forall_mem_cons.mp hclosed
  intro number hless
  rw [h _ (by omega), wrapReferences, List.mem_append, or_iff_left]
  intro hmem
  obtain ⟨other, hother, rfl⟩ := List.mem_map.mp hmem
  obtain ⟨-, hle⟩ := hfirst.referenced other hother
  omega

/-! ## Choices -/

/-- The expression of what has been read. -/
def Source.regex (read : Source) : Except Error Regex := do
  return ⟨← read.tree.plan read.referenced false, read.groups⟩

/-- One program for each expression, which matches in a group of its own. -/
inductive Choices (text : Array Char) : Nat → List Regex → List Program → Prop where
  | nil {groups : Nat} : Choices text groups [] []
  | cons {groups : Nat} {regex : Regex} {regexes : List Regex} {choice : Program}
      {choices : List Program}
      (hfirst : Tries text (groups + 1) regex.groups regex.program choice)
      (hrest : Choices text (groups + 1 + regex.groups) regexes choices) :
      Choices text groups (regex :: regexes) (choice :: choices)

theorem map_regex_cons {regexes : List Regex}
    (h : (read :: reads).map Source.regex = regexes.map .ok) :
    ∃ program others, read.tree.plan read.referenced false = .ok program ∧
      regexes = ⟨program, read.groups⟩ :: others ∧ reads.map Source.regex = others.map .ok := by
  cases regexes with
  | nil => cases h
  | cons regex others =>
    rw [List.map_cons, List.map_cons, List.cons.injEq] at h
    obtain ⟨program, hprogram, hpure⟩ := ok_of_bind_eq_ok h.1
    cases hpure
    exact ⟨program, others, hprogram, rfl, h.2⟩

theorem choices_settle {regexes : List Regex} {choices : List Program}
    (hclosed : ∀ read ∈ reads, read.Closed) (hcovers : Covers referenced' groups reads)
    (hregexes : reads.map Source.regex = regexes.map .ok)
    (heasy : anyHard referenced' (wrap groups reads) = false)
    (h : settleAll (wrap groups reads) = .ok choices) : Choices text groups regexes choices := by
  induction reads generalizing groups regexes choices with
  | nil =>
    cases h
    cases regexes with
    | nil => exact .nil
    | cons regex regexes => cases hregexes
  | cons read reads ih =>
    obtain ⟨program, others, hprogram, rfl, hothers⟩ := map_regex_cons hregexes
    obtain ⟨choice, hchoice, h⟩ := ok_of_bind_eq_ok h
    obtain ⟨rest, hrest, hpure⟩ := ok_of_bind_eq_ok h
    cases hpure
    obtain ⟨hfirst, hclosed'⟩ := List.forall_mem_cons.mp hclosed
    rw [wrap, anyHard, Bool.or_eq_false_iff, isHard, Bool.or_eq_false_iff,
      isHard_shift _ (hcovers.sameReferences hclosed)] at heasy
    exact .cons
      (tries_settle hfirst.numbers heasy.1.2 hprogram hchoice)
      (ih hclosed' (hcovers.tail hclosed) hothers heasy.2 hrest)

theorem choices_plan {regexes : List Regex} {choices : List Program}
    (hclosed : ∀ read ∈ reads, read.Closed) (hcovers : Covers referenced' groups reads)
    (hregexes : reads.map Source.regex = regexes.map .ok)
    (h : allOk (planAll referenced' false (wrap groups reads)) = .ok choices) :
    Choices text groups regexes choices := by
  induction reads generalizing groups regexes choices with
  | nil =>
    cases h
    cases regexes with
    | nil => exact .nil
    | cons regex regexes => cases hregexes
  | cons read reads ih =>
    obtain ⟨program, others, hprogram, rfl, hothers⟩ := map_regex_cons hregexes
    obtain ⟨choice, hchoice, h⟩ := ok_of_bind_eq_ok h
    obtain ⟨rest, hrest, hpure⟩ := ok_of_bind_eq_ok h
    cases hpure
    obtain ⟨hfirst, hclosed'⟩ := List.forall_mem_cons.mp hclosed
    exact .cons
      (tries_plan hfirst.numbers
        (hcovers.sameReferences hclosed) (hcovers.not_mem hclosed) hprogram hchoice)
      (ih hclosed' (hcovers.tail hclosed) hothers hrest)

/-! ## Running the joined expression -/

theorem Choices.ne_nil {regexes : List Regex} {choices : List Program}
    (h : Choices text groups regexes choices) (hsome : regexes ≠ []) : choices ≠ [] := by
  cases h with
  | nil => exact absurd rfl hsome
  | cons => exact List.cons_ne_nil _ _

/-- The program runs each of the others in turn, once no group has taken part. -/
def RunsEach (text : Array Char) (program : Program) (choices : List Program) : Prop :=
  ∀ state : State, state.Fresh → ∃ state' : State, state'.Fresh ∧
    state'.position = state.position ∧
    program.run text some state = choices.findSome? fun choice => choice.run text some state'

theorem runsEach_alts {choices : List Program} (hsome : choices ≠ []) :
    RunsEach text (.alts choices) choices :=
  fun state hfresh => ⟨state, hfresh, rfl, Program.run_alts hsome state⟩

theorem RunsEach.settled {program : Program} {choices : List Program}
    (h : RunsEach text program choices) (first last : Nat) :
    RunsEach text (.settled first last program) choices := by
  intro state hfresh
  obtain ⟨state', hfresh', hposition, hrun⟩ := h _ (hfresh.forget first last)
  exact ⟨state', hfresh', hposition, by rw [Program.run_settled, hrun]⟩

/-- The program of joined sources tries one program for each of them. -/
theorem exists_choices {regexes : List Regex} {program : Program} (hsome : reads ≠ [])
    (hclosed : ∀ read ∈ reads, read.Closed)
    (hregexes : reads.map Source.regex = regexes.map .ok)
    (h : (ofChoices (wrap 0 reads)).plan (wrapReferences 0 reads) false = .ok program) :
    ∃ choices, Choices text 0 regexes choices ∧ RunsEach text program choices := by
  have hcovers : Covers (wrapReferences 0 reads) 0 reads := fun _ _ => Iff.rfl
  generalize wrapReferences 0 reads = referenced at h hcovers
  have hregexes' : regexes ≠ [] := by
    rintro rfl
    exact hsome (List.map_eq_nil_iff.mp hregexes)
  have hplanned : ∀ {choices : List Program},
      allOk (planAll referenced false (wrap 0 reads)) = .ok choices →
        Choices text 0 regexes choices ∧ RunsEach text (.alts choices) choices := by
    intro choices hchoices
    have hall : Choices text 0 regexes choices :=
      choices_plan hclosed hcovers hregexes hchoices
    exact ⟨hall, runsEach_alts (hall.ne_nil hregexes')⟩
  cases hwrap : wrap 0 reads with
  | nil =>
    cases reads with
    | nil => exact absurd rfl hsome
    | cons read reads => cases hwrap
  | cons first others =>
    rw [hwrap] at h hplanned
    cases others with
    | nil =>
      have hone : allOk (planAll referenced false [first]) = .ok [program] := by
        rw [planAll, planAll, allOk, allOk]
        rw [ofChoices] at h
        rw [h]
        rfl
      exact ⟨_, hplanned hone⟩
    | cons second others =>
      rw [ofChoices] at h
      · cases hhard : (Tree.alt (first :: second :: others)).isHard referenced with
        | false =>
          obtain ⟨start, stop, body, hbody, rfl⟩ := plan_of_not_isHard hhard h
          obtain ⟨choices, hchoices, hpure⟩ := ok_of_bind_eq_ok hbody
          cases hpure
          rw [isHard, ← hwrap] at hhard
          rw [← hwrap] at hchoices
          have hall : Choices text 0 regexes choices :=
            choices_settle hclosed hcovers hregexes hhard hchoices
          exact ⟨choices, hall, (runsEach_alts (hall.ne_nil hregexes')).settled start stop⟩
        | true =>
          unfold plan at h
          rw [hhard] at h
          obtain ⟨choices, hchoices, hpure⟩ := ok_of_bind_eq_ok h
          cases hpure
          exact ⟨choices, hplanned hchoices⟩
      · intro choice heq
        cases heq

end Tree

end Highlighter.Regex
