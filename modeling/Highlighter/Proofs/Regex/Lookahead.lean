import Highlighter.Proofs.Regex.Alternatives
import Highlighter.Proofs.Regex.Narrow

/-!
# Expressions in front of something that is looked for

A source that is one branch may be followed by another one that is only looked for. Where that one
reads in its place as it does alone, the two match from the first source's start to the first of the
places where a match of it may stop and the other one matches. These places are the stops of the
first source, with something behind it that may turn one down. The stop of its own match is among
them, and there are none where it has no match.
-/

namespace Highlighter

namespace Regex

/-- Where the matches from a start may stop, the preferred one first. -/
def stops (regex : Regex) (text : Array Char) (start : Nat) : List Nat :=
  (regex.program.ends text { position := start }).map (·.position)

/-- An expression matches up to the first stop of another one, among the stops that this has in
front of something, at which a third one matches. The stop of the other one's own match is among
them, and there is none where it has no match. -/
structure MatchesBefore (joined inFront own look : Regex) : Prop where
  span : ∀ text start, (joined.matchAt? text start).map (·.span) =
    ((inFront.stops text start).find? fun stop => (look.matchAt? text stop).isSome).map
      (Span.mk start)
  among : ∀ text start hit, own.matchAt? text start = some hit →
    hit.span.stop ∈ inFront.stops text start
  fails : ∀ text start, own.matchAt? text start = none → inFront.stops text start = []

variable {text : Array Char} {watched : Nat → Prop} {bound groups : Nat}

/-! ## Running -/

namespace Program

variable {program followed inner joined : Program} {programs : List Program}

theorem RefersTo.shift (h : program.RefersTo (0 < ·)) (offset : Nat) :
    (program.shift offset).RefersTo (offset < ·) := by
  induction program with
  | empty | char _ | anchor _ => trivial
  | seq first second ihfirst ihsecond => exact ⟨ihfirst h.1, ihsecond h.2⟩
  | alt first second ihfirst ihsecond => exact ⟨ihfirst h.1, ihsecond h.2⟩
  | group _ body ih | times body _ _ _ ih | more body _ ih | plus body _ ih | ahead _ body ih
  | behind _ _ body ih | atomic body ih => exact ih h
  | settled first last body ih =>
    rw [Program.shift]
    split <;> exact ih h
  | backref number => exact Nat.lt_add_of_pos_left h

open Classical in
/-- A match knows no groups but those of the program. -/
theorem GroupsUpTo.beyond (h : program.GroupsUpTo bound) {state after : State}
    (hstate : State.Moved 0 bound state state) (hafter : after ∈ program.ends text state) :
    ∀ number, bound < number → after.group? number = none := by
  by_contra hknown
  -- A continuation that accepts what knows other groups finds nothing, as it is never run on that.
  let next : Continuation := fun found =>
    if ∀ number, bound < number → found.group? number = none then none else some found
  have hnext : Continuation.Agrees 0 bound (fun _ _ => True) next fun _ => none := by
    intro found found' hfound
    rw [show next found = none from if_pos hfound.beyond]
    exact .none
  have hrun := run_shift text program h (fun _ _ => True) next _ hnext state state hstate
  rw [run_lists text program next state, run_lists text (program.shift 0)] at hrun
  have hnone :
      ((program.shift 0).ends text state).findSome? (fun _ => (none : Option State)) = none :=
    List.findSome?_eq_none_iff.mpr fun _ _ => rfl
  rw [hnone] at hrun
  have hmissed : (program.ends text state).findSome? next = none := by
    generalize (program.ends text state).findSome? next = result at hrun
    cases hrun
    rfl
  have hfound := List.findSome?_eq_none_iff.mp hmissed after hafter
  rw [show next after = some after from if_neg hknown] at hfound
  cases hfound

/-- Where no other groups are known, a lookahead leads back to where it began if what is looked for
matches there on its own. -/
theorem position_run_ahead (hrefers : inner.RefersTo (0 < ·)) (hgroups : inner.GroupsUpTo bound)
    {state : State} (hbeyond : ∀ number, groups < number → state.group? number = none) :
    ((Program.ahead false (inner.shift groups)).run text some state).map (·.position) =
      if (inner.run text some { position := state.position }).isSome then some state.position
      else none := by
  let next : Continuation := fun after => some { after with position := state.position }
  let fresh : State := { position := state.position }
  have hahead : (Program.ahead false (inner.shift groups)).run text some state =
      (inner.shift groups).run text next state := rfl
  have hnext : Continuation.Alike (groups < ·) next next :=
    fun _ _ hafter => .some (hafter.moveTo _)
  have hfresh : State.Alike (groups < ·) fresh state := ⟨rfl, hbeyond⟩
  have hsame := (hrefers.shift groups).alike text next next hnext fresh state hfresh
  have hagrees : Continuation.Agrees groups bound
      (fun found found' => found'.position = found.position) next next := fun _ _ _ => .some rfl
  have hmoved := run_shift text inner hgroups _ next next hagrees fresh fresh (.start _)
  have hown : (inner.run text next fresh).map (·.position) =
      if (inner.run text some fresh).isSome then some state.position else none := by
    rw [run_lists text inner next fresh, run_some text inner fresh]
    cases inner.ends text fresh <;> rfl
  rw [hahead, ← hown]
  generalize (inner.shift groups).run text next state = result at hsame ⊢
  generalize (inner.shift groups).run text next fresh = result' at hsame hmoved
  generalize inner.run text next fresh = result'' at hmoved ⊢
  cases hsame with
  | none =>
    cases hmoved
    rfl
  | some hsame =>
    cases hmoved with
    | some hposition => exact congrArg some (hsame.position.trans hposition)

theorem position_of_alike {result result' : Option State}
    (h : Option.Rel (State.Alike watched) result result') :
    result.map (·.position) = result'.map (·.position) := by
  cases h with
  | some h => exact congrArg some h.position.symm
  | none => rfl

/-- The first of some states that leads back to itself because of its position. -/
theorem position_findSome? {found : List State} {next : Continuation} {accepts : Nat → Bool}
    (h : ∀ state ∈ found, (next state).map (·.position) =
      if accepts state.position then some state.position else none) :
    (found.findSome? next).map (·.position) = (found.map (·.position)).find? accepts := by
  induction found with
  | nil => rfl
  | cons state found ih =>
    obtain ⟨hfirst, hothers⟩ := List.forall_mem_cons.mp h
    rw [List.findSome?_cons, List.map_cons, List.find?_cons, ← ih hothers]
    cases hnext : next state with
    | some after =>
      rw [hnext] at hfirst
      cases haccepts : accepts state.position with
      | true =>
        rw [haccepts] at hfirst
        exact hfirst
      | false =>
        rw [haccepts] at hfirst
        cases hfirst
    | none =>
      rw [hnext] at hfirst
      cases haccepts : accepts state.position with
      | true =>
        rw [haccepts] at hfirst
        cases hfirst
      | false => rfl

/-- In front of something that is looked for, a program stops at the first of its ends at which that
matches on its own. -/
theorem position_run_before_ahead
    (hjoined : Program.Alike text watched joined
      (.seqs (programs ++ [.ahead false (inner.shift groups)])))
    (hfollowed : Program.Alike text watched followed (.seqs programs))
    (hgroups : followed.GroupsUpTo groups) (hinner : inner.GroupsUpTo bound)
    (hrefers : inner.RefersTo (0 < ·)) (hwatched : (inner.shift groups).RefersTo watched)
    (start : Nat) :
    (joined.run text some { position := start }).map (·.position) =
      ((followed.ends text { position := start }).map (·.position)).find? fun stop =>
        (inner.run text some { position := stop }).isSome := by
  have hahead : Continuation.Alike watched
      ((Program.ahead false (inner.shift groups)).run text some)
      ((Program.ahead false (inner.shift groups)).run text some) :=
    Step.Alike.alone (Alike.ahead (hwatched.alike text) false)
  have hstart : State.Alike watched { position := start } { position := start } := .refl _
  have hwhole := Step.Alike.alone hjoined _ _ hstart
  have hfront := hfollowed _ _ hahead _ _ hstart
  have hrow : (Program.seqs (programs ++ [.ahead false (inner.shift groups)])).run text some =
      (Program.seqs programs).run text ((Program.ahead false (inner.shift groups)).run text some) :=
    run_seqs_append programs [.ahead false (inner.shift groups)] some
  rw [hrow] at hwhole
  rw [position_of_alike (State.Alike.option_trans hwhole (State.Alike.option_symm hfront)),
    run_lists text followed]
  refine position_findSome? fun state hstate => position_run_ahead hrefers hinner ?_
  exact hgroups.beyond (.start start) hstate

end Program

namespace Tree

variable {flags : Flags} {before after last : Progress} {source : List Char} {fuel levels : Nat}
  {rest : List Char} {items : List Tree} {tree : Tree} {referenced referenced' : List Nat}

/-! ## Reading -/

/-- What starts a lookahead may follow a source. -/
theorem follows_lookahead (rest : List Char) : Follows ('(' :: '?' :: '=' :: rest) where
  head := ⟨'(', by decide, rfl⟩
  noComment hcomment := by simp at hcomment

/-- A lookahead with nothing behind it. -/
theorem readItems_lookahead
    (h : readExpression levels before source = .ok (tree, last, []))
    (hblank : last.flags.ignoreBlank = false)
    (hfuel : ('(' :: '?' :: '=' :: (source ++ [')'])).length ≤ fuel) :
    readItems (innerReader (levels + 1)) fuel before ('(' :: '?' :: '=' :: (source ++ [')'])) =
      .ok ([.look .ahead false tree], last, []) := by
  have hskip : skip before ('(' :: '?' :: '=' :: (source ++ [')'])) =
      .ok ('(' :: '?' :: '=' :: (source ++ [')'])) :=
    skipIgnored_id (by decide) (fun _ hcomment => by simp at hcomment) (by decide) _ _
  have hopen : skip before ('?' :: '=' :: (source ++ [')'])) =
      .ok ('?' :: '=' :: (source ++ [')'])) :=
    skipIgnored_id (by decide) (fun heq => absurd heq (by decide)) (by decide) _ _
  have hparen : readParenthesis (readExpression levels) before ('?' :: '=' :: (source ++ [')'])) =
      .ok (.look .ahead false tree, last, []) := by
    have hend : skip last [')'] = .ok [')'] := (readPiece_end (by decide) none last []).1
    have hclose : readClose last [')'] = .ok ((), last, []) := bind_eq_of_ok hend
    have hbody : readBody (readExpression levels) before (source ++ [')']) = .ok (tree, last, []) :=
      (bind_eq_of_ok (readExpression_close h hblank)).trans (bind_eq_of_ok hclose)
    rw [readParenthesis_eq, bind_eq_of_ok hopen]
    exact bind_eq_of_ok hbody
  have hatom : readAtom (innerReader (levels + 1)) before ('(' :: '?' :: '=' :: (source ++ [')'])) =
      .ok (.look .ahead false tree, last, []) := by
    rw [readAtom_eq, bind_eq_of_ok hskip]
    exact hparen
  have hpiece : readPiece (innerReader (levels + 1)) before
      ('(' :: '?' :: '=' :: (source ++ [')'])) =
        .ok (.look .ahead false tree, last, []) := by
    rw [readPiece_eq, bind_eq_of_ok hatom]
    rfl
  obtain ⟨fuel, rfl⟩ := Nat.exists_eq_succ_of_ne_zero (by
    rw [List.length_cons] at hfuel
    omega : fuel ≠ 0)
  exact readItems_of_piece (List.cons_ne_nil _ _) hpiece (by simp) (readItems_nil _ fuel last)

/-- A branch in front of a lookahead. -/
theorem readExpression_lookahead {front : List Char}
    (hfront : readItems (innerReader (levels + 1)) front.length before front =
      .ok (items, after, []))
    (hafter : after.flags.ignoreBlank = false)
    (h : readExpression levels after source = .ok (tree, last, []))
    (hblank : last.flags.ignoreBlank = false) (hmix : mixesReferences last = false) :
    readExpression (levels + 1) before (front ++ '(' :: '?' :: '=' :: (source ++ [')'])) =
      .ok (ofItems (items ++ [.look .ahead false tree]), last, []) := by
  have htail := follows_lookahead (source ++ [')'])
  have hitems : readItems (innerReader (levels + 1))
      (front ++ '(' :: '?' :: '=' :: (source ++ [')'])).length before
      (front ++ '(' :: '?' :: '=' :: (source ++ [')'])) =
        .ok (items ++ [.look .ahead false tree], last, []) := by
    refine (readItems_append htail (innerReader_goesOn htail _) (Nat.le_refl _) (Nat.le_refl _)
      hfront).resolve_left (fun hlost => ?_) fun fuel hfuel => readItems_lookahead h hblank hfuel
    cases hafter.symm.trans hlost.1
  have hbranch : readBranch (innerReader (levels + 1)) before
      (front ++ '(' :: '?' :: '=' :: (source ++ [')'])) =
        .ok (ofItems (items ++ [.look .ahead false tree]), last, []) := bind_eq_of_ok hitems
  rw [readExpression_eq]
  exact readChoice_eq_ok_iff.mpr
    ⟨_, last, [], [], hbranch, readMore_nil _ _ last, rfl, fun _ => hmix⟩

/-- A source is one branch and may be followed by another one that is only looked for: it does not
leave blanks ignored, the other one reads in its place behind it as it does alone, and named groups
do not stand next to numbered references. -/
def ReadsBefore (flags : Flags) (source follow : String) : Prop :=
  ∃ items after last looked,
    Tree.read flags source = .ok ⟨ofItems items, after.groups, after.referenced⟩ ∧
      readItems (innerReader maxLevels) source.toList.length { flags := flags } source.toList =
        .ok (items, after, []) ∧
      after.flags.ignoreBlank = false ∧ InPlace flags after [follow] [looked] last ∧
      mixesReferences last = false

theorem toList_concat_lookahead (source follow : String) :
    (Pattern.concat [source, Pattern.lookahead follow]).toList =
      source.toList ++ '(' :: '?' :: '=' :: (follow.toList ++ [')']) := by
  simp [Pattern.concat, Pattern.lookahead, String.join]

/-- One branch with another source looked for behind it. -/
theorem read_concat_lookahead {source follow : String}
    (hitems : readItems (innerReader maxLevels) source.toList.length { flags := flags }
      source.toList = .ok (items, after, []))
    (hafter : after.flags.ignoreBlank = false)
    (h : readExpression (maxLevels - 1) after follow.toList = .ok (tree, last, []))
    (hblank : last.flags.ignoreBlank = false) (hmix : mixesReferences last = false) :
    Tree.read flags (Pattern.concat [source, Pattern.lookahead follow]) =
      .ok ⟨ofItems (items ++ [.look .ahead false tree]), last.groups, last.referenced⟩ := by
  have hexpression : readExpression maxLevels { flags := flags }
      (source.toList ++ '(' :: '?' :: '=' :: (follow.toList ++ [')'])) = .ok (_, last, []) :=
    readExpression_lookahead hitems hafter h hblank hmix
  rw [Tree.read, toList_concat_lookahead, bind_eq_of_ok hexpression]
  rfl

/-- An expression as it matches where something follows that may turn a match down. -/
def Source.inFront (read : Source) : Except Error Regex := do
  return ⟨← read.tree.plan read.referenced true, read.groups⟩

/-! ## Numbers -/

theorem consecutive_append {numbers numbers' : List Nat} {start : Nat}
    (h : numbers = List.range' start numbers.length)
    (h' : numbers' = List.range' (start + numbers.length) numbers'.length) :
    Consecutive (numbers ++ numbers') := by
  refine ⟨start, ?_⟩
  rw [List.length_append, ← List.range'_append_1, ← h, ← h']

theorem shift_zero_program (program : Program) : program.shift 0 = program := by
  induction program with
  | settled first last body ih => simp [Program.shift, ih]
  | _ => simp_all [Program.shift]

/-- A source behind others references none of their groups. -/
theorem Extends.sameReferences {alone next : Progress} {numbers : List Nat}
    (h : Extends before alone next) (hpositive : ∀ number ∈ alone.referenced, 0 < number)
    (hnumbers : ∀ number ∈ numbers, number ≤ before.groups) :
    SameReferences 0 before.referenced next.referenced numbers := by
  intro number hmem
  have hnot : number + 0 ∉ alone.referenced.map (· + before.groups) := fun hin => by
    obtain ⟨own, hown, heq⟩ := List.mem_map.mp hin
    have hpos := hpositive own hown
    have hle := hnumbers number hmem
    omega
  rw [Bool.eq_iff_iff, List.contains_iff_mem, List.contains_iff_mem, h.referenced,
    List.mem_append, or_iff_right hnot, Nat.add_zero]

/-- Where the same groups are referenced, a tree is planned in the same way. -/
theorem plan_of_sameReferences (hard : Bool)
    (h : SameReferences 0 referenced referenced' tree.groupNumbers) :
    tree.plan referenced' hard = tree.plan referenced hard := by
  have hplan := plan_shift hard tree h
  rw [shift_zero] at hplan
  rw [hplan]
  cases tree.plan referenced hard with
  | error error => rfl
  | ok program => exact congrArg Except.ok (shift_zero_program program)

/-- A row of trees in front of a lookahead: it stops at the first place where the row may stop and
what is looked for matches on its own. -/
theorem exists_plan_looking {followed inner : Program}
    (hnumbers : Consecutive (groupNumbersOf items ++ (tree.shift groups).groupNumbers))
    (hbounds : ∀ number ∈ groupNumbersOf items, 0 < number ∧ number ≤ groups)
    (hrefers : ∀ item ∈ items, ∀ number ∈ item.references, number ∈ referenced)
    (hinside : ∀ number ∈ (tree.shift groups).references, number ∈ referenced)
    (hpositive : ∀ number ∈ tree.references, 0 < number) (hclosed : inner.GroupsUpTo bound)
    (hfollowed : (ofItems items).plan referenced true = .ok followed)
    (halone : tree.plan referenced' false = .ok inner)
    (hinner : (tree.shift groups).plan referenced false = .ok (inner.shift groups)) :
    ∃ joined, (ofItems (items ++ [.look .ahead false (tree.shift groups)])).plan referenced false =
        .ok joined ∧
      ∀ text start, (joined.run text some { position := start }).map (·.position) =
        ((followed.ends text { position := start }).map (·.position)).find? fun stop =>
          (inner.run text some { position := stop }).isSome := by
  have hplans : ∀ text, ∃ programs joined,
      (ofItems (items ++ [.look .ahead false (tree.shift groups)])).plan referenced false =
          .ok joined ∧
        Program.Alike text (· ∈ referenced) followed (.seqs programs) ∧
        Program.Alike text (· ∈ referenced) joined
          (.seqs (programs ++ [.ahead false (inner.shift groups)])) := by
    intro text
    obtain ⟨programs, hprograms, halike⟩ :=
      exists_plannings_ofItems text hnumbers.of_append.1 hrefers hfollowed
    obtain ⟨joined, hjoined, halike'⟩ := exists_plan_before_look text hnumbers hrefers hinside
      hprograms hinner
    exact ⟨programs, joined, hjoined, halike, halike'⟩
  obtain ⟨-, joined, hjoined, -⟩ := hplans #[]
  refine ⟨joined, hjoined, fun text start => ?_⟩
  obtain ⟨programs, joined', hjoined', halike, halike'⟩ := hplans text
  cases hjoined.symm.trans hjoined'
  exact Program.position_run_before_ahead halike' halike
    (plan_groupsUpTo (fun number hmem => hbounds number (ofItems_groupNumbers items ▸ hmem))
      hfollowed)
    hclosed (plan_refersTo hpositive halone) (plan_refersTo hinside hinner) start

/-- The stop of an expression's own match is among those that it has in front of others, and without
a match it has none there. -/
theorem Source.exists_inFront {read : Source} {own : Regex}
    (hnumbers : Consecutive read.tree.groupNumbers)
    (hrefers : ∀ number ∈ read.tree.references, number ∈ read.referenced)
    (h : read.regex = .ok own) :
    ∃ inFront, read.inFront = .ok inFront ∧ ∀ text start,
      (∀ hit, own.matchAt? text start = some hit → hit.span.stop ∈ inFront.stops text start) ∧
        (own.matchAt? text start = none → inFront.stops text start = []) := by
  obtain ⟨program, hprogram, hpure⟩ := ok_of_bind_eq_ok h
  cases hpure
  obtain ⟨followed, hfollowed, -⟩ := plan_narrows #[] hnumbers hrefers hprogram
  refine ⟨⟨followed, read.groups⟩, bind_eq_of_ok hfollowed, fun text start => ?_⟩
  obtain ⟨followed', hfollowed', hnarrows⟩ := plan_narrows text hnumbers hrefers hprogram
  cases hfollowed.symm.trans hfollowed'
  have hstart : State.Alike (· ∈ read.referenced) { position := start } { position := start } :=
    .refl _
  have hrun := Program.run_some text program { position := start }
  constructor
  · intro hit hhit
    obtain ⟨after, hafter, rfl⟩ := Option.map_eq_some_iff.mp hhit
    rw [hrun] at hafter
    obtain ⟨after', hafter', hsame⟩ := hnarrows.within _ _ hstart after (List.mem_of_head? hafter)
    exact List.mem_map.mpr ⟨after', hafter', hsame.position⟩
  · intro hnone
    rw [matchAt?, Option.map_eq_none_iff, hrun, List.head?_eq_none_iff] at hnone
    exact List.map_eq_nil_iff.mpr (hnarrows.fails _ _ hstart hnone)

/-- The first source and the other one together match up to a stop of the first one at which the
other one matches. -/
theorem ReadsBefore.exists_matchesBefore {flags : Flags} {source follow : String}
    {own look : Regex} (h : ReadsBefore flags source follow)
    (hown : (Tree.read flags source >>= Source.regex) = .ok own)
    (hlook : (Tree.read flags follow >>= Source.regex) = .ok look) :
    ∃ joined inFront,
      (Tree.read flags (Pattern.concat [source, Pattern.lookahead follow]) >>= Source.regex) =
        .ok joined ∧ (Tree.read flags source >>= Source.inFront) = .ok inFront ∧
      MatchesBefore joined inFront own look := by
  obtain ⟨items, after, last, looked, hsource, hitems, hblank, hinPlace, hmix⟩ := h
  have hfollow : Tree.read flags follow = .ok looked := (List.cons_eq_cons.mp hinPlace.read_eq).1
  rw [bind_eq_of_ok hfollow] at hlook
  rw [bind_eq_of_ok hsource] at hown
  cases hinPlace with
  | @cons _ alone next _ _ _ tree _ halone hplace hnext hblank' hpositive hrest =>
    cases hrest
    have hfront := readItems_took (innerReader_takes maxLevels) hitems
    have hbehind := readExpression_took _ hplace
    have hbelow : ∀ number ∈ after.referenced, number ≤ after.groups := fun number hmem =>
      (hfront.referenced number hmem).resolve_left List.not_mem_nil
    have hconsecutive :
        Consecutive (groupNumbersOf items ++ (tree.shift after.groups).groupNumbers) :=
      consecutive_append hfront.numbers (by
        rw [Nat.add_right_comm, ← hfront.groups]
        exact hbehind.numbers)
    have hkept : ∀ number ∈ referencesOf items, number ∈ after.referenced := hfront.references
    have hrefers := forall_mem_referencesOf.mp fun number hmem => hbehind.kept (hkept number hmem)
    have hfirst : SameReferences 0 after.referenced last.referenced (ofItems items).groupNumbers :=
      hnext.sameReferences hpositive fun number hmem =>
        (hfront.bounds (ofItems_groupNumbers items ▸ hmem)).2
    have hnamed := (InPlace.cons halone hplace hnext hblank' hpositive .nil).named hbelow
    cases hnamed with
    | cons hclosed hsecond hrest =>
    obtain ⟨inFront, hinFront, hnarrows⟩ := Source.exists_inFront
      (by rw [ofItems_groupNumbers]; exact hconsecutive.of_append.1)
      (by rw [ofItems_references]; exact hkept) hown
    obtain ⟨followed, hfollowed, hpure⟩ := ok_of_bind_eq_ok hinFront
    cases hpure
    obtain ⟨inner, hinner, hpure⟩ := ok_of_bind_eq_ok hlook
    cases hpure
    rw [← plan_of_sameReferences true hfirst] at hfollowed
    have hinner' : (tree.shift after.groups).plan last.referenced false =
        .ok (inner.shift after.groups) := by
      rw [plan_shift false tree hsecond, hinner]
      rfl
    have hpositive' : ∀ number ∈ tree.references, 0 < number := fun number hmem =>
      hpositive number ((readExpression_took _ halone).references hmem)
    obtain ⟨joined, hjoined, hspan⟩ := exists_plan_looking hconsecutive
      (fun number hmem => hfront.bounds hmem) hrefers hbehind.references hpositive'
      (plan_groupsUpTo hclosed.numbers hinner) hfollowed hinner hinner'
    refine ⟨⟨joined, last.groups⟩, _, ?_, (bind_eq_of_ok hsource).trans hinFront,
      fun text start => ?_, fun text start => (hnarrows text start).1,
      fun text start => (hnarrows text start).2⟩
    · rw [bind_eq_of_ok (read_concat_lookahead hitems hblank hplace hblank' hmix)]
      exact bind_eq_of_ok hjoined
    · rw [span_matchAt?, hspan]
      simp only [matchAt?, Option.isSome_map]
      rfl

end Tree

end Regex

end Highlighter
