import Highlighter.Proofs.Regex.Context

/-!
# Ends that are among others

A part that is settled keeps the first of its ends, and a repeated part may have its ends in another
order when it is settled. So with nothing behind it a tree has fewer ends than in front of others,
but these are ends there as well, and it has one wherever it has one there.
-/

namespace Highlighter.Regex

variable {watched : Nat → Prop} {text : Array Char} {referenced : List Nat}

namespace Ends

variable {ends ends' ends'' others others' : Ends}

/-- From alike states, every end of the first is alike to an end of the second. -/
def Within (watched : Nat → Prop) (ends ends' : Ends) : Prop :=
  ∀ state state' : State, state.Alike watched state' →
    ∀ after ∈ ends state, ∃ after' ∈ ends' state', State.Alike watched after after'

namespace Within

theorem trans (h : Within watched ends ends') (h' : Within watched ends' ends'') :
    Within watched ends ends'' := by
  intro state state' hstate after hafter
  obtain ⟨between, hbetween, hsame⟩ := h state state (.refl state) after hafter
  obtain ⟨after', hafter', hsame'⟩ := h' state state' hstate between hbetween
  exact ⟨after', hafter', hsame.trans hsame'⟩

theorem self : Within watched (fun state => [state]) (fun state => [state]) := by
  intro state state' hstate after hafter
  cases List.mem_singleton.mp hafter
  exact ⟨state', List.mem_singleton_self _, hstate⟩

theorem comp (h : Within watched ends ends') (h' : Within watched others others') :
    Within watched (fun state => (ends state).flatMap others)
      (fun state => (ends' state).flatMap others') := by
  intro state state' hstate after hafter
  obtain ⟨between, hbetween, hafter⟩ := List.mem_flatMap.mp hafter
  obtain ⟨between', hbetween', hsame⟩ := h state state' hstate between hbetween
  obtain ⟨after', hafter', hsame'⟩ := h' between between' hsame after hafter
  exact ⟨after', List.mem_flatMap.mpr ⟨between', hbetween', hafter'⟩, hsame'⟩

theorem prefer (h : Within watched ends ends') (h' : Within watched others others')
    (greedy : Bool) :
    Within watched (fun state => Ends.prefer greedy (ends state) (others state))
      (fun state => Ends.prefer greedy (ends' state) (others' state)) := by
  intro state state' hstate after hafter
  rcases mem_prefer.mp hafter with hafter | hafter
  · obtain ⟨after', hafter', hsame⟩ := h state state' hstate after hafter
    exact ⟨after', mem_prefer.mpr (.inl hafter'), hsame⟩
  · obtain ⟨after', hafter', hsame⟩ := h' state state' hstate after hafter
    exact ⟨after', mem_prefer.mpr (.inr hafter'), hsame⟩

theorem copies (h : Within watched ends ends') (count : Nat) :
    Within watched (ends.copies count) (ends'.copies count) := by
  induction count with
  | zero => exact self
  | succ count ih => exact h.comp ih

theorem optionals (h : Within watched ends ends') (greedy : Bool) (count : Nat) :
    Within watched (ends.optionals greedy count) (ends'.optionals greedy count) := by
  induction count with
  | zero => exact self
  | succ count ih => exact (h.comp ih).prefer self greedy

/-- Ends from which a match may go on only if it has moved forward. -/
theorem moves (h : Within watched ends ends') (h' : Within watched others others') :
    Within watched
      (fun state => (ends state).flatMap fun after =>
        if state.position < after.position then others after else [])
      (fun state => (ends' state).flatMap fun after =>
        if state.position < after.position then others' after else []) := by
  intro state state' hstate after hafter
  obtain ⟨between, hbetween, hafter⟩ := List.mem_flatMap.mp hafter
  obtain ⟨between', hbetween', hsame⟩ := h state state' hstate between hbetween
  split at hafter
  · next hmoved =>
    obtain ⟨after', hafter', hsame'⟩ := h' between between' hsame after hafter
    refine ⟨after', List.mem_flatMap.mpr ⟨between', hbetween', ?_⟩, hsame'⟩
    rwa [if_pos (by rw [hstate.position, hsame.position]; exact hmoved)]
  · cases hafter

theorem moving (h : Within watched ends ends') (greedy : Bool) (count : Nat) :
    Within watched (ends.moving greedy count) (ends'.moving greedy count) := by
  induction count with
  | zero => exact self
  | succ count ih => exact (h.moves ih).prefer self greedy

end Within

theorem copies_succ (ends : Ends) (count : Nat) (state : State) :
    ends.copies (count + 1) state = (ends.copies count state).flatMap ends := by
  induction count generalizing state with
  | zero => simp [Ends.copies]
  | succ count ih =>
    rw [Ends.copies, Ends.copies, List.flatMap_assoc]
    exact List.flatMap_congr fun after _ => ih after

end Ends

namespace Program

variable {program program' program'' body body' first first' second second' : Program}
  {programs programs' : List Program}

/-- From alike states, every end of the first program is alike to an end of the second. -/
def Within (text : Array Char) (watched : Nat → Prop) (program program' : Program) : Prop :=
  (program.ends text).Within watched (program'.ends text)

/-- From alike states, two programs have alike ends, perhaps in another order. -/
structure SameEnds (text : Array Char) (watched : Nat → Prop) (program program' : Program) :
    Prop where
  within : Within text watched program program'
  back : Within text watched program' program

/-- From alike states, the ends of the first program are among those of the second, and there is one
if that has any. -/
structure Narrows (text : Array Char) (watched : Nat → Prop) (program program' : Program) :
    Prop where
  within : Within text watched program program'
  fails : ∀ state state' : State, state.Alike watched state' → program.ends text state = [] →
    program'.ends text state' = []

open Classical in
/-- What runs alike has alike ends. -/
theorem Alike.within (h : Program.Alike text watched program program') :
    Within text watched program program' := by
  intro state state' hstate after hafter
  by_contra hnone
  -- A continuation that accepts what is alike to the end in question tells the two apart.
  let next : Continuation := fun found =>
    if State.Alike watched after found then some found else none
  have hnext : Continuation.Alike watched next next := by
    intro found found' hfound
    by_cases hsame : State.Alike watched after found
    · rw [show next found = some found from if_pos hsame,
        show next found' = some found' from if_pos (hsame.trans hfound)]
      exact .some hfound
    · rw [show next found = none from if_neg hsame,
        show next found' = none from if_neg fun hback => hsame (hback.trans hfound.symm)]
      exact .none
  have hrun := h next next hnext state state' hstate
  rw [run_lists text program, run_lists text program'] at hrun
  have hmissed : (program'.ends text state').findSome? next = none :=
    List.findSome?_eq_none_iff.mpr fun found hfound =>
      if_neg fun hsame => hnone ⟨found, hfound, hsame⟩
  rw [hmissed] at hrun
  have hmissed' : (program.ends text state).findSome? next = none := by
    cases hresult : (program.ends text state).findSome? next with
    | none => rfl
    | some found =>
      rw [hresult] at hrun
      cases hrun
  have hfound : next after = none := List.findSome?_eq_none_iff.mp hmissed' after hafter
  rw [show next after = some after from if_pos (.refl after)] at hfound
  cases hfound

namespace Within

theorem seq (hfirst : Within text watched first first')
    (hsecond : Within text watched second second') :
    Within text watched (.seq first second) (.seq first' second') :=
  Ends.Within.comp hfirst hsecond

theorem alt (hfirst : Within text watched first first')
    (hsecond : Within text watched second second') :
    Within text watched (.alt first second) (.alt first' second') :=
  Ends.Within.prefer hfirst hsecond true

theorem group (h : Within text watched body body') (number : Nat) :
    Within text watched (.group number body) (.group number body') := by
  intro state state' hstate after hafter
  obtain ⟨inner, hinner, rfl⟩ := List.mem_map.mp hafter
  obtain ⟨inner', hinner', hsame⟩ := h state state' hstate inner hinner
  refine ⟨_, List.mem_map_of_mem hinner', ?_⟩
  rw [hstate.position]
  exact hsame.close number state.position

theorem times (h : Within text watched body body') (least extra : Nat) (greedy : Bool) :
    Within text watched (.times body least extra greedy) (.times body' least extra greedy) :=
  (Ends.Within.copies h least).comp (Ends.Within.optionals h greedy extra)

theorem more (h : Within text watched body body') (greedy : Bool) :
    Within text watched (.more body greedy) (.more body' greedy) :=
  Ends.Within.moving h greedy _

theorem seqs (h : List.Forall₂ (Within text watched) programs programs') :
    Within text watched (.seqs programs) (.seqs programs') := by
  induction h with
  | nil => exact .self
  | cons hfirst hrest ih =>
    cases hrest with
    | nil => exact hfirst
    | cons => exact hfirst.seq ih

theorem alts (h : List.Forall₂ (Within text watched) programs programs') :
    Within text watched (.alts programs) (.alts programs') := by
  induction h with
  | nil => exact .self
  | cons hfirst hrest ih =>
    cases hrest with
    | nil => exact hfirst
    | cons => exact hfirst.alt ih

/-- Ends that are in a program from the same state are so from alike states. -/
theorem of_subset (hrefers : program'.RefersTo watched)
    (h : ∀ state, ∀ after ∈ program.ends text state, ∃ after' ∈ program'.ends text state,
      State.Alike watched after after') : Within text watched program program' := by
  intro state state' hstate after hafter
  obtain ⟨between, hbetween, hsame⟩ := h state after hafter
  obtain ⟨after', hafter', hsame'⟩ :=
    (hrefers.alike text).within state state' hstate between hbetween
  exact ⟨after', hafter', hsame.trans hsame'⟩

end Within

namespace SameEnds

theorem of_alike (h : Program.Alike text watched program program') :
    SameEnds text watched program program' :=
  ⟨h.within, Alike.within (Step.Alike.symm h)⟩

theorem trans (h : SameEnds text watched program program')
    (h' : SameEnds text watched program' program'') : SameEnds text watched program program'' :=
  ⟨Ends.Within.trans h.within h'.within, Ends.Within.trans h'.back h.back⟩

theorem seq (hfirst : SameEnds text watched first first')
    (hsecond : SameEnds text watched second second') :
    SameEnds text watched (.seq first second) (.seq first' second') :=
  ⟨hfirst.within.seq hsecond.within, hfirst.back.seq hsecond.back⟩

theorem group (h : SameEnds text watched body body') (number : Nat) :
    SameEnds text watched (.group number body) (.group number body') :=
  ⟨h.within.group number, h.back.group number⟩

theorem times (h : SameEnds text watched body body') (least extra : Nat) (greedy : Bool) :
    SameEnds text watched (.times body least extra greedy) (.times body' least extra greedy) :=
  ⟨h.within.times least extra greedy, h.back.times least extra greedy⟩

theorem more (h : SameEnds text watched body body') (greedy : Bool) :
    SameEnds text watched (.more body greedy) (.more body' greedy) :=
  ⟨h.within.more greedy, h.back.more greedy⟩

theorem seqs (h : List.Forall₂ (SameEnds text watched) programs programs') :
    SameEnds text watched (.seqs programs) (.seqs programs') :=
  ⟨.seqs (h.imp fun _ _ hsame => hsame.within), .seqs (h.flip.imp fun _ _ hsame => hsame.back)⟩

theorem alts (h : List.Forall₂ (SameEnds text watched) programs programs') :
    SameEnds text watched (.alts programs) (.alts programs') :=
  ⟨.alts (h.imp fun _ _ hsame => hsame.within), .alts (h.flip.imp fun _ _ hsame => hsame.back)⟩

end SameEnds

namespace Narrows

theorem of_same (h : SameEnds text watched program program') :
    Narrows text watched program program' where
  within := h.within
  fails state state' hstate hnone := by
    rw [List.eq_nil_iff_forall_not_mem]
    intro after hafter
    obtain ⟨back, hback, -⟩ := h.back state' state hstate.symm after hafter
    rw [hnone] at hback
    cases hback

theorem trans (h : Narrows text watched program program')
    (h' : Narrows text watched program' program'') : Narrows text watched program program'' where
  within := Ends.Within.trans h.within h'.within
  fails state state' hstate hnone :=
    h'.fails state' state' (.refl state') (h.fails state state' hstate hnone)

theorem seq (hfirst : SameEnds text watched first first')
    (hsecond : Narrows text watched second second') :
    Narrows text watched (.seq first second) (.seq first' second') where
  within := hfirst.within.seq hsecond.within
  fails state state' hstate hnone := by
    refine List.flatMap_eq_nil_iff.mpr fun between' hbetween' => ?_
    obtain ⟨between, hbetween, hsame⟩ := hfirst.back state' state hstate.symm between' hbetween'
    exact hsecond.fails between between' hsame.symm
      (List.flatMap_eq_nil_iff.mp hnone between hbetween)

theorem append {others others' : List Program}
    (h : SameEnds text watched (.seqs programs) (.seqs programs'))
    (h' : Narrows text watched (.seqs others) (.seqs others')) :
    Narrows text watched (.seqs (programs ++ others)) (.seqs (programs' ++ others')) := by
  have hseq := Narrows.seq h h'
  constructor
  · intro state state' hstate
    rw [ends_seqs_append, ends_seqs_append]
    exact hseq.within state state' hstate
  · intro state state' hstate
    rw [ends_seqs_append, ends_seqs_append]
    exact hseq.fails state state' hstate

theorem alt (hfirst : Narrows text watched first first')
    (hsecond : Narrows text watched second second') :
    Narrows text watched (.alt first second) (.alt first' second') where
  within := hfirst.within.alt hsecond.within
  fails state state' hstate hnone := by
    obtain ⟨hnone, hnone'⟩ := List.append_eq_nil_iff.mp hnone
    exact List.append_eq_nil_iff.mpr
      ⟨hfirst.fails state state' hstate hnone, hsecond.fails state state' hstate hnone'⟩

theorem group (h : Narrows text watched body body') (number : Nat) :
    Narrows text watched (.group number body) (.group number body') where
  within := h.within.group number
  fails state state' hstate hnone :=
    List.map_eq_nil_iff.mpr (h.fails state state' hstate (List.map_eq_nil_iff.mp hnone))

/-- What may be missing never fails. -/
theorem optional (h : Narrows text watched body body') (greedy : Bool) :
    Narrows text watched (.times body 0 1 greedy) (.times body' 0 1 greedy) where
  within := h.within.times 0 1 greedy
  fails state state' hstate hnone := by
    have hmem : state ∈ (Program.times body 0 1 greedy).ends text state := by
      simp [ends, Ends.copies, Ends.optionals, Ends.mem_prefer]
    rw [hnone] at hmem
    cases hmem

theorem alts (h : List.Forall₂ (Narrows text watched) programs programs') :
    Narrows text watched (.alts programs) (.alts programs') := by
  induction h with
  | nil => exact of_same ⟨.self, .self⟩
  | cons hfirst hrest ih =>
    cases hrest with
    | nil => exact hfirst
    | cons => exact hfirst.alt ih

/-- A settled part whose forgotten groups are not watched keeps one of the ends that it has
otherwise. -/
theorem settled (h : SameEnds text watched body body') {first last : Nat}
    (hforgotten : ∀ number, first ≤ number → number < last → ¬ watched number) :
    Narrows text watched (.settled first last body) body' := by
  have hforget : ∀ state, State.Alike watched (state.forget first last) state := by
    refine fun state => ⟨rfl, fun number hwatched => ?_⟩
    rw [State.group?_forget, if_neg fun hrange => hforgotten number hrange.1 hrange.2 hwatched]
  constructor
  · intro state state' hstate after hafter
    exact h.within _ state' ((hforget state).trans hstate) after
      (List.mem_of_mem_head? (Option.mem_toList.mp hafter))
  · intro state state' hstate hnone
    refine (of_same h).fails _ state' ((hforget state).trans hstate) ?_
    rwa [ends, Option.toList_eq_nil_iff, List.head?_eq_none_iff] at hnone

end Narrows

/-! ## Repeated parts -/

section

variable {size : Nat} {isFixed greedy : Bool} {numbers : List Nat} {state after : State}

theorem mem_ends_more (h : body.Advance text size isFixed numbers) :
    after ∈ (Program.more body greedy).ends text state ↔
      after = state ∨ ∃ between ∈ body.ends text state, state.position < between.position ∧
        after ∈ (Program.more body greedy).ends text between := by
  rw [ends, Ends.moving, Ends.mem_prefer, List.mem_singleton, or_comm, List.mem_flatMap]
  refine or_congr_right (exists_congr fun between => and_congr_right fun _ => ?_)
  split
  · next hmoved =>
    have hidle : Ends.moving (body.ends text) greedy text.size between =
        Ends.moving (body.ends text) greedy (text.size + 1) between :=
      h.moving_eq greedy (by omega) (by omega)
    rw [ends, hidle, iff_and_self]
    exact fun _ => hmoved
  · next hstuck =>
    exact ⟨fun hafter => absurd hafter List.not_mem_nil, fun hmoved => absurd hmoved.1 hstuck⟩

theorem mem_ends_plus :
    after ∈ (Program.plus body greedy).ends text state ↔
      ∃ between ∈ body.ends text state, if state.position < between.position then
        after ∈ (Program.more body greedy).ends text between else after = between := by
  rw [ends, List.mem_flatMap]
  refine exists_congr fun between => and_congr_right fun _ => ?_
  split
  · rfl
  · exact List.mem_singleton

/-- A match that takes nothing ends alike to where it began. -/
theorem Advance.alike_of_stuck (h : body.Advance text size isFixed numbers)
    (hnumbers : ∀ number ∈ numbers, ¬ watched number) (hafter : after ∈ body.ends text state)
    (hstuck : ¬ state.position < after.position) : State.Alike watched state after := by
  have hadvance := h state after hafter
  refine ⟨?_, fun number hwatched =>
    hadvance.group? number fun hmem => hnumbers number hmem hwatched⟩
  have hleast := hadvance.least
  omega

/-- A first copy that may take nothing, in a part that may be missing, ends where copies that move
do. -/
theorem Advance.sameEnds_times_plus (h : body.Advance text size isFixed numbers)
    (hnumbers : ∀ number ∈ numbers, ¬ watched number) (hrefers : body.RefersTo watched) :
    SameEnds text watched (.times (.plus body greedy) 0 1 greedy) (.more body greedy) := by
  have htimes : ∀ {state after},
      after ∈ (Program.times (.plus body greedy) 0 1 greedy).ends text state ↔
        after ∈ (Program.plus body greedy).ends text state ∨ after = state := by
    intro state after
    have hprefer : (Program.times (.plus body greedy) 0 1 greedy).ends text state =
        Ends.prefer greedy ((Program.plus body greedy).ends text state) [state] := by
      simp [ends, Ends.copies, Ends.optionals]
    rw [hprefer, Ends.mem_prefer, List.mem_singleton]
  constructor
  · refine .of_subset hrefers fun state after hafter => ?_
    rcases htimes.mp hafter with hafter | rfl
    · obtain ⟨between, hbetween, hafter⟩ := mem_ends_plus.mp hafter
      split at hafter
      · next hmoved =>
        exact ⟨after, (mem_ends_more h).mpr (.inr ⟨between, hbetween, hmoved, hafter⟩), .refl after⟩
      · next hstuck =>
        subst hafter
        exact ⟨state, (mem_ends_more h).mpr (.inl rfl),
          (h.alike_of_stuck hnumbers hbetween hstuck).symm⟩
    · exact ⟨after, (mem_ends_more h).mpr (.inl rfl), .refl after⟩
  · refine .of_subset hrefers fun state after hafter => ⟨after, htimes.mpr ?_, .refl after⟩
    rcases (mem_ends_more h).mp hafter with rfl | ⟨between, hbetween, hmoved, hafter⟩
    · exact .inr rfl
    · exact .inl (mem_ends_plus.mpr ⟨between, hbetween, by rwa [if_pos hmoved]⟩)

/-- A first copy that may take nothing, and further ones behind it if it does not, end where a copy
and further ones that move do. -/
theorem Advance.sameEnds_plus (h : body.Advance text size isFixed numbers)
    (hnumbers : ∀ number ∈ numbers, ¬ watched number) (hrefers : body.RefersTo watched) :
    SameEnds text watched (.plus body greedy) (.seq body (.more body greedy)) := by
  have hseq : ∀ {state after}, after ∈ (Program.seq body (.more body greedy)).ends text state ↔
      ∃ between ∈ body.ends text state, after ∈ (Program.more body greedy).ends text between :=
    List.mem_flatMap
  constructor
  · refine .of_subset ⟨hrefers, hrefers⟩ fun state after hafter => ?_
    obtain ⟨between, hbetween, hafter⟩ := mem_ends_plus.mp hafter
    refine ⟨after, hseq.mpr ⟨between, hbetween, ?_⟩, .refl after⟩
    split at hafter
    · exact hafter
    · exact (mem_ends_more h).mpr (.inl hafter)
  · refine .of_subset hrefers fun state after hafter => ?_
    obtain ⟨between, hbetween, hafter⟩ := hseq.mp hafter
    by_cases hmoved : state.position < between.position
    · exact ⟨after, mem_ends_plus.mpr ⟨between, hbetween, by rwa [if_pos hmoved]⟩, .refl after⟩
    · rcases (mem_ends_more h).mp hafter with rfl | ⟨second, hsecond, hmoved', hafter⟩
      · exact ⟨after, mem_ends_plus.mpr ⟨after, hbetween, by rw [if_neg hmoved]⟩, .refl after⟩
      -- The first copy has taken nothing, so the second one is found in its place.
      · have hsame := h.alike_of_stuck hnumbers hbetween hmoved
        have hmore : (Program.more body greedy).RefersTo watched := hrefers
        obtain ⟨first, hfirst, hsame'⟩ :=
          (hrefers.alike text).within between state hsame.symm second hsecond
        obtain ⟨after', hafter', hsame''⟩ :=
          (hmore.alike text).within second first hsame' after hafter
        refine ⟨after', mem_ends_plus.mpr ⟨first, hfirst, ?_⟩, hsame''⟩
        rwa [if_pos (by rw [hsame'.position, ← hsame.position]; exact hmoved')]

/-- What is repeated at least once may have its last copy with the further ones. -/
theorem Advance.sameEnds_seq_plus (h : body.Advance text size isFixed numbers)
    (hnumbers : ∀ number ∈ numbers, ¬ watched number) (hrefers : body.RefersTo watched)
    (least : Nat) :
    SameEnds text watched (.seq (.times body least 0 greedy) (.plus body greedy))
      (.seq (.times body (least + 1) 0 greedy) (.more body greedy)) := by
  have htimes : ∀ count state, (Program.times body count 0 greedy).ends text state =
      Ends.copies (body.ends text) count state := by
    intro count state
    rw [ends]
    exact List.flatMap_singleton' _
  have hends : ∀ state,
      (Program.seq (.times body least 0 greedy) (.seq body (.more body greedy))).ends text state =
        (Program.seq (.times body (least + 1) 0 greedy) (.more body greedy)).ends text state := by
    intro state
    rw [ends, ends, htimes, htimes, Ends.copies_succ, List.flatMap_assoc]
    rfl
  have hfront : (Program.times body least 0 greedy).RefersTo watched := hrefers
  have hseq : SameEnds text watched (.seq (.times body least 0 greedy) (.plus body greedy))
      (.seq (.times body least 0 greedy) (.seq body (.more body greedy))) :=
    (SameEnds.of_alike (hfront.alike text)).seq (h.sameEnds_plus hnumbers hrefers)
  exact ⟨fun state state' hstate after hafter => by
      rw [← hends]
      exact hseq.within state state' hstate after hafter,
    fun state state' hstate after hafter => by
      rw [← hends] at hafter
      exact hseq.back state state' hstate after hafter⟩

end

end Program

namespace Tree

/-! ## Trees -/

mutual
/-- Where it is settled, a tree that can be settled ends where it does in front of others. -/
theorem settle_sameEnds (text : Array Char) {tree : Tree} {body : Program}
    (heasy : tree.isHard referenced = false) (hnumbers : Consecutive tree.groupNumbers)
    (hrefers : ∀ number ∈ tree.references, number ∈ referenced) (h : tree.settle = .ok body) :
    ∃ program, tree.plan referenced true = .ok program ∧
      Program.SameEnds text (· ∈ referenced) body program := by
  match tree with
  | .look .. | .atomic _ | .backref _ => cases heasy
  | .empty =>
    cases h
    exact ⟨.empty, rfl, .of_alike Step.Alike.id⟩
  | .char set =>
    cases h
    exact ⟨.char set, rfl, .of_alike (((Program.refersTo_hereditary _).char set).alike text)⟩
  | .anchor position =>
    cases h
    exact ⟨.anchor position, rfl,
      .of_alike (((Program.refersTo_hereditary _).anchor position).alike text)⟩
  | .concat items =>
    obtain ⟨bodies, hbodies, hpure⟩ := ok_of_bind_eq_ok h
    cases hpure
    have hitems := forall_mem_referencesOf.mp hrefers
    obtain ⟨programs, hprograms, hsame⟩ := settleAll_sameEnds text heasy hnumbers hitems hbodies
    obtain ⟨program, hprogram⟩ := exists_planConcat hprograms (.inl (Eq.refl true))
    have halike : Program.Alike text (· ∈ referenced) program (.seqs programs) :=
      planConcat_alike hnumbers hitems hprograms (.inl rfl) hprogram
    exact ⟨program, hprogram,
      (Program.SameEnds.seqs hsame).trans (.of_alike (Step.Alike.symm halike))⟩
  | .alt choices =>
    obtain ⟨bodies, hbodies, hpure⟩ := ok_of_bind_eq_ok h
    cases hpure
    obtain ⟨programs, hprograms, hsame⟩ :=
      settleAll_sameEnds text heasy hnumbers (forall_mem_referencesOf.mp hrefers) hbodies
    refine ⟨.alts programs, ?_, .alts hsame⟩
    unfold plan
    exact bind_eq_of_ok (allOk_of_plannings hprograms)
  | .group number body =>
    obtain ⟨inner, hinner, hpure⟩ := ok_of_bind_eq_ok h
    cases hpure
    rw [isHard, Bool.or_eq_false_iff] at heasy
    obtain ⟨program, hprogram, hsame⟩ :=
      settle_sameEnds text heasy.2 hnumbers.of_cons hrefers hinner
    refine ⟨.group number program, ?_, hsame.group number⟩
    unfold plan
    exact bind_eq_of_ok hprogram
  | .repeated body least most greedy =>
    obtain ⟨inner, hinner, h⟩ := ok_of_bind_eq_ok h
    have hbody : body.isHard referenced = false := heasy
    obtain ⟨program, hprogram, hsame⟩ := settle_sameEnds text hbody hnumbers hrefers hinner
    refine ⟨planRepeat least most greedy program, plan_repeated least most greedy hprogram, ?_⟩
    have hadvance : Program.Advance text body.minSize body.hasFixedSize body.groupNumbers inner :=
      settle_measures hbody hinner
    have hunwatched := not_mem_of_not_isHard hbody
    have hinside : inner.RefersTo (· ∈ referenced) := settle_refersTo hinner
    cases most with
    | some most =>
      simp only at h
      split at h
      · cases h
      · next hless =>
        cases h
        rw [planRepeat, Nat.min_eq_left (Nat.le_of_not_lt hless)]
        exact hsame.times least (most - least) greedy
    | none =>
      rw [planRepeat]
      split
      · next hzero =>
        simp only [if_pos hzero] at h
        cases h
        exact (hadvance.sameEnds_times_plus hunwatched hinside).trans (hsame.more greedy)
      · next hpositive =>
        simp only [if_neg hpositive] at h
        cases h
        obtain ⟨least, rfl⟩ := Nat.exists_eq_succ_of_ne_zero hpositive
        exact (hadvance.sameEnds_seq_plus hunwatched hinside least).trans
          ((hsame.times (least + 1) 0 greedy).seq (hsame.more greedy))

theorem settleAll_sameEnds (text : Array Char) {items : List Tree} {bodies : List Program}
    (heasy : anyHard referenced items = false) (hnumbers : Consecutive (groupNumbersOf items))
    (hrefers : ∀ item ∈ items, ∀ number ∈ item.references, number ∈ referenced)
    (h : settleAll items = .ok bodies) :
    ∃ programs, Plannings referenced items programs ∧
      List.Forall₂ (Program.SameEnds text (· ∈ referenced)) bodies programs := by
  match items with
  | [] =>
    cases h
    exact ⟨[], .nil, .nil⟩
  | item :: items =>
    obtain ⟨first, hfirst, h⟩ := ok_of_bind_eq_ok h
    obtain ⟨rest, hrest, hpure⟩ := ok_of_bind_eq_ok h
    cases hpure
    rw [anyHard, Bool.or_eq_false_iff] at heasy
    rw [groupNumbersOf] at hnumbers
    obtain ⟨hitem, hitems⟩ := List.forall_mem_cons.mp hrefers
    obtain ⟨program, hprogram, hsame⟩ :=
      settle_sameEnds text heasy.1 hnumbers.of_append.1 hitem hfirst
    obtain ⟨programs, hprograms, hall⟩ :=
      settleAll_sameEnds text heasy.2 hnumbers.of_append.2 hitems hrest
    exact ⟨program :: programs, .cons hprogram hprograms, .cons hsame hall⟩
end

/-- What can be settled as a whole keeps one of the ends that it has in front of others. -/
theorem settlePart_narrows (text : Array Char) {items : List Tree} {parts : List Program}
    (heasy : anyHard referenced items = false) (hnumbers : Consecutive (groupNumbersOf items))
    (hrefers : ∀ item ∈ items, ∀ number ∈ item.references, number ∈ referenced)
    (h : settlePart items = .ok parts) :
    ∃ programs, Plannings referenced items programs ∧
      Program.Narrows text (· ∈ referenced) (.seqs parts) (.seqs programs) := by
  by_cases hsome : items = []
  · subst hsome
    cases h
    exact ⟨[], .nil, .of_same (.of_alike Step.Alike.id)⟩
  · obtain ⟨first, last, bodies, hbodies, rfl, hwithin⟩ := settlePart_eq_ok hsome h
    obtain ⟨programs, hprograms, hsame⟩ := settleAll_sameEnds text heasy hnumbers hrefers hbodies
    exact ⟨programs, hprograms, .settled (.seqs hsame) fun number hle hlt =>
      not_mem_of_not_anyHard heasy number (hwithin hnumbers number hle hlt)⟩

/-- What is looked for is planned in one way wherever it stands. -/
theorem plan_look (hard : Bool) (side : Side) (negated : Bool) (body : Tree) :
    (Tree.look side negated body).plan referenced hard =
      (Tree.look side negated body).plan referenced false := by
  have hhard : (Tree.look side negated body).isHard referenced = true := rfl
  unfold plan
  rw [hhard, Bool.not_true, Bool.and_false, Bool.and_false]
  cases side with
  | ahead => rfl
  | behind => cases body <;> rfl

mutual
/-- With nothing behind it, a tree keeps some of the ends that it has in front of others, and one if
there is any. -/
theorem plan_narrows (text : Array Char) {tree : Tree} {own : Program}
    (hnumbers : Consecutive tree.groupNumbers)
    (hrefers : ∀ number ∈ tree.references, number ∈ referenced)
    (h : tree.plan referenced false = .ok own) :
    ∃ program, tree.plan referenced true = .ok program ∧
      Program.Narrows text (· ∈ referenced) own program := by
  cases hhard : tree.isHard referenced with
  | false =>
    unfold plan at h
    rw [hhard] at h
    obtain ⟨parts, hparts, hpure⟩ := ok_of_bind_eq_ok h
    cases hpure
    have heasy : anyHard referenced [tree] = false := by rw [anyHard, hhard]; rfl
    obtain ⟨programs, hprograms, hnarrows⟩ := settlePart_narrows text heasy
      (by rwa [groupNumbersOf, groupNumbersOf, List.append_nil])
      (List.forall_mem_singleton.mpr hrefers) hparts
    cases hprograms with
    | cons hprogram hnil =>
      cases hnil
      exact ⟨_, hprogram, hnarrows⟩
  | true =>
    have hself : Program.Narrows text (· ∈ referenced) own own :=
      .of_same (.of_alike ((plan_refersTo hrefers h).alike text))
    match tree with
    | .empty | .char _ => cases hhard
    | .look side negated body => exact ⟨own, (plan_look true side negated body).trans h, hself⟩
    | .anchor _ | .atomic _ | .backref _ =>
      refine ⟨own, ?_, hself⟩
      unfold plan at h ⊢
      rw [hhard] at h ⊢
      exact h
    | .concat items =>
      unfold plan at h
      rw [hhard] at h
      have hitems := forall_mem_referencesOf.mp hrefers
      obtain ⟨front, last, starts, parts, rfl, hstarts, hparts, halike, heasy⟩ :=
        exists_plannings_of_planConcat text hnumbers hitems h
      rw [groupNumbers, groupNumbersOf_append] at hnumbers
      obtain ⟨ends, hends, hnarrows⟩ := settlePart_narrows text
        (anyHard_eq_false_iff.mpr fun item hitem => (heasy item hitem).1) hnumbers.of_append.2
        (fun item hitem => hitems item (List.mem_append_right _ hitem)) hparts
      have hall := hstarts.append hends
      obtain ⟨program, hprogram⟩ := exists_planConcat hall (.inl (Eq.refl true))
      have halike' : Program.Alike text (· ∈ referenced) program (.seqs (starts ++ ends)) :=
        planConcat_alike (by rwa [groupNumbersOf_append]) hitems hall (.inl rfl) hprogram
      have hfront : Program.RefersTo (· ∈ referenced) (.seqs starts) :=
        (Program.refersTo_hereditary _).seqs (hstarts.refersTo fun item hitem =>
          hitems item (List.mem_append_left _ hitem))
      refine ⟨program, hprogram, (Program.Narrows.of_same (.of_alike halike)).trans
        (.trans ?_ (.of_same (.of_alike (Step.Alike.symm halike'))))⟩
      exact .append (.of_alike (hfront.alike text)) hnarrows
    | .alt choices =>
      unfold plan at h
      rw [hhard] at h
      obtain ⟨owns, howns, hpure⟩ := ok_of_bind_eq_ok h
      cases hpure
      obtain ⟨programs, hprograms, hnarrows⟩ :=
        planAll_narrows text hnumbers (forall_mem_referencesOf.mp hrefers) howns
      refine ⟨.alts programs, ?_, .alts hnarrows⟩
      unfold plan
      exact bind_eq_of_ok (allOk_of_plannings hprograms)
    | .group number body =>
      unfold plan at h
      rw [hhard] at h
      obtain ⟨inner, hinner, hpure⟩ := ok_of_bind_eq_ok h
      cases hpure
      obtain ⟨program, hprogram, hnarrows⟩ := plan_narrows text hnumbers.of_cons hrefers hinner
      refine ⟨.group number program, ?_, hnarrows.group number⟩
      unfold plan
      exact bind_eq_of_ok hprogram
    | .repeated body least most greedy =>
      unfold plan at h
      rw [hhard] at h
      simp only [Bool.not_true, Bool.and_false, Bool.false_eq_true, if_false] at h
      split at h
      · next hoptional =>
        obtain ⟨rfl, rfl⟩ : least = 0 ∧ most = some 1 := by simpa using hoptional
        obtain ⟨inner, hinner, hpure⟩ := ok_of_bind_eq_ok h
        cases hpure
        have hbody : Consecutive body.groupNumbers := hnumbers
        obtain ⟨program, hprogram, hnarrows⟩ := plan_narrows text hbody hrefers hinner
        exact ⟨_, plan_repeated 0 (some 1) greedy hprogram, hnarrows.optional greedy⟩
      · obtain ⟨inner, hinner, hpure⟩ := ok_of_bind_eq_ok h
        cases hpure
        rw [show body.isHard referenced = true from hhard] at hinner
        exact ⟨_, plan_repeated least most greedy hinner, hself⟩

theorem planAll_narrows (text : Array Char) {items : List Tree} {owns : List Program}
    (hnumbers : Consecutive (groupNumbersOf items))
    (hrefers : ∀ item ∈ items, ∀ number ∈ item.references, number ∈ referenced)
    (h : allOk (planAll referenced false items) = .ok owns) :
    ∃ programs, Plannings referenced items programs ∧
      List.Forall₂ (Program.Narrows text (· ∈ referenced)) owns programs := by
  match items with
  | [] =>
    cases h
    exact ⟨[], .nil, .nil⟩
  | item :: items =>
    obtain ⟨first, hfirst, h⟩ := ok_of_bind_eq_ok h
    obtain ⟨rest, hrest, hpure⟩ := ok_of_bind_eq_ok h
    cases hpure
    rw [groupNumbersOf] at hnumbers
    obtain ⟨hitem, hitems⟩ := List.forall_mem_cons.mp hrefers
    obtain ⟨program, hprogram, hnarrows⟩ := plan_narrows text hnumbers.of_append.1 hitem hfirst
    obtain ⟨programs, hprograms, hall⟩ := planAll_narrows text hnumbers.of_append.2 hitems hrest
    exact ⟨program :: programs, .cons hprogram hprograms, .cons hnarrows hall⟩
end

end Tree

end Highlighter.Regex
