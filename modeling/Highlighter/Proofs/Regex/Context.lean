import Highlighter.Proofs.Regex.Sizes
import Highlighter.Proofs.Regex.Suffix
import Highlighter.Proofs.Regex.Tiles

/-!
# Trees in front of others

Where something follows that may ask for another match, a tree is planned in a different way than
where nothing follows: less of it is settled, and a repeated body that comes to nothing is treated
differently. Apart from groups that nothing refers to, it makes no difference where the size is
fixed. Where it is not, a settled part keeps the first of the ends that the unsettled part has, and
it has one wherever that part has one.
-/

namespace Highlighter.Regex

variable {text : Array Char} {watched : Nat → Prop} {referenced : List Nat}

namespace Tree

/-- Numbers that follow each other without a gap. -/
def Consecutive (numbers : List Nat) : Prop :=
  ∃ start, numbers = List.range' start numbers.length

theorem Consecutive.of_append {numbers numbers' : List Nat}
    (h : Consecutive (numbers ++ numbers')) :
    Consecutive numbers ∧ Consecutive numbers' := by
  obtain ⟨start, heq⟩ := h
  rw [List.length_append, ← List.range'_append_1] at heq
  obtain ⟨hfirst, hsecond⟩ := List.append_inj heq (by rw [List.length_range'])
  exact ⟨⟨_, hfirst⟩, ⟨_, hsecond⟩⟩

theorem Consecutive.of_cons {number : Nat} {numbers : List Nat}
    (h : Consecutive (number :: numbers)) : Consecutive numbers := by
  have happend : Consecutive ([number] ++ numbers) := h
  exact happend.of_append.2

theorem groupNumbersOf_append (items others : List Tree) :
    groupNumbersOf (items ++ others) = groupNumbersOf items ++ groupNumbersOf others := by
  induction items with
  | nil => rfl
  | cons item items ih =>
    rw [List.cons_append, groupNumbersOf, groupNumbersOf, ih, List.append_assoc]

theorem forall_mem_referencesOf {items : List Tree} {P : Nat → Prop} :
    (∀ number ∈ referencesOf items, P number) ↔
      ∀ item ∈ items, ∀ number ∈ item.references, P number := by
  induction items with
  | nil => exact ⟨fun _ => List.forall_mem_nil _, fun _ => List.forall_mem_nil _⟩
  | cons item items ih => rw [referencesOf, List.forall_mem_append, ih, List.forall_mem_cons]

mutual
/-- Groups that are referenced make a tree hard. -/
theorem not_mem_of_not_isHard {tree : Tree} (heasy : tree.isHard referenced = false) :
    ∀ number ∈ tree.groupNumbers, number ∉ referenced := by
  match tree with
  | .empty | .char _ | .anchor _ => exact List.forall_mem_nil _
  | .look .. | .atomic _ | .backref _ => cases heasy
  | .concat items => exact not_mem_of_not_anyHard heasy
  | .alt choices => exact not_mem_of_not_anyHard heasy
  | .group number body =>
    rw [isHard, Bool.or_eq_false_iff] at heasy
    rw [groupNumbers, List.forall_mem_cons]
    exact ⟨by simpa using heasy.1, not_mem_of_not_isHard heasy.2⟩
  | .repeated body _ _ _ =>
    rw [groupNumbers]
    exact not_mem_of_not_isHard heasy

theorem not_mem_of_not_anyHard {items : List Tree} (heasy : anyHard referenced items = false) :
    ∀ number ∈ groupNumbersOf items, number ∉ referenced := by
  match items with
  | [] => exact List.forall_mem_nil _
  | item :: items =>
    rw [anyHard, Bool.or_eq_false_iff] at heasy
    rw [groupNumbersOf, List.forall_mem_append]
    exact ⟨not_mem_of_not_isHard heasy.1, not_mem_of_not_anyHard heasy.2⟩
end

/-- A tree that can be settled refers to no groups. -/
theorem settle_refersTo {tree : Tree} {body : Program} (h : tree.settle = .ok body) :
    body.RefersTo watched :=
  settle_induct (Program.refersTo_hereditary watched) (fun _ _ => trivial) h

/-! ## Settled parts -/

theorem settlePart_eq_ok {items : List Tree} {parts : List Program}
    (hsome : items ≠ []) (h : settlePart items = .ok parts) :
    ∃ first last bodies, settleAll items = .ok bodies ∧
      parts = [.settled first last (.seqs bodies)] ∧
      (Consecutive (groupNumbersOf items) →
        ∀ number, first ≤ number → number < last → number ∈ groupNumbersOf items) := by
  unfold settlePart at h
  split at h
  · exact absurd rfl hsome
  · obtain ⟨bodies, hbodies, h⟩ := ok_of_bind_eq_ok h
    split at h
    · cases h
      exact ⟨0, 0, bodies, hbodies, rfl, fun _ _ hle hlt => by omega⟩
    · next first rest heq =>
      cases h
      refine ⟨first, _, bodies, hbodies, rfl, ?_⟩
      rw [heq]
      rintro ⟨start, hrange⟩ number hle hlt
      rw [List.length_cons, List.range'_succ, List.cons.injEq] at hrange
      rw [hrange.2, hrange.1, ← List.range'_succ, List.mem_range'_1]
      omega

theorem exists_settlePart {items : List Tree} {bodies : List Program}
    (h : settleAll items = .ok bodies) : ∃ parts, settlePart items = .ok parts := by
  unfold settlePart
  split
  · exact ⟨[], rfl⟩
  · rw [h]
    split
    · exact ⟨_, rfl⟩
    · exact ⟨_, rfl⟩

theorem exists_settleAll_of_settlePart {items : List Tree} {parts : List Program}
    (h : settlePart items = .ok parts) : ∃ bodies, settleAll items = .ok bodies := by
  unfold settlePart at h
  split at h
  · exact ⟨[], rfl⟩
  · obtain ⟨bodies, hbodies, -⟩ := ok_of_bind_eq_ok h
    exact ⟨bodies, hbodies⟩

/-- The programs of trees behind which something follows. -/
def Plannings (referenced : List Nat) (items : List Tree) (programs : List Program) : Prop :=
  List.Forall₂ (fun item program => item.plan referenced true = .ok program) items programs

theorem plannings_of_allOk {items : List Tree} {programs : List Program}
    (h : allOk (planAll referenced true items) = .ok programs) :
    Plannings referenced items programs := by
  have heq := allOk_eq_ok h
  rw [planAll_eq_map] at heq
  have hall : List.Forall₂ (· = ·) (items.map (·.plan referenced true)) (programs.map .ok) := by
    rw [heq]
    exact List.forall₂_refl _
  rw [List.forall₂_map_left_iff, List.forall₂_map_right_iff] at hall
  exact hall

theorem allOk_of_plannings {items : List Tree} {programs : List Program}
    (h : Plannings referenced items programs) :
    allOk (planAll referenced true items) = .ok programs := by
  induction h with
  | nil => rfl
  | cons hfirst _ ih => rw [planAll, allOk, hfirst, ih]; rfl

theorem Plannings.append {items others : List Tree} {programs programs' : List Program}
    (h : Plannings referenced items programs) (h' : Plannings referenced others programs') :
    Plannings referenced (items ++ others) (programs ++ programs') :=
  List.rel_append h h'

theorem exists_plannings_iff {items : List Tree} :
    (∃ programs, Plannings referenced items programs) ↔
      ∀ item ∈ items, ∃ program, item.plan referenced true = .ok program := by
  induction items with
  | nil => exact ⟨fun _ => List.forall_mem_nil _, fun _ => ⟨[], .nil⟩⟩
  | cons item items ih =>
    rw [List.forall_mem_cons, ← ih]
    constructor
    · rintro ⟨programs, h⟩
      cases h with
      | cons hfirst hrest => exact ⟨⟨_, hfirst⟩, _, hrest⟩
    · rintro ⟨⟨program, hfirst⟩, programs, hrest⟩
      exact ⟨_, .cons hfirst hrest⟩

theorem Plannings.eq {items : List Tree} {programs programs' : List Program}
    (h : Plannings referenced items programs) (h' : Plannings referenced items programs') :
    programs' = programs := by
  induction h generalizing programs' with
  | nil =>
    cases h'
    rfl
  | cons hfirst _ ih =>
    cases h' with
    | cons hfirst' hrest' =>
      cases hfirst.symm.trans hfirst'
      rw [ih hrest']

/-- Where everything can be settled and has a fixed size, a concatenation is settled. -/
theorem planConcat_of_fixed {hard : Bool} {items : List Tree} {parts : List Program}
    {results : List (Except Error Program)}
    (heasy : ∀ item ∈ items, item.isHard referenced = false)
    (hfixed : ∀ item ∈ items, item.hasFixedSize = true) (hparts : settlePart items = .ok parts) :
    planConcat referenced hard items results = .ok (.seqs parts) := by
  have hwhole : (items.takeWhile fun tree => tree.hasFixedSize && !tree.isHard referenced) =
      items :=
    List.takeWhile_eq_self_iff.mpr fun item hitem => by simp [heasy item hitem, hfixed item hitem]
  simp only [planConcat, hwhole, List.drop_length, hparts]
  simp only [List.length_nil, List.reverse_nil, List.takeWhile_nil, Nat.sub_self, List.take_zero]
  change Except.ok (Program.seqs (parts ++ [] ++ [])) = _
  rw [List.append_nil, List.append_nil]

/-- A settled part of fixed size runs as if it were not settled. -/
theorem settlePart_alike (text : Array Char) {items : List Tree} {parts bodies : List Program}
    (heasy : anyHard referenced items = false)
    (hfixed : haveFixedSize items = true) (hnumbers : Consecutive (groupNumbersOf items))
    (hparts : settlePart items = .ok parts) (hbodies : settleAll items = .ok bodies) :
    Program.Alike text (· ∈ referenced) (.seqs parts) (.seqs bodies) := by
  by_cases hsome : items = []
  · subst hsome
    cases hparts
    cases hbodies
    exact Step.Alike.id
  · obtain ⟨first, last, bodies', hbodies', rfl, hwithin⟩ := settlePart_eq_ok hsome hparts
    cases hbodies.symm.trans hbodies'
    have hmeasures : (Program.seqs bodies).Advance text _ _ _ :=
      measures_seqs (settleAll_measures heasy hbodies)
    rw [hfixed] at hmeasures
    have hunwatched := not_mem_of_not_anyHard heasy
    have hrefers : Program.RefersTo (· ∈ referenced) (.seqs bodies) :=
      (Program.refersTo_hereditary _).seqs
        (settleAll_induct (Program.refersTo_hereditary _) (fun _ _ => trivial) hbodies)
    exact .of_settled hrefers hmeasures hunwatched fun number hle hlt =>
      hunwatched number (hwithin hnumbers number hle hlt)

theorem haveFixedSize_iff {items : List Tree} :
    haveFixedSize items = true ↔ ∀ item ∈ items, item.hasFixedSize = true := by
  induction items with
  | nil => simp [haveFixedSize]
  | cons item items ih => rw [haveFixedSize, Bool.and_eq_true, ih, List.forall_mem_cons]

/-- In front of others, a repeated tree is repeated under one discipline. -/
theorem plan_repeated {body : Tree} {program : Program} (least : Nat) (most : Option Nat)
    (greedy : Bool) (h : body.plan referenced true = .ok program) :
    (Tree.repeated body least most greedy).plan referenced true =
      .ok (planRepeat least most greedy program) := by
  unfold plan
  rw [if_neg (by simp)]
  simp only [Bool.true_or]
  split
  · next hoptional =>
    obtain ⟨rfl, rfl⟩ : least = 0 ∧ most = some 1 := by simpa using hoptional
    exact bind_eq_of_ok h
  · exact bind_eq_of_ok h

mutual
/-- A tree of fixed size that can be settled runs there as it does in front of others. -/
theorem settle_alike (text : Array Char) {tree : Tree} {body : Program}
    (heasy : tree.isHard referenced = false)
    (hfixed : tree.hasFixedSize = true) (hnumbers : Consecutive tree.groupNumbers)
    (h : tree.settle = .ok body) :
    ∃ program, tree.plan referenced true = .ok program ∧
      Program.Alike text (· ∈ referenced) body program := by
  match tree with
  | .look .. | .atomic _ | .backref _ => cases heasy
  | .empty =>
    cases h
    exact ⟨.empty, rfl, Step.Alike.id⟩
  | .char set =>
    cases h
    exact ⟨.char set, rfl, ((Program.refersTo_hereditary _).char set).alike text⟩
  | .anchor position =>
    cases h
    exact ⟨.anchor position, rfl, ((Program.refersTo_hereditary _).anchor position).alike text⟩
  | .concat items =>
    obtain ⟨bodies, hbodies, hpure⟩ := ok_of_bind_eq_ok h
    cases hpure
    obtain ⟨parts, hparts⟩ := exists_settlePart hbodies
    refine ⟨.seqs parts, planConcat_of_fixed (anyHard_eq_false_iff.mp heasy)
      (haveFixedSize_iff.mp hfixed) hparts, ?_⟩
    exact Step.Alike.symm (settlePart_alike text heasy hfixed hnumbers hparts hbodies)
  | .alt choices =>
    obtain ⟨bodies, hbodies, hpure⟩ := ok_of_bind_eq_ok h
    cases hpure
    obtain ⟨programs, hprograms, halike⟩ := settleAll_alike text heasy
      (fun choice hchoice => (haveOneSize_none hfixed choice hchoice).1) hnumbers hbodies
    refine ⟨.alts programs, ?_, .alts halike⟩
    unfold plan
    exact bind_eq_of_ok (allOk_of_plannings hprograms)
  | .group number body =>
    obtain ⟨inner, hinner, hpure⟩ := ok_of_bind_eq_ok h
    cases hpure
    rw [isHard, Bool.or_eq_false_iff] at heasy
    obtain ⟨program, hprogram, halike⟩ := settle_alike text heasy.2 hfixed hnumbers.of_cons hinner
    refine ⟨.group number program, ?_, halike.group number⟩
    unfold plan
    exact bind_eq_of_ok hprogram
  | .repeated body least most greedy =>
    simp only [hasFixedSize, Bool.and_eq_true, beq_iff_eq] at hfixed
    obtain ⟨hfixed, rfl⟩ := hfixed
    obtain ⟨inner, hinner, h⟩ := ok_of_bind_eq_ok h
    have hbody : body.isHard referenced = false := heasy
    obtain ⟨program, hprogram, halike⟩ := settle_alike text hbody hfixed hnumbers hinner
    simp only [Nat.lt_irrefl, if_false, Nat.sub_self] at h
    cases h
    refine ⟨planRepeat least (some least) greedy program,
      plan_repeated least (some least) greedy hprogram, ?_⟩
    rw [planRepeat, Nat.min_self, Nat.sub_self]
    exact halike.times least 0 greedy

theorem settleAll_alike (text : Array Char) {items : List Tree} {bodies : List Program}
    (heasy : anyHard referenced items = false)
    (hfixed : ∀ item ∈ items, item.hasFixedSize = true)
    (hnumbers : Consecutive (groupNumbersOf items)) (h : settleAll items = .ok bodies) :
    ∃ programs, Plannings referenced items programs ∧
      List.Forall₂ (Program.Alike text (· ∈ referenced)) bodies programs := by
  match items with
  | [] =>
    cases h
    exact ⟨[], .nil, .nil⟩
  | item :: items =>
    obtain ⟨first, hfirst, h⟩ := ok_of_bind_eq_ok h
    obtain ⟨rest, hrest, hpure⟩ := ok_of_bind_eq_ok h
    cases hpure
    rw [anyHard, Bool.or_eq_false_iff] at heasy
    rw [groupNumbersOf] at hnumbers
    obtain ⟨hitem, hitems⟩ := List.forall_mem_cons.mp hfixed
    obtain ⟨program, hprogram, halike⟩ :=
      settle_alike text heasy.1 hitem hnumbers.of_append.1 hfirst
    obtain ⟨programs, hprograms, hall⟩ :=
      settleAll_alike text heasy.2 hitems hnumbers.of_append.2 hrest
    exact ⟨program :: programs, .cons hprogram hprograms, .cons halike hall⟩
end

/-- A settled part of fixed size runs as its items do in front of others. -/
theorem settlePart_alike_plannings (text : Array Char) {items : List Tree} {parts : List Program}
    (heasy : anyHard referenced items = false) (hfixed : ∀ item ∈ items, item.hasFixedSize = true)
    (hnumbers : Consecutive (groupNumbersOf items)) (h : settlePart items = .ok parts) :
    ∃ programs, Plannings referenced items programs ∧
      Program.Alike text (· ∈ referenced) (.seqs parts) (.seqs programs) := by
  obtain ⟨bodies, hbodies⟩ := exists_settleAll_of_settlePart h
  obtain ⟨programs, hprograms, halike⟩ := settleAll_alike text heasy hfixed hnumbers hbodies
  have hsettled := settlePart_alike text heasy (haveFixedSize_iff.mpr hfixed) hnumbers h hbodies
  exact ⟨programs, hprograms, Step.Alike.trans hsettled (Program.Alike.seqs halike)⟩

theorem Plannings.refersTo {items : List Tree} {programs : List Program}
    (h : Plannings referenced items programs)
    (hrefers : ∀ item ∈ items, ∀ number ∈ item.references, watched number) :
    ∀ program ∈ programs, program.RefersTo watched := by
  induction h with
  | nil => exact List.forall_mem_nil _
  | cons hfirst _ ih =>
    obtain ⟨hitem, hitems⟩ := List.forall_mem_cons.mp hrefers
    exact List.forall_mem_cons.mpr ⟨plan_refersTo hitem hfirst, ih hitems⟩

/-- A concatenation starts with items that run as they do in front of others, and ends with a part
that is settled. -/
theorem exists_plannings_of_planConcat (text : Array Char) {hard : Bool} {items : List Tree}
    {program : Program} (hnumbers : Consecutive (groupNumbersOf items))
    (hrefers : ∀ item ∈ items, ∀ number ∈ item.references, number ∈ referenced)
    (h : planConcat referenced hard items (planAll referenced true items) = .ok program) :
    ∃ front last programs parts, items = front ++ last ∧ Plannings referenced front programs ∧
      settlePart last = .ok parts ∧
      Program.Alike text (· ∈ referenced) program (.seqs (programs ++ parts)) ∧
      ∀ item ∈ last, item.isHard referenced = false ∧ (hard = true → item.hasFixedSize = true) := by
  obtain ⟨first, middle, last, parts, programs, parts', rfl, hfirst, hmiddle, hlast, rfl, hsettled,
    heasy⟩ := planConcat_eq_ok h
  rw [groupNumbersOf_append] at hnumbers
  obtain ⟨starts, hstarts, halike⟩ := settlePart_alike_plannings text
    (anyHard_eq_false_iff.mpr fun item hitem => (hsettled item hitem).1)
    (fun item hitem => (hsettled item hitem).2) hnumbers.of_append.1 hfirst
  have hmiddles := plannings_of_allOk hmiddle
  refine ⟨first ++ middle, last, starts ++ programs, parts', (List.append_assoc _ _ _).symm,
    hstarts.append hmiddles, hlast, ?_, heasy⟩
  have hothers : Program.RefersTo (· ∈ referenced) (.seqs (programs ++ parts')) := by
    refine (Program.refersTo_hereditary _).seqs (List.forall_mem_append.mpr ⟨?_, ?_⟩)
    · refine hmiddles.refersTo fun item hitem => hrefers item ?_
      exact List.mem_append_right _ (List.mem_append_left _ hitem)
    · exact settlePart_induct (Program.refersTo_hereditary _) (fun _ _ => trivial) hlast
  rw [List.append_assoc, List.append_assoc]
  exact halike.append (hothers.alike text)

mutual
/-- Inside a settled part, a tree of fixed size has a program. -/
theorem exists_settle {tree : Tree} (hfixed : tree.hasFixedSize = true) :
    ∃ body, tree.settle = .ok body := by
  match tree with
  | .empty | .char _ | .anchor _ | .look .. | .atomic _ => exact ⟨_, rfl⟩
  | .backref _ => cases hfixed
  | .concat items =>
    obtain ⟨bodies, hbodies⟩ := exists_settleAll_of_fixed (haveFixedSize_iff.mp hfixed)
    exact ⟨_, bind_eq_of_ok hbodies⟩
  | .alt choices =>
    obtain ⟨bodies, hbodies⟩ :=
      exists_settleAll_of_fixed fun choice hchoice => (haveOneSize_none hfixed choice hchoice).1
    exact ⟨_, bind_eq_of_ok hbodies⟩
  | .group _ body =>
    obtain ⟨inner, hinner⟩ : ∃ inner, body.settle = .ok inner := exists_settle hfixed
    exact ⟨_, bind_eq_of_ok hinner⟩
  | .repeated body least most _ =>
    simp only [hasFixedSize, Bool.and_eq_true, beq_iff_eq] at hfixed
    obtain ⟨hfixed, rfl⟩ := hfixed
    obtain ⟨inner, hinner⟩ : ∃ inner, body.settle = .ok inner := exists_settle hfixed
    rw [settle, bind_eq_of_ok hinner]
    simp only [Nat.lt_irrefl, if_false]
    exact ⟨_, rfl⟩

theorem exists_settleAll_of_fixed {items : List Tree}
    (hfixed : ∀ item ∈ items, item.hasFixedSize = true) :
    ∃ bodies, settleAll items = .ok bodies := by
  match items with
  | [] => exact ⟨[], rfl⟩
  | item :: items =>
    obtain ⟨hitem, hitems⟩ := List.forall_mem_cons.mp hfixed
    obtain ⟨body, hbody⟩ := exists_settle hitem
    obtain ⟨bodies, hbodies⟩ := exists_settleAll_of_fixed hitems
    exact ⟨_, (bind_eq_of_ok hbody).trans (bind_eq_of_ok hbodies)⟩
end

/-- What is settled at the end of some items has a fixed size, be it for the context or because
there is nothing. -/
def SettlesFixed (referenced : List Nat) (hard : Bool) (items : List Tree) : Prop :=
  hard = true ∨ ∀ item ∈ items.getLast?, item.isHard referenced = true

theorem SettlesFixed.nil_or_hard {hard : Bool} {front last : List Tree}
    (h : SettlesFixed referenced hard (front ++ last))
    (heasy : ∀ item ∈ last, item.isHard referenced = false) : last = [] ∨ hard = true := by
  rcases h with hhard | hlast
  · exact .inr hhard
  · left
    rcases last.eq_nil_or_concat with hnil | ⟨others, item, rfl⟩
    · exact hnil
    · have hhard := hlast item (by simp)
      have heasy := heasy item (by simp)
      rw [hhard] at heasy
      cases heasy

/-- A concatenation whose items have programs in front of others has one. -/
theorem exists_planConcat {hard : Bool} {items : List Tree} {programs : List Program}
    (h : Plannings referenced items programs) (hsettles : SettlesFixed referenced hard items) :
    ∃ program, planConcat referenced hard items (planAll referenced true items) = .ok program := by
  obtain ⟨first, middle, last, rfl, hfirst, hlast, hplan⟩ := exists_parts referenced hard items
  have hfixed : ∀ item ∈ last, item.hasFixedSize = true := by
    rw [← List.append_assoc] at hsettles
    rcases hsettles.nil_or_hard fun item hitem => (hlast item hitem).1 with rfl | hhard
    · exact List.forall_mem_nil _
    · exact fun item hitem => (hlast item hitem).2 hhard
  obtain ⟨bodies, hbodies⟩ := exists_settleAll_of_fixed fun item hitem => (hfirst item hitem).2
  obtain ⟨bodies', hbodies'⟩ := exists_settleAll_of_fixed hfixed
  obtain ⟨parts, hparts⟩ := exists_settlePart hbodies
  obtain ⟨parts', hparts'⟩ := exists_settlePart hbodies'
  have hmiddle : ∃ programs, Plannings referenced middle programs :=
    exists_plannings_iff.mpr fun item hitem => exists_plannings_iff.mp ⟨_, h⟩ item
      (List.mem_append_right _ (List.mem_append_left _ hitem))
  obtain ⟨programs, hprograms⟩ := hmiddle
  rw [hplan]
  exact ⟨_, (bind_eq_of_ok hparts).trans
    ((bind_eq_of_ok (allOk_of_plannings hprograms)).trans (bind_eq_of_ok hparts'))⟩

/-- Where what is settled at its end has a fixed size, a concatenation runs as its items do in front
of others. -/
theorem planConcat_alike {hard : Bool} {items : List Tree} {program : Program}
    {programs : List Program} (hnumbers : Consecutive (groupNumbersOf items))
    (hrefers : ∀ item ∈ items, ∀ number ∈ item.references, number ∈ referenced)
    (h : Plannings referenced items programs) (hsettles : SettlesFixed referenced hard items)
    (hplan : planConcat referenced hard items (planAll referenced true items) = .ok program) :
    Program.Alike text (· ∈ referenced) program (.seqs programs) := by
  obtain ⟨front, last, starts, parts, rfl, hstarts, hparts, halike, hlast⟩ :=
    exists_plannings_of_planConcat text hnumbers hrefers hplan
  rw [groupNumbersOf_append] at hnumbers
  have heasy : ∀ item ∈ last, item.isHard referenced = false :=
    fun item hitem => (hlast item hitem).1
  have hfixed : ∀ item ∈ last, item.hasFixedSize = true := by
    rcases hsettles.nil_or_hard heasy with rfl | hhard
    · exact List.forall_mem_nil _
    · exact fun item hitem => (hlast item hitem).2 hhard
  obtain ⟨ends, hends, halike'⟩ := settlePart_alike_plannings text
    (anyHard_eq_false_iff.mpr heasy) hfixed hnumbers.of_append.2 hparts
  rw [(hstarts.append hends).eq h]
  have hfront : Program.RefersTo (· ∈ referenced) (.seqs starts) :=
    (Program.refersTo_hereditary _).seqs (hstarts.refersTo fun item hitem =>
      hrefers item (List.mem_append_left _ hitem))
  exact Step.Alike.trans halike ((hfront.alike text).append halike')

/-- In front of others, a row of trees runs as each of them does there. -/
theorem exists_plannings_ofItems (text : Array Char) {items : List Tree} {program : Program}
    (hnumbers : Consecutive (groupNumbersOf items))
    (hrefers : ∀ item ∈ items, ∀ number ∈ item.references, number ∈ referenced)
    (h : (ofItems items).plan referenced true = .ok program) :
    ∃ programs, Plannings referenced items programs ∧
      Program.Alike text (· ∈ referenced) program (.seqs programs) := by
  match items with
  | [] =>
    cases h
    exact ⟨[], .nil, Step.Alike.id⟩
  | [item] =>
    exact ⟨[program], .cons h .nil,
      (plan_refersTo (List.forall_mem_singleton.mp hrefers) h).alike text⟩
  | first :: second :: items =>
    obtain ⟨front, last, starts, parts, hitems, hstarts, hparts, -, hlast⟩ :=
      exists_plannings_of_planConcat text hnumbers hrefers h
    rw [hitems] at hnumbers
    rw [groupNumbersOf_append] at hnumbers
    obtain ⟨ends, hends, -⟩ := settlePart_alike_plannings text
      (anyHard_eq_false_iff.mpr fun item hitem => (hlast item hitem).1)
      (fun item hitem => (hlast item hitem).2 rfl) hnumbers.of_append.2 hparts
    have hall := hstarts.append hends
    rw [← hitems] at hall
    rw [← groupNumbersOf_append, ← hitems] at hnumbers
    exact ⟨_, hall, planConcat_alike hnumbers hrefers hall (.inl rfl) h⟩

theorem ofItems_append_singleton {items : List Tree} (hsome : items ≠ []) (item : Tree) :
    ofItems (items ++ [item]) = .concat (items ++ [item]) := by
  match items with
  | [] => exact absurd rfl hsome
  | [first] => rfl
  | first :: second :: items => rfl

/-- In front of something that is looked for it is the same. -/
theorem exists_plan_before_look (text : Array Char) {items : List Tree} {programs : List Program}
    {body : Tree} {inner : Program}
    (hnumbers : Consecutive (groupNumbersOf items ++ body.groupNumbers))
    (hrefers : ∀ item ∈ items, ∀ number ∈ item.references, number ∈ referenced)
    (hinside : ∀ number ∈ body.references, number ∈ referenced)
    (h : Plannings referenced items programs) (hinner : body.plan referenced false = .ok inner) :
    ∃ program, (ofItems (items ++ [.look .ahead false body])).plan referenced false = .ok program ∧
      Program.Alike text (· ∈ referenced) program (.seqs (programs ++ [.ahead false inner])) := by
  have hlook : ∀ hard, (Tree.look .ahead false body).plan referenced hard =
      .ok (.ahead false inner) := by
    intro hard
    unfold plan
    rw [if_neg (by simp [isHard])]
    exact bind_eq_of_ok hinner
  by_cases hsome : items = []
  · subst hsome
    cases h
    have hrefers' : inner.RefersTo (· ∈ referenced) := plan_refersTo hinside hinner
    exact ⟨_, hlook false, (hrefers'.alike text).ahead false⟩
  · have hall : Plannings referenced (items ++ [.look .ahead false body])
        (programs ++ [.ahead false inner]) := h.append (.cons (hlook true) .nil)
    have hsettles : SettlesFixed referenced false (items ++ [.look .ahead false body]) :=
      .inr fun item hitem => by
        rw [List.getLast?_append, List.getLast?_singleton, Option.some_or] at hitem
        cases hitem
        rfl
    have hhard : (Tree.concat (items ++ [.look .ahead false body])).isHard referenced = true := by
      rw [← Bool.not_eq_false]
      intro heasy
      have hitem := anyHard_eq_false_iff.mp heasy (.look .ahead false body) (by simp)
      cases hitem
    have hall' : groupNumbersOf (items ++ [.look .ahead false body]) =
        groupNumbersOf items ++ body.groupNumbers := by
      rw [groupNumbersOf_append, groupNumbersOf, groupNumbersOf, groupNumbers, List.append_nil]
    obtain ⟨program, hprogram⟩ := exists_planConcat hall hsettles
    refine ⟨program, ?_, planConcat_alike (hall' ▸ hnumbers) ?_ hall hsettles hprogram⟩
    · rw [ofItems_append_singleton hsome]
      unfold plan
      rw [hhard]
      exact hprogram
    · exact List.forall_mem_append.mpr ⟨hrefers, List.forall_mem_singleton.mpr hinside⟩

end Tree

end Highlighter.Regex
