import Highlighter.Proofs.Regex.Plan
import Highlighter.Proofs.Regex.Reader

/-!
# What reading takes and opens

A reader takes the front of its source and leaves the rest. The groups in what it reads are those
that it opens, in the order of their numbers, and its references name groups that have been opened.
-/

namespace Highlighter.Regex.Tree

theorem referencesOf_consItem (item : Tree) (items : List Tree) :
    referencesOf (consItem item items) = item.references ++ referencesOf items := by
  cases item <;> rfl

theorem ofItems_references (items : List Tree) :
    (ofItems items).references = referencesOf items := by
  rcases items with _ | ⟨_, _ | _⟩
  · rfl
  · exact (List.append_nil _).symm
  · rfl

theorem single?_references {flags : Flags} {c : Char} {tree : Tree}
    (h : single? flags c = some tree) : tree.references = [] := by
  unfold single? at h
  repeat' split at h
  all_goals cases h
  all_goals rfl

/-- From one place to another, a reader has taken a part of the source. It has opened the groups with
the given numbers, one after the other, and it has met references to the others given. Those name
groups that are open by then. -/
structure Took (numbers references : List Nat) (place after : Place) : Prop where
  suffix : after.source <:+ place.source
  groups : after.progress.groups = place.progress.groups + numbers.length
  numbers : numbers = List.range' (place.progress.groups + 1) numbers.length
  kept : place.progress.referenced ⊆ after.progress.referenced
  references : references ⊆ after.progress.referenced
  referenced : ∀ number ∈ after.progress.referenced,
    number ∈ place.progress.referenced ∨ number ≤ after.progress.groups

/-- A reader of a tree opens the groups of the tree. -/
def Takes (read : Reader Tree) : Prop :=
  ∀ ⦃progress : Progress⦄ ⦃source : List Char⦄ ⦃tree : Tree⦄ ⦃after : Progress⦄ ⦃rest : List Char⦄,
    read progress source = .ok (tree, after, rest) →
      Took tree.groupNumbers tree.references ⟨progress, source⟩ ⟨after, rest⟩

variable {progress after : Progress} {source rest middle : List Char} {tree atom : Tree}
  {inner : Option (Reader Tree)} {read : Reader Tree}

namespace Took

variable {numbers numbers' references references' : List Nat} {place between last : Place}

theorem of_suffix (h : rest <:+ source) : Took [] [] ⟨progress, source⟩ ⟨progress, rest⟩ where
  suffix := h
  groups := rfl
  numbers := rfl
  kept := List.Subset.refl _
  references := List.nil_subset _
  referenced _ hmem := .inl hmem

theorem opened (h : Took numbers references place between) :
    place.progress.groups ≤ between.progress.groups := by
  rw [h.groups]
  exact Nat.le_add_right _ _

theorem bounds (h : Took numbers references place between) {number : Nat}
    (hmem : number ∈ numbers) :
    place.progress.groups < number ∧ number ≤ between.progress.groups := by
  rw [h.numbers, List.mem_range'_1] at hmem
  have hgroups := h.groups
  omega

theorem trans (h : Took numbers references place between)
    (h' : Took numbers' references' between last) :
    Took (numbers ++ numbers') (references ++ references') place last where
  suffix := h'.suffix.trans h.suffix
  groups := by rw [h'.groups, h.groups, List.length_append, Nat.add_assoc]
  numbers := by
    have hnumbers := h.numbers
    have hnumbers' := h'.numbers
    rw [h.groups] at hnumbers'
    rw [List.length_append, ← List.range'_append_1, ← hnumbers]
    rw [Nat.add_right_comm] at hnumbers'
    rw [← hnumbers']
  kept := List.Subset.trans h.kept h'.kept
  references := List.append_subset.mpr ⟨List.Subset.trans h.references h'.kept, h'.references⟩
  referenced number hmem := by
    rcases h'.referenced number hmem with hmem | hle
    · exact (h.referenced number hmem).imp_right fun hle => Nat.le_trans hle h'.opened
    · exact .inr hle

/-- What is skipped or dropped on the way opens nothing. -/
theorem after_suffix (hsuffix : rest <:+ source)
    (h : Took numbers references ⟨progress, rest⟩ last) :
    Took numbers references ⟨progress, source⟩ last :=
  (of_suffix hsuffix).trans h

theorem then_suffix (h : Took numbers references place ⟨after, source⟩) (hsuffix : rest <:+ source) :
    Took numbers references place ⟨after, rest⟩ := by
  have hboth := h.trans (of_suffix hsuffix)
  rwa [List.append_nil, List.append_nil] at hboth

theorem withFlags (h : Took numbers references place ⟨after, rest⟩) (flags : Flags) :
    Took numbers references place ⟨{ after with flags := flags }, rest⟩ :=
  ⟨h.suffix, h.groups, h.numbers, h.kept, h.references, h.referenced⟩

end Took

/-! ## Escapes and groups -/

theorem reference_took {number : Nat}
    (h : reference number progress source = .ok (tree, after, rest)) :
    Took tree.groupNumbers tree.references ⟨progress, source⟩ ⟨after, rest⟩ := by
  obtain ⟨hle, rfl, rfl, rfl⟩ := reference_eq_ok h
  refine ⟨List.suffix_rfl, rfl, rfl, List.subset_cons_self _ _, fun other hmem => ?_,
    fun other hmem => ?_⟩
  · cases List.mem_singleton.mp hmem
    exact List.mem_cons_self
  rcases List.mem_cons.mp hmem with rfl | hmem
  · exact .inr hle
  · exact .inl hmem

theorem readEscape_took (h : readEscape progress source = .ok (tree, after, rest)) :
    Took tree.groupNumbers tree.references ⟨progress, source⟩ ⟨after, rest⟩ := by
  obtain ⟨⟨escape, middle⟩, hread, h⟩ := ok_of_bind_eq_ok h
  have hmiddle : middle <:+ source := by
    cases source with
    | nil => cases hread
    | cons c source =>
      obtain ⟨word, rfl, -⟩ := Escape.read_word hread
      exact (List.suffix_append word middle).trans (List.suffix_cons c _)
  cases escape with
  | reference number =>
    have hnumbered : Took tree.groupNumbers tree.references ⟨{ progress with hasNumbered := true }, middle⟩
        ⟨after, rest⟩ := reference_took h
    exact ⟨hnumbered.suffix.trans hmiddle, hnumbered.groups, hnumbered.numbers, hnumbered.kept,
      hnumbered.references, hnumbered.referenced⟩
  | namedReference name =>
    obtain ⟨number, -, h⟩ := ok_of_bind_eq_ok h
    exact (reference_took h).after_suffix hmiddle
  | _ =>
    cases h
    exact .of_suffix hmiddle

theorem readBody_took (hinner : Takes read)
    (h : readBody read progress source = .ok (tree, after, rest)) :
    Took tree.groupNumbers tree.references ⟨progress, source⟩ ⟨after, rest⟩ := by
  obtain ⟨⟨body, between, middle⟩, hbody, h⟩ := ok_of_bind_eq_ok h
  obtain ⟨⟨⟨⟩, last, final⟩, hclose, hpure⟩ := ok_of_bind_eq_ok h
  cases hpure
  obtain ⟨rfl, hskip⟩ := readClose_eq_ok hclose
  exact (hinner hbody).then_suffix ((List.suffix_cons _ _).trans (skip_suffix hskip))

theorem readGroup_took (hinner : Takes read) (name : Option (List Char))
    (h : readGroup read name progress source = .ok (tree, after, rest)) :
    Took tree.groupNumbers tree.references ⟨progress, source⟩ ⟨after, rest⟩ := by
  obtain ⟨⟨body, last, final⟩, hbody, hpure⟩ := ok_of_bind_eq_ok h
  cases hpure
  have htook := readBody_took hinner hbody
  have hnumbers := htook.numbers
  have hgroups := htook.groups
  simp only at hnumbers hgroups
  refine ⟨htook.suffix, ?_, ?_, htook.kept, htook.references, htook.referenced⟩
  · rw [hgroups, groupNumbers, List.length_cons, Nat.add_right_comm, Nat.add_assoc]
  · rw [groupNumbers, List.length_cons, List.range'_succ, ← hnumbers]

theorem readName_suffix {start name : List Char} {stop : Char}
    (h : Escape.readName start stop source = .ok (name, rest)) : rest <:+ source := by
  obtain ⟨rfl, -⟩ := Escape.readName_source h
  exact ((List.suffix_cons _ _).trans (List.suffix_append _ _)).trans (List.suffix_append _ _)

theorem readFlags_suffix {flags last : Flags} {seen : Nat} {off hasBody : Bool}
    (h : readFlags flags seen off source = .ok (last, hasBody, rest)) : rest <:+ source := by
  obtain ⟨⟨word, rfl, -⟩, -⟩ := readFlags_blank rfl h
  exact (List.suffix_cons _ _).trans (List.suffix_append _ _)

theorem opening_suffix (source : List Char) : (opening source).2 <:+ source := by
  obtain ⟨word, hword, -⟩ := opening_word source
  exact ⟨word, hword.symm⟩

theorem readOpened_took (hinner : Takes read) {opened : Opening × List Char}
    (h : readOpened read progress opened = .ok (tree, after, rest)) :
    Took tree.groupNumbers tree.references ⟨progress, opened.2⟩ ⟨after, rest⟩ := by
  obtain ⟨kind, inside⟩ := opened
  cases kind with
  | look side negated =>
    obtain ⟨⟨body, last, final⟩, hbody, hpure⟩ := ok_of_bind_eq_ok h
    cases hpure
    have hinside := readBody_took hinner hbody
    exact hinside
  | atomic =>
    obtain ⟨⟨body, last, final⟩, hbody, hpure⟩ := ok_of_bind_eq_ok h
    cases hpure
    have hinside := readBody_took hinner hbody
    exact hinside
  | plain => exact readGroup_took hinner none h
  | named =>
    obtain ⟨⟨name, middle⟩, hname, h⟩ := ok_of_bind_eq_ok h
    dsimp only at h
    split at h
    · cases h
    · exact (readGroup_took hinner (some name) h).after_suffix (readName_suffix hname)
  | reference =>
    obtain ⟨⟨name, middle⟩, hname, h⟩ := ok_of_bind_eq_ok h
    dsimp only at h
    split at h
    · cases h
    · obtain ⟨number, -, h⟩ := ok_of_bind_eq_ok h
      exact (reference_took h).after_suffix (readName_suffix hname)
  | flags =>
    obtain ⟨⟨flags, hasBody, middle⟩, hflags, h⟩ := ok_of_bind_eq_ok h
    have hmiddle := readFlags_suffix hflags
    cases hasBody with
    | false =>
      cases h
      exact (Took.of_suffix hmiddle).withFlags flags
    | true =>
      obtain ⟨⟨body, between, last⟩, hbody, h⟩ := ok_of_bind_eq_ok h
      have htook := hinner hbody
      have hinside : Took body.groupNumbers body.references ⟨progress, inside⟩ ⟨between, last⟩ :=
        ⟨htook.suffix.trans hmiddle, htook.groups, htook.numbers, htook.kept, htook.references,
          htook.referenced⟩
      dsimp only at h
      split at h
      · cases h
        exact (hinside.then_suffix (List.suffix_cons _ _)).withFlags progress.flags
      · cases h
      · cases h

theorem readParenthesis_took (hinner : Takes read)
    (h : readParenthesis read progress source = .ok (tree, after, rest)) :
    Took tree.groupNumbers tree.references ⟨progress, source⟩ ⟨after, rest⟩ := by
  rw [readParenthesis_eq] at h
  obtain ⟨skipped, hskip, h⟩ := ok_of_bind_eq_ok h
  exact (readOpened_took hinner h).after_suffix
    ((opening_suffix skipped).trans (skip_suffix hskip))

/-! ## Classes -/

theorem scanItems_suffix {ignoreCase : Bool} {fuel depth : Nat} {items : List Class.Item}
    (h : Class.scanItems ignoreCase fuel depth source = .ok (items, rest)) : rest <:+ source := by
  induction fuel generalizing source depth items with
  | zero => cases h
  | succ fuel ih =>
    cases source with
    | nil => cases h
    | cons c source =>
      by_cases hescape : c = '\\'
      · subst hescape
        simp only [Class.scanItems, beq_self_eq_true, if_true] at h
        obtain ⟨⟨escape, middle⟩, hread, h⟩ := ok_of_bind_eq_ok h
        obtain ⟨item, -, h⟩ := ok_of_bind_eq_ok h
        obtain ⟨⟨others, last⟩, hothers, hpure⟩ := ok_of_bind_eq_ok h
        cases hpure
        cases source with
        | nil => cases hread
        | cons d source =>
          obtain ⟨word, rfl, -⟩ := Escape.read_word hread
          exact ((ih hothers).trans (List.suffix_append word middle)).trans
            ⟨['\\', d], rfl⟩
      · rw [Class.scanItems_plain hescape] at h
        split at h
        · cases h
          exact List.suffix_cons _ _
        · obtain ⟨⟨others, last⟩, hothers, hpure⟩ := ok_of_bind_eq_ok h
          cases hpure
          exact (ih hothers).trans (List.suffix_cons _ _)

theorem readClass_suffix {ignoreCase : Bool} {members : CharSet}
    (h : Class.read ignoreCase source = .ok (members, rest)) : rest <:+ source := by
  obtain ⟨⟨items, last⟩, hscan, h⟩ := ok_of_bind_eq_ok h
  obtain ⟨set, -, hpure⟩ := ok_of_bind_eq_ok h
  cases hpure
  have hsigned : ∀ {sign : List Class.Item} {source : List Char},
      Class.scanSigned ignoreCase sign source = .ok (items, rest) → rest <:+ source := by
    intro sign source hscan
    unfold Class.scanSigned at hscan
    split at hscan
    · obtain ⟨⟨others, last⟩, hothers, hpure⟩ := ok_of_bind_eq_ok hscan
      cases hpure
      exact (scanItems_suffix hothers).trans (List.tail_suffix source)
    · obtain ⟨⟨others, last⟩, hothers, hpure⟩ := ok_of_bind_eq_ok hscan
      cases hpure
      exact scanItems_suffix hothers
  rw [Class.scan_eq] at hscan
  split at hscan
  · exact (hsigned hscan).trans (List.tail_suffix source)
  · exact hsigned hscan

/-! ## Quantifiers -/

theorem closeBounds?_suffix {least : Nat} {most : Option Nat} {bounds : Bounds}
    (h : closeBounds? progress least most source = some (bounds, rest)) : rest <:+ source := by
  obtain ⟨skipped, hskip, h⟩ := Option.bind_eq_some_iff.mp h
  split at h
  · cases h
    exact (List.tail_suffix _).trans (skip_suffix (eq_ok_of_toOption hskip))
  · cases h

theorem mostBounds?_suffix {least : Nat} {bounds : Bounds}
    (h : mostBounds? progress least source = some (bounds, rest)) : rest <:+ source := by
  obtain ⟨skipped, hskip, h⟩ := Option.bind_eq_some_iff.mp h
  have hskipped := skip_suffix (eq_ok_of_toOption hskip)
  split at h
  · exact (closeBounds?_suffix h).trans hskipped
  · split at h
    · obtain ⟨inner, hinner, h⟩ := Option.bind_eq_some_iff.mp h
      have hinside := (skip_suffix (eq_ok_of_toOption hinner)).trans
        ((List.tail_suffix _).trans hskipped)
      split at h
      · exact ((closeBounds?_suffix h).trans (List.dropWhile_suffix _)).trans hinside
      · exact (closeBounds?_suffix h).trans hinside
    · cases h

theorem readQuantifier?_suffix {bounds : Bounds}
    (h : readQuantifier? progress source = some (bounds, rest)) : rest <:+ source := by
  unfold readQuantifier? at h
  split at h
  · cases h
    exact List.suffix_cons _ _
  · cases h
    exact List.suffix_cons _ _
  · cases h
    exact List.suffix_cons _ _
  · next inside =>
    rw [readBounds?_eq] at h
    obtain ⟨skipped, hskip, h⟩ := Option.bind_eq_some_iff.mp h
    have hskipped := (skip_suffix (eq_ok_of_toOption hskip)).trans (List.suffix_cons '\x7b' inside)
    split at h
    · exact (mostBounds?_suffix h).trans hskipped
    · obtain ⟨least, -, h⟩ := Option.bind_eq_some_iff.mp h
      exact ((mostBounds?_suffix h).trans (List.dropWhile_suffix _)).trans hskipped
  · cases h

theorem repeatAtom_took {bounds : Bounds}
    (h : repeatAtom progress atom bounds source = (tree, after, rest)) :
    tree.groupNumbers = atom.groupNumbers ∧ tree.references = atom.references ∧
      after = progress ∧ rest <:+ source := by
  have hmarked : (if source.head? = some '?' then source.tail else source) <:+ source := by
    split
    · exact List.tail_suffix source
    · exact List.suffix_rfl
  unfold repeatAtom at h
  dsimp only at h
  generalize (if source.head? = some '?' then source.tail else source) = marked at h hmarked
  split at h
  · cases h
    exact ⟨rfl, rfl, rfl, (List.tail_suffix _).trans hmarked⟩
  · cases h
    exact ⟨rfl, rfl, rfl, hmarked⟩

theorem readRepeated_took (h : readRepeated progress atom source = .ok (tree, after, rest)) :
    tree.groupNumbers = atom.groupNumbers ∧ tree.references = atom.references ∧
      after = progress ∧ rest <:+ source := by
  unfold readRepeated at h
  split at h
  · cases h
    exact ⟨rfl, rfl, rfl, List.suffix_rfl⟩
  · next bounds inside hquantifier =>
    split at h
    · cases hskip : skip progress inside with
      | error error =>
        rw [hskip] at h
        cases h
      | ok skipped =>
        rw [hskip] at h
        obtain ⟨hnumbers, hreferences, hafter, hrest⟩ := repeatAtom_took (Except.ok.inj h)
        exact ⟨hnumbers, hreferences, hafter,
          (hrest.trans (skip_suffix hskip)).trans (readQuantifier?_suffix hquantifier)⟩
    · cases h

/-! ## Constructs, branches and alternations -/

theorem readFirst_took (hinner : ∀ read ∈ inner, Takes read)
    (h : readFirst inner progress source = .ok (tree, after, rest)) :
    Took tree.groupNumbers tree.references ⟨progress, source⟩ ⟨after, rest⟩ := by
  cases source with
  | nil =>
    cases h
    exact .of_suffix List.suffix_rfl
  | cons c source =>
    have hcons := List.suffix_cons c source
    rw [readFirst] at h
    split at h
    · cases inner with
      | none => cases h
      | some read => exact (readParenthesis_took (hinner read rfl) h).after_suffix hcons
    split at h
    · exact (readEscape_took h).after_suffix hcons
    split at h
    · obtain ⟨⟨members, last⟩, hread, hpure⟩ := ok_of_bind_eq_ok h
      cases hpure
      exact .of_suffix ((readClass_suffix hread).trans hcons)
    · split at h
      · next tree hsingle =>
        cases h
        rw [(single?_shift hsingle : tree.shift 0 = tree ∧ _).2, single?_references hsingle]
        exact .of_suffix hcons
      · cases h
        exact .of_suffix List.suffix_rfl

theorem readAtom_took (hinner : ∀ read ∈ inner, Takes read) : Takes (readAtom inner) := by
  intro progress source tree after rest h
  rw [readAtom_eq] at h
  obtain ⟨skipped, hskip, h⟩ := ok_of_bind_eq_ok h
  exact (readFirst_took hinner h).after_suffix (skip_suffix hskip)

theorem readPiece_took (hinner : ∀ read ∈ inner, Takes read) : Takes (readPiece inner) := by
  intro progress source tree after rest h
  rw [readPiece_eq] at h
  obtain ⟨⟨atom, between, middle⟩, hatom, h⟩ := ok_of_bind_eq_ok h
  obtain ⟨skipped, hskip, h⟩ := ok_of_bind_eq_ok h
  obtain ⟨hnumbers, hreferences, rfl, hrest⟩ := readRepeated_took h
  rw [hnumbers, hreferences]
  exact (readAtom_took hinner hatom).then_suffix (hrest.trans (skip_suffix hskip))

theorem readItems_took (hinner : ∀ read ∈ inner, Takes read) {fuel : Nat} {items : List Tree}
    (h : readItems inner fuel progress source = .ok (items, after, rest)) :
    Took (groupNumbersOf items) (referencesOf items) ⟨progress, source⟩ ⟨after, rest⟩ := by
  induction fuel generalizing progress source items with
  | zero =>
    cases h
    exact .of_suffix List.suffix_rfl
  | succ fuel ih =>
    by_cases hsource : source = []
    · subst hsource
      rw [readItems_nil] at h
      cases h
      exact .of_suffix List.suffix_rfl
    · obtain ⟨item, middle, inside, hpiece, hrest⟩ := readItems_eq_ok hsource h
      obtain ⟨-, rfl, rfl, rfl⟩ | ⟨-, others, hothers, rfl⟩ := hrest
      · exact .of_suffix List.suffix_rfl
      · rw [groupNumbersOf_consItem, referencesOf_consItem]
        exact (readPiece_took hinner hpiece).trans (ih hothers)

theorem readBranch_took (hinner : ∀ read ∈ inner, Takes read) : Takes (readBranch inner) := by
  intro progress source tree after rest h
  obtain ⟨⟨items, last, final⟩, hitems, hpure⟩ := ok_of_bind_eq_ok h
  cases hpure
  rw [ofItems_groupNumbers, ofItems_references]
  exact readItems_took hinner hitems

theorem readMore_took (hinner : ∀ read ∈ inner, Takes read) {fuel : Nat} {choices : List Tree}
    (h : readMore inner fuel progress source = .ok (choices, after, rest)) :
    Took (groupNumbersOf choices) (referencesOf choices) ⟨progress, source⟩ ⟨after, rest⟩ := by
  induction fuel generalizing progress source choices with
  | zero =>
    cases h
    exact .of_suffix List.suffix_rfl
  | succ fuel ih =>
    obtain ⟨skipped, hskip, hrest⟩ := readMore_eq_ok h
    obtain ⟨-, rfl, rfl, rfl⟩ | ⟨inside, choice, middle, between, others, rfl, hbranch, hmore, rfl⟩ :=
      hrest
    · exact .of_suffix (skip_suffix hskip)
    · exact ((readBranch_took hinner hbranch).trans (ih hmore)).after_suffix
        ((List.suffix_cons _ _).trans (skip_suffix hskip))

theorem readChoice_took (hinner : ∀ read ∈ inner, Takes read) : Takes (readChoice inner) := by
  intro progress source tree after rest h
  obtain ⟨first, middle, between, choices, hfirst, hmore, rfl⟩ := readChoice_eq_ok h
  have hboth := (readBranch_took hinner hfirst).trans (readMore_took hinner hmore)
  cases choices with
  | nil =>
    rw [groupNumbersOf, referencesOf, List.append_nil, List.append_nil] at hboth
    exact hboth
  | cons second choices => exact hboth

/-- Expressions open their groups in order, however deep their parentheses are nested. -/
theorem readExpression_took (levels : Nat) : Takes (readExpression levels) := by
  rw [readExpression_eq]
  induction levels with
  | zero => exact readChoice_took fun read hread => by cases hread
  | succ levels ih =>
    refine readChoice_took fun read hread => ?_
    cases hread
    rwa [readExpression_eq]

end Highlighter.Regex.Tree
