import Highlighter.Proofs.Regex.Parenthesis

/-!
# Constructs with their quantifiers side by side

Two aligned readers read the same construct and the same quantifier after it. Only where the first
one is stranded in braces, they disagree on the quantifier.
-/

namespace Highlighter.Regex.Tree

variable {offset : Nat} {base : List Nat} {tail : List Char} {progress progress' : Progress}
  {source source' rest rest' : List Char} {inner inner' : Option (Reader Tree)}

/-! ## Single constructs -/

/-- The tree of a character that stands for itself; `none` if a branch ends in front of it. -/
def single? (flags : Flags) (c : Char) : Option Tree :=
  if c = '.' then some (.char (if flags.dotAll then CharSet.any else CharSet.notLineEnd))
  else if c = '^' then some (.anchor (if flags.multiLine then .lineStart else .textStart))
  else if c = '$' then some (.anchor (if flags.multiLine then .lineEnd else .textEnd))
  else if c ∈ ['+', '*', '?', '|', ')'] then none
  else some (.char ((CharSet.single c).foldIf flags.ignoreCase))

/-- What a parenthesis opens; `inner` is missing where nesting is too deep. -/
def readInner : Option (Reader Tree) → Reader Tree
  | some inner => readParenthesis inner
  | none => fun _ _ => .error .nestedTooDeep

/-- The construct at the front of a source. -/
def readFirst (inner : Option (Reader Tree)) (progress : Progress) :
    List Char → Except Error (Tree × Progress × List Char)
  | [] => .ok (.empty, progress, [])
  | c :: rest =>
    if c = '(' then readInner inner progress rest
    else if c = '\\' then readEscape progress rest
    else if c = '[' then do
      let (members, rest) ← Class.read progress.flags.ignoreCase rest
      return (.char members, progress, rest)
    else
      match single? progress.flags c with
      | some tree => .ok (tree, progress, rest)
      | none => .ok (.empty, progress, c :: rest)

theorem readAtom_eq (inner : Option (Reader Tree)) (progress : Progress) (source : List Char) :
    readAtom inner progress source = (skip progress source >>= readFirst inner progress) := by
  unfold readAtom
  congr 1
  funext source
  cases source with
  | nil => rfl
  | cons c rest =>
    simp only
    split
    case h_12 hdot hcaret hdollar hparen hbackslash hbracket hplus hstar hmark hbar hclose =>
      have hends : c ∉ ['+', '*', '?', '|', ')'] := by
        simp only [List.mem_cons, List.not_mem_nil, or_false]
        rintro (heq | heq | heq | heq | heq)
        · exact hplus heq
        · exact hstar heq
        · exact hmark heq
        · exact hbar heq
        · exact hclose heq
      rw [readFirst, if_neg hparen, if_neg hbackslash, if_neg hbracket, single?, if_neg hdot,
        if_neg hcaret, if_neg hdollar, if_neg hends]
      rfl
    case h_4 => cases inner <;> rfl
    all_goals rfl

theorem single?_shift {flags : Flags} {c : Char} {tree : Tree} (h : single? flags c = some tree) :
    tree.shift offset = tree ∧ tree.groupNumbers = [] := by
  unfold single? at h
  repeat' split at h
  all_goals cases h
  all_goals exact ⟨rfl, rfl⟩

theorem ne_brace_of_single? {flags : Flags} {c : Char} (h : single? flags c = none) :
    c ≠ '\x7b' := by
  rintro rfl
  cases h

/-- A construct that is not empty takes something from the source. -/
theorem readFirst_mirror
    (hinner : ∀ read ∈ inner, ∀ read' ∈ inner', Mirrors offset base tail read read')
    (h : Aligned offset base tail ⟨progress, source⟩ ⟨progress', source'⟩)
    {tree tree' : Tree} {after after' : Progress}
    (hread : readFirst inner progress source = .ok (tree, after, rest))
    (hread' : readFirst inner' progress' source' = .ok (tree', after', rest')) :
    tree' = tree.shift offset ∧
      Mirror offset base tail tree.groupNumbers ⟨progress, source⟩ ⟨progress', source'⟩
        ⟨after, rest⟩ ⟨after', rest'⟩ ∧
      (rest.length < source.length ∨
        tree = .empty ∧ after = progress ∧ rest = source ∧ source.head? ≠ some '\x7b') := by
  have hflags : progress'.flags = progress.flags := h.flags
  cases source with
  | nil =>
    obtain ⟨last, rfl⟩ := List.head?_eq_some_iff.mp h.head?
    cases hread
    cases hread'
    exact ⟨rfl, .of_passes h (.refl _ _), .inr ⟨rfl, rfl, rfl, by decide⟩⟩
  | cons c source =>
    obtain ⟨source', rfl⟩ := List.head?_eq_some_iff.mp h.head?
    simp only [List.head?_cons, Option.getD_some] at h hread' ⊢
    have hshrinks : ∀ {numbers : List Nat}, Mirror offset base tail numbers ⟨progress, source⟩
        ⟨progress', source'⟩ ⟨after, rest⟩ ⟨after', rest'⟩ →
        Mirror offset base tail numbers ⟨progress, c :: source⟩ ⟨progress', c :: source'⟩
          ⟨after, rest⟩ ⟨after', rest'⟩ ∧ rest.length < (c :: source).length := by
      intro numbers hmirror
      have hfirst : Passes (c :: source) (c :: source') source source' := .of_word [c] _ _
      exact ⟨⟨hmirror.aligned, hfirst.trans hmirror.passes, hmirror.opened, hmirror.numbers⟩,
        Nat.lt_succ_of_le hmirror.passes.le.1⟩
    by_cases hparen : c = '('
    · subst hparen
      rw [readFirst, if_pos rfl] at hread hread'
      cases inner with
      | none => cases hread
      | some read =>
        cases inner' with
        | none => cases hread'
        | some read' =>
          obtain ⟨hshift, hmirror⟩ :=
            readParenthesis_mirror (hinner read rfl read' rfl) h hread hread'
          obtain ⟨hmirror, hlt⟩ := hshrinks hmirror
          exact ⟨hshift, hmirror, .inl hlt⟩
    · by_cases hbackslash : c = '\\'
      · subst hbackslash
        rw [readFirst, if_neg hparen, if_pos rfl] at hread hread'
        obtain ⟨hshift, hmirror⟩ := readEscape_mirror h hread hread'
        obtain ⟨hmirror, hlt⟩ := hshrinks hmirror
        exact ⟨hshift, hmirror, .inl hlt⟩
      · obtain ⟨moved, hmoved, haligned⟩ := h.uncons hbackslash
        obtain rfl := (List.cons.inj hmoved).2
        rw [readFirst, if_neg hparen, if_neg hbackslash] at hread hread'
        by_cases hbracket : c = '['
        · rw [if_pos hbracket] at hread hread'
          obtain ⟨⟨members, last⟩, hclass, hpure⟩ := ok_of_bind_eq_ok hread
          cases hpure
          obtain ⟨⟨members', last'⟩, hclass', hpure'⟩ := ok_of_bind_eq_ok hread'
          cases hpure'
          obtain ⟨final, hagain, hlast, hpasses⟩ := readClass_aligned haligned hclass
          rw [hflags, hagain] at hclass'
          cases hclass'
          obtain ⟨hmirror, hlt⟩ := hshrinks (.of_passes hlast hpasses)
          exact ⟨rfl, hmirror, .inl hlt⟩
        · rw [if_neg hbracket] at hread hread'
          rw [hflags] at hread'
          cases hsingle : single? progress.flags c with
          | some tree =>
            rw [hsingle] at hread hread'
            cases hread
            cases hread'
            obtain ⟨hshift, hnumbers⟩ := single?_shift hsingle
            rw [hshift, hnumbers]
            obtain ⟨hmirror, hlt⟩ := hshrinks (.of_passes haligned (.refl _ _))
            exact ⟨rfl, hmirror, .inl hlt⟩
          | none =>
            rw [hsingle] at hread hread'
            cases hread
            cases hread'
            have hbrace : (c :: source).head? ≠ some '\x7b' := by
              simpa using ne_brace_of_single? hsingle
            exact ⟨rfl, .of_passes h (.refl _ _), .inr ⟨rfl, rfl, rfl, hbrace⟩⟩

theorem readAtom_mirror
    (hinner : ∀ read ∈ inner, ∀ read' ∈ inner', Mirrors offset base tail read read')
    (h : Aligned offset base tail ⟨progress, source⟩ ⟨progress', source'⟩)
    {tree tree' : Tree} {after after' : Progress}
    (hread : readAtom inner progress source = .ok (tree, after, rest))
    (hread' : readAtom inner' progress' source' = .ok (tree', after', rest')) :
    Place.Lost ⟨after, rest⟩ ∨ tree' = tree.shift offset ∧
      Mirror offset base tail tree.groupNumbers ⟨progress, source⟩ ⟨progress', source'⟩
        ⟨after, rest⟩ ⟨after', rest'⟩ ∧
      (rest.length < source.length ∨ tree = .empty ∧ after = progress ∧
        skip after rest = .ok rest ∧ rest.head? ≠ some '\x7b') := by
  rw [readAtom_eq] at hread hread'
  obtain ⟨inside, hskip, hread⟩ := ok_of_bind_eq_ok hread
  obtain ⟨inside', hskip', hread'⟩ := ok_of_bind_eq_ok hread'
  rcases h.skip hskip with hlost | ⟨skipped, hskipped, hinside, hpasses⟩
  · obtain ⟨hblank, hnil⟩ := hlost
    simp only at hnil
    subst hnil
    cases hread
    exact .inl ⟨hblank, rfl⟩
  · cases hskip'.symm.trans hskipped
    obtain ⟨rfl, hmirror, hends⟩ := readFirst_mirror hinner hinside hread hread'
    refine .inr ⟨rfl, (Mirror.of_passes hinside hpasses).trans hmirror, ?_⟩
    rcases hends with hlt | ⟨rfl, rfl, rfl, hbrace⟩
    · exact .inl (Nat.lt_of_lt_of_le hlt hpasses.le.1)
    · exact .inr ⟨rfl, rfl, skip_skip hskip, hbrace⟩

/-! ## Constructs with their quantifiers -/

theorem isRepeatable_shift (tree : Tree) : (tree.shift offset).isRepeatable = tree.isRepeatable := by
  cases tree <;> rfl

/-- A construct with its bounds and what follows them: a mark makes it lazy, a plus possessive. -/
def repeatAtom (progress : Progress) (atom : Tree) (bounds : Bounds) (source : List Char) :
    Tree × Progress × List Char :=
  let marked := source.head? = some '?'
  let rest := if marked then source.tail else source
  let tree := Tree.repeated atom bounds.least bounds.most (decide marked == progress.flags.swapGreed)
  if rest.head? = some '+' then (.atomic tree, progress, rest.tail) else (tree, progress, rest)

/-- A construct with the quantifier that follows it, if there is one. -/
def readRepeated (progress : Progress) (atom : Tree) (source : List Char) :
    Except Error (Tree × Progress × List Char) :=
  match readQuantifier? progress source with
  | none => .ok (atom, progress, source)
  | some (bounds, rest) =>
    if atom.isRepeatable then (skip progress rest).map (repeatAtom progress atom bounds)
    else .error .nothingToRepeat

theorem readPiece_eq (inner : Option (Reader Tree)) (progress : Progress) (source : List Char) :
    readPiece inner progress source =
      (readAtom inner progress source >>= fun (atom, after, rest) =>
        skip after rest >>= readRepeated after atom) := by
  unfold readPiece
  congr 1
  funext ⟨atom, after, rest⟩
  simp only
  congr 1
  funext rest
  unfold readRepeated
  cases readQuantifier? after rest with
  | none => rfl
  | some result =>
    obtain ⟨bounds, rest⟩ := result
    simp only
    cases atom.isRepeatable with
    | false => rfl
    | true =>
      simp only [Bool.not_true, if_false, if_true, Bool.false_eq_true]
      cases skip after rest with
      | error error => rfl
      | ok rest =>
        cases rest with
        | nil => rfl
        | cons c rest =>
          by_cases hmark : c = '?'
          · subst hmark
            cases rest with
            | nil => rfl
            | cons d rest =>
              by_cases hplus : d = '+'
              · subst hplus
                rfl
              · simp [repeatAtom, hplus, bind, Except.bind, Except.map, pure, Except.pure]
          · by_cases hplus : c = '+'
            · subst hplus
              rfl
            · simp [repeatAtom, hmark, hplus, bind, Except.bind, Except.map, pure, Except.pure]

theorem repeatAtom_mirror (atom : Tree) (bounds : Bounds)
    (h : Aligned offset base tail ⟨progress, source⟩ ⟨progress', source'⟩) :
    ∃ tree rest rest', repeatAtom progress atom bounds source = (tree, progress, rest) ∧
      repeatAtom progress' (atom.shift offset) bounds source' =
        (tree.shift offset, progress', rest') ∧
      tree.groupNumbers = atom.groupNumbers ∧
      Aligned offset base tail ⟨progress, rest⟩ ⟨progress', rest'⟩ ∧
      Passes source source' rest rest' := by
  have hflags : progress'.flags = progress.flags := h.flags
  have hmark := h.head?_eq_some_iff (c := '?') (by decide)
  have hmarked : ∃ rest rest', (if source.head? = some '?' then source.tail else source) = rest ∧
      (if source.head? = some '?' then source'.tail else source') = rest' ∧
      Aligned offset base tail ⟨progress, rest⟩ ⟨progress', rest'⟩ ∧
      Passes source source' rest rest' := by
    by_cases hhead : source.head? = some '?'
    · rw [if_pos hhead, if_pos hhead]
      exact ⟨_, _, rfl, rfl, h.next hhead (by decide)⟩
    · rw [if_neg hhead, if_neg hhead]
      exact ⟨_, _, rfl, rfl, h, .refl _ _⟩
  obtain ⟨rest, rest', hrest, hrest', haligned, hpasses⟩ := hmarked
  have hplus := haligned.head?_eq_some_iff (c := '+') (by decide)
  unfold repeatAtom
  simp only [hmark, hrest, hrest', hplus, hflags]
  by_cases hhead : rest.head? = some '+'
  · obtain ⟨hnext, hmore⟩ := haligned.next hhead (by decide)
    simp only [if_pos hhead]
    exact ⟨_, _, _, rfl, rfl, rfl, hnext, hpasses.trans hmore⟩
  · simp only [if_neg hhead]
    exact ⟨_, _, _, rfl, rfl, rfl, haligned, hpasses⟩

/-- Two readers of a construct mirror each other, unless the first one gets lost or is stranded at a
brace. A construct that takes nothing from the source is empty. -/
inductive PieceMirrors (offset : Nat) (base : List Nat) (tail : List Char) (place place' : Place)
    (tree tree' : Tree) (after after' : Place) : Prop where
  | lost (hlost : after.Lost)
  | stranded {inside : List Char} (hbrace : after.source = '\x7b' :: inside)
      (hstranded : Stranded after.progress inside)
      (hlt : after.source.length < place.source.length)
  | mirror (hshift : tree' = tree.shift offset)
      (hmirror : Mirror offset base tail tree.groupNumbers place place' after after')
      (hends : after.source.length < place.source.length ∨
        tree = .empty ∧ after.progress = place.progress)

theorem readRepeated_mirror {atom tree tree' : Tree} {after after' : Progress}
    (h : Aligned offset base tail ⟨progress, source⟩ ⟨progress', source'⟩)
    (hread : readRepeated progress atom source = .ok (tree, after, rest))
    (hread' : readRepeated progress' (atom.shift offset) source' = .ok (tree', after', rest')) :
    Place.Lost ⟨after, rest⟩ ∨
      (after = progress ∧ rest = source ∧
        ∃ inside, source = '\x7b' :: inside ∧ Stranded progress inside) ∨
      tree' = tree.shift offset ∧ tree.groupNumbers = atom.groupNumbers ∧
        Mirror offset base tail [] ⟨progress, source⟩ ⟨progress', source'⟩ ⟨after, rest⟩
          ⟨after', rest'⟩ := by
  unfold readRepeated at hread hread'
  rcases readQuantifier?_agree h with ⟨hnone, inside, rfl, hstranded⟩ | ⟨hnone, hnone'⟩ |
    ⟨bounds, middle, middle', hsome, hsome', haligned, hpasses⟩
  · rw [hnone] at hread
    cases hread
    exact .inr (.inl ⟨rfl, rfl, inside, rfl, hstranded⟩)
  · rw [hnone] at hread
    rw [hnone'] at hread'
    cases hread
    cases hread'
    exact .inr (.inr ⟨rfl, rfl, .of_passes h (.refl _ _)⟩)
  · rw [hsome] at hread
    rw [hsome'] at hread'
    simp only [isRepeatable_shift] at hread hread'
    split at hread
    · next hrepeatable =>
      rw [if_pos hrepeatable] at hread'
      cases hskip : skip progress middle with
      | error error =>
        rw [hskip] at hread
        cases hread
      | ok final =>
        rcases haligned.skip hskip with ⟨hblank, hnil⟩ | ⟨final', hskip', hfinal, hmore⟩
        · simp only at hnil
          subst hnil
          rw [hskip] at hread
          cases hread
          exact .inl ⟨hblank, rfl⟩
        · obtain ⟨repeated, last, last', hrepeat, hrepeat', hnumbers, hlast, hend⟩ :=
            repeatAtom_mirror atom bounds hfinal
          rw [hskip, Except.map, hrepeat] at hread
          rw [hskip', Except.map, hrepeat'] at hread'
          cases hread
          cases hread'
          exact .inr (.inr ⟨rfl, hnumbers, .of_passes hlast ((hpasses.trans hmore).trans hend)⟩)
    · cases hread

theorem readRepeated_empty {tree : Tree} {after : Progress}
    (h : readRepeated progress .empty source = .ok (tree, after, rest)) :
    tree = .empty ∧ after = progress := by
  unfold readRepeated at h
  split at h
  · cases h
    exact ⟨rfl, rfl⟩
  · cases h

theorem readPiece_mirror
    (hinner : ∀ read ∈ inner, ∀ read' ∈ inner', Mirrors offset base tail read read')
    (h : Aligned offset base tail ⟨progress, source⟩ ⟨progress', source'⟩)
    {tree tree' : Tree} {after after' : Progress}
    (hread : readPiece inner progress source = .ok (tree, after, rest))
    (hread' : readPiece inner' progress' source' = .ok (tree', after', rest')) :
    PieceMirrors offset base tail ⟨progress, source⟩ ⟨progress', source'⟩ tree tree' ⟨after, rest⟩
      ⟨after', rest'⟩ := by
  rw [readPiece_eq] at hread hread'
  obtain ⟨⟨atom, middle, inside⟩, hatom, hread⟩ := ok_of_bind_eq_ok hread
  obtain ⟨⟨atom', middle', inside'⟩, hatom', hread'⟩ := ok_of_bind_eq_ok hread'
  obtain ⟨final, hskip, hrepeat⟩ := ok_of_bind_eq_ok hread
  obtain ⟨final', hskip', hrepeat'⟩ := ok_of_bind_eq_ok hread'
  have hlost : Place.Lost ⟨middle, final⟩ → Place.Lost ⟨after, rest⟩ := by
    rintro ⟨hblank, hnil⟩
    simp only at hnil
    subst hnil
    cases hrepeat
    exact ⟨hblank, rfl⟩
  rcases readAtom_mirror hinner h hatom hatom' with ⟨hblank, hnil⟩ | ⟨rfl, hmirror, hends⟩
  · simp only at hnil
    subst hnil
    cases hskip
    exact .lost (hlost ⟨hblank, rfl⟩)
  · rcases hmirror.aligned.skip hskip with hgone | ⟨skipped, hskipped, haligned, hpasses⟩
    · exact .lost (hlost hgone)
    · cases hskip'.symm.trans hskipped
      rcases readRepeated_mirror haligned hrepeat hrepeat' with hgone |
        ⟨rfl, rfl, brace, rfl, hstranded⟩ | ⟨rfl, hnumbers, hmore⟩
      · exact .lost hgone
      · refine .stranded rfl hstranded ?_
        rcases hends with hlt | ⟨-, -, hagain, hbrace⟩
        · exact Nat.lt_of_le_of_lt hpasses.le.1 hlt
        · cases hagain.symm.trans hskip
          exact absurd rfl hbrace
      · have hend := (hmirror.trans (.of_passes haligned hpasses)).trans hmore
        rw [List.append_nil, List.append_nil] at hend
        rw [← hnumbers] at hend
        refine .mirror rfl hend ?_
        rcases hends with hlt | ⟨rfl, rfl, -, -⟩
        · exact .inl (Nat.lt_of_le_of_lt (Nat.le_trans hmore.passes.le.1 hpasses.le.1) hlt)
        · exact .inr (readRepeated_empty hrepeat)

end Highlighter.Regex.Tree
