import Highlighter.Proofs.Regex.Continued
import Highlighter.Proofs.Regex.Joined

/-!
# Expressions behind fewer groups

A source that reads on its own, and also in a group of its own behind other groups, reads behind
fewer groups as well. Nothing in it asks for more than that: its references are to its own groups,
and where numbers must not stand next to names, fewer names and numbers have been read before it.
Three readers are followed here: one of the source alone, one that is far behind other groups, and
one that is behind fewer of them. The first one tells the other two what to read; the third one
reads wherever the second one does.
-/

namespace Highlighter.Regex.Tree

open Pattern (Renumbers)

/-- The groups and references in front of a source in a group of its own, and what follows that
group. -/
structure Site where
  offset : Nat
  base : List Nat
  tail : List Char
  /-- Nothing has been read before the source. -/
  isFirst : Bool

/-- One reader has met names and numbers only if another one has. -/
structure KnowsLess (progress progress' : Progress) : Prop where
  names : progress.names ≠ [] → progress'.names ≠ []
  numbers : progress.hasNumbered = true → progress'.hasNumbered = true

theorem KnowsLess.mixes {progress progress' : Progress} (h : KnowsLess progress progress')
    (hmix : mixesReferences progress' = false) : mixesReferences progress = false := by
  by_contra hnot
  have hmixes : mixesReferences progress = true := by simpa using hnot
  simp only [mixesReferences, Bool.and_eq_true, Bool.not_eq_true', List.isEmpty_eq_false_iff]
    at hmixes
  have hmixes' : mixesReferences progress' = true := by
    simp only [mixesReferences, Bool.and_eq_true, Bool.not_eq_true', List.isEmpty_eq_false_iff]
    exact ⟨h.numbers hmixes.1, h.names hmixes.2⟩
  rw [hmix] at hmixes'
  cases hmixes'

/-- What the third of three readers has met, the second one has met, and if there is nothing before
the source, the first one has met it as well. -/
structure Met (near : Site) (progress progress' progress'' : Progress) : Prop where
  less : KnowsLess progress'' progress'
  own : near.isFirst = true → KnowsLess progress'' progress

theorem Met.withFlags {near : Site} {progress progress' progress'' : Progress}
    (h : Met near progress progress' progress'') (flags flags' flags'' : Flags) :
    Met near { progress with flags := flags } { progress' with flags := flags' }
      { progress'' with flags := flags'' } :=
  ⟨⟨h.less.names, h.less.numbers⟩,
    fun hfirst => ⟨(h.own hfirst).names, (h.own hfirst).numbers⟩⟩

/-- Two readers have got as far as one of the source alone, and the second of them, which stands
behind fewer groups, has met less. -/
structure Tandem (far near : Site) (place place' place'' : Place) : Prop where
  met : Met near place.progress place'.progress place''.progress
  far : Aligned far.offset far.base far.tail place place'
  near : Aligned near.offset near.base near.tail place place''

/-- A reader comes to something where two others know what is given. -/
def ComesTo {α : Type} (near : Site) (result : Except Error (α × Progress × List Char))
    (after after' : Progress) : Prop :=
  ∃ a last rest, result = .ok (a, last, rest) ∧ Met near after after' last

variable {far near : Site} {progress progress' progress'' after after' : Progress}
  {source source' source'' rest rest' : List Char} {tree tree' : Tree}
  {inner inner' inner'' : Option (Reader Tree)}

/-! ## What the flags ignore -/

theorem Tandem.skip
    (h : Tandem far near ⟨progress, source⟩ ⟨progress', source'⟩ ⟨progress'', source''⟩)
    (hskip : skip progress source = .ok rest) :
    Place.Lost ⟨progress, rest⟩ ∨ ∃ rest' rest'', skip progress' source' = .ok rest' ∧
      skip progress'' source'' = .ok rest'' ∧
      Tandem far near ⟨progress, rest⟩ ⟨progress', rest'⟩ ⟨progress'', rest''⟩ := by
  rcases h.far.skip hskip with hlost | ⟨rest', hskip', hfar, -⟩
  · exact .inl hlost
  · rcases h.near.skip hskip with hlost | ⟨rest'', hskip'', hnear, -⟩
    · exact .inl hlost
    · exact .inr ⟨rest', rest'', hskip', hskip'', h.met, hfar, hnear⟩

/-! ## Escapes -/

/-- An escape stands for the same thing in both sources, or it is a reference, which has its higher
number in the second one. -/
theorem readEscape_cases {offset : Nat} {base : List Nat} {tail : List Char}
    (h : Aligned offset base tail ⟨progress, '\\' :: source⟩ ⟨progress', '\\' :: source'⟩)
    (hread : readEscape progress source = .ok (tree, after, rest)) :
    ((∀ number, tree ≠ .backref number) ∧ after = progress ∧
        ∃ tree' rest', readEscape progress' source' = .ok (tree', progress', rest')) ∨
      ∃ number following, tree = .backref number ∧ number ≤ progress.groups ∧
        after.names = progress.names ∧ after.hasNumbered = true ∧
        source' = Nat.toDigits 10 (number + offset) ++ following ∧
        ∀ c, following.head? = some c → c.isDigit = false := by
  obtain ⟨moved, hsource, hmoved⟩ := h.source
  simp only at hsource hmoved
  cases hmoved with
  | stray => cases hread
  | plain hplain => exact absurd rfl hplain
  | @escape c inner moved hdigit hname hrest =>
    obtain rfl : source' = c :: (moved ++ ')' :: tail) := (List.cons.inj hsource).2
    cases hescape : Escape.read false (c :: inner) with
    | error error =>
      simp only [readEscape, hescape] at hread
      cases hread
    | ok result =>
      obtain ⟨escape, last⟩ := result
      obtain ⟨last', hescape', -, -⟩ :=
        (h.withSource hrest).readLocal (Escape.read_local false hdigit hname) hescape
      have hplain := Escape.read_isReference hdigit hname hescape
      rw [readEscape_eq hescape hplain] at hread
      cases hread
      refine .inl ⟨fun number => ?_, rfl, _, last', readEscape_eq hescape' hplain⟩
      cases escape <;> exact Tree.noConfusion
  | @reference c digits inner moved hzero hdigits hend hrest =>
    have hsource' : source' =
        Pattern.movedDigits offset (c :: digits) ++ (moved ++ ')' :: tail) :=
      (List.cons.inj hsource).2.trans (List.append_assoc ..)
    obtain ⟨number, hnumber, hle, rfl, -, rfl⟩ :=
      readEscape_number (List.cons_ne_nil c digits) hdigits hend hread
    have hunsigned : Text.unsigned? 64 (c :: digits) = some number := hnumber
    rw [Pattern.movedDigits, hunsigned] at hsource'
    refine .inr ⟨number, _, rfl, hle, rfl, rfl, hsource', fun d hd => ?_⟩
    rw [hrest.head?_append, Option.some.injEq] at hd
    subst hd
    cases inner with
    | nil => rfl
    | cons d inner => exact hend d rfl

/-- The digits of a number are read as this number, as long as it is not too large. -/
theorem decimal?_toDigits (number : Nat) :
    Escape.decimal? (Nat.toDigits 10 number) = if number < 1 <<< 64 then some number else none := by
  have hdigits : (Nat.toDigits 10 number).all Char.isDigit = true :=
    List.all_eq_true.mpr fun c => Text.isDigit_of_mem_toDigits
  have hsome : (Nat.toDigits 10 number).isEmpty = false :=
    List.isEmpty_eq_false_iff.mpr Nat.toDigits_ne_nil
  have hvalue := Text.digitsValue_toDigits number
  unfold Escape.decimal? Text.unsigned?
  split
  · next rest heq =>
    rw [heq] at hdigits
    cases hdigits
  · simp only [hdigits, hsome, hvalue, Bool.not_true, Bool.or_self, Bool.false_eq_true, if_false]

theorem readEscape_comes (hle : near.offset ≤ far.offset)
    (h : Tandem far near ⟨progress, '\\' :: source⟩ ⟨progress', '\\' :: source'⟩
      ⟨progress'', '\\' :: source''⟩)
    (hread : readEscape progress source = .ok (tree, after, rest))
    (hread' : readEscape progress' source' = .ok (tree', after', rest')) :
    ComesTo near (readEscape progress'' source'') after after' := by
  rcases readEscape_cases h.near hread with ⟨hplain, rfl, tree'', rest'', hread''⟩ |
    ⟨number, following'', rfl, hknown, hnames, hnumbered, rfl, hend''⟩
  · rcases readEscape_cases h.far hread with ⟨-, -, far', last', hagain⟩ |
      ⟨number, _, hnumber, -⟩
    · cases hread'.symm.trans hagain
      exact ⟨tree'', progress'', rest'', hread'', h.met⟩
    · exact absurd hnumber (hplain number)
  · rcases readEscape_cases h.far hread with ⟨hplain, -⟩ |
      ⟨other, following', hother, -, -, -, rfl, hend'⟩
    · exact absurd rfl (hplain number)
    · cases hother
      have hdigits : ∀ value : Nat, ∀ c ∈ Nat.toDigits 10 value, c.isDigit = true :=
        fun value c => Text.isDigit_of_mem_toDigits
      obtain ⟨value, hvalue, -, -, -, rfl⟩ :=
        readEscape_number Nat.toDigits_ne_nil (hdigits _) hend' hread'
      have hdecimal : Escape.decimal? (Nat.toDigits 10 (number + near.offset)) =
          some (number + near.offset) := by
        rw [decimal?_toDigits] at hvalue ⊢
        split at hvalue
        · exact if_pos (by omega)
        · cases hvalue
      have hgroups : progress''.groups = progress.groups + near.offset := h.near.groups
      have hopen : ¬ progress''.groups < number + near.offset := by omega
      refine ⟨.backref (number + near.offset), { progress'' with
        hasNumbered := true
        referenced := (number + near.offset) :: progress''.referenced }, following'', ?_,
        ⟨h.met.less.names, fun _ => rfl⟩,
        fun hfirst => ⟨fun hsome => hnames ▸ (h.met.own hfirst).names hsome, fun _ => hnumbered⟩⟩
      simp only [readEscape, Escape.read_number Nat.toDigits_ne_nil (hdigits _) hend'', hdecimal]
      simp only [bind, Except.bind, reference, if_neg hopen]

/-! ## Parentheses -/

/-- The third of three readers reads wherever the first two do, unless the first one gets lost. -/
structure Eases (far near : Site) (read read' read'' : Reader Tree) : Prop where
  mirrors : Mirrors far.offset far.base far.tail read read'
  mirrors' : Mirrors near.offset near.base near.tail read read''
  comes : ∀ {progress progress' progress'' : Progress} {source source' source'' : List Char},
    Tandem far near ⟨progress, source⟩ ⟨progress', source'⟩ ⟨progress'', source''⟩ →
    ∀ {tree tree' : Tree} {after after' : Progress} {rest rest' : List Char},
      read progress source = .ok (tree, after, rest) →
      read' progress' source' = .ok (tree', after', rest') →
      Place.Lost ⟨after, rest⟩ ∨ ComesTo near (read'' progress'' source'') after after'

section

variable {read read' read'' : Reader Tree}

/-- Behind the insides of parentheses, where one reader finds the closing one, so does the other. -/
theorem Eases.closes (hinner : Eases far near read read' read'')
    (h : Aligned near.offset near.base near.tail ⟨progress, source⟩ ⟨progress'', source''⟩)
    {middle middle'' : Progress} {tree'' : Tree} {between between'' : List Char}
    (hread : read progress source = .ok (tree, middle, between))
    (hread'' : read'' progress'' source'' = .ok (tree'', middle'', between''))
    (hclose : Tree.skip middle between = .ok (')' :: rest)) :
    ∃ rest'', Tree.skip middle'' between'' = .ok (')' :: rest'') := by
  rcases hinner.mirrors'.mirror h (.inl rfl) hread hread'' with ⟨_, hnil⟩ | ⟨-, hmirror⟩
  · simp only at hnil
    subst hnil
    cases hclose
  · rcases hmirror.aligned.skip hclose with ⟨_, hnil⟩ | ⟨closed, hclosed, haligned, -⟩
    · cases hnil
    · obtain ⟨rest'', rfl, -⟩ := haligned.uncons (by decide)
      exact ⟨rest'', hclosed⟩

theorem readBody_comes (hinner : Eases far near read read' read'')
    (h : Tandem far near ⟨progress, source⟩ ⟨progress', source'⟩ ⟨progress'', source''⟩)
    (hread : readBody read progress source = .ok (tree, after, rest))
    (hread' : readBody read' progress' source' = .ok (tree', after', rest')) :
    ComesTo near (readBody read'' progress'' source'') after after' := by
  obtain ⟨⟨body, between, middle⟩, hbody, hread⟩ := ok_of_bind_eq_ok hread
  obtain ⟨⟨⟨⟩, last, final⟩, hclose, hpure⟩ := ok_of_bind_eq_ok hread
  cases hpure
  obtain ⟨⟨body', between', middle'⟩, hbody', hread'⟩ := ok_of_bind_eq_ok hread'
  obtain ⟨⟨⟨⟩, last', final'⟩, hclose', hpure'⟩ := ok_of_bind_eq_ok hread'
  cases hpure'
  obtain ⟨rfl, hskip⟩ := readClose_eq_ok hclose
  obtain ⟨rfl, -⟩ := readClose_eq_ok hclose'
  rcases hinner.comes h hbody hbody' with ⟨_, hnil⟩ | ⟨body'', middle'', rest'', hbody'', hmet⟩
  · simp only at hnil
    subst hnil
    cases hskip
  · obtain ⟨last'', hskip''⟩ := hinner.closes h.near hbody hbody'' hskip
    have hclose'' : readClose middle'' rest'' = .ok ((), middle'', last'') := by
      rw [readClose, hskip'']
      rfl
    exact ⟨body'', middle'', last'', (bind_eq_of_ok hbody'').trans (bind_eq_of_ok hclose''), hmet⟩

/-- What is known inside a group that has been opened, which may have a name. -/
def openGroup (name : Option (List Char)) (progress : Progress) : Progress :=
  { progress with
    groups := progress.groups + 1
    names := match name with
      | some name => (name, progress.groups + 1) :: progress.names
      | none => progress.names }

theorem readGroup_eq (read : Reader Tree) (name : Option (List Char)) (progress : Progress)
    (source : List Char) :
    readGroup read name progress source = (readBody read (openGroup name progress) source >>=
      fun (body, after, rest) => .ok (.group (progress.groups + 1) body, after, rest)) := rfl

theorem Tandem.openGroup (name : Option (List Char))
    (h : Tandem far near ⟨progress, source⟩ ⟨progress', source'⟩ ⟨progress'', source''⟩) :
    Tandem far near ⟨openGroup name progress, source⟩ ⟨openGroup name progress', source'⟩
      ⟨openGroup name progress'', source''⟩ := by
  have hopened : ∀ {site : Site} {progress' : Progress} {source' : List Char},
      Aligned site.offset site.base site.tail ⟨progress, source⟩ ⟨progress', source'⟩ →
      Aligned site.offset site.base site.tail ⟨Tree.openGroup name progress, source⟩
        ⟨Tree.openGroup name progress', source'⟩ := by
    intro site progress' source' h
    have hgroups : progress'.groups = progress.groups + site.offset := h.groups
    refine ⟨h.source, h.flags, ?_, h.referenced, fun number hmem => ?_⟩
    · simp only [Tree.openGroup, hgroups]
      omega
    · obtain ⟨hpositive, hle⟩ := h.known number hmem
      exact ⟨hpositive, Nat.le_succ_of_le hle⟩
  have hless : ∀ {less more : Progress}, KnowsLess less more →
      KnowsLess (Tree.openGroup name less) (Tree.openGroup name more) := by
    intro less more h
    refine ⟨?_, h.numbers⟩
    cases name with
    | none => exact h.names
    | some name => exact fun _ => List.cons_ne_nil _ _
  exact ⟨⟨hless h.met.less, fun hfirst => hless (h.met.own hfirst)⟩, hopened h.far, hopened h.near⟩

theorem readGroup_comes (hinner : Eases far near read read' read'') (name : Option (List Char))
    (h : Tandem far near ⟨progress, source⟩ ⟨progress', source'⟩ ⟨progress'', source''⟩)
    (hread : readGroup read name progress source = .ok (tree, after, rest))
    (hread' : readGroup read' name progress' source' = .ok (tree', after', rest')) :
    ComesTo near (readGroup read'' name progress'' source'') after after' := by
  rw [readGroup_eq] at hread hread'
  obtain ⟨⟨body, last, final⟩, hbody, hpure⟩ := ok_of_bind_eq_ok hread
  cases hpure
  obtain ⟨⟨body', last', final'⟩, hbody', hpure'⟩ := ok_of_bind_eq_ok hread'
  cases hpure'
  obtain ⟨body'', last'', rest'', hbody'', hmet⟩ :=
    readBody_comes hinner (h.openGroup name) hbody hbody'
  exact ⟨_, last'', rest'', (readGroup_eq _ _ _ _).trans (bind_eq_of_ok hbody''), hmet⟩

/-- The openings that a reader of the source alone and two others have seen are the same. -/
structure OpensAll (far near : Site) (place place' place'' : Place)
    (opened opened' opened'' : Opening × List Char) : Prop where
  met : Met near place.progress place'.progress place''.progress
  far : Opens far.offset far.base far.tail place place' opened opened'
  near : Opens near.offset near.base near.tail place place'' opened opened''

theorem readOpened_comes (hinner : Eases far near read read' read'')
    {opened opened' opened'' : Opening × List Char}
    (h : OpensAll far near ⟨progress, source⟩ ⟨progress', source'⟩ ⟨progress'', source''⟩ opened
      opened' opened'')
    (hkind : opened.1 ≠ .reference)
    (hread : readOpened read progress opened = .ok (tree, after, rest))
    (hread' : readOpened read' progress' opened' = .ok (tree', after', rest')) :
    ComesTo near (readOpened read'' progress'' opened'') after after' := by
  obtain ⟨kind, inside⟩ := opened
  obtain ⟨kind', inside'⟩ := opened'
  obtain ⟨kind'', inside''⟩ := opened''
  obtain ⟨hmet, ⟨hsame, halignedFar, -⟩, ⟨hsame', halignedNear, -⟩⟩ := h
  simp only at hsame hsame' halignedFar halignedNear hmet
  subst hsame hsame'
  have htandem : Tandem far near ⟨progress, inside⟩ ⟨progress', inside'⟩ ⟨progress'', inside''⟩ :=
    ⟨hmet, halignedFar, halignedNear⟩
  cases kind'' with
  | look side negated =>
    obtain ⟨⟨body, last, final⟩, hbody, hpure⟩ := ok_of_bind_eq_ok hread
    cases hpure
    obtain ⟨⟨body', last', final'⟩, hbody', hpure'⟩ := ok_of_bind_eq_ok hread'
    cases hpure'
    obtain ⟨body'', last'', rest'', hbody'', hmet⟩ := readBody_comes hinner htandem hbody hbody'
    exact ⟨_, last'', rest'', bind_eq_of_ok hbody'', hmet⟩
  | named =>
    obtain ⟨⟨name, middle⟩, hname, hread⟩ := ok_of_bind_eq_ok hread
    obtain ⟨⟨name', middle'⟩, hname', hread'⟩ := ok_of_bind_eq_ok hread'
    obtain ⟨last', hlast', hfar, -⟩ := halignedFar.readLocal Escape.readName_local hname
    cases hname'.symm.trans hlast'
    obtain ⟨last'', hlast'', hnear, -⟩ := halignedNear.readLocal Escape.readName_local hname
    simp only at hread hread'
    split at hread
    · cases hread
    · next hhyphen =>
      rw [if_neg hhyphen] at hread'
      obtain ⟨body'', final'', rest'', hbody'', hmet⟩ :=
        readGroup_comes hinner (some name) ⟨hmet, hfar, hnear⟩ hread hread'
      refine ⟨body'', final'', rest'', (bind_eq_of_ok hlast'').trans ?_, hmet⟩
      simp only [if_neg hhyphen]
      exact hbody''
  | reference => exact absurd rfl hkind
  | atomic =>
    obtain ⟨⟨body, last, final⟩, hbody, hpure⟩ := ok_of_bind_eq_ok hread
    cases hpure
    obtain ⟨⟨body', last', final'⟩, hbody', hpure'⟩ := ok_of_bind_eq_ok hread'
    cases hpure'
    obtain ⟨body'', last'', rest'', hbody'', hmet⟩ := readBody_comes hinner htandem hbody hbody'
    exact ⟨_, last'', rest'', bind_eq_of_ok hbody'', hmet⟩
  | flags =>
    obtain ⟨⟨flags, hasBody, middle⟩, hflags, hread⟩ := ok_of_bind_eq_ok hread
    obtain ⟨⟨flags', hasBody', middle'⟩, hflags', hread'⟩ := ok_of_bind_eq_ok hread'
    have hsame : progress'.flags = progress.flags := halignedFar.flags
    have hsame' : progress''.flags = progress.flags := halignedNear.flags
    obtain ⟨last', hlast', hfar, -⟩ := readFlags_aligned halignedFar hflags
    rw [hsame, hlast'] at hflags'
    cases hflags'
    obtain ⟨middle'', hflags'', hnear, -⟩ := readFlags_aligned halignedNear hflags
    rw [← hsame'] at hflags''
    have hset : Tandem far near ⟨{ progress with flags := flags }, middle⟩
        ⟨{ progress' with flags := flags }, middle'⟩
        ⟨{ progress'' with flags := flags }, middle''⟩ :=
      ⟨hmet.withFlags _ _ _,
        ⟨hfar.source, rfl, hfar.groups, hfar.referenced, hfar.known⟩,
        ⟨hnear.source, rfl, hnear.groups, hnear.referenced, hnear.known⟩⟩
    simp only at hread hread'
    split at hread
    · next hbody =>
      rw [if_pos hbody] at hread'
      obtain ⟨⟨body, last, final⟩, hinside, hread⟩ := ok_of_bind_eq_ok hread
      obtain ⟨⟨body', last', final'⟩, hinside', hread'⟩ := ok_of_bind_eq_ok hread'
      simp only at hread hread'
      split at hread
      · next close =>
        rcases hinner.comes hset hinside hinside' with ⟨_, hnil⟩ |
          ⟨body'', last'', final'', hinside'', hend⟩
        · cases hnil
        · rcases hinner.mirrors'.mirror hset.near (.inl rfl) hinside hinside'' with ⟨_, hnil⟩ |
            ⟨-, hmirror⟩
          · cases hnil
          · obtain ⟨close'', rfl, -⟩ := hmirror.aligned.uncons (by decide)
            split at hread'
            · cases hread
              cases hread'
              refine ⟨body'', { last'' with flags := progress''.flags }, close'',
                (bind_eq_of_ok hflags'').trans ?_, hend.withFlags _ _ _⟩
              simp only [if_pos hbody]
              exact bind_eq_of_ok hinside''
            · cases hread'
            · cases hread'
      · cases hread
      · cases hread
    · next hbody =>
      rw [if_neg hbody] at hread'
      cases hread
      cases hread'
      refine ⟨.empty, { progress'' with flags := flags }, middle'',
        (bind_eq_of_ok hflags'').trans ?_, hmet.withFlags _ _ _⟩
      simp only [if_neg hbody]
      rfl
  | plain => exact readGroup_comes hinner none htandem hread hread'

theorem readParenthesis_comes (hinner : Eases far near read read' read'')
    (h : Tandem far near ⟨progress, '(' :: source⟩ ⟨progress', '(' :: source'⟩
      ⟨progress'', '(' :: source''⟩)
    (hread : readParenthesis read progress source = .ok (tree, after, rest))
    (hread' : readParenthesis read' progress' source' = .ok (tree', after', rest')) :
    ComesTo near (readParenthesis read'' progress'' source'') after after' := by
  rw [readParenthesis_eq] at hread hread' ⊢
  obtain ⟨inside, hskip, hread⟩ := ok_of_bind_eq_ok hread
  obtain ⟨inside', hskip', hread'⟩ := ok_of_bind_eq_ok hread'
  have htandem : Tandem far near ⟨progress, source⟩ ⟨progress', source'⟩ ⟨progress'', source''⟩ := by
    obtain ⟨_, htaken, hfar⟩ := h.far.uncons (by decide)
    obtain ⟨_, htaken', hnear⟩ := h.near.uncons (by decide)
    cases htaken
    cases htaken'
    exact ⟨h.met, hfar, hnear⟩
  rcases htandem.skip hskip with ⟨_, hnil⟩ | ⟨far', near', hfar, hnear, hinside⟩
  · simp only at hnil
    subst hnil
    obtain ⟨body, hbody, -⟩ := ok_of_bind_eq_ok hread
    exact absurd hbody (readBody_nil hinner.mirrors)
  · cases hskip'.symm.trans hfar
    have hunnamed : (opening inside).1 ≠ .reference := by
      intro hreference
      have hopens : opening inside = (.reference, (opening inside).2) := by rw [← hreference]
      exact not_prefix_of_skip h.far hskip (opening_reference hopens)
    rw [bind_eq_of_ok hnear]
    exact readOpened_comes hinner
      ⟨hinside.met, opening_opens hinside.far, opening_opens hinside.near⟩ hunnamed hread hread'

end

/-! ## Constructs with their quantifiers -/

/-- Three readers of the insides of parentheses, which may be missing where nesting is too deep: the
third one is there where the first two are. -/
structure InnerEases (far near : Site) (inner inner' inner'' : Option (Reader Tree)) : Prop where
  mirrors : ∀ read ∈ inner, ∀ read' ∈ inner', Mirrors far.offset far.base far.tail read read'
  mirrors' : ∀ read ∈ inner, ∀ read'' ∈ inner'',
    Mirrors near.offset near.base near.tail read read''
  eases : ∀ read ∈ inner, ∀ read' ∈ inner', ∃ read'' ∈ inner'', Eases far near read read' read''

theorem readFirst_comes (hle : near.offset ≤ far.offset)
    (hinner : InnerEases far near inner inner' inner'')
    (h : Tandem far near ⟨progress, source⟩ ⟨progress', source'⟩ ⟨progress'', source''⟩)
    (hread : readFirst inner progress source = .ok (tree, after, rest))
    (hread' : readFirst inner' progress' source' = .ok (tree', after', rest')) :
    ComesTo near (readFirst inner'' progress'' source'') after after' := by
  have hflags : progress'.flags = progress.flags := h.far.flags
  have hflags' : progress''.flags = progress.flags := h.near.flags
  obtain ⟨rest', rfl⟩ := List.head?_eq_some_iff.mp h.far.head?
  obtain ⟨rest'', rfl⟩ := List.head?_eq_some_iff.mp h.near.head?
  cases source with
  | nil =>
    cases hread
    cases hread'
    exact ⟨.empty, progress'', _, rfl, h.met⟩
  | cons c source =>
    simp only [List.head?_cons, Option.getD_some] at h hread' ⊢
    by_cases hparen : c = '('
    · subst hparen
      rw [readFirst, if_pos rfl] at hread hread' ⊢
      cases inner with
      | none => cases hread
      | some read =>
        cases inner' with
        | none => cases hread'
        | some read' =>
          obtain ⟨read'', hmem, heases⟩ := hinner.eases read rfl read' rfl
          cases hmem
          exact readParenthesis_comes heases h hread hread'
    · by_cases hbackslash : c = '\\'
      · subst hbackslash
        rw [readFirst, if_neg hparen, if_pos rfl] at hread hread' ⊢
        exact readEscape_comes hle h hread hread'
      · obtain ⟨_, hmoved, hfar⟩ := h.far.uncons hbackslash
        cases hmoved
        obtain ⟨_, hmoved, hnear⟩ := h.near.uncons hbackslash
        cases hmoved
        rw [readFirst, if_neg hparen, if_neg hbackslash] at hread hread' ⊢
        by_cases hbracket : c = '['
        · rw [if_pos hbracket] at hread hread' ⊢
          obtain ⟨⟨members, last⟩, hclass, hpure⟩ := ok_of_bind_eq_ok hread
          cases hpure
          obtain ⟨⟨members', last'⟩, -, hpure'⟩ := ok_of_bind_eq_ok hread'
          cases hpure'
          obtain ⟨last'', hclass'', -, -⟩ := readClass_aligned hnear hclass
          rw [hflags', bind_eq_of_ok hclass'']
          exact ⟨_, progress'', last'', rfl, h.met⟩
        · rw [if_neg hbracket] at hread hread' ⊢
          rw [hflags] at hread'
          rw [hflags']
          cases hsingle : single? progress.flags c with
          | some single =>
            rw [hsingle] at hread hread'
            cases hread
            cases hread'
            exact ⟨_, progress'', rest'', rfl, h.met⟩
          | none =>
            rw [hsingle] at hread hread'
            cases hread
            cases hread'
            exact ⟨.empty, progress'', _, rfl, h.met⟩

theorem readAtom_comes (hle : near.offset ≤ far.offset)
    (hinner : InnerEases far near inner inner' inner'')
    (h : Tandem far near ⟨progress, source⟩ ⟨progress', source'⟩ ⟨progress'', source''⟩)
    (hread : readAtom inner progress source = .ok (tree, after, rest))
    (hread' : readAtom inner' progress' source' = .ok (tree', after', rest')) :
    Place.Lost ⟨after, rest⟩ ∨ ComesTo near (readAtom inner'' progress'' source'') after after' := by
  rw [readAtom_eq] at hread hread' ⊢
  obtain ⟨inside, hskip, hread⟩ := ok_of_bind_eq_ok hread
  obtain ⟨inside', hskip', hread'⟩ := ok_of_bind_eq_ok hread'
  rcases h.skip hskip with ⟨hblank, hnil⟩ | ⟨far', near', hfar, hnear, htandem⟩
  · simp only at hnil
    subst hnil
    cases hread
    exact .inl ⟨hblank, rfl⟩
  · cases hskip'.symm.trans hfar
    rw [bind_eq_of_ok hnear]
    exact .inr (readFirst_comes hle hinner htandem hread hread')

theorem repeatAtom_after (progress : Progress) (atom : Tree) (bounds : Bounds)
    (source : List Char) : (repeatAtom progress atom bounds source).2.1 = progress := by
  unfold repeatAtom
  simp only
  split <;> split <;> rfl

/-- A quantifier changes nothing that is known. -/
theorem readRepeated_after {atom : Tree}
    (h : readRepeated progress atom source = .ok (tree, after, rest)) : after = progress := by
  unfold readRepeated at h
  split at h
  · cases h
    rfl
  · next bounds middle _ =>
    split at h
    · cases hskip : Tree.skip progress middle with
      | error error =>
        rw [hskip] at h
        cases h
      | ok final =>
        rw [hskip] at h
        have hrepeat : repeatAtom progress atom bounds final = (tree, after, rest) :=
          Except.ok.inj h
        rw [← repeatAtom_after progress atom bounds final, hrepeat]
    · cases h

theorem readRepeated_comes {offset : Nat} {base : List Nat} {tail : List Char} {atom : Tree}
    (h : Aligned offset base tail ⟨progress, source⟩ ⟨progress', source'⟩)
    (hread : readRepeated progress atom source = .ok (tree, after, rest)) :
    Place.Lost ⟨after, rest⟩ ∨
      (after = progress ∧ rest = source ∧
        ∃ inside, source = '\x7b' :: inside ∧ Stranded progress inside) ∨
      ∃ tree' rest', readRepeated progress' (atom.shift offset) source' =
        .ok (tree', progress', rest') := by
  unfold readRepeated at hread ⊢
  rcases readQuantifier?_agree h with ⟨hnone, inside, rfl, hstranded⟩ | ⟨hnone, hnone'⟩ |
    ⟨bounds, middle, middle', hsome, hsome', haligned, -⟩
  · rw [hnone] at hread
    cases hread
    exact .inr (.inl ⟨rfl, rfl, inside, rfl, hstranded⟩)
  · rw [hnone']
    exact .inr (.inr ⟨_, _, rfl⟩)
  · rw [hsome] at hread
    rw [hsome']
    simp only [isRepeatable_shift] at hread ⊢
    split at hread
    · next hrepeatable =>
      cases hskip : Tree.skip progress middle with
      | error error =>
        rw [hskip] at hread
        cases hread
      | ok final =>
        rcases haligned.skip hskip with ⟨hblank, hnil⟩ | ⟨final', hskip', hfinal, -⟩
        · simp only at hnil
          subst hnil
          rw [hskip] at hread
          cases hread
          exact .inl ⟨hblank, rfl⟩
        · have hlast := repeatAtom_after progress' (atom.shift offset) bounds final'
          rcases hrepeat : repeatAtom progress' (atom.shift offset) bounds final' with
            ⟨tree', last, rest'⟩
          rw [hrepeat] at hlast
          simp only at hlast
          subst hlast
          refine .inr (.inr ⟨tree', rest', ?_⟩)
          rw [if_pos hrepeatable, hskip', Except.map, hrepeat]
    · cases hread

/-- A reader has got lost, or it is stranded at a brace that it has come to. -/
def Gone (source : List Char) (after : Place) : Prop :=
  after.Lost ∨ (∃ inside, after.source = '\x7b' :: inside ∧ Stranded after.progress inside) ∧
    after.source.length < source.length

/-- Behind a construct where it has gone astray, a reader gets lost. -/
theorem Gone.lost {fuel : Nat} {middle : Progress} {inside : List Char} {others : List Tree}
    (h : Gone source ⟨middle, inside⟩) (hfuel : source.length ≤ fuel + 1)
    (hothers : readItems inner fuel middle inside = .ok (others, after, rest)) :
    Place.Lost ⟨after, rest⟩ := by
  rcases h with ⟨hblank, hnil⟩ | ⟨⟨brace, hbrace, hstranded⟩, hless⟩
  · simp only at hblank hnil
    subst hnil
    cases (readItems_nil inner fuel middle).symm.trans hothers
    exact ⟨hblank, rfl⟩
  · simp only at hbrace hless hstranded
    subst hbrace
    exact readItems_adrift (.step rfl hstranded) (by omega) hothers

/-- A reader that has gone astray has taken something of its source. -/
theorem Gone.length_ne {after : Place} (h : Gone source after) (hsource : source ≠ []) :
    after.source.length ≠ source.length := by
  rcases h with ⟨-, hnil⟩ | ⟨-, hless⟩
  · rw [hnil]
    exact Ne.symm (Nat.ne_of_gt (List.length_pos_iff.mpr hsource))
  · exact Nat.ne_of_lt hless

theorem PieceMirrors.gone_or {offset : Nat} {base : List Nat} {tail : List Char}
    {place place' last last' : Place}
    (h : PieceMirrors offset base tail place place' tree tree' last last') :
    Gone place.source last ∨
      Mirror offset base tail tree.groupNumbers place place' last last' := by
  cases h with
  | lost hlost => exact .inl (.inl hlost)
  | stranded hbrace hstranded hless => exact .inl (.inr ⟨⟨_, hbrace, hstranded⟩, hless⟩)
  | mirror _ hmirror _ => exact .inr hmirror

theorem readPiece_comes (hle : near.offset ≤ far.offset)
    (hinner : InnerEases far near inner inner' inner'')
    (h : Tandem far near ⟨progress, source⟩ ⟨progress', source'⟩ ⟨progress'', source''⟩)
    (hread : readPiece inner progress source = .ok (tree, after, rest))
    (hread' : readPiece inner' progress' source' = .ok (tree', after', rest')) :
    Gone source ⟨after, rest⟩ ∨ ComesTo near (readPiece inner'' progress'' source'') after after' := by
  rw [readPiece_eq] at hread hread' ⊢
  obtain ⟨⟨atom, middle, inside⟩, hatom, hread⟩ := ok_of_bind_eq_ok hread
  obtain ⟨⟨atom', middle', inside'⟩, hatom', hread'⟩ := ok_of_bind_eq_ok hread'
  obtain ⟨final, hskip, hrepeat⟩ := ok_of_bind_eq_ok hread
  obtain ⟨final', hskip', hrepeat'⟩ := ok_of_bind_eq_ok hread'
  cases readRepeated_after hrepeat
  cases readRepeated_after hrepeat'
  have hlost : Place.Lost ⟨after, final⟩ → Gone source ⟨after, rest⟩ := by
    rintro ⟨hblank, hnil⟩
    simp only at hnil
    subst hnil
    cases hrepeat
    exact .inl ⟨hblank, rfl⟩
  have hlost' : Place.Lost ⟨after, inside⟩ → Gone source ⟨after, rest⟩ := by
    rintro ⟨hblank, hnil⟩
    simp only at hnil
    subst hnil
    cases hskip
    exact hlost ⟨hblank, rfl⟩
  rcases readAtom_comes hle hinner h hatom hatom' with hgone |
    ⟨atom'', middle'', inside'', hatom'', hmet⟩
  · exact .inl (hlost' hgone)
  · rcases readAtom_mirror hinner.mirrors' h.near hatom hatom'' with hgone | ⟨rfl, hmirror, hends⟩
    · exact .inl (hlost' hgone)
    · rcases hmirror.aligned.skip hskip with hgone | ⟨final'', hskip'', haligned, hpasses⟩
      · exact .inl (hlost hgone)
      · rcases readRepeated_comes haligned hrepeat with hgone |
          ⟨-, rfl, brace, rfl, hstranded⟩ | ⟨tree'', rest'', hrepeat''⟩
        · exact .inl (.inl hgone)
        · refine .inl (.inr ⟨⟨brace, rfl, hstranded⟩, ?_⟩)
          rcases hends with hlt | ⟨-, -, hagain, hbrace⟩
          · exact Nat.lt_of_le_of_lt hpasses.le.1 hlt
          · cases hagain.symm.trans hskip
            exact absurd rfl hbrace
        · exact .inr ⟨tree'', middle'', rest'',
            (bind_eq_of_ok hatom'').trans ((bind_eq_of_ok hskip'').trans hrepeat''), hmet⟩

/-! ## Branches -/

/-- At the end of the source, a branch ends in front of the closing parenthesis. -/
theorem readItems_comes_nil {fuel' : Nat}
    (h : Tandem far near ⟨progress, []⟩ ⟨progress', source'⟩ ⟨progress'', source''⟩)
    {items' : List Tree}
    (hread' : readItems inner' fuel' progress' source' = .ok (items', after', rest'))
    (fuel'' : Nat) :
    ComesTo near (readItems inner'' fuel'' progress'' source'') progress after' := by
  obtain ⟨last', rfl⟩ := List.head?_eq_some_iff.mp h.far.head?
  obtain ⟨last'', rfl⟩ := List.head?_eq_some_iff.mp h.near.head?
  cases (readItems_end (by decide) inner' fuel' progress' last').symm.trans hread'
  exact ⟨[], progress'', _, readItems_end (by decide) _ _ _ _, h.met⟩

theorem readItems_comes (hle : near.offset ≤ far.offset)
    (hinner : InnerEases far near inner inner' inner'') {fuel fuel' fuel'' : Nat}
    (h : Tandem far near ⟨progress, source⟩ ⟨progress', source'⟩ ⟨progress'', source''⟩)
    (hfuel : source.length ≤ fuel) (hfuel' : source'.length ≤ fuel')
    (hfuel'' : source''.length ≤ fuel'') {items items' : List Tree}
    (hread : readItems inner fuel progress source = .ok (items, after, rest))
    (hread' : readItems inner' fuel' progress' source' = .ok (items', after', rest')) :
    Place.Lost ⟨after, rest⟩ ∨
      ComesTo near (readItems inner'' fuel'' progress'' source'') after after' := by
  induction fuel generalizing progress progress' progress'' source source' source'' fuel' fuel''
    items items' with
  | zero =>
    cases List.length_eq_zero_iff.mp (Nat.le_zero.mp hfuel)
    cases hread
    exact .inr (readItems_comes_nil h hread' fuel'')
  | succ fuel ih =>
    by_cases hsource : source = []
    · subst hsource
      cases (readItems_nil inner _ progress).symm.trans hread
      exact .inr (readItems_comes_nil h hread' fuel'')
    have hsource' : source' ≠ [] := by
      rintro rfl
      cases h.far.head?
    have hsource'' : source'' ≠ [] := by
      rintro rfl
      cases h.near.head?
    have hpositive' := List.length_pos_iff.mpr hsource'
    have hpositive'' := List.length_pos_iff.mpr hsource''
    obtain ⟨fuel', rfl⟩ := Nat.exists_eq_succ_of_ne_zero (by omega : fuel' ≠ 0)
    obtain ⟨fuel'', rfl⟩ := Nat.exists_eq_succ_of_ne_zero (by omega : fuel'' ≠ 0)
    obtain ⟨item, middle, inside, hpiece, hends⟩ := readItems_eq_ok hsource hread
    obtain ⟨item', middle', inside', hpiece', hends'⟩ := readItems_eq_ok hsource' hread'
    have hlost : Gone source ⟨middle, inside⟩ → Place.Lost ⟨after, rest⟩ := by
      intro hgone
      rcases hends with ⟨hsame, -⟩ | ⟨-, others, hothers, -⟩
      · exact absurd hsame (hgone.length_ne hsource)
      · exact hgone.lost hfuel hothers
    rcases readPiece_comes hle hinner h hpiece hpiece' with hgone |
      ⟨item'', middle'', inside'', hpiece'', hmet⟩
    · exact .inl (hlost hgone)
    rcases (readPiece_mirror hinner.mirrors h.far hpiece hpiece').gone_or with hgone | hfar
    · exact .inl (hlost hgone)
    rcases (readPiece_mirror hinner.mirrors' h.near hpiece hpiece'').gone_or with hgone | hnear
    · exact .inl (hlost hgone)
    have hlength := hfar.passes.length_eq_iff
    have hlength' := hnear.passes.length_eq_iff
    have hshorter := hfar.passes.le
    have hshorter' := hnear.passes.le
    simp only at hlength hlength' hshorter hshorter'
    rcases hends with ⟨hsame, rfl, rfl, rfl⟩ | ⟨hdiffer, others, hothers, rfl⟩
    · rcases hends' with ⟨-, rfl, rfl, rfl⟩ | ⟨hdiffer', -⟩
      · exact .inr ⟨[], progress'', source'',
          readItems_of_idle hpiece'' (hlength'.mp hsame) _, h.met⟩
      · exact absurd (hlength.mp hsame) hdiffer'
    · rcases hends' with ⟨hsame', -⟩ | ⟨-, others', hothers', rfl⟩
      · exact absurd (hlength.mpr hsame') hdiffer
      · have hdiffer'' : inside''.length ≠ source''.length := fun hsame =>
          hdiffer (hlength'.mpr hsame)
        have htandem : Tandem far near ⟨middle, inside⟩ ⟨middle', inside'⟩ ⟨middle'', inside''⟩ :=
          ⟨hmet, hfar.aligned, hnear.aligned⟩
        have hsame' : inside'.length ≠ source'.length := fun hsame => hdiffer (hlength.mpr hsame)
        have hless'' : inside''.length ≤ fuel'' := by omega
        refine (ih htandem (by omega) (by omega) hless'' hothers hothers').imp_right ?_
        rintro ⟨others'', last'', rest'', hothers'', hend⟩
        exact ⟨_, last'', rest'', readItems_of_piece hsource'' hpiece'' hdiffer'' hothers'', hend⟩

theorem readBranch_comes (hle : near.offset ≤ far.offset)
    (hinner : InnerEases far near inner inner' inner'')
    (h : Tandem far near ⟨progress, source⟩ ⟨progress', source'⟩ ⟨progress'', source''⟩)
    (hread : readBranch inner progress source = .ok (tree, after, rest))
    (hread' : readBranch inner' progress' source' = .ok (tree', after', rest')) :
    Place.Lost ⟨after, rest⟩ ∨
      ComesTo near (readBranch inner'' progress'' source'') after after' := by
  obtain ⟨⟨items, last, final⟩, hitems, hpure⟩ := ok_of_bind_eq_ok hread
  cases hpure
  obtain ⟨⟨items', last', final'⟩, hitems', hpure'⟩ := ok_of_bind_eq_ok hread'
  cases hpure'
  refine (readItems_comes hle hinner h (Nat.le_refl _) (Nat.le_refl _) (Nat.le_refl _) hitems
    hitems').imp_right ?_
  rintro ⟨items'', last'', final'', hitems'', hmet⟩
  exact ⟨ofItems items'', last'', final'', bind_eq_of_ok hitems'', hmet⟩

/-! ## Alternations -/

theorem readMore_comes (hle : near.offset ≤ far.offset)
    (hinner : InnerEases far near inner inner' inner'') {fuel fuel' fuel'' : Nat}
    (h : Tandem far near ⟨progress, source⟩ ⟨progress', source'⟩ ⟨progress'', source''⟩)
    (hfuel : source.length ≤ fuel) (hfuel' : source'.length ≤ fuel')
    (hfuel'' : source''.length ≤ fuel'') {choices choices' : List Tree}
    (hread : readMore inner fuel progress source = .ok (choices, after, rest))
    (hread' : readMore inner' fuel' progress' source' = .ok (choices', after', rest')) :
    Place.Lost ⟨after, rest⟩ ∨
      ComesTo near (readMore inner'' fuel'' progress'' source'') after after' := by
  induction fuel generalizing progress progress' progress'' source source' source'' fuel' fuel''
    choices choices' with
  | zero =>
    cases List.length_eq_zero_iff.mp (Nat.le_zero.mp hfuel)
    obtain ⟨last', rfl⟩ := List.head?_eq_some_iff.mp h.far.head?
    obtain ⟨last'', rfl⟩ := List.head?_eq_some_iff.mp h.near.head?
    cases hread
    cases (readMore_close inner' fuel' progress' last').symm.trans hread'
    exact .inr ⟨[], progress'', _, readMore_close _ _ _ _, h.met⟩
  | succ fuel ih =>
    have hsome' : 0 < source'.length := by
      obtain ⟨last, rfl⟩ := List.head?_eq_some_iff.mp h.far.head?
      exact Nat.succ_pos _
    have hsome'' : 0 < source''.length := by
      obtain ⟨last, rfl⟩ := List.head?_eq_some_iff.mp h.near.head?
      exact Nat.succ_pos _
    obtain ⟨fuel', rfl⟩ := Nat.exists_eq_succ_of_ne_zero (by omega : fuel' ≠ 0)
    obtain ⟨fuel'', rfl⟩ := Nat.exists_eq_succ_of_ne_zero (by omega : fuel'' ≠ 0)
    obtain ⟨skipped, hskip, hends⟩ := readMore_eq_ok hread
    obtain ⟨skipped', hskip', hends'⟩ := readMore_eq_ok hread'
    rcases h.far.skip hskip with ⟨hblank, hnil⟩ | ⟨final', hfinal', hfar, hpasses⟩
    · simp only at hblank hnil
      subst hnil
      rcases hends with ⟨-, -, rfl, rfl⟩ | ⟨_, _, _, _, _, hbar, -⟩
      · exact .inl ⟨hblank, rfl⟩
      · cases hbar
    cases hskip'.symm.trans hfinal'
    rcases h.near.skip hskip with ⟨hblank, hnil⟩ | ⟨skipped'', hskip'', hnear, hpasses'⟩
    · simp only at hblank hnil
      subst hnil
      rcases hends with ⟨-, -, rfl, rfl⟩ | ⟨_, _, _, _, _, hbar, -⟩
      · exact .inl ⟨hblank, rfl⟩
      · cases hbar
    have hiff := hfar.head?_eq_some_iff (c := '|') (by decide)
    have hiff' := hnear.head?_eq_some_iff (c := '|') (by decide)
    rcases hends with ⟨hbar, rfl, rfl, rfl⟩ | ⟨inside, choice, middle, between, others, rfl,
      hchoice, hothers, rfl⟩
    · rcases hends' with ⟨-, rfl, rfl, rfl⟩ | ⟨_, _, _, _, _, rfl, -⟩
      · have hbar'' : skipped''.head? ≠ some '|' := fun hhead => hbar (hiff'.mp hhead)
        refine .inr ⟨[], progress'', skipped'', ?_, h.met⟩
        rw [readMore_skip hskip'', readMore_of_stop (skip_skip hskip'') hbar'']
      · exact absurd (hiff.mp rfl) hbar
    · rcases hends' with ⟨hbar', -⟩ | ⟨inside', choice', middle', between', others', rfl,
        hchoice', hothers', rfl⟩
      · exact absurd (hiff.mpr rfl) hbar'
      obtain ⟨_, htaken, hinside⟩ := hfar.uncons (by decide)
      cases htaken
      obtain ⟨inside'', rfl, hinside'⟩ := hnear.uncons (by decide)
      have hlength := hpasses.le
      have hlength' := hpasses'.le
      simp only [List.length_cons] at hlength hlength'
      have hgone : Place.Lost ⟨middle, between⟩ → Place.Lost ⟨after, rest⟩ := by
        rintro ⟨hblank, hnil⟩
        simp only at hblank hnil
        subst hnil
        cases (readMore_nil inner fuel middle).symm.trans hothers
        exact ⟨hblank, rfl⟩
      have htandem : Tandem far near ⟨progress, inside⟩ ⟨progress', inside'⟩
          ⟨progress'', inside''⟩ := ⟨h.met, hinside, hinside'⟩
      rcases readBranch_comes hle hinner htandem hchoice hchoice' with hlost |
        ⟨choice'', middle'', between'', hchoice'', hmet⟩
      · exact .inl (hgone hlost)
      rcases readBranch_mirror hinner.mirrors hinside (.inl rfl) hchoice hchoice' with hlost |
        ⟨-, hmirror⟩
      · exact .inl (hgone hlost)
      rcases readBranch_mirror hinner.mirrors' hinside' (.inl rfl) hchoice hchoice'' with hlost |
        ⟨-, hmirror'⟩
      · exact .inl (hgone hlost)
      have hshorter := hmirror.passes.le
      have hshorter' := hmirror'.passes.le
      simp only at hshorter hshorter'
      have hless'' : between''.length ≤ fuel'' := by omega
      refine (ih ⟨hmet, hmirror.aligned, hmirror'.aligned⟩ (by omega) (by omega) hless'' hothers
        hothers').imp_right ?_
      rintro ⟨others'', last'', rest'', hothers'', hend⟩
      exact ⟨_, last'', rest'', readMore_of_branch hskip'' hchoice'' hothers'', hend⟩

/-! ## Expressions -/

theorem readChoice_eases (hle : near.offset ≤ far.offset)
    (hinner : InnerEases far near inner inner' inner'') :
    Eases far near (readChoice inner) (readChoice inner') (readChoice inner'') where
  mirrors := readChoice_mirrors hinner.mirrors
  mirrors' := readChoice_mirrors hinner.mirrors'
  comes := by
    intro progress progress' progress'' source source' source'' h tree tree' after after' rest rest'
      hread hread'
    obtain ⟨first, middle, between, choices, hfirst, hmore, rfl⟩ := readChoice_eq_ok hread
    obtain ⟨first', middle', between', choices', hfirst', hmore', rfl, hmix⟩ :=
      readChoice_eq_ok_iff.mp hread'
    have hgone : Place.Lost ⟨middle, between⟩ → Place.Lost ⟨after, rest⟩ := by
      rintro ⟨hblank, hnil⟩
      simp only at hblank hnil
      subst hnil
      cases (readMore_nil inner _ middle).symm.trans hmore
      exact ⟨hblank, rfl⟩
    rcases readBranch_comes hle hinner h hfirst hfirst' with hlost |
      ⟨first'', middle'', between'', hfirst'', hmet⟩
    · exact .inl (hgone hlost)
    rcases readBranch_mirror hinner.mirrors h.far (.inl rfl) hfirst hfirst' with hlost |
      ⟨-, hmirror⟩
    · exact .inl (hgone hlost)
    rcases readBranch_mirror hinner.mirrors' h.near (.inl rfl) hfirst hfirst'' with hlost |
      ⟨-, hmirror'⟩
    · exact .inl (hgone hlost)
    rcases readMore_comes hle hinner ⟨hmet, hmirror.aligned, hmirror'.aligned⟩ (Nat.le_refl _)
      (Nat.le_refl _) (Nat.le_refl between''.length) hmore hmore' with hlost | ⟨choices'', last'', rest'', hmore'', hend⟩
    · exact .inl hlost
    rcases readMore_mirror hinner.mirrors hmirror.aligned (Nat.le_refl _) (Nat.le_refl _) hmore
      hmore' with hlost | ⟨rfl, -⟩
    · exact .inl hlost
    rcases readMore_mirror hinner.mirrors' hmirror'.aligned (Nat.le_refl _) (Nat.le_refl _) hmore
      hmore'' with hlost | ⟨rfl, -⟩
    · exact .inl hlost
    refine .inr ⟨_, last'', rest'', readChoice_eq_ok_iff.mpr ⟨first'', middle'', between'', _,
      hfirst'', hmore'', rfl, fun hnil => hend.less.mixes (hmix ?_)⟩, hend⟩
    rw [shiftAll_eq_map, List.map_eq_nil_iff] at hnil ⊢
    exact hnil

theorem innerReader_mirrors (site : Site) (levels levels' : Nat) :
    ∀ read ∈ innerReader levels, ∀ read' ∈ innerReader levels',
      Mirrors site.offset site.base site.tail read read' := by
  intro read hread read' hread'
  cases levels with
  | zero => cases hread
  | succ levels =>
    cases levels' with
    | zero => cases hread'
    | succ levels' =>
      cases hread
      cases hread'
      exact readExpression_mirrors _ _ _ _ _

/-- A reader of expressions behind fewer groups reads wherever one behind more groups does, if
parentheses may nest as deep for the one as for the other. -/
theorem readExpression_eases (hle : near.offset ≤ far.offset) (levels levels' : Nat) :
    Eases far near (readExpression levels) (readExpression levels') (readExpression levels') := by
  induction levels generalizing levels' with
  | zero =>
    rw [readExpression_eq, readExpression_eq]
    refine readChoice_eases hle ⟨innerReader_mirrors far _ _, innerReader_mirrors near _ _, ?_⟩
    intro read hread
    cases hread
  | succ levels ih =>
    rw [readExpression_eq, readExpression_eq]
    refine readChoice_eases hle ⟨innerReader_mirrors far _ _, innerReader_mirrors near _ _, ?_⟩
    intro read hread read' hread'
    cases levels' with
    | zero => cases hread'
    | succ levels' =>
      cases hread
      cases hread'
      exact ⟨_, rfl, ih levels'⟩

end Highlighter.Regex.Tree
