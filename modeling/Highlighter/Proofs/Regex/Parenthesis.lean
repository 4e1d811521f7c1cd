import Highlighter.Proofs.Regex.Construct

/-!
# Parentheses side by side

What opens a construct in parentheses looks the same to two aligned readers. So they read the same
construct, if the readers they use for its inside mirror each other.
-/

namespace Highlighter.Regex.Tree

open Pattern (Renumbers)

variable {offset : Nat} {base : List Nat} {tail : List Char} {progress progress' : Progress}
  {source source' rest rest' : List Char}

/-- Two readers of an expression mirror each other: from aligned places they read the same tree, up
to the numbers of its groups, unless the first one gets lost. The second one may also start after
what the flags ignore. In an empty source the first one reads nothing. -/
structure Mirrors (offset : Nat) (base : List Nat) (tail : List Char) (read read' : Reader Tree) :
    Prop where
  nil : ∀ {progress after : Progress} {tree : Tree} {rest : List Char},
    read progress [] = .ok (tree, after, rest) → rest = []
  mirror : ∀ {progress progress' : Progress} {source source' start' : List Char},
    Aligned offset base tail ⟨progress, source⟩ ⟨progress', source'⟩ →
    start' = source' ∨ skip progress' source' = .ok start' →
    ∀ {tree tree' : Tree} {after after' : Progress} {rest rest' : List Char},
      read progress source = .ok (tree, after, rest) →
      read' progress' start' = .ok (tree', after', rest') →
      Place.Lost ⟨after, rest⟩ ∨
        tree' = tree.shift offset ∧ Mirror offset base tail tree.groupNumbers
          ⟨progress, source⟩ ⟨progress', source'⟩ ⟨after, rest⟩ ⟨after', rest'⟩

/-! ## Bodies of groups -/

theorem readClose_eq_ok {after : Progress}
    (h : readClose progress source = .ok ((), after, rest)) :
    after = progress ∧ skip progress source = .ok (')' :: rest) := by
  obtain ⟨last, hskip, h⟩ := ok_of_bind_eq_ok h
  split at h
  · cases h
    exact ⟨rfl, hskip⟩
  · cases h
  · cases h

theorem readBody_nil {read read' : Reader Tree} (hinner : Mirrors offset base tail read read')
    {tree : Tree} {after : Progress} : readBody read progress [] ≠ .ok (tree, after, rest) := by
  intro h
  obtain ⟨⟨body, between, middle⟩, hbody, h⟩ := ok_of_bind_eq_ok h
  obtain ⟨⟨⟨⟩, last, final⟩, hclose, hpure⟩ := ok_of_bind_eq_ok h
  have hmiddle := hinner.nil hbody
  obtain ⟨-, hskip⟩ := readClose_eq_ok hclose
  subst hmiddle
  cases hskip

theorem readBody_mirror {read read' : Reader Tree} (hinner : Mirrors offset base tail read read')
    (h : Aligned offset base tail ⟨progress, source⟩ ⟨progress', source'⟩)
    {tree tree' : Tree} {after after' : Progress}
    (hread : readBody read progress source = .ok (tree, after, rest))
    (hread' : readBody read' progress' source' = .ok (tree', after', rest')) :
    tree' = tree.shift offset ∧ Mirror offset base tail tree.groupNumbers
      ⟨progress, source⟩ ⟨progress', source'⟩ ⟨after, rest⟩ ⟨after', rest'⟩ := by
  obtain ⟨⟨body, between, middle⟩, hbody, hread⟩ := ok_of_bind_eq_ok hread
  obtain ⟨⟨⟨⟩, last, final⟩, hclose, hpure⟩ := ok_of_bind_eq_ok hread
  cases hpure
  obtain ⟨⟨body', between', middle'⟩, hbody', hread'⟩ := ok_of_bind_eq_ok hread'
  obtain ⟨⟨⟨⟩, last', final'⟩, hclose', hpure'⟩ := ok_of_bind_eq_ok hread'
  cases hpure'
  obtain ⟨rfl, hskip⟩ := readClose_eq_ok hclose
  obtain ⟨rfl, hskip'⟩ := readClose_eq_ok hclose'
  rcases hinner.mirror h (.inl rfl) hbody hbody' with ⟨_, hnil⟩ | ⟨rfl, hmirror⟩
  · simp only at hnil
    subst hnil
    cases hskip
  · rcases hmirror.aligned.skip hskip with ⟨_, hnil⟩ | ⟨closed, hclosed, haligned, hpasses⟩
    · cases hnil
    · obtain ⟨inside, rfl, hinside⟩ := haligned.uncons (by decide)
      cases hskip'.symm.trans hclosed
      have hparen : Passes (')' :: rest) (')' :: rest') rest rest' := .of_word [')'] _ _
      have hend := hmirror.trans (.of_passes hinside (hpasses.trans hparen))
      rw [List.append_nil] at hend
      exact ⟨rfl, hend⟩

/-- The group that is opened gets the next number. -/
theorem readGroup_mirror {read read' : Reader Tree} (hinner : Mirrors offset base tail read read')
    (name : Option (List Char))
    (h : Aligned offset base tail ⟨progress, source⟩ ⟨progress', source'⟩)
    {tree tree' : Tree} {after after' : Progress}
    (hread : readGroup read name progress source = .ok (tree, after, rest))
    (hread' : readGroup read' name progress' source' = .ok (tree', after', rest')) :
    tree' = tree.shift offset ∧ Mirror offset base tail tree.groupNumbers
      ⟨progress, source⟩ ⟨progress', source'⟩ ⟨after, rest⟩ ⟨after', rest'⟩ := by
  obtain ⟨⟨body, last, final⟩, hbody, hpure⟩ := ok_of_bind_eq_ok hread
  cases hpure
  obtain ⟨⟨body', last', final'⟩, hbody', hpure'⟩ := ok_of_bind_eq_ok hread'
  cases hpure'
  have hgroups : progress'.groups = progress.groups + offset := h.groups
  have hopened : ∀ names names', Aligned offset base tail
      ⟨{ progress with groups := progress.groups + 1, names := names }, source⟩
      ⟨{ progress' with groups := progress'.groups + 1, names := names' }, source'⟩ := by
    intro names names'
    refine ⟨h.source, h.flags, ?_, h.referenced, fun number hmem => ?_⟩
    · simp only [hgroups]
      omega
    · obtain ⟨hpositive, hle⟩ := h.known number hmem
      exact ⟨hpositive, Nat.le_succ_of_le hle⟩
  obtain ⟨rfl, hmirror⟩ := readBody_mirror hinner (hopened _ _) hbody hbody'
  have hless := hmirror.opened
  simp only at hless
  refine ⟨?_, hmirror.aligned, hmirror.passes, Nat.le_of_succ_le hless, ?_⟩
  · rw [shift, hgroups, Nat.add_right_comm]
  · intro number hmem
    rw [groupNumbers, List.mem_cons] at hmem
    rcases hmem with rfl | hmem
    · exact ⟨Nat.lt_succ_self _, hless⟩
    · obtain ⟨hlt, hle⟩ := hmirror.numbers number hmem
      exact ⟨Nat.lt_of_succ_lt hlt, hle⟩

/-! ## Openings of groups -/

/-- What opens a construct in parentheses. -/
inductive Opening where
  | look (side : Side) (negated : Bool)
  | named
  | reference
  | atomic
  | flags
  | plain

/-- What stands after a parenthesis, and the source after it. -/
def opening (source : List Char) : Opening × List Char :=
  if source.head? = some '?' then
    let marked := source.tail
    if marked.head? = some '=' then (.look .ahead false, marked.tail)
    else if marked.head? = some '!' then (.look .ahead true, marked.tail)
    else if marked.head? = some '<' then
      if marked.tail.head? = some '=' then (.look .behind false, marked.tail.tail)
      else if marked.tail.head? = some '!' then (.look .behind true, marked.tail.tail)
      else (.named, marked.tail)
    else if marked.head? = some 'P' ∧ marked.tail.head? = some '<' then (.named, marked.tail.tail)
    else if marked.head? = some 'P' ∧ marked.tail.head? = some '=' then
      (.reference, marked.tail.tail)
    else if marked.head? = some '>' then (.atomic, marked.tail)
    else (.flags, marked)
  else (.plain, source)

/-- An opening has no delimiters. -/
theorem opening_word (source : List Char) :
    ∃ word, source = word ++ (opening source).2 ∧ IsInert word := by
  have hstep : ∀ {c : Char} {source rest : List Char}, source.head? = some c → c ∉ delimiters →
      (∃ word, source.tail = word ++ rest ∧ IsInert word) →
        ∃ word, source = word ++ rest ∧ IsInert word := by
    rintro c source rest hhead hc ⟨word, hword, hinert⟩
    obtain ⟨after, rfl⟩ := List.head?_eq_some_iff.mp hhead
    rw [List.tail_cons] at hword
    exact ⟨c :: word, by rw [hword]; rfl, .cons hc hinert⟩
  have hnil : ∀ source : List Char, ∃ word, source = word ++ source ∧ IsInert word :=
    fun _ => ⟨[], rfl, .nil⟩
  unfold opening
  dsimp only
  split
  · next hmark =>
    refine hstep hmark (by decide) ?_
    split
    · next hfirst => exact hstep hfirst (by decide) (hnil _)
    · split
      · next hfirst => exact hstep hfirst (by decide) (hnil _)
      · split
        · next hfirst =>
          refine hstep hfirst (by decide) ?_
          split
          · next hsecond => exact hstep hsecond (by decide) (hnil _)
          · split
            · next hsecond => exact hstep hsecond (by decide) (hnil _)
            · exact hnil _
        · split
          · next hpython => exact hstep hpython.1 (by decide) (hstep hpython.2 (by decide) (hnil _))
          · split
            · next hpython =>
              exact hstep hpython.1 (by decide) (hstep hpython.2 (by decide) (hnil _))
            · split
              · next hfirst => exact hstep hfirst (by decide) (hnil _)
              · exact hnil _
  · exact hnil _

theorem opening_of_ne (h : source.head? ≠ some '?') : opening source = (.plain, source) := by
  rw [opening, if_neg h]

theorem opening_plain (h : opening source = (.plain, rest)) : source.head? ≠ some '?' := by
  intro hmark
  unfold opening at h
  dsimp only at h
  split_ifs at h
  all_goals cases h

/-- The construct after its opening. -/
def readOpened (inner : Reader Tree) (progress : Progress) :
    Opening × List Char → Except Error (Tree × Progress × List Char)
  | (.look side negated, source) => do
    let (body, progress, rest) ← readBody inner progress source
    return (.look side negated body, progress, rest)
  | (.named, source) => do
    let (name, rest) ← Escape.readName [] '>' source
    if name.contains '-' then throw .invalidGroupName
    readGroup inner (some name) progress rest
  | (.reference, source) => do
    let (name, rest) ← Escape.readName [] ')' source
    if name.contains '-' then throw .invalidGroupName
    Tree.reference (← resolve progress name) progress rest
  | (.atomic, source) => do
    let (body, progress, rest) ← readBody inner progress source
    return (.atomic body, progress, rest)
  | (.flags, source) => do
    let (flags, hasBody, rest) ← readFlags progress.flags 0 false source
    if hasBody then
      let (body, inside, rest) ← inner { progress with flags := flags } rest
      match rest with
      | ')' :: rest => return (body, { inside with flags := progress.flags }, rest)
      | [] => throw .unclosedGroup
      | _ => throw .unexpectedClose
    else return (.empty, { progress with flags := flags }, rest)
  | (.plain, source) => readGroup inner none progress source

theorem readParenthesis_eq (inner : Reader Tree) (progress : Progress) (source : List Char) :
    readParenthesis inner progress source =
      (skip progress source >>= fun rest => readOpened inner progress (opening rest)) := by
  unfold readParenthesis
  congr 1
  funext source
  split
  case h_5 rest hahead hnegated =>
    have hopening : opening ('?' :: '<' :: rest) = (.named, rest) := by
      cases rest with
      | nil => rfl
      | cons c rest =>
        have hequals : c ≠ '=' := fun heq => hahead rest (by rw [heq])
        have hbang : c ≠ '!' := fun heq => hnegated rest (by rw [heq])
        simp [opening, hequals, hbang]
    rw [hopening]
    rfl
  case h_9 marked hequals hbang _ _ hangle hname hreference hatomic =>
    have hopening : opening ('?' :: marked) = (.flags, marked) := by
      have hfirst : ∀ c : Char, (∀ rest, marked = c :: rest → False) → marked.head? ≠ some c := by
        intro c hnone hhead
        obtain ⟨rest, hrest⟩ := List.head?_eq_some_iff.mp hhead
        exact hnone rest hrest
      have hsecond : ∀ c : Char, (∀ rest, marked = 'P' :: c :: rest → False) →
          ¬ (marked.head? = some 'P' ∧ marked.tail.head? = some c) := by
        rintro c hnone ⟨hhead, htail⟩
        obtain ⟨rest, rfl⟩ := List.head?_eq_some_iff.mp hhead
        obtain ⟨last, hlast⟩ := List.head?_eq_some_iff.mp htail
        exact hnone last (congrArg ('P' :: ·) hlast)
      simp only [opening, List.head?_cons, List.tail_cons, if_true, hfirst _ hequals,
        hfirst _ hbang, hfirst _ hangle, hfirst _ hatomic, hsecond _ hname, hsecond _ hreference,
        if_false]
    rw [hopening]
    rfl
  case h_10 hmark =>
    have hopening : opening source = (.plain, source) := by
      have hhead : source.head? ≠ some '?' := by
        intro hhead
        obtain ⟨rest, hrest⟩ := List.head?_eq_some_iff.mp hhead
        exact hmark rest hrest
      rw [opening, if_neg hhead]
    rw [hopening]
    rfl
  all_goals rfl

theorem Aligned.next (h : Aligned offset base tail ⟨progress, source⟩ ⟨progress', source'⟩)
    {c : Char} (hhead : source.head? = some c) (hplain : c ≠ '\\') :
    Aligned offset base tail ⟨progress, source.tail⟩ ⟨progress', source'.tail⟩ ∧
      Passes source source' source.tail source'.tail := by
  obtain ⟨rest, rfl⟩ := List.head?_eq_some_iff.mp hhead
  obtain ⟨rest', rfl, hrest⟩ := h.uncons hplain
  exact ⟨hrest, .of_word [c] _ _⟩

/-- Two aligned readers have seen the same opening. -/
structure Opens (offset : Nat) (base : List Nat) (tail : List Char) (place place' : Place)
    (opened opened' : Opening × List Char) : Prop where
  kind : opened'.1 = opened.1
  aligned : Aligned offset base tail ⟨place.progress, opened.2⟩ ⟨place'.progress, opened'.2⟩
  passes : Passes place.source place'.source opened.2 opened'.2

theorem Opens.ite {place place' : Place} {here there : Prop} [Decidable here] [Decidable there]
    {opened opened' other other' : Opening × List Char} (hiff : there ↔ here)
    (hthen : here → Opens offset base tail place place' opened opened')
    (helse : ¬ here → Opens offset base tail place place' other other') :
    Opens offset base tail place place' (if here then opened else other)
      (if there then opened' else other') := by
  by_cases h : here
  · rw [if_pos h, if_pos (hiff.mpr h)]
    exact hthen h
  · rw [if_neg h, if_neg fun hthere => h (hiff.mp hthere)]
    exact helse h

theorem opening_opens (h : Aligned offset base tail ⟨progress, source⟩ ⟨progress', source'⟩) :
    Opens offset base tail ⟨progress, source⟩ ⟨progress', source'⟩ (opening source)
      (opening source') := by
  refine .ite (h.head?_eq_some_iff (by decide)) (fun hmark => ?_) fun _ => ⟨rfl, h, .refl _ _⟩
  obtain ⟨hmarked, hpasses⟩ := h.next hmark (by decide)
  have htaken : ∀ {c : Char} (kind : Opening), source.tail.head? = some c → c ≠ '\\' →
      Opens offset base tail ⟨progress, source⟩ ⟨progress', source'⟩ (kind, source.tail.tail)
        (kind, source'.tail.tail) := by
    intro c kind hhead hplain
    obtain ⟨haligned, hmore⟩ := hmarked.next hhead hplain
    exact ⟨rfl, haligned, hpasses.trans hmore⟩
  have htwice : ∀ {b c : Char} (kind : Opening), source.tail.head? = some b → b ≠ '\\' →
      source.tail.tail.head? = some c → c ≠ '\\' →
      Opens offset base tail ⟨progress, source⟩ ⟨progress', source'⟩
        (kind, source.tail.tail.tail) (kind, source'.tail.tail.tail) := by
    intro b c kind hhead hplain hsecond hplain'
    obtain ⟨haligned, hmore⟩ := hmarked.next hhead hplain
    obtain ⟨haligned', hmore'⟩ := haligned.next hsecond hplain'
    exact ⟨rfl, haligned', (hpasses.trans hmore).trans hmore'⟩
  have hboth : ∀ {b c : Char}, b ≠ ')' → b ≠ '\\' → c ≠ ')' →
      (source'.tail.head? = some b ∧ source'.tail.tail.head? = some c ↔
        source.tail.head? = some b ∧ source.tail.tail.head? = some c) := by
    intro b c hb hplain hc
    rw [hmarked.head?_eq_some_iff hb]
    exact and_congr_right fun hhead => (hmarked.next hhead hplain).1.head?_eq_some_iff hc
  refine .ite (hmarked.head?_eq_some_iff (by decide)) (fun hhead => htaken _ hhead (by decide))
    fun _ => ?_
  refine .ite (hmarked.head?_eq_some_iff (by decide)) (fun hhead => htaken _ hhead (by decide))
    fun _ => ?_
  refine .ite (hmarked.head?_eq_some_iff (by decide)) (fun hangle => ?_) fun _ => ?_
  · obtain ⟨hinside, -⟩ := hmarked.next hangle (by decide)
    refine .ite (hinside.head?_eq_some_iff (by decide))
      (fun hhead => htwice _ hangle (by decide) hhead (by decide)) fun _ => ?_
    exact .ite (hinside.head?_eq_some_iff (by decide))
      (fun hhead => htwice _ hangle (by decide) hhead (by decide))
      fun _ => htaken _ hangle (by decide)
  refine .ite (hboth (by decide) (by decide) (by decide))
    (fun hname => htwice _ hname.1 (by decide) hname.2 (by decide)) fun _ => ?_
  refine .ite (hboth (by decide) (by decide) (by decide))
    (fun hname => htwice _ hname.1 (by decide) hname.2 (by decide)) fun _ => ?_
  exact .ite (hmarked.head?_eq_some_iff (by decide)) (fun hhead => htaken _ hhead (by decide))
    fun _ => ⟨rfl, hmarked, hpasses⟩

/-- Only a reference by name opens as a reference. -/
theorem opening_reference {rest : List Char} (h : opening source = (.reference, rest)) :
    ['?', 'P', '='] <+: source := by
  unfold opening at h
  by_cases hname : source.tail.head? = some 'P' ∧ source.tail.tail.head? = some '='
  · by_cases hmark : source.head? = some '?'
    · obtain ⟨marked, rfl⟩ := List.head?_eq_some_iff.mp hmark
      obtain ⟨inner, rfl⟩ := List.head?_eq_some_iff.mp hname.1
      obtain ⟨after, rfl⟩ := List.head?_eq_some_iff.mp hname.2
      exact ⟨after, rfl⟩
    · rw [if_neg hmark] at h
      cases h
  · simp only [if_neg hname] at h
    repeat' split at h
    all_goals cases h

/-- Since names are not moved, an aligned reader never meets a reference by name. -/
theorem not_prefix_of_skip
    (h : Aligned offset base tail ⟨progress, '(' :: source⟩ ⟨progress', source'⟩)
    (hskip : skip progress source = .ok rest) : ¬ ['?', 'P', '='] <+: rest := by
  obtain ⟨moved, -, hmoved⟩ := h.source
  intro hprefix
  cases hmoved with
  | plain _ hunnamed _ =>
    have hopens := hunnamed rfl progress.flags.ignoreBlank
    have hskip' : skipIgnored progress.flags.ignoreBlank source.length source = .ok rest := hskip
    rw [Pattern.opensReference, hskip'] at hopens
    simp only [List.isPrefixOf_iff_prefix.mpr hprefix] at hopens
    cases hopens

/-! ## Parentheses -/

theorem readOpened_mirror {read read' : Reader Tree} (hinner : Mirrors offset base tail read read')
    {opened opened' : Opening × List Char}
    (h : Opens offset base tail ⟨progress, source⟩ ⟨progress', source'⟩ opened opened')
    (hkind : opened.1 ≠ .reference) {tree tree' : Tree} {after after' : Progress}
    (hread : readOpened read progress opened = .ok (tree, after, rest))
    (hread' : readOpened read' progress' opened' = .ok (tree', after', rest')) :
    tree' = tree.shift offset ∧ Mirror offset base tail tree.groupNumbers
      ⟨progress, source⟩ ⟨progress', source'⟩ ⟨after, rest⟩ ⟨after', rest'⟩ := by
  obtain ⟨kind, inside⟩ := opened
  obtain ⟨kind', inside'⟩ := opened'
  obtain ⟨hsame, haligned, hpasses⟩ := h
  simp only at hsame haligned hpasses
  subst hsame
  have hstart := Mirror.of_passes haligned hpasses
  cases kind' with
  | look side negated =>
    obtain ⟨⟨body, last, final⟩, hbody, hpure⟩ := ok_of_bind_eq_ok hread
    cases hpure
    obtain ⟨⟨body', last', final'⟩, hbody', hpure'⟩ := ok_of_bind_eq_ok hread'
    cases hpure'
    obtain ⟨rfl, hmirror⟩ := readBody_mirror hinner haligned hbody hbody'
    exact ⟨rfl, hstart.trans hmirror⟩
  | named =>
    obtain ⟨⟨name, middle⟩, hname, hread⟩ := ok_of_bind_eq_ok hread
    obtain ⟨⟨name', middle'⟩, hname', hread'⟩ := ok_of_bind_eq_ok hread'
    obtain ⟨last', hlast', hlast, hmore⟩ := haligned.readLocal Escape.readName_local hname
    cases hname'.symm.trans hlast'
    simp only at hread hread'
    split at hread
    · cases hread
    · next hhyphen =>
      rw [if_neg hhyphen] at hread'
      obtain ⟨rfl, hmirror⟩ := readGroup_mirror hinner (some name) hlast hread hread'
      exact ⟨rfl, hstart.trans ((Mirror.of_passes hlast hmore).trans hmirror)⟩
  | reference => exact absurd rfl hkind
  | atomic =>
    obtain ⟨⟨body, last, final⟩, hbody, hpure⟩ := ok_of_bind_eq_ok hread
    cases hpure
    obtain ⟨⟨body', last', final'⟩, hbody', hpure'⟩ := ok_of_bind_eq_ok hread'
    cases hpure'
    obtain ⟨rfl, hmirror⟩ := readBody_mirror hinner haligned hbody hbody'
    exact ⟨rfl, hstart.trans hmirror⟩
  | flags =>
    obtain ⟨⟨flags, hasBody, middle⟩, hflags, hread⟩ := ok_of_bind_eq_ok hread
    obtain ⟨⟨flags', hasBody', middle'⟩, hflags', hread'⟩ := ok_of_bind_eq_ok hread'
    have hsame : progress'.flags = progress.flags := haligned.flags
    obtain ⟨last', hlast', hlast, hmore⟩ := readFlags_aligned haligned hflags
    rw [hsame, hlast'] at hflags'
    cases hflags'
    have hset : Aligned offset base tail ⟨{ progress with flags := flags }, middle⟩
        ⟨{ progress' with flags := flags }, middle'⟩ :=
      ⟨hlast.source, rfl, hlast.groups, hlast.referenced, hlast.known⟩
    simp only at hread hread'
    split at hread
    · next hbody =>
      rw [if_pos hbody] at hread'
      obtain ⟨⟨body, last, final⟩, hinside, hread⟩ := ok_of_bind_eq_ok hread
      obtain ⟨⟨body', last', final'⟩, hinside', hread'⟩ := ok_of_bind_eq_ok hread'
      simp only at hread hread'
      split at hread
      · next close =>
        cases hread
        rcases hinner.mirror hset (.inl rfl) hinside hinside' with ⟨_, hnil⟩ | ⟨rfl, hmirror⟩
        · cases hnil
        · obtain ⟨close', rfl, hclose⟩ := hmirror.aligned.uncons (by decide)
          cases hread'
          have hrestored : Aligned offset base tail ⟨{ last with flags := progress.flags }, rest⟩
              ⟨{ last' with flags := progress'.flags }, rest'⟩ :=
            ⟨hclose.source, hsame, hclose.groups, hclose.referenced, hclose.known⟩
          have hparen : Passes (')' :: rest) (')' :: rest') rest rest' := .of_word [')'] _ _
          exact ⟨rfl, hrestored, ((hpasses.trans hmore).trans hmirror.passes).trans hparen,
            hmirror.opened, hmirror.numbers⟩
      · cases hread
      · cases hread
    · next hbody =>
      rw [if_neg hbody] at hread'
      cases hread
      cases hread'
      refine ⟨rfl, hset, hpasses.trans hmore, Nat.le_refl _, ?_⟩
      intro number hmem
      cases hmem
  | plain =>
    obtain ⟨rfl, hmirror⟩ := readGroup_mirror hinner none haligned hread hread'
    exact ⟨rfl, hstart.trans hmirror⟩

theorem readParenthesis_mirror {read read' : Reader Tree}
    (hinner : Mirrors offset base tail read read')
    (h : Aligned offset base tail ⟨progress, '(' :: source⟩ ⟨progress', '(' :: source'⟩)
    {tree tree' : Tree} {after after' : Progress}
    (hread : readParenthesis read progress source = .ok (tree, after, rest))
    (hread' : readParenthesis read' progress' source' = .ok (tree', after', rest')) :
    tree' = tree.shift offset ∧ Mirror offset base tail tree.groupNumbers
      ⟨progress, source⟩ ⟨progress', source'⟩ ⟨after, rest⟩ ⟨after', rest'⟩ := by
  rw [readParenthesis_eq] at hread hread'
  obtain ⟨inside, hskip, hread⟩ := ok_of_bind_eq_ok hread
  obtain ⟨inside', hskip', hread'⟩ := ok_of_bind_eq_ok hread'
  obtain ⟨taken, htaken, haligned⟩ := h.uncons (by decide)
  obtain rfl := (List.cons.inj htaken).2
  rcases haligned.skip hskip with ⟨_, hnil⟩ | ⟨skipped, hskipped, hinside, hpasses⟩
  · simp only at hnil
    subst hnil
    obtain ⟨body, hbody, -⟩ := ok_of_bind_eq_ok hread
    exact absurd hbody (readBody_nil hinner)
  · cases hskip'.symm.trans hskipped
    have hunnamed : (opening inside).1 ≠ .reference := by
      intro hreference
      have hopens : opening inside = (.reference, (opening inside).2) := by rw [← hreference]
      exact not_prefix_of_skip h hskip (opening_reference hopens)
    obtain ⟨rfl, hmirror⟩ :=
      readOpened_mirror hinner (opening_opens hinside) hunnamed hread hread'
    have hstart := Mirror.of_passes hinside hpasses
    exact ⟨rfl, hstart.trans hmirror⟩

end Highlighter.Regex.Tree
