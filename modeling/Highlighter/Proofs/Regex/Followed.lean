import Highlighter.Proofs.Regex.Reading

/-!
# Constructs in front of others

Where the source of an expression ends, another one can follow: behind a bar, behind the parenthesis
that closes a group, or in parentheses of its own. None of these can belong to the last construct in
front of them, so a reader reads the same as if the source ended there. Only a comment to the end of
a line takes in what follows.
-/

namespace Highlighter

/-- A computation in two parts whose first part succeeds. -/
theorem bind_eq_of_ok {ε α β : Type} {x : Except ε α} {f : α → Except ε β} {a : α}
    (h : x = .ok a) : x >>= f = f a := by
  rw [h]
  rfl

namespace Regex

/-- The characters that may follow the source of an expression. -/
def followers : List Char := ['|', ')', '(']

/-- What may follow the source of an expression without belonging to its last construct. -/
structure Follows (tail : List Char) : Prop where
  head : ∃ c ∈ followers, tail.head? = some c
  noComment : ¬ ['(', '?', '#'] <+: tail

theorem span_append {α : Type} {p : α → Bool} {items rest : List α} {a : α}
    (h : items.dropWhile p = a :: rest) (tail : List α) :
    (items ++ tail).takeWhile p = items.takeWhile p ∧
      (items ++ tail).dropWhile p = a :: (rest ++ tail) := by
  have hall : ∀ b ∈ items.takeWhile p, p b = true :=
    fun b hb => List.all_eq_true.mp List.all_takeWhile b hb
  have hend : p a = false := by
    have hhead := List.head?_dropWhile_not p items
    rw [h] at hhead
    simpa using hhead
  have hsplit : items ++ tail = items.takeWhile p ++ a :: (rest ++ tail) := by
    rw [← List.cons_append, ← h, ← List.append_assoc, List.takeWhile_append_dropWhile]
  rw [hsplit]
  exact ⟨takeWhile_append_cons hall hend, dropWhile_append_cons hall hend⟩

namespace Follows

variable {tail source : List Char} {c : Char}

theorem ne_nil (h : Follows tail) : tail ≠ [] := by
  rintro rfl
  obtain ⟨c, -, hhead⟩ := h.head
  cases hhead

theorem head?_ne (h : Follows tail) (hc : c ∉ followers) : tail.head? ≠ some c := by
  obtain ⟨d, hd, hhead⟩ := h.head
  rw [hhead]
  rintro ⟨⟩
  exact hc hd

/-- What follows does not change how a source starts. -/
theorem head?_append_iff (h : Follows tail) (hc : c ∉ followers) (source : List Char) :
    (source ++ tail).head? = some c ↔ source.head? = some c := by
  cases source with
  | nil => exact iff_of_false (h.head?_ne hc) (by simp)
  | cons d source => exact Iff.rfl

theorem prefix_append_iff (h : Follows tail) {word : List Char} (hword : ∀ c ∈ word, c ∉ followers)
    (source : List Char) : word <+: source ++ tail ↔ word <+: source := by
  induction word generalizing source with
  | nil => simp
  | cons c word ih =>
    obtain ⟨hc, hword⟩ := List.forall_mem_cons.mp hword
    cases source with
    | nil =>
      refine iff_of_false ?_ (by simp)
      rintro ⟨rest, hrest⟩
      exact h.head?_ne hc (by rw [← List.nil_append tail, ← hrest]; rfl)
    | cons d source =>
      rw [List.cons_append, List.cons_prefix_cons, List.cons_prefix_cons, ih hword]

theorem not_isDigit (h : Follows tail) (hhead : tail.head? = some c) : c.isDigit = false := by
  obtain ⟨d, hd, hhead'⟩ := h.head
  obtain rfl : c = d := Option.some.inj (hhead.symm.trans hhead')
  have hdigits : followers.all (fun c => !c.isDigit) = true := by decide
  simpa using List.all_eq_true.mp hdigits c hd

/-- The digits at the front of a source end with it. -/
theorem digits (h : Follows tail) (source : List Char) :
    (source ++ tail).takeWhile Char.isDigit = source.takeWhile Char.isDigit ∧
      (source ++ tail).dropWhile Char.isDigit = source.dropWhile Char.isDigit ++ tail := by
  cases hafter : source.dropWhile Char.isDigit with
  | cons c rest => exact span_append hafter tail
  | nil =>
    obtain ⟨c, -, hhead⟩ := h.head
    obtain ⟨rest, rfl⟩ := List.head?_eq_some_iff.mp hhead
    have hsplit := List.takeWhile_append_dropWhile (p := Char.isDigit) (l := source)
    rw [hafter, List.append_nil] at hsplit
    have hall : ∀ c ∈ source, c.isDigit = true := by
      intro c hc
      rw [← hsplit] at hc
      exact List.all_eq_true.mp List.all_takeWhile c hc
    rw [hsplit]
    exact ⟨takeWhile_append_cons hall (h.not_isDigit rfl),
      dropWhile_append_cons hall (h.not_isDigit rfl)⟩

theorem skipIgnored (h : Follows tail) (ignoreBlank : Bool) (fuel : Nat) :
    Tree.skipIgnored ignoreBlank fuel tail = .ok tail := by
  obtain ⟨c, hc, hhead⟩ := h.head
  obtain ⟨rest, rfl⟩ := List.head?_eq_some_iff.mp hhead
  have hplain : followers.all (fun c => c != '#' &&
      !(c == ' ' || c == '\r' || c == '\n' || c == '\t')) = true := by decide
  have hc := List.all_eq_true.mp hplain c hc
  rw [Bool.and_eq_true, bne_iff_ne, Bool.not_eq_true'] at hc
  refine Tree.skipIgnored_id hc.1 (fun hparen hcomment => h.noComment ?_) hc.2 _ _
  subst hparen
  exact (List.prefix_cons_inj _).mpr hcomment

end Follows

variable {tail : List Char}

/-! ## Escapes -/

namespace Escape

variable {source rest : List Char}

theorem readName_append {start name : List Char} {stop : Char}
    (h : readName start stop source = .ok (name, rest)) (tail : List Char) :
    readName start stop (source ++ tail) = .ok (name, rest ++ tail) := by
  unfold readName at h ⊢
  split at h
  · next hstart =>
    obtain ⟨inner, rfl⟩ := List.isPrefixOf_iff_prefix.mp hstart
    have hstart' : start.isPrefixOf (start ++ inner ++ tail) = true := by
      rw [List.isPrefixOf_iff_prefix, List.append_assoc]
      exact List.prefix_append _ _
    rw [if_pos hstart']
    simp only [List.append_assoc, List.drop_left, drop_length_takeWhile] at h ⊢
    split at h
    · next c after hafter =>
      obtain ⟨htake, hdrop⟩ := span_append hafter tail
      simp only [htake, hdrop]
      split at h
      · next hclose =>
        rw [if_pos hclose]
        cases h
        rfl
      · cases h
    · cases h
  · cases h

/-- An escape ends with the source of its expression. -/
theorem read_append (htail : Follows tail) {inClass : Bool} {escape : Escape}
    (h : read inClass source = .ok (escape, rest)) :
    read inClass (source ++ tail) = .ok (escape, rest ++ tail) := by
  cases source with
  | nil => cases h
  | cons c source =>
    by_cases hdigit : c.isDigit = true
    · have hsplit := List.takeWhile_append_dropWhile (p := Char.isDigit) (l := c :: source)
      have hall : ∀ d ∈ (c :: source).takeWhile Char.isDigit, d.isDigit = true :=
        fun d hd => List.all_eq_true.mp List.all_takeWhile d hd
      have hne : (c :: source).takeWhile Char.isDigit ≠ [] := by
        rw [List.takeWhile_cons_of_pos hdigit]
        exact List.cons_ne_nil _ _
      have hend : ∀ d, ((c :: source).dropWhile Char.isDigit).head? = some d →
          d.isDigit = false := by
        intro d hd
        have hhead := List.head?_dropWhile_not Char.isDigit (c :: source)
        rw [hd] at hhead
        simpa using hhead
      generalize (c :: source).takeWhile Char.isDigit = digits at hsplit hall hne
      generalize (c :: source).dropWhile Char.isDigit = after at hsplit hend
      have hend' : ∀ d, (after ++ tail).head? = some d → d.isDigit = false := by
        intro d hd
        cases after with
        | nil => exact htail.not_isDigit hd
        | cons e after => exact hend d hd
      rw [← hsplit, read_number hne hall hend] at h
      rw [← hsplit, List.append_assoc, read_number hne hall hend']
      split at h
      · cases h
        rfl
      · cases h
    · by_cases hname : c = 'k'
      · subst hname
        cases inClass with
        | true => cases h
        | false =>
          have hquote := htail.head?_append_iff (by decide : '\'' ∉ followers) source
          rw [read_groupName] at h
          rw [List.cons_append, read_groupName]
          split at h
          · next hhead =>
            obtain ⟨⟨name, after⟩, hread, hpure⟩ := ok_of_bind_eq_ok h
            cases hpure
            rw [if_pos (beq_iff_eq.mpr (hquote.mpr (beq_iff_eq.mp hhead)))]
            exact bind_eq_of_ok (readName_append hread tail)
          · next hhead =>
            obtain ⟨⟨name, after⟩, hread, hpure⟩ := ok_of_bind_eq_ok h
            cases hpure
            rw [if_neg fun hhead' => hhead (beq_iff_eq.mpr (hquote.mp (beq_iff_eq.mp hhead')))]
            exact bind_eq_of_ok (readName_append hread tail)
      · obtain ⟨word, rfl, -, hagain⟩ := read_local inClass (by simpa using hdigit) hname _ _ _ h
        rw [← List.cons_append, List.append_assoc]
        exact hagain (rest ++ tail)

end Escape

namespace Tree

variable {progress after : Progress} {source rest : List Char} {tree atom : Tree}
  {inner : Option (Reader Tree)} {read : Reader Tree} {ignoreBlank : Bool}

theorem reference_append {number : Nat}
    (h : reference number progress source = .ok (tree, after, rest)) (tail : List Char) :
    reference number progress (source ++ tail) = .ok (tree, after, rest ++ tail) := by
  unfold reference at h ⊢
  split at h
  · cases h
  · next hle =>
    rw [if_neg hle]
    cases h
    rfl

theorem readEscape_append (htail : Follows tail)
    (h : readEscape progress source = .ok (tree, after, rest)) :
    readEscape progress (source ++ tail) = .ok (tree, after, rest ++ tail) := by
  obtain ⟨⟨escape, middle⟩, hread, h⟩ := ok_of_bind_eq_ok h
  unfold readEscape
  simp only
  rw [bind_eq_of_ok (Escape.read_append htail hread)]
  cases escape with
  | reference number => exact reference_append h tail
  | namedReference name =>
    obtain ⟨number, hnumber, h⟩ := ok_of_bind_eq_ok h
    simp only [hnumber]
    exact reference_append h tail
  | _ =>
    cases h
    rfl

/-! ## What the flags ignore -/

theorem skipComment_append (h : skipComment source = .ok rest) (tail : List Char) :
    skipComment (source ++ tail) = .ok (rest ++ tail) := by
  fun_induction skipComment source with
  | case1 => cases h
  | case2 =>
    cases h
    rfl
  | case3 _ _ ih => exact ih h
  | case4 => cases h
  | case5 c source hclose hpair hlast ih =>
    have hbackslash : c ≠ '\\' := by
      rintro rfl
      cases source with
      | nil => exact hlast rfl rfl
      | cons d source => exact hpair d source rfl rfl
    rw [List.cons_append, skipComment_cons hclose hbackslash]
    exact ih h

/-- A line ends at the same place, whatever follows; the last line takes it all. -/
theorem afterLine_append (source tail : List Char) :
    afterLine source = [] ∨ afterLine (source ++ tail) = afterLine source ++ tail := by
  unfold afterLine
  cases hafter : source.dropWhile (· != '\n') with
  | nil => exact .inl rfl
  | cons c rest =>
    rw [(span_append hafter tail).2]
    exact .inr rfl

/-- What is ignored ends with the source, unless it is a comment to the end of a line. -/
theorem skipIgnored_append (htail : Follows tail) {fuel fuel' : Nat} (hfuel : source.length ≤ fuel)
    (hfuel' : source.length ≤ fuel') (h : skipIgnored ignoreBlank fuel source = .ok rest) :
    (ignoreBlank = true ∧ rest = []) ∨
      skipIgnored ignoreBlank fuel' (source ++ tail) = .ok (rest ++ tail) := by
  induction fuel generalizing source fuel' with
  | zero =>
    cases List.length_eq_zero_iff.mp (Nat.le_zero.mp hfuel)
    cases h
    exact .inr (htail.skipIgnored _ _)
  | succ fuel ih =>
    cases source with
    | nil =>
      cases h
      exact .inr (htail.skipIgnored _ _)
    | cons c source =>
      simp only [List.length_cons] at hfuel hfuel'
      obtain ⟨fuel', rfl⟩ := Nat.exists_eq_succ_of_ne_zero (by omega : fuel' ≠ 0)
      by_cases hline : c = '#'
      · subst hline
        rw [skipIgnored_line] at h
        rw [List.cons_append, skipIgnored_line]
        split at h
        · next hblank =>
          rw [if_pos hblank]
          rcases afterLine_append source tail with hnil | hagain
          · rw [hnil, skipIgnored_nil] at h
            cases h
            exact .inl ⟨hblank, rfl⟩
          · have hlength := (afterLine_suffix source).length_le
            rw [hagain]
            exact ih (by omega) (by omega) h
        · next hblank =>
          rw [if_neg hblank]
          cases h
          exact .inr rfl
      · have hwords : ∀ d ∈ ['?', '#'], d ∉ followers := by simp [followers]
        by_cases hcomment : c = '(' → ¬ ['?', '#'] <+: source
        · have hcomment' : c = '(' → ¬ ['?', '#'] <+: source ++ tail := by
            rwa [htail.prefix_append_iff hwords]
          rw [skipIgnored_other hline hcomment] at h
          rw [List.cons_append, skipIgnored_other hline hcomment']
          split at h
          · next hblank =>
            rw [if_pos hblank]
            exact ih (by omega) (by omega) h
          · next hblank =>
            rw [if_neg hblank]
            cases h
            exact .inr rfl
        · simp only [Classical.not_imp, Classical.not_not] at hcomment
          obtain ⟨rfl, body, rfl⟩ := hcomment
          obtain ⟨middle, hmiddle, h⟩ := ok_of_bind_eq_ok (x := skipComment body) h
          have hlength := (skipComment_suffix hmiddle).length_le
          simp only [List.length_append] at hfuel hfuel'
          have hshort : middle.length ≤ fuel' := by omega
          refine (ih (by omega) hshort h).imp_right fun hagain => ?_
          exact (bind_eq_of_ok (skipComment_append hmiddle tail)).trans hagain

theorem skip_append (htail : Follows tail) (h : skip progress source = .ok rest) :
    Place.Lost ⟨progress, rest⟩ ∨ skip progress (source ++ tail) = .ok (rest ++ tail) := by
  have hfuel : source.length ≤ (source ++ tail).length := by
    rw [List.length_append]
    exact Nat.le_add_right _ _
  exact skipIgnored_append htail (Nat.le_refl _) hfuel h

/-- A reader that stops in front of something has not lost its way. -/
theorem skip_append_of_ne (htail : Follows tail) (h : skip progress source = .ok rest)
    (hrest : rest ≠ []) : skip progress (source ++ tail) = .ok (rest ++ tail) :=
  (skip_append htail h).resolve_left fun hlost => hrest hlost.2

/-! ## Bounds between braces -/

/-- In front of `tail` the same bounds are found as without it, unless the reader is stranded. -/
def SameBounds (tail : List Char) (progress : Progress) (source : List Char)
    (result result' : Option (Bounds × List Char)) : Prop :=
  result = none ∧ Stranded progress source ∨
    result' = result.map fun (bounds, rest) => (bounds, rest ++ tail)

theorem SameBounds.lift {inside : List Char} {result result' : Option (Bounds × List Char)}
    (h : SameBounds tail progress inside result result')
    (hstranded : Stranded progress inside → Stranded progress source) :
    SameBounds tail progress source result result' :=
  h.imp_left fun hnone => ⟨hnone.1, hstranded hnone.2⟩

theorem sameBounds_skip (htail : Follows tail) {next : List Char → Option (Bounds × List Char)}
    (hnil : next [] = none)
    (hnext : ∀ rest, skip progress source = .ok rest →
      SameBounds tail progress source (next rest) (next (rest ++ tail))) :
    SameBounds tail progress source ((skip progress source).toOption.bind next)
      ((skip progress (source ++ tail)).toOption.bind next) := by
  cases hskip : skip progress source with
  | error error => exact .inl ⟨rfl, .unclosed hskip⟩
  | ok rest =>
    rcases skip_append htail hskip with ⟨hblank, hlost⟩ | hskip'
    · simp only at hlost
      subst hlost
      exact .inl ⟨hnil, .lost hblank hskip⟩
    · rw [hskip']
      exact hnext rest hskip

theorem closeBounds?_append (htail : Follows tail) (least : Nat) (most : Option Nat)
    (source : List Char) :
    SameBounds tail progress source (closeBounds? progress least most source)
      (closeBounds? progress least most (source ++ tail)) := by
  refine sameBounds_skip htail rfl fun rest _ => ?_
  simp only [htail.head?_append_iff (by decide : '\x7d' ∉ followers)]
  split
  · next hclose =>
    obtain ⟨rest, rfl⟩ := List.head?_eq_some_iff.mp hclose
    exact .inr rfl
  · exact .inr rfl

theorem mostBounds?_append (htail : Follows tail) (least : Nat) (source : List Char) :
    SameBounds tail progress source (mostBounds? progress least source)
      (mostBounds? progress least (source ++ tail)) := by
  refine sameBounds_skip htail rfl fun rest hskip => ?_
  simp only [htail.head?_append_iff (by decide : '\x7d' ∉ followers),
    htail.head?_append_iff (by decide : ',' ∉ followers)]
  split
  · next hclose =>
    obtain ⟨rest, rfl⟩ := List.head?_eq_some_iff.mp hclose
    exact (closeBounds?_append htail least (some least) _).lift
      fun hstranded => absurd hstranded not_stranded_brace
  · split
    · next hcomma =>
      obtain ⟨rest, rfl⟩ := List.head?_eq_some_iff.mp hcomma
      simp only [List.cons_append, List.tail_cons]
      refine (sameBounds_skip htail rfl fun inside hinside => ?_).lift
        fun hstranded => .step hskip (.inr rfl) hstranded
      obtain ⟨htake, hdrop⟩ := htail.digits inside
      rw [htake, hdrop]
      split
      · exact (closeBounds?_append htail least _ _).lift
          fun hstranded => hstranded.of_dropWhile.of_skip hinside
      · exact (closeBounds?_append htail least none inside).lift (.of_skip hinside)
    · exact .inr rfl

theorem readBounds?_append (htail : Follows tail) (source : List Char) :
    SameBounds tail progress source (readBounds? progress source)
      (readBounds? progress (source ++ tail)) := by
  rw [readBounds?_eq, readBounds?_eq]
  refine sameBounds_skip htail rfl fun rest hskip => ?_
  simp only [htail.head?_append_iff (by decide : ',' ∉ followers)]
  split
  · exact (mostBounds?_append htail 0 rest).lift (.of_skip hskip)
  · obtain ⟨htake, hdrop⟩ := htail.digits rest
    rw [htake, hdrop]
    cases Escape.decimal? (rest.takeWhile Char.isDigit) with
    | none => exact .inr rfl
    | some least =>
      exact (mostBounds?_append htail least _).lift
        fun hstranded => hstranded.of_dropWhile.of_skip hskip

theorem readQuantifier?_of_head? (h : ∀ c ∈ ['?', '*', '+', '\x7b'], source.head? ≠ some c) :
    readQuantifier? progress source = none := by
  rw [readQuantifier?]
  · exact fun rest heq => h '?' (by decide) (by rw [heq]; rfl)
  · exact fun rest heq => h '*' (by decide) (by rw [heq]; rfl)
  · exact fun rest heq => h '+' (by decide) (by rw [heq]; rfl)
  · exact fun rest heq => h '\x7b' (by decide) (by rw [heq]; rfl)

/-- What follows brings no quantifier with it. -/
theorem readQuantifier?_append (htail : Follows tail) (source : List Char) :
    (readQuantifier? progress source = none ∧
        ∃ inside, source = '\x7b' :: inside ∧ Stranded progress inside) ∨
      readQuantifier? progress (source ++ tail) =
        (readQuantifier? progress source).map fun (bounds, rest) => (bounds, rest ++ tail) := by
  by_cases hbrace : source.head? = some '\x7b'
  · obtain ⟨inside, rfl⟩ := List.head?_eq_some_iff.mp hbrace
    exact (readBounds?_append htail inside).imp_left fun hnone => ⟨hnone.1, inside, rfl, hnone.2⟩
  · refine .inr ?_
    by_cases hmark : ∃ c ∈ ['?', '*', '+'], source.head? = some c
    · obtain ⟨c, hc, hhead⟩ := hmark
      obtain ⟨inside, rfl⟩ := List.head?_eq_some_iff.mp hhead
      simp only [List.mem_cons, List.not_mem_nil, or_false] at hc
      obtain rfl | rfl | rfl := hc <;> rfl
    · have hmarks : ∀ c ∈ ['?', '*', '+', '\x7b'], source.head? ≠ some c := by
        intro c hc hhead
        rcases List.mem_append.mp (show c ∈ ['?', '*', '+'] ++ ['\x7b'] from hc) with hc | hc
        · exact hmark ⟨c, hc, hhead⟩
        · exact hbrace (List.mem_singleton.mp hc ▸ hhead)
      have hmarks' : ∀ c ∈ ['?', '*', '+', '\x7b'], (source ++ tail).head? ≠ some c := by
        intro c hc
        have hall : ['?', '*', '+', '\x7b'].all (· ∉ followers) = true := by decide
        have hother : c ∉ followers := by simpa using List.all_eq_true.mp hall c hc
        rw [Ne, htail.head?_append_iff hother]
        exact hmarks c hc
      rw [readQuantifier?_of_head? hmarks, readQuantifier?_of_head? hmarks']
      rfl

/-! ## Classes and flags -/

theorem scanItems_append (htail : Follows tail) {fuel fuel' depth : Nat} {ignoreCase : Bool}
    {items : List Class.Item} (hfuel : fuel ≤ fuel')
    (h : Class.scanItems ignoreCase fuel depth source = .ok (items, rest)) :
    Class.scanItems ignoreCase fuel' depth (source ++ tail) = .ok (items, rest ++ tail) := by
  induction fuel generalizing source fuel' depth items with
  | zero => cases h
  | succ fuel ih =>
    obtain ⟨fuel', rfl⟩ := Nat.exists_eq_succ_of_ne_zero (by omega : fuel' ≠ 0)
    cases source with
    | nil => cases h
    | cons c source =>
      by_cases hescape : c = '\\'
      · subst hescape
        simp only [Class.scanItems, beq_self_eq_true, if_true] at h
        obtain ⟨⟨escape, middle⟩, hread, h⟩ := ok_of_bind_eq_ok h
        obtain ⟨item, hitem, h⟩ := ok_of_bind_eq_ok h
        obtain ⟨⟨others, last⟩, hothers, hpure⟩ := ok_of_bind_eq_ok h
        cases hpure
        exact Class.scanItems_escape (Escape.read_append htail hread) hitem
          (ih (Nat.le_of_succ_le_succ hfuel) hothers)
      · rw [Class.scanItems_plain hescape] at h
        rw [List.cons_append, Class.scanItems_plain hescape]
        split at h
        · next hclose =>
          rw [if_pos hclose]
          cases h
          rfl
        · next hclose =>
          rw [if_neg hclose]
          obtain ⟨⟨others, last⟩, hothers, hpure⟩ := ok_of_bind_eq_ok h
          cases hpure
          exact bind_eq_of_ok (ih (Nat.le_of_succ_le_succ hfuel) hothers)

theorem scanSigned_append (htail : Follows tail) {ignoreCase : Bool} {sign items : List Class.Item}
    (h : Class.scanSigned ignoreCase sign source = .ok (items, rest)) :
    Class.scanSigned ignoreCase sign (source ++ tail) = .ok (items, rest ++ tail) := by
  have hbracket := htail.head?_append_iff (by decide : ']' ∉ followers) source
  have hlength : ∀ source : List Char, source.length + 1 ≤ (source ++ tail).length + 1 := by
    intro source
    rw [List.length_append]
    omega
  unfold Class.scanSigned at h ⊢
  split at h
  · next hhead =>
    rw [if_pos (hbracket.mpr hhead)]
    obtain ⟨inside, rfl⟩ := List.head?_eq_some_iff.mp hhead
    obtain ⟨⟨others, last⟩, hothers, hpure⟩ := ok_of_bind_eq_ok h
    cases hpure
    exact bind_eq_of_ok (scanItems_append htail (hlength inside) hothers)
  · next hhead =>
    rw [if_neg fun hhead' => hhead (hbracket.mp hhead')]
    obtain ⟨⟨others, last⟩, hothers, hpure⟩ := ok_of_bind_eq_ok h
    cases hpure
    exact bind_eq_of_ok (scanItems_append htail (hlength source) hothers)

theorem readClass_append (htail : Follows tail) {ignoreCase : Bool} {members : CharSet}
    (h : Class.read ignoreCase source = .ok (members, rest)) :
    Class.read ignoreCase (source ++ tail) = .ok (members, rest ++ tail) := by
  obtain ⟨⟨items, last⟩, hscan, h⟩ := ok_of_bind_eq_ok h
  obtain ⟨set, hset, hpure⟩ := ok_of_bind_eq_ok h
  cases hpure
  have hagain : Class.scan ignoreCase (source ++ tail) = .ok (items, rest ++ tail) := by
    have hsign := htail.head?_append_iff (by decide : '^' ∉ followers) source
    rw [Class.scan_eq] at hscan ⊢
    split at hscan
    · next hhead =>
      rw [if_pos (hsign.mpr hhead)]
      obtain ⟨inside, rfl⟩ := List.head?_eq_some_iff.mp hhead
      exact scanSigned_append htail hscan
    · next hhead =>
      rw [if_neg fun hhead' => hhead (hsign.mp hhead')]
      exact scanSigned_append htail hscan
  unfold Class.read
  rw [bind_eq_of_ok hagain]
  exact bind_eq_of_ok hset

theorem readFlags_append {flags last : Flags} {seen : Nat} {off hasBody : Bool}
    (h : readFlags flags seen off source = .ok (last, hasBody, rest)) (tail : List Char) :
    readFlags flags seen off (source ++ tail) = .ok (last, hasBody, rest ++ tail) := by
  fun_induction readFlags flags seen off source with
  | case1 => cases h
  | case2 => cases h
  | case3 flags seen off inside hseen =>
    cases h
    rw [List.cons_append, readFlags, if_neg hseen]
  | case4 => cases h
  | case5 flags seen off inside hseen =>
    cases h
    rw [List.cons_append, readFlags, if_neg hseen]
  | case6 => cases h
  | case7 flags seen off inside hoff ih =>
    rw [List.cons_append, readFlags, if_neg hoff]
    exact ih h
  | case8 flags seen off c inside hclose hcolon hhyphen set hset ih =>
    rw [List.cons_append, readFlags, hset]
    · exact ih h
    · exact hclose
    · exact hcolon
    · exact hhyphen
  | case9 => cases h

/-! ## Parentheses -/

theorem opening_append (htail : Follows tail) (source : List Char) :
    opening (source ++ tail) = ((opening source).1, (opening source).2 ++ tail) := by
  have hfirst : ∀ {c : Char} (source : List Char), c ∉ followers →
      ((source ++ tail).head? = some c ↔ source.head? = some c) :=
    fun source hc => htail.head?_append_iff hc source
  have hrest : ∀ {c : Char} {source : List Char}, source.head? = some c →
      (source ++ tail).tail = source.tail ++ tail := by
    intro c source hhead
    obtain ⟨inside, rfl⟩ := List.head?_eq_some_iff.mp hhead
    rfl
  have hsecond : ∀ {b c : Char} (source : List Char), b ∉ followers → c ∉ followers →
      ((source ++ tail).head? = some b ∧ (source ++ tail).tail.head? = some c ↔
        source.head? = some b ∧ source.tail.head? = some c) := by
    intro b c source hb hc
    rw [hfirst source hb]
    exact and_congr_right fun hhead => by rw [hrest hhead, hfirst _ hc]
  have hsame : ∀ {here there : Prop} [Decidable here] [Decidable there]
      {opened opened' other other' : Opening × List Char}, (there ↔ here) →
      (here → opened' = (opened.1, opened.2 ++ tail)) →
      (¬ here → other' = (other.1, other.2 ++ tail)) →
      (if there then opened' else other') =
        ((if here then opened else other).1, (if here then opened else other).2 ++ tail) := by
    intro here there _ _ opened opened' other other' hiff hthen helse
    by_cases h : here
    · rw [if_pos h, if_pos (hiff.mpr h), hthen h]
    · rw [if_neg h, if_neg fun hthere => h (hiff.mp hthere), helse h]
  refine hsame (hfirst source (by decide)) (fun hmark => ?_) fun _ => rfl
  rw [hrest hmark]
  generalize source.tail = marked
  refine hsame (hfirst marked (by decide)) (fun hhead => by rw [hrest hhead]) fun _ => ?_
  refine hsame (hfirst marked (by decide)) (fun hhead => by rw [hrest hhead]) fun _ => ?_
  refine hsame (hfirst marked (by decide)) (fun hangle => ?_) fun _ => ?_
  · rw [hrest hangle]
    refine hsame (hfirst _ (by decide)) (fun hhead => by rw [hrest hhead]) fun _ => ?_
    exact hsame (hfirst _ (by decide)) (fun hhead => by rw [hrest hhead]) fun _ => rfl
  refine hsame (hsecond marked (by decide) (by decide))
    (fun hname => by rw [hrest hname.1, hrest hname.2]) fun _ => ?_
  refine hsame (hsecond marked (by decide) (by decide))
    (fun hname => by rw [hrest hname.1, hrest hname.2]) fun _ => ?_
  exact hsame (hfirst marked (by decide)) (fun hhead => by rw [hrest hhead]) fun _ => rfl

/-- A reader that stops in front of something reads the same if the source goes on with `tail`. -/
structure GoesOn (tail : List Char) (read : Reader Tree) : Prop where
  takes : Takes read
  append : ∀ {progress after : Progress} {source rest : List Char} {tree : Tree},
    read progress source = .ok (tree, after, rest) → rest ≠ [] →
      read progress (source ++ tail) = .ok (tree, after, rest ++ tail)

theorem ne_nil_of_skip {skipped : List Char} (h : skip progress source = .ok skipped)
    (hskipped : skipped ≠ []) : source ≠ [] := by
  rintro rfl
  exact hskipped (List.suffix_nil.mp (skip_suffix h))

theorem readBody_append (htail : Follows tail) (hread : GoesOn tail read)
    (h : readBody read progress source = .ok (tree, after, rest)) :
    readBody read progress (source ++ tail) = .ok (tree, after, rest ++ tail) := by
  obtain ⟨⟨body, between, middle⟩, hbody, h⟩ := ok_of_bind_eq_ok h
  obtain ⟨⟨⟨⟩, last, final⟩, hclose, hpure⟩ := ok_of_bind_eq_ok h
  cases hpure
  obtain ⟨rfl, hskip⟩ := readClose_eq_ok hclose
  have hclose' : readClose after (middle ++ tail) = .ok ((), after, rest ++ tail) :=
    bind_eq_of_ok (skip_append_of_ne htail hskip (List.cons_ne_nil _ _))
  have hmiddle := ne_nil_of_skip hskip (List.cons_ne_nil _ _)
  exact (bind_eq_of_ok (hread.append hbody hmiddle)).trans (bind_eq_of_ok hclose')

theorem readBody_ne_ok (hread : Takes read) :
    readBody read progress [] ≠ .ok (tree, after, rest) := by
  intro h
  obtain ⟨⟨body, between, middle⟩, hbody, h⟩ := ok_of_bind_eq_ok h
  obtain ⟨⟨⟨⟩, last, final⟩, hclose, -⟩ := ok_of_bind_eq_ok h
  exact ne_nil_of_skip (readClose_eq_ok hclose).2 (List.cons_ne_nil _ _)
    (List.suffix_nil.mp (hread hbody).suffix)

theorem readGroup_append (htail : Follows tail) (hread : GoesOn tail read)
    {name : Option (List Char)} (h : readGroup read name progress source = .ok (tree, after, rest)) :
    readGroup read name progress (source ++ tail) = .ok (tree, after, rest ++ tail) := by
  obtain ⟨⟨body, last, final⟩, hbody, hpure⟩ := ok_of_bind_eq_ok h
  cases hpure
  exact bind_eq_of_ok (readBody_append htail hread hbody)

theorem readOpened_append (htail : Follows tail) (hread : GoesOn tail read) {kind : Opening}
    (h : readOpened read progress (kind, source) = .ok (tree, after, rest)) :
    readOpened read progress (kind, source ++ tail) = .ok (tree, after, rest ++ tail) := by
  cases kind with
  | look side negated =>
    obtain ⟨⟨body, last, final⟩, hbody, hpure⟩ := ok_of_bind_eq_ok h
    cases hpure
    exact bind_eq_of_ok (readBody_append htail hread hbody)
  | atomic =>
    obtain ⟨⟨body, last, final⟩, hbody, hpure⟩ := ok_of_bind_eq_ok h
    cases hpure
    exact bind_eq_of_ok (readBody_append htail hread hbody)
  | plain =>
    have hgroup : readGroup read none progress source = .ok (tree, after, rest) := h
    exact readGroup_append htail hread hgroup
  | named =>
    obtain ⟨⟨name, middle⟩, hname, h⟩ := ok_of_bind_eq_ok h
    refine (bind_eq_of_ok (Escape.readName_append hname tail)).trans ?_
    dsimp only at h ⊢
    split at h
    · cases h
    · next hhyphen =>
      rw [if_neg hhyphen]
      exact readGroup_append htail hread h
  | reference =>
    obtain ⟨⟨name, middle⟩, hname, h⟩ := ok_of_bind_eq_ok h
    refine (bind_eq_of_ok (Escape.readName_append hname tail)).trans ?_
    dsimp only at h ⊢
    split at h
    · cases h
    · next hhyphen =>
      rw [if_neg hhyphen]
      obtain ⟨number, hnumber, h⟩ := ok_of_bind_eq_ok h
      exact (bind_eq_of_ok hnumber).trans (reference_append h tail)
  | flags =>
    obtain ⟨⟨flags, hasBody, middle⟩, hflags, h⟩ := ok_of_bind_eq_ok h
    refine (bind_eq_of_ok (readFlags_append hflags tail)).trans ?_
    cases hasBody with
    | false =>
      cases h
      rfl
    | true =>
      obtain ⟨⟨body, between, last⟩, hbody, h⟩ := ok_of_bind_eq_ok h
      dsimp only at h
      split at h
      · cases h
        exact bind_eq_of_ok (hread.append hbody (List.cons_ne_nil _ _))
      · cases h
      · cases h

theorem readParenthesis_append (htail : Follows tail) (hread : GoesOn tail read)
    (h : readParenthesis read progress source = .ok (tree, after, rest)) :
    readParenthesis read progress (source ++ tail) = .ok (tree, after, rest ++ tail) := by
  rw [readParenthesis_eq] at h ⊢
  obtain ⟨inside, hskip, h⟩ := ok_of_bind_eq_ok h
  rcases skip_append htail hskip with ⟨-, hnil⟩ | hskip'
  · simp only at hnil
    subst hnil
    obtain ⟨body, hbody, -⟩ := ok_of_bind_eq_ok h
    exact absurd hbody (readBody_ne_ok hread.takes)
  · rw [bind_eq_of_ok hskip', opening_append htail]
    exact readOpened_append htail hread h

/-! ## Constructs with their quantifiers -/

theorem readFirst_append (htail : Follows tail) (hinner : ∀ read ∈ inner, GoesOn tail read) {c : Char}
    (h : readFirst inner progress (c :: source) = .ok (tree, after, rest)) :
    readFirst inner progress (c :: source ++ tail) = .ok (tree, after, rest ++ tail) := by
  rw [List.cons_append]
  rw [readFirst] at h ⊢
  split at h
  · next hparen =>
    rw [if_pos hparen]
    cases inner with
    | none => cases h
    | some read => exact readParenthesis_append htail (hinner read rfl) h
  rw [if_neg ‹_›]
  split at h
  · next hbackslash =>
    rw [if_pos hbackslash]
    exact readEscape_append htail h
  rw [if_neg ‹_›]
  split at h
  · next hbracket =>
    rw [if_pos hbracket]
    obtain ⟨⟨members, last⟩, hmembers, hpure⟩ := ok_of_bind_eq_ok h
    cases hpure
    exact bind_eq_of_ok (readClass_append htail hmembers)
  · next hbracket =>
    rw [if_neg hbracket]
    split at h
    · cases h
      rfl
    · cases h
      rfl

/-- At the front of a source stands a construct that takes something of it, or else nothing is
read. -/
theorem readFirst_idle (hinner : ∀ read ∈ inner, Takes read) {c : Char}
    (h : readFirst inner progress (c :: source) = .ok (tree, after, rest)) :
    rest <:+ source ∨ tree = .empty ∧ after = progress ∧ rest = c :: source ∧ c ≠ '\x7b' := by
  rw [readFirst] at h
  split at h
  · cases inner with
    | none => cases h
    | some read => exact .inl (readParenthesis_took (hinner read rfl) h).suffix
  split at h
  · exact .inl (readEscape_took h).suffix
  split at h
  · obtain ⟨⟨members, last⟩, hread, hpure⟩ := ok_of_bind_eq_ok h
    cases hpure
    exact .inl (readClass_suffix hread)
  · split at h
    · cases h
      exact .inl List.suffix_rfl
    · next hsingle =>
      cases h
      exact .inr ⟨rfl, rfl, rfl, ne_brace_of_single? hsingle⟩

/-- What follows does not change a construct, nor what it is repeated by. -/
theorem repeatAtom_append (htail : Follows tail) (progress : Progress) (atom : Tree)
    (bounds : Bounds) (source : List Char) :
    repeatAtom progress atom bounds (source ++ tail) =
      ((repeatAtom progress atom bounds source).1, (repeatAtom progress atom bounds source).2.1,
        (repeatAtom progress atom bounds source).2.2 ++ tail) := by
  have hmarked : (if (source ++ tail).head? = some '?' then (source ++ tail).tail
      else source ++ tail) =
        (if source.head? = some '?' then source.tail else source) ++ tail := by
    by_cases hhead : source.head? = some '?'
    · obtain ⟨inside, rfl⟩ := List.head?_eq_some_iff.mp hhead
      rfl
    · rw [if_neg hhead, if_neg]
      rwa [htail.head?_append_iff (by decide)]
  have hmark := htail.head?_append_iff (by decide : '?' ∉ followers) source
  unfold repeatAtom
  simp only [hmarked]
  generalize (if source.head? = some '?' then source.tail else source) = marked
  have hplus := htail.head?_append_iff (by decide : '+' ∉ followers) marked
  simp only [hmark, hplus]
  by_cases hhead : marked.head? = some '+'
  · obtain ⟨inside, rfl⟩ := List.head?_eq_some_iff.mp hhead
    rfl
  · simp only [if_neg hhead]

/-- What comes of a construct if the source goes on with `tail`: it is the same, unless its reader
has lost its way or is stranded at a brace. -/
inductive Repeats (tail : List Char) (progress : Progress) (source : List Char)
    (result' : Except Error (Tree × Progress × List Char)) (tree : Tree) (after : Progress)
    (rest : List Char) : Prop where
  | lost (hlost : Place.Lost ⟨after, rest⟩)
  | stranded {inside : List Char} (hafter : after = progress) (hrest : rest = source)
      (hbrace : source = '\x7b' :: inside) (hstranded : Stranded progress inside)
  | same (h : result' = .ok (tree, after, rest ++ tail))

theorem readRepeated_append (htail : Follows tail)
    (h : readRepeated progress atom source = .ok (tree, after, rest)) :
    Repeats tail progress source (readRepeated progress atom (source ++ tail)) tree after rest := by
  unfold readRepeated at h
  rcases (readQuantifier?_append htail source : readQuantifier? progress source = none ∧ _ ∨ _) with
    ⟨hnone, inside, hbrace, hstranded⟩ | hagain
  · rw [hnone] at h
    cases h
    exact .stranded rfl rfl hbrace hstranded
  · cases hquantifier : readQuantifier? progress source with
    | none =>
      rw [hquantifier] at h hagain
      cases h
      refine .same ?_
      rw [readRepeated, hagain]
      rfl
    | some found =>
      obtain ⟨bounds, inside⟩ := found
      rw [hquantifier] at h hagain
      simp only at h
      split at h
      · next hrepeatable =>
        cases hskip : skip progress inside with
        | error error =>
          rw [hskip] at h
          cases h
        | ok skipped =>
          rw [hskip] at h
          rcases skip_append htail hskip with ⟨hblank, hnil⟩ | hskip'
          · simp only at hnil
            subst hnil
            cases h
            exact .lost ⟨hblank, rfl⟩
          · have hresult : repeatAtom progress atom bounds skipped = (tree, after, rest) :=
              Except.ok.inj h
            refine .same ?_
            simp only [readRepeated, hagain, Option.map_some, if_pos hrepeatable, hskip',
              Except.map, repeatAtom_append htail, hresult]
      · cases h

end Tree

end Regex

end Highlighter
