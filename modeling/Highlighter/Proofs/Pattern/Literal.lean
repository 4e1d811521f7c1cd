import Highlighter.Pattern
import Highlighter.Proofs.Pattern.Numbering
import Highlighter.Proofs.Regex.Alike
import Highlighter.Proofs.Regex.Continued

/-!
# Texts as they stand

The source of a literal text has a backslash before every character that means something in an
expression. Two readers see it. The reader of expressions takes each character of the text for
itself, so the expression matches that text and nothing else. The reader of pieces finds neither
groups nor references, so a literal among joined sources stays as it is, and the others are numbered
as if nothing stood in its group.
-/

namespace Highlighter

namespace Regex

namespace Tree

open Pattern (escapeChar metacharacters)

variable {progress : Progress} {source : List Char} {inner : Option (Reader Tree)} {flags : Flags}

/-! ## Reading -/

/-- Where blanks mean something, nothing but a comment in parentheses is skipped. -/
theorem skip_of_head? (hblank : progress.flags.ignoreBlank = false)
    (hparen : source.head? ≠ some '(') : skip progress source = .ok source := by
  rw [skip, hblank]
  cases source with
  | nil => exact skipIgnored_nil _ _
  | cons c rest =>
    by_cases hline : c = '#'
    · subst hline
      exact skipIgnored_line _ _ _
    · have hcomment : c = '(' → ¬ ['?', '#'] <+: rest := fun hc => absurd (hc ▸ rfl) hparen
      rw [List.length_cons, skipIgnored_other hline hcomment, Bool.false_and,
        if_neg Bool.false_ne_true]

/-- A character of a text, with a backslash where it needs one, stands for itself. -/
theorem readAtom_escapeChar (hblank : progress.flags.ignoreBlank = false) (c : Char)
    (rest : List Char) :
    readAtom inner progress (escapeChar c ++ rest) =
      .ok (.char ((CharSet.single c).foldIf progress.flags.ignoreCase), progress, rest) := by
  rw [escapeChar, readAtom_eq]
  split
  · next hmeta =>
    -- Behind a backslash only letters, digits and the two angle brackets mean something.
    have hmem : c ∈ metacharacters := List.contains_iff_mem.mp hmeta
    have hall : metacharacters.all (fun c => !c.isAlpha && c != '<' && c != '>') = true := by decide
    have hsymbol := List.all_eq_true.mp hall c hmem
    simp only [Bool.and_eq_true, Bool.not_eq_true', bne_iff_ne] at hsymbol
    obtain ⟨⟨halpha, hless⟩, hgreater⟩ := hsymbol
    have hread : Escape.read false (c :: rest) = .ok (.char c, rest) :=
      Escape.read_symbol (Pattern.isDigit_of_mem_metacharacters hmem).1 halpha
        (.inr ⟨hless, hgreater⟩) rest
    rw [bind_eq_of_ok (skip_of_head? hblank (by simp))]
    exact readEscape_eq hread rfl
  · next hplain =>
    have hne : ∀ d ∈ metacharacters, c ≠ d := by
      rintro d hd rfl
      exact hplain (List.contains_iff_mem.mpr hd)
    have hends : c ∉ ['+', '*', '?', '|', ')'] := fun hmem =>
      hne c ((by decide : ['+', '*', '?', '|', ')'] ⊆ metacharacters) hmem) rfl
    have hparen : ([c] ++ rest).head? ≠ some '(' := fun hhead =>
      hne '(' (by decide) (Option.some.inj hhead)
    rw [bind_eq_of_ok (skip_of_head? hblank hparen), List.singleton_append, readFirst,
      if_neg (hne _ (by decide)), if_neg (hne _ (by decide)), if_neg (hne _ (by decide)), single?,
      if_neg (hne _ (by decide)), if_neg (hne _ (by decide)), if_neg (hne _ (by decide)),
      if_neg hends]

/-- No quantifier follows a character of a text. -/
theorem readPiece_escapeChar (hblank : progress.flags.ignoreBlank = false) (c : Char)
    (text : List Char) :
    readPiece inner progress (escapeChar c ++ text.flatMap escapeChar) =
      .ok (.char ((CharSet.single c).foldIf progress.flags.ignoreCase), progress,
        text.flatMap escapeChar) := by
  have hhead : ∀ d ∈ metacharacters, d ≠ '\\' → (text.flatMap escapeChar).head? ≠ some d :=
    fun _ hmeta hescape => Pattern.head?_flatMap_escapeChar hmeta hescape text
  have hmarks : ['?', '*', '+', '\x7b'].all (fun d => metacharacters.contains d && d != '\\') =
      true := by decide
  have hnone : readQuantifier? progress (text.flatMap escapeChar) = none := by
    refine readQuantifier?_of_head? fun d hd => ?_
    have hmark := List.all_eq_true.mp hmarks d hd
    rw [Bool.and_eq_true, bne_iff_ne] at hmark
    exact hhead d (List.contains_iff_mem.mp hmark.1) hmark.2
  rw [readPiece_eq]
  refine (bind_eq_of_ok (readAtom_escapeChar hblank c _)).trans
    ((bind_eq_of_ok (skip_of_head? hblank (hhead '(' (by decide) (by decide)))).trans ?_)
  rw [readRepeated, hnone]

/-- What the characters of a text stand for. -/
def charSets (ignoreCase : Bool) (text : List Char) : List CharSet :=
  text.map fun c => (CharSet.single c).foldIf ignoreCase

theorem readItems_flatMap_escapeChar (hblank : progress.flags.ignoreBlank = false)
    (text : List Char) {fuel : Nat} (hfuel : (text.flatMap escapeChar).length ≤ fuel) :
    readItems inner fuel progress (text.flatMap escapeChar) =
      .ok ((charSets progress.flags.ignoreCase text).map .char, progress, []) := by
  induction text generalizing fuel with
  | nil => exact readItems_nil inner fuel progress
  | cons c text ih =>
    have hpositive : 0 < (escapeChar c).length := by
      rw [escapeChar]
      split <;> exact Nat.succ_pos _
    rw [List.flatMap_cons, List.length_append] at hfuel
    obtain ⟨fuel, rfl⟩ := Nat.exists_eq_succ_of_ne_zero (by omega : fuel ≠ 0)
    refine readItems_of_piece ?_ (readPiece_escapeChar hblank c text) ?_ (ih (by omega))
    · exact List.append_ne_nil_of_left_ne_nil (List.length_pos_iff.mp hpositive) _
    · rw [List.length_append]
      omega

/-- An escaped text reads as its characters one after the other. -/
theorem read_escape (hblank : flags.ignoreBlank = false) (content : String) :
    read flags (Pattern.escape content) =
      .ok ⟨ofItems ((charSets flags.ignoreCase content.toList).map .char), 0, []⟩ := by
  have hread : readExpression maxLevels { flags := flags } (Pattern.escape content).toList =
      .ok (ofItems ((charSets flags.ignoreCase content.toList).map .char), { flags := flags },
        []) := by
    rw [readExpression_eq, Pattern.toList_escape]
    exact readChoice_eq_ok_iff.mpr ⟨_, _, [], [],
      bind_eq_of_ok (readItems_flatMap_escapeChar hblank content.toList (Nat.le_refl _)),
      readMore_nil _ _ _, rfl, fun _ => rfl⟩
  rw [read, bind_eq_of_ok hread]
  rfl

/-! ## Running -/

theorem ofItems_settle {items : List Tree} {programs : List Program}
    (h : settleAll items = .ok programs) : (ofItems items).settle = .ok (.seqs programs) := by
  cases items with
  | nil =>
    cases h
    rfl
  | cons item items =>
    cases items with
    | nil =>
      obtain ⟨program, hprogram, hpure⟩ := ok_of_bind_eq_ok h
      cases hpure
      exact hprogram
    | cons second items => exact bind_eq_of_ok h

theorem ofItems_isHard (items : List Tree) (referenced : List Nat) :
    (ofItems items).isHard referenced = anyHard referenced items := by
  cases items with
  | nil => rfl
  | cons item items =>
    cases items with
    | nil => exact (Bool.or_false _).symm
    | cons second items => rfl

theorem settleAll_char (sets : List CharSet) :
    settleAll (sets.map .char) = .ok (sets.map .char) := by
  induction sets with
  | nil => rfl
  | cons set sets ih => exact bind_eq_of_ok ih

theorem anyHard_char (sets : List CharSet) (referenced : List Nat) :
    anyHard referenced (sets.map .char) = false := by
  induction sets with
  | nil => rfl
  | cons set sets ih => exact ih

theorem groupNumbersOf_char (sets : List CharSet) : groupNumbersOf (sets.map .char) = [] := by
  induction sets with
  | nil => rfl
  | cons set sets ih => exact ih

/-- Characters one after the other are settled as a whole. -/
theorem plan_ofItems_char (sets : List CharSet) (referenced : List Nat) :
    (ofItems (sets.map .char)).plan referenced false =
      .ok (.settled 0 0 (.seqs (sets.map .char))) := by
  unfold plan
  rw [ofItems_isHard, anyHard_char]
  simp only [settlePart, settleAll, ofItems_settle (settleAll_char sets), groupNumbersOf,
    ofItems_groupNumbers, groupNumbersOf_char]
  rfl

end Tree

/-- Characters one after the other match where the text continues with them. -/
theorem Program.run_charSets {text : Array Char} (content : List Char) (next : Continuation)
    (state : State) :
    (seqs ((Tree.charSets false content).map .char)).run text next state =
      if content <+: text.toList.drop state.position then
        next { state with position := state.position + content.length }
      else none := by
  -- One character of the content for one of the text, until one of the two is used up.
  induction content generalizing state with
  | nil =>
    rw [if_pos List.nil_prefix]
    rfl
  | cons c content ih =>
    have hsets : Tree.charSets false (c :: content) = .single c :: Tree.charSets false content := rfl
    rw [hsets, List.map_cons, run_seqs_cons, run]
    cases hc : text[state.position]? with
    | none =>
      have hdrop : text.toList.drop state.position = [] := by
        rw [List.drop_eq_nil_iff, Array.length_toList]
        exact Array.getElem?_eq_none_iff.mp hc
      rw [hdrop, if_neg (by simp)]
    | some d =>
      have hdrop : text.toList.drop state.position =
          d :: text.toList.drop (state.position + 1) := by
        obtain ⟨hlt, rfl⟩ := Array.getElem?_eq_some_iff.mp hc
        rw [List.drop_eq_getElem_cons (by rwa [Array.length_toList]), Array.getElem_toList]
      simp only [hdrop, CharSet.has_single, beq_iff_eq, List.cons_prefix_cons, ih, ite_and,
        List.length_cons, Nat.add_assoc, Nat.add_comm 1]

/-- The expression of a text as it stands. -/
def ofText (content : String) : Regex :=
  ⟨.settled 0 0 (.seqs ((Tree.charSets false content.toList).map .char)), 0⟩

theorem compile_escape (content : String) :
    compile false (Pattern.escape content) = .ok (ofText content) := by
  rw [compile]
  exact (bind_eq_of_ok (Tree.read_escape rfl content)).trans
    (bind_eq_of_ok (Tree.plan_ofItems_char _ _))

/-- The expression of a text matches where a text continues with it, and takes just that. -/
theorem matchAt?_ofText (content : String) (text : Array Char) (position : Nat) :
    (ofText content).matchAt? text position =
      if content.toList <+: text.toList.drop position then
        some ⟨⟨position, position + content.length⟩, []⟩
      else none := by
  rw [matchAt?, ofText, Program.run_settled, Program.run_charSets, apply_ite (Option.map _),
    ← String.length_toList]
  rfl

end Regex

namespace Pattern

/-! ## Joining -/

/-- Moving references up leaves an escaped text as it is: none of its backslashes is in front of a
digit. -/
theorem shiftReferences_escape (offset : Nat) (content : String) :
    shiftReferences offset (escape content) = (escape content).toList := by
  have hshift : ∀ piece ∈ Piece.ofSource (content.toList.flatMap escapeChar),
      (piece.shift offset).text = piece.text := by
    rw [ofSource_flatMap_escapeChar]
    intro piece hpiece
    obtain ⟨c, -, rfl⟩ := List.mem_map.mp hpiece
    split <;> rfl
  rw [shiftReferences, toList_escape, List.flatMap_congr hshift, Piece.flatMap_text_ofSource]

/-- Sources behind others are joined behind the groups of these. -/
theorem wrapFrom_append (groups : Nat) (before after : List String) :
    wrapFrom groups (before ++ after) =
      wrapFrom groups before ++
        wrapFrom (groups + (before.length + (before.map countGroups).sum)) after := by
  induction before generalizing groups with
  | nil => rfl
  | cons source before ih =>
    have hgroups : groups + 1 + countGroups source +
        (before.length + (before.map countGroups).sum) =
          groups + ((source :: before).length + ((source :: before).map countGroups).sum) := by
      rw [List.length_cons, List.map_cons, List.sum_cons]
      omega
    rw [List.cons_append, wrapFrom, wrapFrom, ih, hgroups]
    rfl

/-- A literal matches its text, wherever that stands, and nothing else. Its source has no groups,
and joining leaves it as it is, in a group of its own. The sources before it are joined as they are
without it, those after it behind one more group. -/
theorem literal_is_inert (content : String) :
    (∃ regex, Regex.compile false (Pattern.literal content).source = .ok regex ∧
      regex.groups = 0 ∧
      ∀ (text : Array Char) (position : Nat), regex.matchAt? text position =
        if content.toList <+: text.toList.drop position then
          some ⟨⟨position, position + content.length⟩, []⟩
        else none) ∧
    countGroups (escape content) = 0 ∧
    ∀ (separator : String) (before after : List String),
      joinGroups separator (before ++ escape content :: after) =
        String.ofList (separator.toList.intercalate (wrapFrom 0 before ++
          ('(' :: (escape content).toList ++ [')']) ::
            wrapFrom (before.length + (before.map countGroups).sum + 1) after)) := by
  have hcount := (joins_escape content).2
  refine ⟨⟨.ofText content, ?_, rfl, Regex.matchAt?_ofText content⟩, hcount, ?_⟩
  · rw [source]
    exact Regex.compile_escape content
  · intro separator before after
    rw [joinGroups, wrapFrom_append, wrapFrom, shiftReferences_escape, hcount, Nat.zero_add,
      Nat.add_zero]

end Pattern

end Highlighter
