import Highlighter.Text.Blank
import Highlighter.Text.Case
import Highlighter.Text.Word

/-!
# Sets of characters

What a regular expression asks of one character, as an expression over ranges and properties, and
whether a character meets it.
-/

namespace Highlighter.Regex

/-- A set of characters. -/
inductive CharSet where
  | empty
  | range (first last : Char)
  | digit
  | blank
  | word
  /-- The characters whose category is listed. -/
  | category (members : List Text.Category)
  | union (left right : CharSet)
  | inter (left right : CharSet)
  | compl (set : CharSet)
  /-- The characters that are the same as a member up to case. -/
  | folded (set : CharSet)
  deriving Repr, Inhabited

namespace CharSet

/-- Whether a character belongs to a set. -/
def has : CharSet → Char → Bool
  | .empty, _ => false
  | .range first last, c => first.toNat ≤ c.toNat && c.toNat ≤ last.toNat
  | .digit, c => Text.isDigitChar c
  | .blank, c => Text.isBlank c
  | .word, c => Text.isWordChar c
  | .category members, c => members.contains (Text.Category.of c)
  | .union left right, c => left.has c || right.has c
  | .inter left right, c => left.has c && right.has c
  | .compl set, c => !set.has c
  | .folded set, c => (Text.caseMates c).any set.has

/-- The set of one character. -/
def single (c : Char) : CharSet := .range c c

/-- Every character. -/
def any : CharSet := .compl .empty

/-- Every character that does not end a line. -/
def notLineEnd : CharSet := .compl (single '\n')

/-- `set` closed under case when `ignoreCase` is set. -/
def foldIf (ignoreCase : Bool) (set : CharSet) : CharSet :=
  if ignoreCase then .folded set else set

/-- The complement of `set` when `negated` is set. -/
def complIf (negated : Bool) (set : CharSet) : CharSet :=
  if negated then .compl set else set

/-- The union of a list of sets. -/
def unions (sets : List CharSet) : CharSet :=
  sets.foldr .union .empty

/-- The members of the first set outside the second. -/
def difference (left right : CharSet) : CharSet := .inter left (.compl right)

/-- The members of exactly one of two sets. -/
def symmetricDifference (left right : CharSet) : CharSet :=
  .union (difference left right) (difference right left)

@[simp] theorem has_single (a c : Char) : (single a).has c = (a == c) := by
  simp only [single, has]
  rw [Bool.eq_iff_iff]
  simp only [Bool.and_eq_true, decide_eq_true_eq, beq_iff_eq]
  exact ⟨fun h => Char.toNat_inj.mp (Nat.le_antisymm h.1 h.2), fun h => by simp [h]⟩

@[simp] theorem has_any (c : Char) : any.has c = true := rfl

end CharSet

end Highlighter.Regex
