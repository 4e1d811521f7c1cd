import Highlighter.Text.Category

/-!
# Word characters

Which characters make up words and numbers: word characters are the letters, marks, decimal
digits, letter numbers, connectors and joiners, together with the letters in circles and squares.
-/

namespace Highlighter.Text

/-- Letters in circles and squares, which count as alphabetic although they are symbols. -/
def enclosedLetterRanges : List (Nat × Nat) :=
  [(0x24b6, 0x24e9), (0x1f130, 0x1f149), (0x1f150, 0x1f169), (0x1f170, 0x1f189)]

/-- Whether a character is a letter in a circle or a square. -/
def isEnclosedLetter (c : Char) : Bool :=
  enclosedLetterRanges.any fun (first, last) => first ≤ c.toNat && c.toNat ≤ last

/-- Whether a character is part of a word. -/
def isWordChar (c : Char) : Bool :=
  if c.toNat < 0x80 then c.isAlphanum || c == '_'
  else match Category.of c with
    | .upperLetter | .lowerLetter | .titleLetter | .modifierLetter | .otherLetter => true
    | .nonspacingMark | .spacingMark | .enclosingMark => true
    | .decimalDigit | .letterNumber | .connector => true
    | _ => c == '\u200c' || c == '\u200d' || isEnclosedLetter c

/-- Whether a character is a decimal digit of some script. -/
def isDigitChar (c : Char) : Bool :=
  if c.toNat < 0x80 then c.isDigit else Category.of c == .decimalDigit

/-- Whether a character may stand in a group's name: a letter, a number or an underscore. -/
def isNameChar (c : Char) : Bool :=
  if c.toNat < 0x80 then c.isAlphanum || c == '_'
  else Category.of c == .otherNumber
    || (isWordChar c && Category.of c != .connector && c != '\u200c' && c != '\u200d')

end Highlighter.Text
