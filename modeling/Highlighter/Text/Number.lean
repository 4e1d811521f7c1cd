/-!
# Whole numbers in text

Reading an unsigned number that must fit into a given width: decimal digits, with a plus sign in
front if one likes.
-/

namespace Highlighter.Text

/-- The number that decimal digits denote. -/
def digitsValue (digits : List Char) : Nat :=
  digits.foldl (fun value c => 10 * value + (c.toNat - '0'.toNat)) 0

/-- The unsigned number of at most `bits` bits that a text denotes. -/
def unsigned? (bits : Nat) (text : List Char) : Option Nat :=
  let digits := match text with
    | '+' :: digits => digits
    | _ => text
  if digits.isEmpty || !digits.all Char.isDigit then none
  else if digitsValue digits < 1 <<< bits then some (digitsValue digits) else none

end Highlighter.Text
