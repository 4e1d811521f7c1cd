/-!
# Bytes and positions

Positions in a text count characters. What is reported to the outside counts the bytes of the
UTF-8 encoding; these functions go from one to the other.
-/

namespace Highlighter.Text

/-- The number of bytes of a text. -/
def byteSize (text : Array Char) : Nat :=
  text.foldl (fun size c => size + c.utf8Size) 0

/-- The number of bytes before a position. -/
def byteOffset (text : Array Char) (position : Nat) : Nat :=
  byteSize (text.extract 0 position)

/-- The last position with at most `offset` bytes before it. -/
def floorPosition (offset : Nat) : List Char → Nat
  | [] => 0
  | c :: rest => if c.utf8Size ≤ offset then floorPosition (offset - c.utf8Size) rest + 1 else 0

/-- The first position with at least `offset` bytes before it, or the end. -/
def ceilPosition (offset : Nat) : List Char → Nat
  | [] => 0
  | c :: rest => if offset = 0 then 0 else ceilPosition (offset - c.utf8Size) rest + 1

/-- The text around a position: at least `width` bytes on each side where there are as many, with
no character cut. -/
def around (text : Array Char) (position width : Nat) : String :=
  let offset := byteOffset text position
  let start := floorPosition (offset - width) text.toList
  let stop := ceilPosition (offset + width) text.toList
  String.ofList (text.extract start stop).toList

end Highlighter.Text
