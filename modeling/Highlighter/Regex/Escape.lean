import Highlighter.Regex.Error
import Highlighter.Regex.Tree
import Highlighter.Text.Number

/-!
# Escapes

What follows a backslash in the source of an expression, inside and outside a character class.
-/

namespace Highlighter.Regex

/-- What an escape stands for. -/
inductive Escape where
  | char (c : Char)
  /-- A set that is the same in either case. -/
  | set (members : CharSet)
  /-- The characters with a property, or all others. -/
  | property (negated : Bool) (members : CharSet)
  | anchor (anchor : Anchor)
  | reference (number : Nat)
  | namedReference (name : List Char)
  deriving Repr, Inhabited

namespace Escape

/-- The value of a hexadecimal digit. -/
def hexValue? (c : Char) : Option Nat :=
  if c.isDigit then some (c.toNat - '0'.toNat)
  else if 'a' ≤ c && c ≤ 'f' then some (c.toNat - 'a'.toNat + 10)
  else if 'A' ≤ c && c ≤ 'F' then some (c.toNat - 'A'.toNat + 10)
  else none

/-- The number that hexadecimal digits denote. -/
def hexNumber? (digits : List Char) : Option Nat :=
  digits.foldl (fun value c => do return 16 * (← value) + (← hexValue? c)) (some 0)

/-- The character with a code point, where there is one. -/
def charOf? (point : Nat) : Except Error Char :=
  if point < 0xd800 || (0xdfff < point && point < 0x110000) then .ok (Char.ofNat point)
  else .error .invalidCodePoint

/-- Reads a code point: `count` hexadecimal digits, or one to eight of them between braces. -/
def readCodePoint (count : Nat) (source : List Char) : Except Error (Escape × List Char) := do
  match hexNumber? (source.take count) with
  | some point =>
    if source.length < count then throw .invalidCodePoint
    return (.char (← charOf? point), source.drop count)
  | none =>
    match source with
    | '\x7b' :: inner =>
      let digits := inner.takeWhile (hexValue? · |>.isSome)
      match hexNumber? digits, inner.drop digits.length with
      | some point, '\x7d' :: rest =>
        if digits.isEmpty || 8 < digits.length then throw .invalidCodePoint
        return (.char (← charOf? point), rest)
      | _, _ => throw .invalidCodePoint
    | _ => throw .invalidCodePoint

/-- The number that decimal digits denote, if it fits into a machine word. -/
def decimal? (digits : List Char) : Option Nat :=
  Text.unsigned? 64 digits

/-- Names of groups of categories, in lower case without blanks and hyphens. -/
def longNames : List (String × String) :=
  [("letter", "L"), ("uppercaseletter", "Lu"), ("lowercaseletter", "Ll"),
    ("titlecaseletter", "Lt"), ("modifierletter", "Lm"), ("otherletter", "Lo"), ("mark", "M"),
    ("combiningmark", "M"), ("nonspacingmark", "Mn"), ("spacingmark", "Mc"),
    ("enclosingmark", "Me"), ("number", "N"), ("decimalnumber", "Nd"), ("digit", "Nd"),
    ("letternumber", "Nl"), ("othernumber", "No"), ("punctuation", "P"), ("punct", "P"),
    ("connectorpunctuation", "Pc"), ("dashpunctuation", "Pd"), ("openpunctuation", "Ps"),
    ("closepunctuation", "Pe"), ("initialpunctuation", "Pi"), ("finalpunctuation", "Pf"),
    ("otherpunctuation", "Po"), ("symbol", "S"), ("mathsymbol", "Sm"), ("currencysymbol", "Sc"),
    ("modifiersymbol", "Sk"), ("othersymbol", "So"), ("separator", "Z"),
    ("spaceseparator", "Zs"), ("lineseparator", "Zl"), ("paragraphseparator", "Zp"),
    ("other", "C"), ("control", "Cc"), ("cntrl", "Cc"), ("format", "Cf"), ("surrogate", "Cs"),
    ("privateuse", "Co"), ("unassigned", "Cn")]

/-- The characters whose category's letters start with `group`. -/
def categoryGroup (group : String) : CharSet :=
  .category ((Text.Category.codes.map (·.2)).filter (Text.Category.inGroup group))

/-- The characters with the named property. -/
def property? (name : List Char) : Option CharSet :=
  let plain := String.ofList
    ((name.filter fun c => c != ' ' && c != '_' && c != '-').map Char.toLower)
  let groups := ["L", "M", "N", "P", "S", "Z", "C"] ++ Text.Category.codes.map (·.1)
  match groups.find? (fun group => (group.toList.map Char.toLower) == plain.toList) with
  | some group => some (categoryGroup group)
  | none =>
    match longNames.lookup plain with
    | some group => some (categoryGroup group)
    | none =>
      if plain == "lc" || plain == "casedletter" then
        some (.category [.upperLetter, .lowerLetter, .titleLetter])
      else if plain == "any" then some CharSet.any
      else if plain == "ascii" then some (.range '\x00' '\x7f')
      else if plain == "assigned" then some (.compl (.category [.unassigned]))
      else none

/-- Reads the name of a property: one letter, or a name between braces. -/
def readProperty (negated : Bool) (source : List Char) : Except Error (Escape × List Char) := do
  let (name, rest) ← match source with
    | [] => throw .invalidEscape
    | '\x7b' :: inner =>
      match inner.dropWhile (· != '\x7d') with
      | _ :: rest => pure (inner.takeWhile (· != '\x7d'), rest)
      | [] => throw .invalidEscape
    | c :: rest => pure ([c], rest)
  match property? name with
  | some members => return (.property negated members, rest)
  | none => throw .unknownProperty

/-- A group's name between `open` and `close`, which may be empty, and what follows it. -/
def readName (start : List Char) (stop : Char) (source : List Char) :
    Except Error (List Char × List Char) :=
  if start.isPrefixOf source then
    let inner := source.drop start.length
    let name := inner.takeWhile fun c => Text.isNameChar c || c == '-'
    match inner.drop name.length with
    | c :: rest =>
      if c == stop && !name.isEmpty then .ok (name, rest) else .error .invalidGroupName
    | [] => .error .invalidGroupName
  else .error .invalidGroupName

/-- Reads what follows a backslash. -/
def read (inClass : Bool) (source : List Char) : Except Error (Escape × List Char) := do
  match source with
  | [] => throw .trailingBackslash
  | c :: rest =>
    if c.isDigit then
      let digits := source.takeWhile Char.isDigit
      match decimal? digits with
      | some number => return (.reference number, source.drop digits.length)
      | none => throw .unknownGroup
    else match c with
      | 'd' => return (.set .digit, rest)
      | 'D' => return (.set (.compl .digit), rest)
      | 's' => return (.set .blank, rest)
      | 'S' => return (.set (.compl .blank), rest)
      | 'w' => return (.set .word, rest)
      | 'W' => return (.set (.compl .word), rest)
      | 'h' => return (.set hexDigits, rest)
      | 'H' => return (.set (.compl hexDigits), rest)
      | 'p' => readProperty false rest
      | 'P' => readProperty true rest
      | 'x' => readCodePoint 2 rest
      | 'u' => readCodePoint 4 rest
      | 'U' => readCodePoint 8 rest
      | 'a' => return (.char '\x07', rest)
      | 'e' => return (.char '\x1b', rest)
      | 'f' => return (.char '\x0c', rest)
      | 'n' => return (.char '\n', rest)
      | 'r' => return (.char '\r', rest)
      | 't' => return (.char '\t', rest)
      | 'v' => return (.char '\x0b', rest)
      | 'b' => return (if inClass then .char '\x08' else .anchor .wordBoundary, rest)
      | _ =>
        if !inClass then
          match c with
          | 'A' => return (.anchor .textStart, rest)
          | 'z' => return (.anchor .textEnd, rest)
          | 'B' => return (.anchor .notWordBoundary, rest)
          | '<' => return (.anchor .wordStart, rest)
          | '>' => return (.anchor .wordEnd, rest)
          | 'k' =>
            let (name, rest) ←
              if rest.head? == some '\'' then readName ['\''] '\'' rest
              else readName ['<'] '>' rest
            return (.namedReference name, rest)
          | _ => if c.isAlpha then throw .invalidEscape else return (.char c, rest)
        else if c.isAlpha then throw .invalidEscape
        else return (.char c, rest)
where
  /-- The hexadecimal digits. -/
  hexDigits : CharSet :=
    CharSet.unions [.range '0' '9', .range 'A' 'F', .range 'a' 'f']

end Escape

end Highlighter.Regex
