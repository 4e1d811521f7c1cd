import Highlighter.Regex.Escape

/-!
# Character classes

A class such as `[a-z&&[^aeiou]]` is read in two steps. `scan` finds where the class ends and turns
escapes into items; `read` then reads the items: ranges, nested classes, named classes and the
operators `&&`, `--` and `~~`.
-/

namespace Highlighter.Regex.Class

/-- An item of a class: a character as it stands, or what an escape stands for. -/
inductive Item where
  | plain (c : Char)
  | escaped (c : Char)
  | set (members : CharSet)
  deriving Repr, Inhabited

/-- The item an escape stands for in a class. -/
def itemOfEscape (ignoreCase : Bool) : Escape → Except Error Item
  | .char c => .ok (.escaped c)
  | .set members => .ok (.set members)
  | .property negated members => .ok (.set ((members.foldIf ignoreCase).complIf negated))
  | _ => .error .invalidClass

/-- Reads items up to the bracket that closes the outermost class; `depth` counts the classes that
are open. The result does not hold that last bracket. -/
def scanItems (ignoreCase : Bool) : Nat → Nat → List Char → Except Error (List Item × List Char)
  | 0, _, _ => .error .invalidClass
  | _ + 1, _, [] => .error .invalidClass
  | fuel + 1, depth, c :: rest => do
    if c == '\\' then
      let (escape, rest) ← Escape.read true rest
      let item ← itemOfEscape ignoreCase escape
      let (items, rest) ← scanItems ignoreCase fuel depth rest
      return (item :: items, rest)
    else if c == ']' && depth == 0 then
      return ([], rest)
    else
      let depth := if c == '[' then depth + 1 else if c == ']' then depth - 1 else depth
      let (items, rest) ← scanItems ignoreCase fuel depth rest
      return (.plain c :: items, rest)

/-- Reads the items of a class whose opening bracket has been read. A closing bracket that comes
first, also after the sign of negation, is an ordinary item. -/
def scan (ignoreCase : Bool) (source : List Char) : Except Error (List Item × List Char) := do
  let (sign, source) := match source with
    | '^' :: rest => ([Item.plain '^'], rest)
    | _ => ([], source)
  let (first, source) := match source with
    | ']' :: rest => ([Item.plain ']'], rest)
    | _ => ([], source)
  let (items, rest) ← scanItems ignoreCase (source.length + 1) 0 source
  return (sign ++ first ++ items, rest)

/-- The members of a named class such as `[:alpha:]`. -/
def named? (name : String) : Option CharSet :=
  let lower := CharSet.range 'a' 'z'
  let upper := CharSet.range 'A' 'Z'
  let decimal := CharSet.range '0' '9'
  match name with
  | "alnum" => some (.unions [decimal, upper, lower])
  | "alpha" => some (.unions [upper, lower])
  | "ascii" => some (.range '\x00' '\x7f')
  | "blank" => some (.unions [.single '\t', .single ' '])
  | "cntrl" => some (.unions [.range '\x00' '\x1f', .single '\x7f'])
  | "digit" => some decimal
  | "graph" => some (.range '!' '~')
  | "lower" => some lower
  | "print" => some (.range ' ' '~')
  | "punct" => some (.unions [.range '!' '/', .range ':' '@', .range '[' '\x60',
      .range '\x7b' '~'])
  | "space" => some (.unions [.range '\t' '\r', .single ' '])
  | "upper" => some upper
  | "word" => some (.unions [decimal, upper, lower, .single '_'])
  | "xdigit" => some (.unions [decimal, .range 'A' 'F', .range 'a' 'f'])
  | _ => none

/-- The characters of the items that stand as they are, up to the first other item. -/
def plainRun : List Item → List Char
  | .plain c :: rest => c :: plainRun rest
  | _ => []

/-- Reads a named class after its opening bracket, as in `:alpha:]`. -/
def readNamed? (ignoreCase : Bool) (items : List Item) : Option (CharSet × List Item) :=
  match plainRun items with
  | ':' :: inner =>
    let (negated, inner) := match inner with
      | '^' :: inner => (true, inner)
      | _ => (false, inner)
    let name := inner.takeWhile (· != ':')
    match inner.drop name.length with
    | ':' :: ']' :: _ =>
      (named? (String.ofList name)).map fun members =>
        ((members.foldIf ignoreCase).complIf negated,
          items.drop (name.length + (if negated then 4 else 3)))
    | _ => none
  | _ => none

/-- An operator between two unions. -/
inductive Operator where
  | inter
  | difference
  | symmetric
  deriving Repr, Inhabited

/-- The set that an operator makes of two sets, each closed under case first when `ignoreCase`. -/
def Operator.apply (ignoreCase : Bool) (operator : Operator) (left right : CharSet) : CharSet :=
  let left := left.foldIf ignoreCase
  let right := right.foldIf ignoreCase
  match operator with
  | .inter => .inter left right
  | .difference => CharSet.difference left right
  | .symmetric => CharSet.symmetricDifference left right

/-- The operator at the front of the items. -/
def operator? : List Item → Option (Operator × List Item)
  | .plain '&' :: .plain '&' :: rest => some (.inter, rest)
  | .plain '-' :: .plain '-' :: rest => some (.difference, rest)
  | .plain '~' :: .plain '~' :: rest => some (.symmetric, rest)
  | _ => none

/-- The character of an item that can bound a range. -/
def Item.char? : Item → Option Char
  | .plain c | .escaped c => some c
  | .set _ => none

/-- The set of an item that stands alone. -/
def Item.members : Item → CharSet
  | .plain c | .escaped c => .single c
  | .set members => members

/-- A single item, or a range of which `item` is the first bound. -/
def readRange (item : Item) (rest : List Item) : Except Error (CharSet × List Item) :=
  match rest with
  | .plain '-' :: next :: rest' =>
    match next with
    | .plain ']' | .plain '-' => .ok (item.members, rest)
    | _ =>
      match item.char?, next.char? with
      | some first, some last =>
        if first ≤ last then .ok (.range first last, rest') else .error .invalidClass
      | _, _ => .error .invalidClass
  | [.plain '-'] => .ok (item.members, rest)
  | _ => .ok (item.members, rest)

/-- The set collected so far: the operators that are complete, and the union after the last one. -/
structure Collected where
  left : Option (CharSet × Operator) := none
  union : CharSet := .empty

namespace Collected

/-- Adds a set to the union. -/
def add (part : Collected) (members : CharSet) : Collected :=
  { part with union := .union part.union members }

/-- The set that everything collected denotes. -/
def value (ignoreCase : Bool) (part : Collected) : CharSet :=
  match part.left with
  | none => part.union
  | some (left, operator) => operator.apply ignoreCase left part.union

/-- Ends the current union with an operator. -/
def operate (ignoreCase : Bool) (part : Collected) (operator : Operator) : Collected :=
  { left := some (part.value ignoreCase, operator) }

end Collected

/-- The hyphens, and after them a bracket that comes first, at the start of a class. -/
def readStart (items : List Item) : CharSet × List Item :=
  match items with
  | .plain '-' :: _ =>
    (.single '-', items.dropWhile fun item => match item with
      | .plain '-' => true
      | _ => false)
  | .plain ']' :: rest => (.single ']', rest)
  | _ => (.empty, items)

/-- Reads the items of a class after its start. `fuel` bounds the number of steps; the outermost
class ends with the items, a nested one at its bracket. -/
def readBody (ignoreCase : Bool) :
    Nat → (nested : Bool) → Collected → List Item → Except Error (CharSet × List Item)
  | 0, _, _, _ => .error .invalidClass
  | _ + 1, nested, part, [] =>
    if nested then .error .invalidClass else .ok (part.value ignoreCase, [])
  | fuel + 1, nested, part, item :: rest => do
    match operator? (item :: rest) with
    | some (operator, rest) =>
      readBody ignoreCase fuel nested (part.operate ignoreCase operator) rest
    | none =>
      match item with
      | .plain ']' =>
        if nested then return (part.value ignoreCase, rest) else throw .invalidClass
      | .plain '[' =>
        match readNamed? ignoreCase rest with
        | some (members, rest) => readBody ignoreCase fuel nested (part.add members) rest
        | none =>
          let (negated, rest) := match rest with
            | .plain '^' :: rest => (true, rest)
            | _ => (false, rest)
          let (start, rest) := readStart rest
          let (members, rest) ← readBody ignoreCase fuel true (({} : Collected).add start) rest
          readBody ignoreCase fuel nested
            (part.add ((members.foldIf ignoreCase).complIf negated)) rest
      | _ =>
        let (members, rest) ← readRange item rest
        readBody ignoreCase fuel nested (part.add members) rest

/-- The set that the items of a class denote. -/
def ofItems (ignoreCase : Bool) (items : List Item) : Except Error CharSet := do
  let (negated, items) := match items with
    | .plain '^' :: rest => (true, rest)
    | _ => (false, items)
  let (start, items) := readStart items
  let part := ({} : Collected).add start
  let (members, _) ← readBody ignoreCase (2 * items.length + 2) false part items
  return (members.foldIf ignoreCase).complIf negated

/-- Reads a class whose opening bracket has been read. -/
def read (ignoreCase : Bool) (source : List Char) : Except Error (CharSet × List Char) := do
  let (items, rest) ← scan ignoreCase source
  return (← ofItems ignoreCase items, rest)

end Highlighter.Regex.Class
