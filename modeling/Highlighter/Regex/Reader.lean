import Highlighter.Regex.Class

/-!
# Reading expressions

`Tree.read` turns the source of a regular expression into its tree. Inline flags take effect from
where they stand, up to the end of the enclosing `(?…:…)` group. Groups are numbered by their
opening parentheses.
-/

namespace Highlighter.Regex

/-- The inline flags. -/
structure Flags where
  ignoreCase : Bool := false
  multiLine : Bool := false
  dotAll : Bool := false
  swapGreed : Bool := false
  ignoreBlank : Bool := false
  deriving DecidableEq, Repr, Inhabited

/-- What a reader knows: the flags in force, how many groups have been opened, their names, the
groups that references name, and whether some reference is a plain number. -/
structure Progress where
  flags : Flags := {}
  groups : Nat := 0
  names : List (List Char × Nat) := []
  referenced : List Nat := []
  hasNumbered : Bool := false
  deriving Repr, Inhabited

namespace Tree

/-- A reader of one construct: it takes what is known and the source, and gives the construct, what
is known after it and the rest of the source. -/
abbrev Reader (α : Type) := Progress → List Char → Except Error (α × Progress × List Char)

/-- Skips a comment `(?#…)` after its opening. -/
def skipComment : List Char → Except Error (List Char)
  | [] => .error .unclosedGroup
  | ')' :: rest => .ok rest
  | '\\' :: _ :: rest => skipComment rest
  | '\\' :: [] => .error .unclosedGroup
  | _ :: rest => skipComment rest

/-- Skips comments and, where the flag asks for it, blanks and comments to the end of a line. -/
def skipIgnored (ignoreBlank : Bool) : Nat → List Char → Except Error (List Char)
  | 0, source => .ok source
  | fuel + 1, source =>
    match source with
    | '(' :: '?' :: '#' :: rest => do skipIgnored ignoreBlank fuel (← skipComment rest)
    | '#' :: rest =>
      if ignoreBlank then skipIgnored ignoreBlank fuel ((rest.dropWhile (· != '\n')).drop 1)
      else .ok source
    | c :: rest =>
      if ignoreBlank && (c == ' ' || c == '\r' || c == '\n' || c == '\t') then
        skipIgnored ignoreBlank fuel rest
      else .ok source
    | [] => .ok []

/-- Skips what the flags in force ignore. -/
def skip (progress : Progress) (source : List Char) : Except Error (List Char) :=
  skipIgnored progress.flags.ignoreBlank source.length source

/-- The bounds of a repetition. -/
structure Bounds where
  least : Nat
  most : Option Nat
  deriving Repr, Inhabited

/-- Reads the bounds between braces after the opening brace; `none` when it is no repetition, so
that the brace is an ordinary character. -/
def readBounds? (progress : Progress) (source : List Char) : Option (Bounds × List Char) := do
  let source ← (skip progress source).toOption
  let digits := source.takeWhile Char.isDigit
  let (least, source) ← match source.head? with
    | none => none
    | some ',' => some (0, source)
    | some _ => do some ((← Escape.decimal? digits), source.drop digits.length)
  let source ← (skip progress source).toOption
  let (most, source) ← match source with
    | '\x7d' :: _ => some (some least, source)
    | ',' :: rest => do
      let rest ← (skip progress rest).toOption
      let digits := rest.takeWhile Char.isDigit
      match Escape.decimal? digits with
      | some most => some (if most + 1 = UInt64.size then none else some most, rest.drop digits.length)
      | none => some (none, rest)
    | _ => none
  match (skip progress source).toOption with
  | some ('\x7d' :: rest) => some (⟨least, most⟩, rest)
  | _ => none

/-- Whether a quantifier may follow. -/
def isRepeatable : Tree → Bool
  | .empty | .anchor _ | .look .. => false
  | _ => true

/-- Reads the number or name of a group that a reference names. -/
def resolve (progress : Progress) (name : List Char) : Except Error Nat :=
  match progress.names.lookup name with
  | some number => .ok number
  | none =>
    match name with
    | '-' :: digits =>
      match Escape.decimal? digits with
      | some back =>
        if digits.all Char.isDigit && 0 < back && back ≤ progress.groups + 1 then
          .ok (progress.groups + 1 - back)
        else .error .unknownGroup
      | none => .error .unknownGroup
    | _ =>
      if name.all Char.isDigit then
        match Escape.decimal? name with
        | some number => .ok number
        | none => .error .unknownGroup
      else .error .unknownGroup

/-- A reference to a group that has been opened before it. -/
def reference (number : Nat) : Reader Tree := fun progress source =>
  if progress.groups < number then .error .unknownGroup
  else .ok (.backref number,
    { progress with referenced := number :: progress.referenced }, source)

/-- Reads an escape after its backslash. -/
def readEscape : Reader Tree := fun progress source => do
  let ignoreCase := progress.flags.ignoreCase
  let (escape, rest) ← Escape.read false source
  match escape with
  | .char c => return (.char ((CharSet.single c).foldIf ignoreCase), progress, rest)
  | .set members => return (.char members, progress, rest)
  | .property negated members =>
    return (.char ((members.foldIf ignoreCase).complIf negated), progress, rest)
  | .anchor position => return (.anchor position, progress, rest)
  | .reference number => reference number { progress with hasNumbered := true } rest
  | .namedReference name => reference (← resolve progress name) progress rest

/-- The flags after one more flag letter. -/
def Flags.set? (flags : Flags) (value : Bool) : Char → Option Flags
  | 'i' => some { flags with ignoreCase := value }
  | 'm' => some { flags with multiLine := value }
  | 's' => some { flags with dotAll := value }
  | 'U' => some { flags with swapGreed := value }
  | 'x' => some { flags with ignoreBlank := value }
  | 'u' => if value then some flags else none
  | _ => none

/-- Reads flag letters up to the parenthesis or colon that ends them. `seen` counts the letters
and hyphens read, `off` says that a hyphen has been read. -/
def readFlags (flags : Flags) (seen : Nat) (off : Bool) :
    List Char → Except Error (Flags × Bool × List Char)
  | [] => .error .unclosedGroup
  | ')' :: rest =>
    if seen = 0 || (off && seen = 1) then .error .unknownFlag else .ok (flags, false, rest)
  | ':' :: rest => if off && seen = 1 then .error .unknownFlag else .ok (flags, true, rest)
  | '-' :: rest => if off then .error .unknownFlag else readFlags flags (seen + 1) true rest
  | c :: rest =>
    match Flags.set? flags (!off) c with
    | some flags => readFlags flags (seen + 1) off rest
    | none => .error .unknownFlag

/-- Reads the parenthesis that closes a group. -/
def readClose : Reader Unit := fun progress source => do
  match ← skip progress source with
  | ')' :: rest => return ((), progress, rest)
  | [] => throw .unclosedGroup
  | _ => throw .unexpectedClose

/-- Reads the body of a group with `inner`, and its closing parenthesis. -/
def readBody (inner : Reader Tree) : Reader Tree := fun progress source => do
  let (body, progress, source) ← inner progress source
  let ((), progress, source) ← readClose progress source
  return (body, progress, source)

/-- Reads the body of a capturing group, which may have a name. -/
def readGroup (inner : Reader Tree) (name : Option (List Char)) : Reader Tree :=
  fun progress source => do
    let number := progress.groups + 1
    let names := match name with
      | some name => (name, number) :: progress.names
      | none => progress.names
    let (body, progress, source) ←
      readBody inner { progress with groups := number, names := names } source
    return (.group number body, progress, source)

/-- Reads a construct after its opening parenthesis; `inner` reads the expression inside. -/
def readParenthesis (inner : Reader Tree) : Reader Tree := fun progress source => do
  match ← skip progress source with
  | '?' :: '=' :: rest =>
    let (body, progress, rest) ← readBody inner progress rest
    return (.look .ahead false body, progress, rest)
  | '?' :: '!' :: rest =>
    let (body, progress, rest) ← readBody inner progress rest
    return (.look .ahead true body, progress, rest)
  | '?' :: '<' :: '=' :: rest =>
    let (body, progress, rest) ← readBody inner progress rest
    return (.look .behind false body, progress, rest)
  | '?' :: '<' :: '!' :: rest =>
    let (body, progress, rest) ← readBody inner progress rest
    return (.look .behind true body, progress, rest)
  | '?' :: '<' :: rest =>
    let (name, rest) ← Escape.readName [] '>' rest
    if name.contains '-' then throw .invalidGroupName
    readGroup inner (some name) progress rest
  | '?' :: 'P' :: '<' :: rest =>
    let (name, rest) ← Escape.readName [] '>' rest
    if name.contains '-' then throw .invalidGroupName
    readGroup inner (some name) progress rest
  | '?' :: 'P' :: '=' :: rest =>
    let (name, rest) ← Escape.readName [] ')' rest
    if name.contains '-' then throw .invalidGroupName
    reference (← resolve progress name) progress rest
  | '?' :: '>' :: rest =>
    let (body, progress, rest) ← readBody inner progress rest
    return (.atomic body, progress, rest)
  | '?' :: rest =>
    let (flags, hasBody, rest) ← readFlags progress.flags 0 false rest
    if hasBody then
      let (body, inside, rest) ← inner { progress with flags := flags } rest
      match rest with
      | ')' :: rest => return (body, { inside with flags := progress.flags }, rest)
      | [] => throw .unclosedGroup
      | _ => throw .unexpectedClose
    else return (.empty, { progress with flags := flags }, rest)
  | rest => readGroup inner none progress rest

/-- Reads one construct. At the end of a branch nothing is read and the construct is empty. `inner`
reads the expression inside parentheses; it is missing where nesting is too deep. -/
def readAtom (inner : Option (Reader Tree)) : Reader Tree := fun progress source => do
  let source ← skip progress source
  match source with
  | [] => return (.empty, progress, [])
  | c :: rest =>
    match c with
    | '.' =>
      let set := if progress.flags.dotAll then CharSet.any else CharSet.notLineEnd
      return (.char set, progress, rest)
    | '^' =>
      return (.anchor (if progress.flags.multiLine then .lineStart else .textStart), progress, rest)
    | '$' =>
      return (.anchor (if progress.flags.multiLine then .lineEnd else .textEnd), progress, rest)
    | '(' =>
      match inner with
      | some inner => readParenthesis inner progress rest
      | none => throw .nestedTooDeep
    | '\\' => readEscape progress rest
    | '[' =>
      let (members, rest) ← Class.read progress.flags.ignoreCase rest
      return (.char members, progress, rest)
    | '+' | '*' | '?' | '|' | ')' => return (.empty, progress, source)
    | _ => return (.char ((CharSet.single c).foldIf progress.flags.ignoreCase), progress, rest)

/-- The quantifier at the front of the source. -/
def readQuantifier? (progress : Progress) : List Char → Option (Bounds × List Char)
  | '?' :: rest => some (⟨0, some 1⟩, rest)
  | '*' :: rest => some (⟨0, none⟩, rest)
  | '+' :: rest => some (⟨1, none⟩, rest)
  | '\x7b' :: rest => readBounds? progress rest
  | _ => none

/-- Reads one construct with its quantifier. -/
def readPiece (inner : Option (Reader Tree)) : Reader Tree := fun progress source => do
  let (atom, progress, source) ← readAtom inner progress source
  let source ← skip progress source
  match readQuantifier? progress source with
  | none => return (atom, progress, source)
  | some (bounds, source) =>
    if !atom.isRepeatable then throw .nothingToRepeat
    let source ← skip progress source
    let (lazy, source) := match source with
      | '?' :: rest => (true, rest)
      | _ => (false, source)
    let greedy := lazy == progress.flags.swapGreed
    let tree := Tree.repeated atom bounds.least bounds.most greedy
    match source with
    | '+' :: rest => return (.atomic tree, progress, rest)
    | _ => return (tree, progress, source)

/-- Reads constructs until one of them takes nothing from the source. -/
def readItems (inner : Option (Reader Tree)) : Nat → Reader (List Tree)
  | 0, progress, source => .ok ([], progress, source)
  | fuel + 1, progress, source =>
    if source.isEmpty then .ok ([], progress, source)
    else do
      let (item, after, rest) ← readPiece inner progress source
      if rest.length == source.length then return ([], progress, source)
      let (items, after, rest) ← readItems inner fuel after rest
      return (match item with
        | .empty => (items, after, rest)
        | _ => (item :: items, after, rest))

/-- The constructs of a branch as one tree. -/
def ofItems : List Tree → Tree
  | [] => .empty
  | [item] => item
  | items => .concat items

/-- Reads a branch. -/
def readBranch (inner : Option (Reader Tree)) : Reader Tree := fun progress source => do
  let (items, progress, source) ← readItems inner source.length progress source
  return (ofItems items, progress, source)

/-- Reads the further branches of an alternation, each with the bar before it. -/
def readMore (inner : Option (Reader Tree)) : Nat → Reader (List Tree)
  | 0, progress, source => .ok ([], progress, source)
  | fuel + 1, progress, source => do
    match ← skip progress source with
    | '|' :: rest =>
      let (choice, progress, rest) ← readBranch inner progress rest
      let (choices, progress, rest) ← readMore inner fuel progress rest
      return (choice :: choices, progress, rest)
    | rest => return ([], progress, rest)

/-- Reads an expression. Outside an alternation, numbered references are refused next to named
groups. -/
def readChoice (inner : Option (Reader Tree)) : Reader Tree := fun progress source => do
  let (first, progress, source) ← readBranch inner progress source
  let (choices, progress, source) ← readMore inner source.length progress source
  if choices.isEmpty then
    if progress.hasNumbered && !progress.names.isEmpty then throw .mixedReferences
    return (first, progress, source)
  else return (.alt (first :: choices), progress, source)

/-- Reads an expression with at most `levels` levels of parentheses inside it. -/
def readExpression : Nat → Reader Tree
  | 0 => readChoice none
  | levels + 1 => readChoice (some (readExpression levels))

/-- How deep parentheses may nest. -/
def maxLevels : Nat := 63

/-- A tree and what its reader knows at the end. -/
structure Source where
  tree : Tree
  groups : Nat
  referenced : List Nat
  deriving Repr, Inhabited

/-- Reads the source of an expression to its end, with the given flags in force at its start. -/
def read (flags : Flags) (source : String) : Except Error Source := do
  let (tree, progress, rest) ← readExpression maxLevels { flags := flags } source.toList
  if rest.isEmpty then return ⟨tree, progress.groups, progress.referenced⟩
  else throw .unexpectedClose

end Tree

end Highlighter.Regex
