import Highlighter.Text.Number

/-!
# Group numbers in sources

The source of a regular expression, cut into the pieces that matter for numbering groups: character
classes, opening parentheses, numbered references and other escapes. Pieces are found without
reading the expression, so sources can be joined before they are read.
-/

namespace Highlighter.Pattern

/-- A piece of a source. -/
inductive Piece where
  /-- A character with no part in numbering. -/
  | plain (c : Char)
  /-- A character class, given without its brackets. -/
  | charClass (body : List Char)
  /-- The parenthesis of a capturing group, with what shows that the group has a name. -/
  | capture (naming : List Char)
  /-- The start of any other parenthesised construct. -/
  | construct
  /-- A numbered reference, given by its digits. -/
  | reference (digits : List Char)
  | escape (c : Char)
  deriving DecidableEq, Repr, Inhabited

namespace Piece

/-- The source of a piece. -/
def text : Piece → List Char
  | .plain c => [c]
  | .charClass body => '[' :: body ++ [']']
  | .capture naming => '(' :: naming
  | .construct => ['(', '?']
  | .reference digits => '\\' :: digits
  | .escape c => ['\\', c]

/-- Whether a piece opens a capturing group. -/
def isCapture : Piece → Bool
  | .capture _ => true
  | _ => false

/-- The body of a character class and what follows it, if the class is closed. Escapes are kept
together, and a backslash cannot escape a line break. -/
def classBody? : List Char → Option (List Char × List Char)
  | [] => none
  | ']' :: rest => some ([], rest)
  | '\\' :: c :: rest =>
    if c == '\n' then none
    else (classBody? rest).map fun (body, rest) => ('\\' :: c :: body, rest)
  | '\\' :: [] => none
  | c :: rest => (classBody? rest).map fun (body, rest) => (c :: body, rest)

/-- Whether a character may start a group's name. -/
def startsName (c : Char) : Bool :=
  c.isAlpha || c == '_'

/-- The first piece of a source, and what follows it. -/
def first (c : Char) (rest : List Char) : Piece × List Char :=
  match c, rest with
  | '[', rest =>
    match classBody? rest with
    | some (body, rest) => (.charClass body, rest)
    | none => (.plain '[', rest)
  | '(', '?' :: 'P' :: '<' :: c :: rest =>
    if startsName c then (.capture ['?', 'P', '<', c], rest)
    else (.construct, 'P' :: '<' :: c :: rest)
  | '(', '?' :: '<' :: c :: rest =>
    if startsName c then (.capture ['?', '<', c], rest) else (.construct, '<' :: c :: rest)
  | '(', '?' :: rest => (.construct, rest)
  | '(', rest => (.capture [], rest)
  | '\\', c :: rest =>
    if c.isDigit && c != '0' then
      (.reference (c :: rest.takeWhile Char.isDigit), rest.dropWhile Char.isDigit)
    else if c == '\n' then (.plain '\\', c :: rest)
    else (.escape c, rest)
  | c, rest => (.plain c, rest)

theorem classBody?_length {source body rest : List Char}
    (h : classBody? source = some (body, rest)) : rest.length < source.length := by
  fun_induction classBody? source generalizing body rest with
  | case1 => simp at h
  | case2 =>
    simp only [Option.some.injEq, Prod.mk.injEq] at h
    simp [← h.2]
  | case3 => simp at h
  | case4 c tail _ ih =>
    simp only [Option.map_eq_some_iff, Prod.mk.injEq, Prod.exists] at h
    obtain ⟨inner, after, hinner, _, rfl⟩ := h
    have := ih hinner
    simp only [List.length_cons]
    omega
  | case5 => simp at h
  | case6 c tail _ _ _ ih =>
    simp only [Option.map_eq_some_iff, Prod.mk.injEq, Prod.exists] at h
    obtain ⟨inner, after, hinner, _, rfl⟩ := h
    have := ih hinner
    simp only [List.length_cons]
    omega

/-- A piece takes at least one character. -/
theorem first_length (c : Char) (rest : List Char) :
    (first c rest).2.length < rest.length + 1 := by
  unfold first
  split
  · split
    · rename_i h
      have := classBody?_length h
      simp only
      omega
    · simp
  · split <;> simp only [List.length_cons] <;> omega
  · split <;> simp only [List.length_cons] <;> omega
  · simp only [List.length_cons]
    omega
  · simp
  · rename_i tail
    have := (List.dropWhile_suffix (l := tail) Char.isDigit).length_le
    split
    · simp only [List.length_cons]
      omega
    · split <;> simp only [List.length_cons] <;> omega
  · simp

/-- The pieces of a source. -/
def ofSource : List Char → List Piece
  | [] => []
  | c :: rest => (first c rest).1 :: ofSource (first c rest).2
termination_by source => source.length
decreasing_by
  have := first_length c rest
  simp only [List.length_cons]
  omega

end Piece

/-- The number of capturing groups in a source. -/
def countGroups (source : String) : Nat :=
  (Piece.ofSource source.toList).countP Piece.isCapture

/-- A piece with its reference moved up by `offset`. -/
def Piece.shift (offset : Nat) : Piece → Piece
  | .reference digits =>
    match Text.unsigned? 64 digits with
    | some number => .reference (Nat.toDigits 10 (number + offset))
    | none => .reference digits
  | piece => piece

/-- A source with every numbered reference moved up by `offset`. -/
def shiftReferences (offset : Nat) (source : String) : List Char :=
  (Piece.ofSource source.toList).flatMap fun piece => (piece.shift offset).text

/-- Sources in groups of their own, when `groups` groups precede them. The references inside each
source move up by the number of its own group, so they still name the groups of that source. -/
def wrapFrom (groups : Nat) : List String → List (List Char)
  | [] => []
  | source :: sources =>
    ('(' :: shiftReferences (groups + 1) source ++ [')']) ::
      wrapFrom (groups + 1 + countGroups source) sources

/-- Sources joined into one, each in a group of its own, with `separator` between them. -/
def joinGroups (separator : String) (sources : List String) : String :=
  String.ofList (List.intercalate separator.toList (wrapFrom 0 sources))

end Highlighter.Pattern
