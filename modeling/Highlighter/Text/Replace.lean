/-!
# Replacing and splitting text

Two operations on lists of characters that the rest of the library shares: replacing every
occurrence of one word by another, and splitting at a separator. Occurrences are found from left
to right and never overlap.
-/

namespace Highlighter.Text

/-- `replaceFrom needle by skip text` drops the first `skip` characters of `text`, which belong to
an occurrence already replaced, and replaces the occurrences in what follows. -/
def replaceFrom (needle replacement : List Char) : Nat → List Char → List Char
  | _, [] => []
  | skip + 1, _ :: rest => replaceFrom needle replacement skip rest
  | 0, c :: rest =>
    if needle.isPrefixOf (c :: rest) then
      replacement ++ replaceFrom needle replacement (needle.length - 1) rest
    else
      c :: replaceFrom needle replacement 0 rest

/-- Every occurrence of `needle` in `text` becomes `replacement`. An empty needle occurs once before
every character and once at the end. -/
def replaceAll (needle replacement text : List Char) : List Char :=
  if needle.isEmpty then replacement ++ text.flatMap (fun c => c :: replacement)
  else replaceFrom needle replacement 0 text

/-- `replaceAll` on strings. -/
def replace (needle replacement text : String) : String :=
  String.ofList (replaceAll needle.toList replacement.toList text.toList)

/-- The pieces of `text` between the characters equal to `separator`. There is always at least one
piece, and one more piece than separators. -/
def splitAt (separator : Char) : List Char → List (List Char)
  | [] => [[]]
  | c :: rest =>
    if c = separator then [] :: splitAt separator rest
    else match splitAt separator rest with
      | [] => [[c]]
      | piece :: pieces => (c :: piece) :: pieces

/-- The text before and after the first `separator`, if there is one. -/
def splitOnce (separator : Char) : List Char → Option (List Char × List Char)
  | [] => none
  | c :: rest =>
    if c = separator then some ([], rest)
    else (splitOnce separator rest).map fun (before, after) => (c :: before, after)

end Highlighter.Text
