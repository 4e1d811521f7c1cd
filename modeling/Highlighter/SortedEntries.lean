/-!
# Entries in order of their keys

A dictionary as a list of entries in increasing order of their keys, each key once.
-/

namespace Highlighter.SortedEntries

variable {κ β : Type} [LT κ] [DecidableLT κ]

/-- Sets the value of a key: a new key goes to its place, an old key gets the new value. -/
def insert (key : κ) (value : β) : List (κ × β) → List (κ × β)
  | [] => [(key, value)]
  | (other, old) :: rest =>
    if key < other then (key, value) :: (other, old) :: rest
    else if other < key then (other, old) :: insert key value rest
    else (key, value) :: rest

/-- The dictionary of a list of entries, of which later ones win. -/
def ofList (entries : List (κ × β)) : List (κ × β) :=
  entries.foldl (fun dictionary (key, value) => insert key value dictionary) []

end Highlighter.SortedEntries
