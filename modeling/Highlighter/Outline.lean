import Highlighter.Grammar
import Highlighter.Misuse
import Highlighter.Text.Blank

/-!
# Outlines

An outline is a tree of modes without shorthands: a mode with variants has become one mode per
variant, begin keywords have become a begin pattern, and a mode that needs something before it
has become a mode for what stands before and, inside it, the mode itself. A mode whose shorthands
contradict each other keeps its place in the tree and carries the complaint.
-/

namespace Highlighter

/-- Where a mode is written down. Two children with one place are one mode. -/
inductive Place where
  | root
  | child (owner : Place) (index : Nat)
  | variant (owner : Place) (index : Nat)
  | next (owner : Place)
  | shared (name : String)
  deriving DecidableEq, Repr, Inhabited

namespace Place

mutual
/-- The tree of a raw mode at `place`, with the place of every mode in it. -/
def locate (place : Place) : RawMode → Mode Place
  | .mk fields contains variants following =>
    .mk fields (locateChildren place 0 contains) (locateVariants place 0 variants)
      (locateNext place following)

/-- Locates the children of the mode at `owner`, from number `index` on. -/
def locateChildren (owner : Place) (index : Nat) : List RawChild → List (Child Place)
  | [] => []
  | .itself :: children => .itself :: locateChildren owner (index + 1) children
  | .mode none mode :: children =>
    .mode (.child owner index) (locate (.child owner index) mode) ::
      locateChildren owner (index + 1) children
  | .mode (some name) mode :: children =>
    .mode (.shared name) (locate (.shared name) mode) :: locateChildren owner (index + 1) children

/-- Locates the variants of the mode at `owner`, from number `index` on. -/
def locateVariants (owner : Place) (index : Nat) : List RawMode → List (Mode Place)
  | [] => []
  | mode :: modes =>
    locate (.variant owner index) mode :: locateVariants owner (index + 1) modes

/-- Locates the mode that follows the mode at `owner`. -/
def locateNext (owner : Place) : Next (Option String) → Next Place
  | .nothing => .nothing
  | .mode none mode => .mode (.next owner) (locate (.next owner) mode)
  | .mode (some name) mode => .mode (.shared name) (locate (.shared name) mode)
end

end Place

/-- A mode without shorthands. A mode without a place is made for a single occurrence. A mode is
tied when it has to be built anew for every mode around it. -/
inductive Outline where
  | mk (place : Option Place) (isTied : Bool) (beforeBegin : Option Hook)
      (fields : Except Misuse ModeFields) (contains : List (Option Outline))
      (next : Option Outline)

namespace Outline

instance : Inhabited Outline := ⟨.mk none false none (.ok {}) [] none⟩

/-- Whether a mode has to be built anew for every mode around it. -/
def isTied : Outline → Bool
  | .mk _ isTied _ _ _ _ => isTied

/-- The place of a mode. -/
def place : Outline → Option Place
  | .mk place _ _ _ _ _ => place

/-- The pattern that matches at once, wherever the text stands. -/
def anywhere : String := "\\B|\\b"

/-- The source of a pattern, or of the one that matches at once. -/
def sourceOrAnywhere (pattern : Option Pattern) : String :=
  (pattern.map Pattern.source).getD anywhere

/-- A mode whose children are outlined and whose own shorthands are still there. A missing child is
the mode itself. -/
structure Part where
  fields : ModeFields
  contains : List (Option Outline) := []
  next : Option Outline := none

/-- `base` with the variant `variant` laid over it. -/
def Part.inherit (base variant : Part) : Part where
  fields := base.fields.inherit variant.fields
  contains := if variant.contains.isEmpty then base.contains else variant.contains
  next := variant.next <|> base.next

/-- Whether a mode has to be built anew for every mode around it: it ends with the mode around it,
or the mode that follows it does. -/
def Part.isTied (part : Part) : Bool :=
  part.fields.endsWithParent || (part.next.map Outline.isTied).getD false

/-- Makes the pattern of the whole mode its begin pattern. -/
def expandWhole (fields : ModeFields) : Except Misuse ModeFields :=
  match fields.wholePattern with
  | none => .ok fields
  | some pattern =>
    if fields.beginPattern.isSome || fields.endPattern.isSome then .error .wholePatternWithEdges
    else .ok { fields with wholePattern := none, beginPattern := some pattern }

/-- Whether a pattern is an array of segments. -/
def hasSegments (pattern : Option Pattern) : Bool :=
  (pattern.map Pattern.isSegments).getD false

/-- Refuses flags that cannot go with arrays of segments. -/
def checkSegments (fields : ModeFields) : Except Misuse Unit :=
  if hasSegments fields.beginPattern
      && (fields.skip || fields.excludeBegin || fields.returnBegin) then
    .error (.flagsWithSegments .begin)
  else if hasSegments fields.endPattern
      && (fields.skip || fields.excludeEnd || fields.returnEnd) then
    .error (.flagsWithSegments .finish)
  else .ok ()

/-- Makes begin keywords a begin pattern, unless `atTop`. -/
def expandKeywords (atTop : Bool) (fields : ModeFields) : ModeFields × Option Hook :=
  match atTop, fields.beginKeywords with
  | false, some text =>
    let words := Text.words text
    ({ fields with
        beginKeywords := none
        beginPattern := some (.regex ("\\b(" ++ "|".intercalate words ++ ")(?!\\.)(?=\\b|\\s)"))
        keywords := fields.keywords <|> some (Keywords.list words)
        relevance := fields.relevance <|> some 0 },
      some Hook.notAfterStop)
  | _, _ => (fields, none)

/-- The mode for what stands before a mode: it has the keywords of that mode, matches what stands
before it, and goes on with a bare mode that holds the mode itself. -/
def beforeFields (before : Pattern) (fields : ModeFields) : ModeFields :=
  { keywords := fields.keywords
    beginPattern := some (.regex
      (Pattern.concat
        [before.source, Pattern.lookahead (sourceOrAnywhere fields.beginPattern)]))
    relevance := some 0 }

/-- Numbers the elements of a list from `index` on. -/
def enumerateFrom {α : Type} (index : Nat) : List α → List (Nat × α)
  | [] => []
  | a :: rest => (index, a) :: enumerateFrom (index + 1) rest

/-- The outlines of a mode with the given variants: of the mode itself when there are none. -/
def formsWith (single : Option Place → Part → List Part → Outline) (place : Option Place)
    (part : Part) (variants : List Part) : List Outline :=
  if variants.isEmpty then [single place part []]
  else (enumerateFrom 0 variants).map fun (index, variant) =>
    single (place.map (.variant · index)) (part.inherit variant) []

/-- The outline of a mode. Where something must stand before it, the mode itself moves inside,
with its variants; `depth` bounds how often that happens, once for the mode and once for a variant
at most. -/
def single (atTop : Bool) :
    (depth : Nat) → Option Place → Part → (variants : List Part) → Outline
  | depth, place, part, variants =>
    let refuse (misuse : Misuse) : Outline := .mk place part.isTied none (.error misuse) [] none
    match expandWhole part.fields with
    | .error misuse => refuse misuse
    | .ok fields =>
      match checkSegments fields with
      | .error misuse => refuse misuse
      | .ok () =>
        match depth, fields.beforePattern with
        | depth + 1, some before =>
          if part.next.isSome then refuse .beforePatternWithNext
          else
            let inner : Part :=
              { fields := { fields with beforePattern := none, endsParent := true }
                contains := part.contains }
            let forms := formsWith (single false depth) none inner variants
            let bare : Outline :=
              .mk none false none (.ok { relevance := some 0 }) (forms.map some) none
            .mk place part.isTied none (.ok (beforeFields before fields)) [] (some bare)
        | _, _ =>
          let (fields, hook) := expandKeywords atTop fields
          .mk place part.isTied hook (.ok fields) part.contains part.next

/-- The outlines of a mode, one per variant. -/
def forms (place : Place) (part : Part) (variants : List Part) : List Outline :=
  formsWith (single false 2) (some place) part variants

mutual
/-- A mode and its variants with their children outlined. -/
def parts : Mode Place → Part × List Part
  | .mk fields contains variants next =>
    (⟨fields, ofChildren contains, ofNext next⟩, variantParts variants)

/-- Variants with their children outlined. -/
def variantParts : List (Mode Place) → List Part
  | [] => []
  | mode :: modes => (parts mode).1 :: variantParts modes

/-- The outlines of the children of a mode. -/
def ofChildren : List (Child Place) → List (Option Outline)
  | [] => []
  | .itself :: children => none :: ofChildren children
  | .mode place mode :: children =>
    let (part, variants) := parts mode
    (forms place part variants).map some ++ ofChildren children

/-- The outline of the mode that follows a mode; its variants do not count. -/
def ofNext : Next Place → Option Outline
  | .nothing => none
  | .mode place mode =>
    let (part, variants) := parts mode
    some (single false 2 (some place) part variants)
end

/-- The outline of a grammar's top mode; its variants do not count. -/
def ofRoot (root : RawMode) : Outline :=
  let (part, variants) := parts (Place.locate .root root)
  single true 2 (some .root) part variants

end Outline

end Highlighter
