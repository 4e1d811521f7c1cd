import Highlighter.Hook
import Highlighter.Keyword.Set
import Highlighter.Pattern

/-!
# Modes

A mode describes one lexical context of a language: what starts it, what ends it, which keywords
and which other modes occur in it. Modes form a tree. A child may carry a key that marks it as
shared: children with one key are one mode, written down at every place where it occurs.
-/

namespace Highlighter

/-- The scope of the text of a begin or end match. -/
inductive ScopeSpec where
  /-- One scope for the whole match. -/
  | whole (scope : String)
  /-- Scopes by number of the segment, from 1 on, in order of the numbers. -/
  | segments (scopes : List (Nat × String))
  deriving DecidableEq, Repr, Inhabited

/-- The language embedded in a mode. -/
inductive SubLanguage where
  | named (name : String)
  /-- The best of several candidates; of all languages when there are none. -/
  | candidates (names : List String)
  deriving DecidableEq, Repr, Inhabited

/-- What a mode says about itself, apart from the modes below it. -/
structure ModeFields where
  /-- The scope of everything inside the mode. -/
  scope : Option String := none
  beginScope : Option ScopeSpec := none
  endScope : Option ScopeSpec := none
  beginPattern : Option Pattern := none
  endPattern : Option Pattern := none
  /-- A begin pattern that is the whole mode. -/
  wholePattern : Option Pattern := none
  /-- What must stand before the begin pattern without being part of the mode. -/
  beforePattern : Option Pattern := none
  /-- Words that start the mode and are its keywords. -/
  beginKeywords : Option String := none
  keywords : Option Keywords := none
  illegal : Option Pattern := none
  relevance : Option Nat := none
  /-- The text of the mode stays text of the mode around it. -/
  skip : Bool := false
  excludeBegin : Bool := false
  excludeEnd : Bool := false
  returnBegin : Bool := false
  returnEnd : Bool := false
  endsWithParent : Bool := false
  endsParent : Bool := false
  subLanguage : Option SubLanguage := none
  onBegin : Option Hook := none
  onEnd : Option Hook := none
  deriving Inhabited

/-- The fields of a mode with those of a variant laid over them. -/
def ModeFields.inherit (base variant : ModeFields) : ModeFields where
  scope := variant.scope <|> base.scope
  beginScope := variant.beginScope <|> base.beginScope
  endScope := variant.endScope <|> base.endScope
  beginPattern := variant.beginPattern <|> base.beginPattern
  endPattern := variant.endPattern <|> base.endPattern
  wholePattern := variant.wholePattern <|> base.wholePattern
  beforePattern := variant.beforePattern <|> base.beforePattern
  beginKeywords := variant.beginKeywords <|> base.beginKeywords
  keywords := variant.keywords <|> base.keywords
  illegal := variant.illegal <|> base.illegal
  relevance := variant.relevance <|> base.relevance
  skip := variant.skip || base.skip
  excludeBegin := variant.excludeBegin || base.excludeBegin
  excludeEnd := variant.excludeEnd || base.excludeEnd
  returnBegin := variant.returnBegin || base.returnBegin
  returnEnd := variant.returnEnd || base.returnEnd
  endsWithParent := variant.endsWithParent || base.endsWithParent
  endsParent := variant.endsParent || base.endsParent
  subLanguage := variant.subLanguage <|> base.subLanguage
  onBegin := variant.onBegin <|> base.onBegin
  onEnd := variant.onEnd <|> base.onEnd

mutual
/-- A mode: its fields, the modes that may start inside it, its variants, and the mode that starts
right after it. -/
inductive Mode (κ : Type) where
  | mk (fields : ModeFields) (contains : List (Child κ)) (variants : List (Mode κ))
      (next : Next κ)

/-- A mode that may start inside another one: that mode itself, or a mode with its key. -/
inductive Child (κ : Type) where
  | itself
  | mode (key : κ) (mode : Mode κ)

/-- The mode that starts right after another one, if there is one. -/
inductive Next (κ : Type) where
  | nothing
  | mode (key : κ) (mode : Mode κ)
end

/-- A mode as it is written down: only shared modes have a name. -/
abbrev RawMode := Mode (Option String)

/-- A child as it is written down. -/
abbrev RawChild := Child (Option String)

namespace Mode

variable {κ : Type}

instance : Inhabited (Mode κ) := ⟨.mk {} [] [] .nothing⟩

/-- What a mode says about itself. -/
def fields : Mode κ → ModeFields
  | .mk fields _ _ _ => fields

/-- The modes that may start inside a mode. -/
def contains : Mode κ → List (Child κ)
  | .mk _ contains _ _ => contains

/-- The variants of a mode. -/
def variants : Mode κ → List (Mode κ)
  | .mk _ _ variants _ => variants

/-- The mode that starts right after a mode. -/
def next : Mode κ → Next κ
  | .mk _ _ _ next => next

/-- A mode with other fields. -/
def withFields (fields : ModeFields) : Mode κ → Mode κ
  | .mk _ contains variants next => .mk fields contains variants next

/-- A mode with other modes inside it. -/
def withContains (contains : List (Child κ)) : Mode κ → Mode κ
  | .mk fields _ variants next => .mk fields contains variants next

/-- A mode with other variants. -/
def withVariants (variants : List (Mode κ)) : Mode κ → Mode κ
  | .mk fields contains _ next => .mk fields contains variants next

/-- A mode with another mode right after it. -/
def withNext (next : Next κ) : Mode κ → Mode κ
  | .mk fields contains variants _ => .mk fields contains variants next

/-- `base` with `variant` laid over it: what the variant sets wins. -/
def inherit (base variant : Mode κ) : Mode κ :=
  .mk (base.fields.inherit variant.fields)
    (if variant.contains.isEmpty then base.contains else variant.contains)
    []
    (match variant.next with
      | .nothing => base.next
      | next => next)

/-- Lets a mode end only where the first group of its end match is that of its begin match. -/
def endSameAsBegin (mode : Mode κ) : Mode κ :=
  mode.withFields
    { mode.fields with onBegin := some Hook.rememberBegin, onEnd := some Hook.sameAsBegin }

end Mode

/-- A mode of a raw tree, from its fields and the modes below it. -/
def RawMode.of (fields : ModeFields) (contains : List RawChild := [])
    (variants : List RawMode := []) (next : Option RawMode := none) : RawMode :=
  .mk fields contains variants (match next with
    | some mode => .mode none mode
    | none => .nothing)

/-- A child that occurs only where it is written down. -/
def RawChild.own (mode : RawMode) : RawChild := .mode none mode

/-- A child that may occur in several places under one name. -/
def RawChild.shared (name : String) (mode : RawMode) : RawChild := .mode (some name) mode

end Highlighter
