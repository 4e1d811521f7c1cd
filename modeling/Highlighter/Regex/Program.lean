import Highlighter.Regex.Reader

/-!
# Programs

A program is what the matcher runs. It differs from the tree of an expression in its repetitions.
There are two disciplines for a repeated body that can match nothing:

* a part of the expression that needs no backtracking into lookarounds, references or word
  boundaries is settled as a whole: there, the first copy may match nothing, and no copy follows a
  copy that matched nothing;
* elsewhere, a copy beyond the least number must move.

A settled part is also run on its own: its first match is final, and the groups inside it start
afresh.
-/

namespace Highlighter.Regex

/-- What the matcher runs. -/
inductive Program where
  | empty
  | char (set : CharSet)
  | anchor (position : Anchor)
  | seq (first second : Program)
  | alt (first second : Program)
  | group (number : Nat) (body : Program)
  /-- `least` copies, and after them up to `extra` more. -/
  | times (body : Program) (least extra : Nat) (greedy : Bool)
  /-- Any number of copies, each of which moves. -/
  | more (body : Program) (greedy : Bool)
  /-- One copy; if it moved, any number of further copies, each of which moves. -/
  | plus (body : Program) (greedy : Bool)
  | ahead (negated : Bool) (body : Program)
  /-- The body matches from `length` characters before the position. -/
  | behind (length : Nat) (negated : Bool) (body : Program)
  /-- The first match of the body, and no other. -/
  | atomic (body : Program)
  /-- The first match of the body, with the groups from `first` up to `last` forgotten before. -/
  | settled (first last : Nat) (body : Program)
  | backref (number : Nat)
  deriving Repr, Inhabited

namespace Program

/-- Programs one after the other. -/
def seqs : List Program → Program
  | [] => .empty
  | [program] => program
  | program :: programs => .seq program (seqs programs)

/-- Programs of which one matches, the earlier ones preferred. -/
def alts : List Program → Program
  | [] => .empty
  | [program] => program
  | program :: programs => .alt program (alts programs)

end Program

namespace Tree

mutual
/-- The least number of characters that a match takes. -/
def minSize : Tree → Nat
  | .char _ => 1
  | .concat items => minSizeSum items
  | .alt choices => minSizeLeast choices
  | .group _ body | .atomic body => body.minSize
  | .repeated body least _ _ => body.minSize * least
  | .empty | .anchor _ | .look .. | .backref _ => 0

/-- The sum of the least sizes. -/
def minSizeSum : List Tree → Nat
  | [] => 0
  | item :: items => item.minSize + minSizeSum items

/-- The smallest of the least sizes. -/
def minSizeLeast : List Tree → Nat
  | [] => 0
  | [choice] => choice.minSize
  | choice :: choices => min choice.minSize (minSizeLeast choices)
end

mutual
/-- Whether every match takes the same number of characters, as far as the structure shows. -/
def hasFixedSize : Tree → Bool
  | .empty | .char _ | .anchor _ | .look .. => true
  | .concat items => haveFixedSize items
  | .alt choices => haveOneSize none choices
  | .group _ body | .atomic body => body.hasFixedSize
  | .repeated body least most _ => body.hasFixedSize && most == some least
  | .backref _ => false

/-- Whether every tree of a list has a fixed size. -/
def haveFixedSize : List Tree → Bool
  | [] => true
  | item :: items => item.hasFixedSize && haveFixedSize items

/-- Whether every tree of a list has one and the same fixed size. -/
def haveOneSize (size : Option Nat) : List Tree → Bool
  | [] => true
  | choice :: choices =>
    choice.hasFixedSize && (match size with
      | none => true
      | some size => choice.minSize == size) && haveOneSize (some choice.minSize) choices
end

mutual
/-- Whether matching needs more than a settled part can do: lookarounds, references to groups,
groups that are referenced, atomic parts and word boundaries. -/
def isHard (referenced : List Nat) : Tree → Bool
  | .empty | .char _ => false
  | .anchor position => position.isWordAnchor
  | .concat items => anyHard referenced items
  | .alt choices => anyHard referenced choices
  | .group number body => referenced.contains number || body.isHard referenced
  | .repeated body _ _ _ => body.isHard referenced
  | .look .. | .atomic _ | .backref _ => true

/-- Whether some tree of a list is hard. -/
def anyHard (referenced : List Nat) : List Tree → Bool
  | [] => false
  | item :: items => item.isHard referenced || anyHard referenced items
end

mutual
/-- The numbers of the groups in a tree, in order. -/
def groupNumbers : Tree → List Nat
  | .empty | .char _ | .anchor _ | .backref _ => []
  | .concat items => groupNumbersOf items
  | .alt choices => groupNumbersOf choices
  | .group number body => number :: body.groupNumbers
  | .repeated body _ _ _ => body.groupNumbers
  | .look _ _ body => body.groupNumbers
  | .atomic body => body.groupNumbers

/-- The numbers of the groups in a list of trees, in order. -/
def groupNumbersOf : List Tree → List Nat
  | [] => []
  | item :: items => item.groupNumbers ++ groupNumbersOf items
end

mutual
/-- The program of a tree inside a settled part. -/
def settle : Tree → Except Error Program
  | .empty => .ok .empty
  | .char set => .ok (.char set)
  | .anchor position => .ok (.anchor position)
  | .concat items => do return .seqs (← settleAll items)
  | .alt choices => do return .alts (← settleAll choices)
  | .group number body => do return .group number (← body.settle)
  | .repeated body least most greedy => do
    let body ← body.settle
    match most with
    | some most =>
      if most < least then throw .invalidRepeat
      return .times body least (most - least) greedy
    | none =>
      if least = 0 then return .times (.plus body greedy) 0 1 greedy
      else return .seq (.times body (least - 1) 0 greedy) (.plus body greedy)
  | .look .. | .atomic _ | .backref _ => .ok .empty

/-- The programs of a list of trees inside a settled part. -/
def settleAll : List Tree → Except Error (List Program)
  | [] => .ok []
  | item :: items => do return (← item.settle) :: (← settleAll items)
end

/-- A settled part as a step of its own. -/
def settlePart (items : List Tree) : Except Error (List Program) :=
  match items with
  | [] => .ok []
  | _ => do
    let body := Program.seqs (← settleAll items)
    match groupNumbersOf items with
    | [] => return [.settled 0 0 body]
    | first :: rest => return [.settled first (first + rest.length + 1) body]

/-- Runs the checks of a list of results in order. -/
def allOk : List (Except Error Program) → Except Error (List Program)
  | [] => .ok []
  | result :: results => do return (← result) :: (← allOk results)

/-- The program of a concatenation whose items have the given programs: a first part of fixed size
and a last part are settled; in a context that is `hard` the last part has a fixed size, too. -/
def planConcat (referenced : List Nat) (hard : Bool) (items : List Tree)
    (programs : List (Except Error Program)) : Except Error Program := do
  let easy (tree : Tree) := !tree.isHard referenced
  let first := items.takeWhile fun tree => tree.hasFixedSize && easy tree
  let later := items.drop first.length
  let last :=
    (later.reverse.takeWhile fun tree => easy tree && (!hard || tree.hasFixedSize)).reverse
  let middle := (programs.drop first.length).take (later.length - last.length)
  return .seqs ((← settlePart first) ++ (← allOk middle) ++ (← settlePart last))

/-- The program of a repetition of `body`, whose program is given, outside settled parts. -/
def planRepeat (least : Nat) (most : Option Nat) (greedy : Bool) (program : Program) : Program :=
  match most with
  | some most => .times program (min least most) (most - least) greedy
  | none =>
    if least = 0 then .more program greedy
    else .seq (.times program least 0 greedy) (.more program greedy)

/-- The program of a lookbehind, whose body must have a fixed size. -/
def planBehind (negated : Bool) (body : Tree) (program : Except Error Program) :
    Except Error Program :=
  if body.hasFixedSize then do return .behind body.minSize negated (← program)
  else throw .unboundedLookbehind

/-- The programs of lookbehinds for each of several bodies. -/
def planBehinds (negated : Bool) :
    List Tree → List (Except Error Program) → Except Error (List Program)
  | body :: bodies, program :: programs => do
    return (← planBehind negated body program) :: (← planBehinds negated bodies programs)
  | _, _ => .ok []

mutual
/-- The program of a tree. In a context that is `hard`, what follows may ask for another match. -/
def plan (referenced : List Nat) (hard : Bool) (tree : Tree) : Except Error Program :=
  if !hard && !tree.isHard referenced then do
    return .seqs (← settlePart [tree])
  else match tree with
    | .empty => .ok .empty
    | .char set => .ok (.char set)
    | .anchor position => .ok (.anchor position)
    | .concat items => planConcat referenced hard items (planAll referenced true items)
    | .alt choices => do return .alts (← allOk (planAll referenced hard choices))
    | .group number body => do return .group number (← body.plan referenced hard)
    | .repeated body least most greedy => do
      if least = 0 && most = some 1 then
        return .times (← body.plan referenced hard) 0 1 greedy
      else
        return planRepeat least most greedy
          (← body.plan referenced (hard || body.isHard referenced))
    | .look .ahead negated body => do return .ahead negated (← body.plan referenced false)
    | .look .behind negated (.alt choices) =>
      let programs := planAll referenced false choices
      if !haveOneSize none choices then do
        let parts ← planBehinds negated choices programs
        return if negated then .seqs parts else .alts parts
      else planBehind negated (.alt choices) do
        if anyHard referenced choices then return .alts (← allOk programs)
        else return .seqs (← settlePart [.alt choices])
    | .look .behind negated body => planBehind negated body (body.plan referenced false)
    | .atomic body => do return .atomic (← body.plan referenced false)
    | .backref number => .ok (.backref number)

/-- The programs of a list of trees. -/
def planAll (referenced : List Nat) (hard : Bool) : List Tree → List (Except Error Program)
  | [] => []
  | item :: items => item.plan referenced hard :: planAll referenced hard items
end

end Tree

end Highlighter.Regex
