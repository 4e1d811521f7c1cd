import Highlighter.Proofs.Lexer.Joined
import Highlighter.Proofs.Pattern.Numbering
import Highlighter.Proofs.Regex.Alternatives

/-!
# One of several patterns

The sources of the alternatives stand in one group, with bars between them and nothing else changed.
So the pattern matches as the first alternative that matches as long as each of them can be read in
its place, names no group by a number that an earlier alternative has taken, and leaves the flags as
they were. Where one does not, another expression is read.
-/

namespace Highlighter.Pattern

open Regex (startFlags)
open Regex.Tree (AlternateInPlace InPlace Source)

variable {ignoreCase : Bool} {choices : List Pattern} {regexes : List Regex} {reads : List Source}

/-- What has been read in place compiles to what the alternatives compile to alone. -/
theorem regexes_of_inPlace
    (hcompile : choices.map (fun choice => Regex.compile ignoreCase choice.source) =
      regexes.map .ok)
    (hplace : AlternateInPlace (startFlags ignoreCase) (sources choices) reads) :
    reads.map Source.regex = regexes.map .ok := by
  obtain ⟨last, hplace, -⟩ := hplace
  have hbind := congrArg (List.map (· >>= Source.regex)) hplace.read_eq
  rw [List.map_map, List.map_map, sources_eq_map, List.map_map] at hbind
  exact hbind.symm.trans hcompile

/-- Alternatives that compile, and that read in their places as they do alone, have an expression
together. At each position it matches what the first of them that matches there does. -/
theorem either_matches_first (hsome : choices ≠ [])
    (hcompile : choices.map (fun choice => Regex.compile ignoreCase choice.source) =
      regexes.map .ok)
    (hplace : AlternateInPlace (startFlags ignoreCase) (sources choices) reads) :
    ∃ joined, Regex.compile ignoreCase (Pattern.either choices).source = .ok joined ∧
      ∀ text position, (joined.matchAt? text position).map (·.span) =
        regexes.findSome? fun regex => (regex.matchAt? text position).map (·.span) := by
  have hsources : sources choices ≠ [] := by
    rw [sources_eq_map]
    exact fun hnil => hsome (List.map_eq_nil_iff.mp hnil)
  exact hplace.exists_matchAt? hsources (regexes_of_inPlace hcompile hplace)

/-- Two alternatives, each with a group. The first one refers to its own. -/
def doubledOrSingle : List Pattern :=
  [.regex "(a)\\1|b", .segments [.literal "c"]]

/-- What is known after the first alternative, alone or in its place. -/
def afterDoubled : Regex.Progress :=
  { flags := startFlags false, groups := 1, referenced := [1], hasNumbered := true }

theorem alternateInPlace_doubledOrSingle :
    ∃ reads, AlternateInPlace (startFlags false) (sources doubledOrSingle) reads := by
  have hdoubled : Regex.Tree.readExpression 63 { flags := startFlags false } "(a)\\1|b".toList =
      .ok (.alt [.concat [.group 1 (.char (.single 'a')), .backref 1], .char (.single 'b')],
        afterDoubled, []) := by cbv
  have hdoubled' : Regex.Tree.readExpression 62 { flags := startFlags false } "(a)\\1|b".toList =
      .ok (.alt [.concat [.group 1 (.char (.single 'a')), .backref 1], .char (.single 'b')],
        afterDoubled, []) := by cbv
  have hsingle : Regex.Tree.readExpression 63 { flags := startFlags false } "(c)".toList =
      .ok (.group 1 (.char (.single 'c')), { flags := startFlags false, groups := 1 }, []) := by cbv
  have hsingle' : Regex.Tree.readExpression 62 afterDoubled "(c)".toList =
      .ok (.group 2 (.char (.single 'c')), { afterDoubled with groups := 2 }, []) := by cbv
  have hsources : sources doubledOrSingle = ["(a)\\1|b", "(c)"] := by decide +kernel
  have hplaced : InPlace (startFlags false) { flags := startFlags false } ["(a)\\1|b", "(c)"] _ _ :=
    .cons hdoubled hdoubled' ⟨rfl, rfl⟩ rfl (by decide)
      (.cons hsingle hsingle' ⟨rfl, rfl⟩ rfl (List.forall_mem_nil _) .nil)
  exact ⟨_, _, hsources ▸ hplaced, rfl⟩

/-- At a position where the first alternative does not match, the second one does. -/
theorem either_matches_first_doubledOrSingle :
    doubledOrSingle ≠ [] ∧
      (∃ reads, AlternateInPlace (startFlags false) (sources doubledOrSingle) reads) ∧
      ∃ joined, Regex.compile false (Pattern.either doubledOrSingle).source = .ok joined ∧
        (joined.matchAt? #['a', 'a', 'c'] 2).map (·.span) = some ⟨2, 3⟩ := by
  obtain ⟨reads, hplace⟩ := alternateInPlace_doubledOrSingle
  have hcompile : doubledOrSingle.map (fun choice => Regex.compile false choice.source) =
      [(Regex.compile false "(a)\\1|b").toOption.getD default,
        (Regex.compile false "(c)").toOption.getD default].map .ok := by cbv
  obtain ⟨joined, hjoined, hmatch⟩ := either_matches_first (List.cons_ne_nil _ _) hcompile hplace
  exact ⟨List.cons_ne_nil _ _, ⟨reads, hplace⟩, joined, hjoined,
    (hmatch #['a', 'a', 'c'] 2).trans (by decide +kernel)⟩

/-- Two letters doubled: the reference of the second alternative names the group of the first. -/
theorem either_misses_second :
    ∃ first second joined, Regex.compile false "(a)\\1" = .ok first ∧
      Regex.compile false "(b)\\1" = .ok second ∧
      Regex.compile false (Pattern.either [.regex "(a)\\1", .regex "(b)\\1"]).source =
        .ok joined ∧
      (joined.matchAt? #['b', 'b'] 0).map (·.span) = none ∧
      [first, second].findSome? (fun regex => (regex.matchAt? #['b', 'b'] 0).map (·.span)) =
        some ⟨0, 2⟩ := by
  let first : Regex := (Regex.compile false "(a)\\1").toOption.getD default
  let second : Regex := (Regex.compile false "(b)\\1").toOption.getD default
  let source : String := (Pattern.either [.regex "(a)\\1", .regex "(b)\\1"]).source
  let joined : Regex := (Regex.compile false source).toOption.getD default
  obtain ⟨hfirst, hsecond, hjoined, hnone, hsome⟩ : (Regex.compile false "(a)\\1").isOk = true ∧
      (Regex.compile false "(b)\\1").isOk = true ∧ (Regex.compile false source).isOk = true ∧
      (joined.matchAt? #['b', 'b'] 0).map (·.span) = none ∧
      [first, second].findSome? (fun regex => (regex.matchAt? #['b', 'b'] 0).map (·.span)) =
        some ⟨0, 2⟩ := by decide +kernel
  exact ⟨first, second, joined, eq_ok_of_isOk hfirst _, eq_ok_of_isOk hsecond _,
    eq_ok_of_isOk hjoined _, hnone, hsome⟩

end Highlighter.Pattern
