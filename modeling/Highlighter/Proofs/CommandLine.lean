import Highlighter.CommandLine.Options
import Mathlib.Data.List.Basic

/-!
# Operands of the command line

An argument is an operand unless it is an option or the value of the option before it. The operands
of a run name its file, and a run has at most one file: once there is one, any operand behind it is
refused. A dash names the standard input and leaves no file behind, so what stands behind a dash is
not refused.
-/

namespace Highlighter.CommandLine.Options

/-- The options that take the argument behind them as their value. -/
def valued : List String := ["--language", "-l", "--grammar", "-g", "--prefix"]

/-- An option starts with a dash and is more than a dash. -/
def isOption (argument : String) : Bool :=
  argument.startsWith "-" && argument != "-"

/-- The operands among arguments: what is neither an option nor the value of one. -/
def operands : List String → List String
  | [] => []
  | argument :: rest =>
    if argument ∈ valued then
      match rest with
      | [] => []
      | _ :: rest => operands rest
    else if isOption argument then operands rest
    else argument :: operands rest

theorem operands_valued {argument : String} (h : argument ∈ valued) (value : String)
    (rest : List String) : operands (argument :: value :: rest) = operands rest := by
  rw [operands, if_pos h]

theorem operands_option {argument : String} (hvalued : argument ∉ valued)
    (h : isOption argument = true) (rest : List String) :
    operands (argument :: rest) = operands rest := by
  rw [operands.eq_def]
  exact (if_neg hvalued).trans (if_pos h)

theorem operands_operand {argument : String} (hvalued : argument ∉ valued)
    (h : isOption argument = false) (rest : List String) :
    operands (argument :: rest) = argument :: operands rest := by
  rw [operands.eq_def]
  exact (if_neg hvalued).trans (if_neg (by simp [h]))

/-- What an argument is classified as, against what operands are. Options do not touch the file. -/
inductive Classified (argument : String) : Argument → Prop where
  | help : Classified argument .help
  | version : Classified argument .version
  | takesValue {name wanted : String} {apply : String → Options → Options}
      (hvalued : argument ∈ valued)
      (happly : ∀ value options, (apply value options).file = options.file) :
      Classified argument (.takesValue name wanted apply)
  | flag {apply : Options → Options} (hvalued : argument ∉ valued)
      (hoption : isOption argument = true)
      (happly : ∀ options, (apply options).file = options.file) : Classified argument (.flag apply)
  | unknownOption : Classified argument .unknownOption
  | input (h : argument = "-") : Classified argument .input
  | file (hvalued : argument ∉ valued) (hoption : isOption argument = false)
      (hdash : argument ≠ "-") : Classified argument .file

theorem classified (argument : String) : Classified argument (classify argument) := by
  unfold classify
  split
  · exact .help
  · exact .help
  · exact .version
  · exact .version
  · exact .takesValue (by decide) fun _ _ => rfl
  · exact .takesValue (by decide) fun _ _ => rfl
  · exact .takesValue (by decide) fun _ _ => rfl
  · exact .takesValue (by decide) fun _ _ => rfl
  · exact .takesValue (by decide) fun _ _ => rfl
  · exact .flag (by decide) (by decide +kernel) fun _ => rfl
  · exact .flag (by decide) (by decide +kernel) fun _ => rfl
  · exact .flag (by decide) (by decide +kernel) fun _ => rfl
  · exact .flag (by decide) (by decide +kernel) fun _ => rfl
  · exact .input rfl
  · split
    · exact .unknownOption
    · next hdash =>
      refine .file ?_ ?_ ‹_›
      · simp only [valued, List.mem_cons, List.not_mem_nil, or_false, not_or]
        exact ⟨‹_›, ‹_›, ‹_›, ‹_›, ‹_›⟩
      · simp [isOption, hdash]

/-- Once there is a file, no operand can follow. -/
theorem parseFrom_file {options options' : Options} {arguments : List String} {file : String}
    (h : parseFrom options arguments = .ok (.work options')) (hfile : options.file = some file) :
    operands arguments = [] ∧ options'.file = some file := by
  fun_induction parseFrom options arguments with
  | case1 options =>
    cases h
    exact ⟨rfl, hfile⟩
  | case5 options argument name wanted apply hclass value rest ih =>
    cases hclass ▸ classified argument with
    | takesValue hvalued happly =>
      rw [operands_valued hvalued]
      exact ih h ((happly value options).trans hfile)
  | case6 options argument rest apply hclass ih =>
    cases hclass ▸ classified argument with
    | flag hvalued hoption happly =>
      rw [operands_option hvalued hoption]
      exact ih h ((happly options).trans hfile)
  | case9 options argument rest hclass hnone | case11 options argument rest hclass hnone =>
    exact absurd (hfile ▸ rfl) hnone
  | case2 | case3 | case4 | case7 | case8 | case10 => cases h

/-- As long as there is no file, the operands are any number of dashes, and behind them the file, if
there is one, which is no dash. -/
theorem parseFrom_operands {options options' : Options} {arguments : List String}
    (h : parseFrom options arguments = .ok (.work options')) (hfile : options.file = none) :
    options'.file ≠ some "-" ∧
      ∃ dashes, operands arguments = List.replicate dashes "-" ++ options'.file.toList := by
  fun_induction parseFrom options arguments with
  | case1 options =>
    cases h
    rw [hfile]
    exact ⟨nofun, 0, rfl⟩
  | case5 options argument name wanted apply hclass value rest ih =>
    cases hclass ▸ classified argument with
    | takesValue hvalued happly =>
      rw [operands_valued hvalued]
      exact ih h ((happly value options).trans hfile)
  | case6 options argument rest apply hclass ih =>
    cases hclass ▸ classified argument with
    | flag hvalued hoption happly =>
      rw [operands_option hvalued hoption]
      exact ih h ((happly options).trans hfile)
  | case9 options argument rest hclass hnone ih =>
    cases hclass ▸ classified argument with
    | input heq =>
      subst heq
      obtain ⟨hdash, dashes, hoperands⟩ := ih h hfile
      rw [operands_operand (by decide) (by decide +kernel), hoperands]
      exact ⟨hdash, dashes + 1, rfl⟩
  | case11 options argument rest hclass hnone ih =>
    cases hclass ▸ classified argument with
    | file hvalued hoption hdash =>
      obtain ⟨hrest, hlast⟩ := parseFrom_file h rfl
      rw [operands_operand hvalued hoption, hrest, hlast]
      exact ⟨fun heq => hdash (Option.some.inj heq), 0, rfl⟩
  | case2 | case3 | case4 | case7 | case8 | case10 => cases h

/-- Where the arguments are accepted, the file is the last operand, and all operands before it are
dashes, which the file is not. So where the first operand is no dash, there is no other one. -/
theorem parse_operands {options : Options} {arguments : List String}
    (h : parse arguments = .ok (.work options)) :
    options.file ≠ some "-" ∧
      (∃ dashes, operands arguments = List.replicate dashes "-" ++ options.file.toList) ∧
      ((operands arguments).head? ≠ some "-" → operands arguments = options.file.toList) := by
  obtain ⟨hdash, dashes, hoperands⟩ := parseFrom_operands h rfl
  refine ⟨hdash, ⟨dashes, hoperands⟩, fun hhead => ?_⟩
  cases dashes with
  | zero => exact hoperands
  | succ dashes =>
    rw [hoperands] at hhead
    exact absurd rfl hhead

/-- A file behind a dash, among options that take a dash and an option as their values. -/
theorem parse_operands_mixed :
    parse ["-v", "-l", "-", "-", "--prefix", "--list", "main.rs", "--strict"] =
        .ok (.work { language := some "-", file := some "main.rs", classPrefix := some "--list"
                     isStrict := true, isVerbose := true }) ∧
      ∃ dashes, operands ["-v", "-l", "-", "-", "--prefix", "--list", "main.rs", "--strict"] =
        List.replicate dashes "-" ++ ["main.rs"] := by
  have h : parse ["-v", "-l", "-", "-", "--prefix", "--list", "main.rs", "--strict"] =
      .ok (.work { language := some "-", file := some "main.rs", classPrefix := some "--list"
                   isStrict := true, isVerbose := true }) := by
    decide +kernel
  exact ⟨h, (parse_operands h).2.1⟩

/-- A dash in front of a file is passed over. -/
theorem passes_over_dash : parse ["-", "a"] = .ok (.work { file := some "a" }) ∧
    operands ["-", "a"] = ["-", "a"] := by
  decide +kernel

end Highlighter.CommandLine.Options
