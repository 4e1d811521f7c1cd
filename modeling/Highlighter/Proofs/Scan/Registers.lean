import Highlighter.Proofs.Scan.Alike
import Highlighter.Proofs.Scan.Moves

/-!
# How far a match takes a scan

Text that is written, modes that open and modes that are left do not touch the registers of a scan.
What a match does to them, and how far the scan goes on from it, depends on little: on the match
before it, on whether a hook ignores it, and on whether it ends a mode.
-/

namespace Highlighter.Scan

variable {env : Env} {nested : Nested} {found : RuleMatch} {state state' : State}
  {before after : Trace} {number advance : Nat}

/-! ## What does not touch the registers -/

@[simp] theorem registers_addToBuffer (content : String) (state : State) :
    (state.addToBuffer content).registers = state.registers := rfl

@[simp] theorem registers_takeChar (env : Env) (position : Nat) (state : State) :
    (state.takeChar env position).registers = state.registers := by
  unfold State.takeChar
  split <;> rfl

theorem registers_markWord (env : Env) (keywords : LexerKeywords) (text : Array Char)
    (marking : Marking) (span : Regex.Span) :
    (markWord env keywords text marking span).state.registers = marking.state.registers := by
  simp only [markWord]
  split
  · rfl
  · split <;> rfl

@[simp] theorem registers_markKeywords (env : Env) (text : String) (state : State) :
    (markKeywords env text state).registers = state.registers := by
  have hfold : ∀ (keywords : LexerKeywords) (chars : Array Char) (spans : List Regex.Span)
      (marking : Marking),
      (spans.foldl (markWord env keywords chars) marking).state.registers =
        marking.state.registers := by
    intro keywords chars spans
    induction spans with
    | nil => exact fun _ => rfl
    | cons span spans ih =>
      intro marking
      rw [List.foldl_cons, ih, registers_markWord]
  unfold markKeywords
  split
  · rfl
  · exact hfold _ _ _ { state := state }

@[simp] theorem registers_addSegments (env : Env) (found : RuleMatch) (state : State)
    (segments : List SegmentScope) :
    (addSegments env found state segments).registers = state.registers := by
  induction segments generalizing state with
  | nil => rfl
  | cons segment segments ih =>
    rw [addSegments, ih]
    split
    · rfl
    · split
      · rfl
      · exact registers_markKeywords env _ state

@[simp] theorem registers_popFrames (env : Env) (count : Nat) (state : State) :
    (state.popFrames env count).registers = state.registers := by
  induction count generalizing state with
  | zero => rfl
  | succ count ih =>
    rw [State.popFrames, ih, State.popFrame]
    split <;> rfl

@[simp] theorem registers_enter (env : Env) (number : Nat) (found : RuleMatch) (data : FrameData)
    (state : State) : (enter env number found data state).registers = state.registers := by
  rw [enter_eq]
  split
  · rfl
  · rfl
  · exact registers_addSegments env found
      { state with tree := openScope env (env.lexer.mode number) state.tree } _

@[simp] theorem registers_goOn (env : Env) (found : RuleMatch) (next : Option Nat)
    (state : State) : (goOn env found next state).registers = state.registers := by
  cases next with
  | none => rfl
  | some number => exact registers_enter env number found {} state

theorem flush_registers (h : Returns (flush env nested state) before state' after) :
    state'.registers = state.registers := by
  simp only [flush] at h
  split at h
  · unfold embed at h
    split at h
    · obtain ⟨rfl, -⟩ := returns_pure_iff.mp h
      rfl
    · split at h
      · split at h
        · obtain ⟨_, _, _, hpure⟩ := returns_bind_iff.mp h
          obtain ⟨rfl, -⟩ := returns_pure_iff.mp hpure
          rfl
        · obtain ⟨_, _, _, hpure⟩ := returns_bind_iff.mp h
          obtain ⟨rfl, -⟩ := returns_pure_iff.mp hpure
          rfl
      · obtain ⟨_, _, _, hpure⟩ := returns_bind_iff.mp h
        obtain ⟨rfl, -⟩ := returns_pure_iff.mp hpure
        rfl
  · obtain ⟨rfl, -⟩ := returns_pure_iff.mp h
    exact registers_markKeywords env _ { state with buffer := "" }

theorem Buffers.registers {input : Option State} {ready : State}
    (h : Buffers env nested state input ready) : ready.registers = state.registers := by
  cases h with
  | kept text => rfl
  | flushed first second hflush =>
    rw [registers_addToBuffer, flush_registers hflush, registers_addToBuffer]

theorem placeEnd_registers (h : Returns (placeEnd env nested found state) before state' after) :
    state'.registers = state.registers := by
  obtain ⟨ready, hready, rfl⟩ := placeEnd_parts h
  have hregisters := hready.registers
  unfold scopeEnd
  split
  · exact hregisters
  · exact (registers_addSegments env found ready _).trans hregisters
  · exact hregisters

/-! ## Matches -/

/-- What a match that is handled leaves in the registers, and how far the scan goes on from its
start. -/
inductive Advances (env : Env) (found : RuleMatch) (state : State) : Registers → Nat → Prop where
  | empty {number : Nat} (h : emptyMode? found state = some number) :
      Advances env found state state.registers 1
  | ignored {number : Nat} (hkind : found.kind = .begin number)
      (hhooks : beginHooks (env.lexer.mode number) ≠ []) :
      Advances env found state (ignore env found.index (state.recorded found)).1.registers
        (ignore env found.index (state.recorded found)).2
  | entered {number : Nat} (hkind : found.kind = .begin number) :
      Advances env found state (state.recorded found).registers
        (advanceOver found (env.lexer.mode number).returnBegin)
  | left {count : Nat} (hkind : found.kind = .finish)
      (hcount : ((findEnded env found state.frames).run default).1.2 = some count) :
      Advances env found state (state.recorded found).registers
        (advanceOver found (state.top env).returnEnd)
  | unended (hkind : found.kind = .finish)
      (hcount : ((findEnded env found state.frames).run default).1.2 = none) :
      Advances env found state (state.recorded found).registers (width found)
  | illegal (hkind : found.kind = .illegal) :
      Advances env found state (state.recorded found).registers
        (if width found = 0 then 1 else width found)

theorem takeAsText_registers (env : Env) (found : RuleMatch) (state : State) :
    (takeAsText env found state).1.registers = state.registers ∧
      (takeAsText env found state).2 =
        if found.kind = .illegal ∧ width found = 0 then 1 else width found := by
  simp only [takeAsText, Bool.and_eq_true, decide_eq_true_eq]
  split
  · exact ⟨registers_takeChar env _ state, rfl⟩
  · exact ⟨rfl, rfl⟩

theorem handle_advances
    (h : Returns (handle env nested found state) before (state', advance) after) :
    Advances env found state state'.registers advance := by
  have hhandles := handle_parts h
  generalize moveOf env found state = move at hhandles
  cases hhandles with
  | empty hempty =>
    rw [registers_takeChar]
    exact .empty hempty
  | @ignored number hkind hignore =>
    refine .ignored hkind fun hnone => ?_
    rw [hnone] at hignore
    cases hignore
  | @entered number data ready hkind haccept hready =>
    rw [registers_enter, hready.registers]
    exact .entered hkind
  | @unended frames hkind hended =>
    obtain ⟨hregisters, hadvance⟩ :=
      takeAsText_registers env found { state.recorded found with frames := frames }
    rw [hregisters, hadvance, hkind, if_neg (fun h => by cases h.1)]
    exact .unended hkind (congrArg Prod.snd hended)
  | left hkind hended hplaced =>
    rw [registers_goOn, registers_popFrames, placeEnd_registers hplaced]
    exact .left hkind (congrArg Prod.snd hended)
  | illegal hkind =>
    obtain ⟨hregisters, hadvance⟩ := takeAsText_registers env found (state.recorded found)
    rw [hregisters, hadvance]
    simp only [hkind, true_and]
    exact .illegal hkind

/-- Handling a match does not count as an iteration. -/
theorem handle_iterations
    (h : Returns (handle env nested found state) before (state', advance) after) :
    state'.iterations = state.iterations := by
  have hiterations : ∀ registers advance', Advances env found state registers advance' →
      registers.iterations = state.iterations := by
    intro registers advance' hadvances
    cases hadvances with
    | ignored hkind hhooks =>
      unfold ignore
      split
      · exact congrArg Registers.iterations (registers_takeChar env _ (state.recorded found))
      · rfl
    | _ => rfl
  exact hiterations _ _ (handle_advances h)

end Highlighter.Scan
