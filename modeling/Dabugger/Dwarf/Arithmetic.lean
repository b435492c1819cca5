import Dabugger.Dwarf.Reached

/-! # The arithmetic of the decoder

`decode_line_num_prog` divides by `line_range` and by `maximum_operations_per_instruction`, and takes
`header_length` and the fields before it from `unit_length`, without a look at these header fields.
Its arithmetic is defined (`ArithmeticDefined`) exactly if the headers that the parser comes to leave
room for what is taken, and no instruction that it comes to divides by a field that is zero. -/

namespace Dabugger.Dwarf.Arithmetic

open Dabugger.Lib.Exact Dabugger.Base Dabugger.Base.BinaryReader Dabugger.Reader
open Dabugger.Dwarf.Types Dabugger.Dwarf.Header Dabugger.Dwarf.HeaderEncoding
open Dabugger.Dwarf.Program Dabugger.Dwarf.Termination Dabugger.Dwarf.Widths
open Dabugger.Dwarf.Refinement Dabugger.Dwarf.Reached

/-! ### Divisions -/

section
variable (header : LineNumProgHeader)

/-- The fields of the header by which the decoder divides for an opcode. -/
def divisors (opcode : UInt8) : List UInt8 :=
  if opcode = 0 then []
  else if opcode < header.opcodeBase then
    if opcode = Lns.advancePc then [header.maximumOperationsPerInstruction]
    else if opcode = Lns.constAddPc then [header.lineRange, header.maximumOperationsPerInstruction]
    else []
  else [header.lineRange, header.maximumOperationsPerInstruction]

variable {header} {state : DecodeState} {opcode : UInt8} {bs : List UInt8}

theorem zero_mem_pair {a b : UInt8} : 0 ∈ [a, b] ↔ a = 0 ∨ b = 0 := by
  rw [List.mem_pair, eq_comm, @eq_comm _ 0 b]

theorem ite_none_eq_none_iff {α : Type} {c : Prop} [Decidable c] {a : α} :
    (if c then none else some a) = none ↔ c := by
  split <;> simp [*]

theorem ite_some_ne_none {α : Type} {c : Prop} [Decidable c] {a : α} {o : Option α}
    (h : o ≠ none) : (if c then some a else o) ≠ none := by
  split
  · exact Option.some_ne_none a
  · exact h

theorem skipStandard_eq_none_iff {maxOps lineRange : UInt8} :
    skipStandard maxOps lineRange opcode bs = none ↔
      (opcode = Lns.advancePc ∧ maxOps = 0) ∨
        (opcode = Lns.constAddPc ∧ (lineRange = 0 ∨ maxOps = 0)) := by
  have hne : Lns.advancePc ≠ Lns.constAddPc := by decide
  by_cases hadvance : opcode = Lns.advancePc
  · subst hadvance
    rw [skipStandard, if_neg (by decide), if_pos rfl, ite_none_eq_none_iff]
    simp [hne]
  by_cases hconst : opcode = Lns.constAddPc
  · subst hconst
    rw [skipStandard, if_neg (by decide), if_neg (by decide), if_neg (by decide),
      if_neg (by decide), if_neg (by decide), if_neg (by decide), if_neg (by decide), if_pos rfl,
      ite_none_eq_none_iff]
    simp [hne.symm]
  · refine iff_of_false ?_ fun h => h.elim (fun h => hadvance h.1) fun h => hconst h.1
    rw [skipStandard, if_neg hadvance, if_neg hconst]
    repeat refine ite_some_ne_none ?_
    exact Option.some_ne_none bs

/-- A standard or special opcode ends the run exactly if one of its divisors is zero. -/
theorem skipInstruction_eq_none_iff (h : opcode ≠ 0) :
    skipInstruction header.maximumOperationsPerInstruction header.lineRange header.opcodeBase
        (opcode :: bs) = none ↔ 0 ∈ divisors header opcode := by
  rw [skipInstruction, if_neg h, divisors, if_neg h]
  split
  · rw [skipStandard_eq_none_iff]
    by_cases hadvance : opcode = Lns.advancePc
    · have hne : Lns.advancePc ≠ Lns.constAddPc := by decide
      rw [if_pos hadvance, hadvance, List.mem_singleton]
      simp [hne, eq_comm]
    · rw [if_neg hadvance, or_iff_right fun h => hadvance h.1]
      by_cases hconst : opcode = Lns.constAddPc
      · rw [if_pos hconst, zero_mem_pair, and_iff_right hconst]
      · rw [if_neg hconst]
        exact iff_of_false (fun h => hconst h.1) List.not_mem_nil
  · rw [zero_mem_pair, ite_none_eq_none_iff]

theorem advancePc_error {stateMachine : LineNumStateMachine} {opAdvance : UInt64}
    (h : header.maximumOperationsPerInstruction = 0) :
    stateMachineAdvancePc stateMachine header opAdvance = .error .divByZero := by
  unfold stateMachineAdvancePc
  simp only [(toUInt64_eq_zero _).mpr h, ↓reduceIte]

/-- A division by the line range, then the advance. -/
theorem divide_error {α : Type} {stateMachine : LineNumStateMachine} {opAdvance : UInt64}
    {f : LineNumStateMachine → α} (h : header.lineRange = 0 ∨ header.maximumOperationsPerInstruction = 0)
    (r : BinaryReader) :
    (if header.lineRange = 0 then do
        throw .divByZero
        let stateMachine ← stateMachineAdvancePc stateMachine header opAdvance
        pure (f stateMachine)
      else do
        let stateMachine ← stateMachineAdvancePc stateMachine header opAdvance
        pure (f stateMachine) : Parse α) r = .error .divByZero := by
  by_cases hrange : header.lineRange = 0
  · rw [if_pos hrange]
    rfl
  · rw [if_neg hrange, advancePc_error (h.resolve_left hrange)]
    rfl

theorem decodeStandard_error (h : (opcode = Lns.advancePc ∧ header.maximumOperationsPerInstruction = 0) ∨
      (opcode = Lns.constAddPc ∧
        (header.lineRange = 0 ∨ header.maximumOperationsPerInstruction = 0))) :
    decodeStandard header opcode state.1 state.2 (ofBytes bs) = .error .divByZero := by
  rcases h with ⟨rfl, h⟩ | ⟨rfl, h⟩
  · rw [decodeStandard_advancePc, bind_of_ok (readUleb128_ofBytes bs)]
    dsimp only
    rw [advancePc_error h]
    rfl
  · rw [decodeStandard_constAddPc]
    exact divide_error h _

/-- **An iteration divides by zero** exactly if one of its divisors is zero. -/
theorem decodeStep_divByZero_iff :
    decodeStep header state (ofBytes (opcode :: bs)) = .error .divByZero ↔
      0 ∈ divisors header opcode := by
  constructor
  · intro he
    by_cases h0 : opcode = 0
    · -- what is done for an extended opcode are reads
      subst h0
      rw [decodeStep_cons] at he
      rcases bind_error he with h | ⟨_, _, _, ⟨⟩⟩
      exact absurd rfl ((ends_decodeExtended (E := (· ≠ .divByZero)) header state.1
        state.2).error _ _ h)
    · exact (skipInstruction_eq_none_iff h0).mp
        ((leaves_decodeStep header state opcode bs).not_error he)
  · intro hd
    have h0 : opcode ≠ 0 := by
      rintro rfl
      simp [divisors] at hd
    rw [divisors, if_neg h0] at hd
    rw [decodeStep_cons]
    refine bind_of_error ?_
    rw [decodeOpcode, if_neg h0]
    by_cases hstandard : opcode < header.opcodeBase
    · rw [if_pos hstandard] at hd ⊢
      refine decodeStandard_error ?_
      by_cases hadvance : opcode = Lns.advancePc
      · rw [if_pos hadvance, List.mem_singleton] at hd
        exact .inl ⟨hadvance, hd.symm⟩
      · rw [if_neg hadvance] at hd
        by_cases hconst : opcode = Lns.constAddPc
        · rw [if_pos hconst, zero_mem_pair] at hd
          exact .inr ⟨hconst, hd⟩
        · rw [if_neg hconst] at hd
          cases hd
    · rw [if_neg hstandard] at hd ⊢
      exact divide_error (zero_mem_pair.mp hd) _

end

/-! ### The length of a program -/

/-- The fields that `unit_length` counts before the program, and what `header_length` counts. -/
def lengthBefore (header : LineNumProgHeader) : ℕ :=
  2 + 1 + 1 + offsetSize header.isDwarf64 + header.headerLength.toNat

/-- The subtractions are exact where there is something to take from. -/
theorem lineProgLength_eq_iff (header : LineNumProgHeader) :
    ((lineProgLength header).toNat : ℤ) = header.unitLength.toNat - lengthBefore header ↔
      lengthBefore header ≤ header.unitLength.toNat := by
  constructor
  · intro h
    omega
  · intro h
    have hlength : header.unitLength.toNat = 2 + 1 + 1 + (if header.isDwarf64 then 8 else 4) +
        header.headerLength.toNat + (header.unitLength.toNat - lengthBefore header) := by
      unfold lengthBefore offsetSize at h ⊢
      omega
    rw [ProgramLength.toNat_lineProgLength hlength]
    omega

/-! ### Sections -/

variable {host : Host} {sections : ProgramSections}

/-- **Decoder arithmetic is defined**: no division or remainder of the run has the divisor zero, and
`line_prog_length` is, for every header that is parsed, what is left of `unit_length`. -/
structure ArithmeticDefined (host : Host) (sections : ProgramSections) : Prop where
  divides : parseDebugLineSection host sections ≠ .error .divByZero
  subtracts : ∀ header program, HeaderAt host sections header program →
    ((lineProgLength header).toNat : ℤ) = header.unitLength.toNat - lengthBefore header

/-- A run divides by zero exactly if it comes to an instruction that does. -/
theorem parseDebugLineSection_divByZero_iff :
    parseDebugLineSection host sections = .error .divByZero ↔
      ∃ header opcode operand, InstructionAt host sections header (opcode :: operand) ∧
        0 ∈ divisors header opcode := by
  rw [parseDebugLineSection_error_iff]
  constructor
  · rintro (⟨bs, -, h⟩ | ⟨header, program, -, h⟩ | ⟨header, program, state, bs, hh, ha, hd, h⟩)
    · exact absurd rfl ((moves_parseLineHeader (E := (· ≠ .divByZero)) host).error _ _ h)
    · exact absurd rfl (cAssert_ends (E := (· ≠ .divByZero)) host _ _ h)
    · cases bs with
      | nil => cases h
      | cons opcode operand =>
        exact ⟨header, opcode, operand, ⟨program, state, hh, ha, hd⟩,
          decodeStep_divByZero_iff.mp h⟩
  · rintro ⟨header, opcode, operand, ⟨program, state, hh, ha, hd⟩, h⟩
    exact .inr (.inr ⟨header, program, state, _, hh, ha, hd, decodeStep_divByZero_iff.mpr h⟩)

/-- **The arithmetic is defined** exactly if every header that the parser comes to has a `unit_length`
that covers what is taken from it, and no instruction that it comes to divides by a field that is
zero. -/
theorem arithmeticDefined_iff (host : Host) (sections : ProgramSections) :
    ArithmeticDefined host sections ↔
      (∀ header program, HeaderAt host sections header program →
        lengthBefore header ≤ header.unitLength.toNat) ∧
      ∀ header opcode operand, InstructionAt host sections header (opcode :: operand) →
        0 ∉ divisors header opcode := by
  constructor
  · intro h
    refine ⟨fun header program hh => (lineProgLength_eq_iff header).mp (h.subtracts header program hh),
      fun header opcode operand hi hd => ?_⟩
    exact h.divides (parseDebugLineSection_divByZero_iff.mpr ⟨header, opcode, operand, hi, hd⟩)
  · rintro ⟨hlength, hdivisors⟩
    refine ⟨fun h => ?_,
      fun header program hh => (lineProgLength_eq_iff header).mpr (hlength header program hh)⟩
    obtain ⟨header, opcode, operand, hi, hd⟩ := parseDebugLineSection_divByZero_iff.mp h
    exact hdivisors header opcode operand hi hd

/-- A unit whose `line_range` is zero, with a special opcode. -/
def zeroRangeSections : ProgramSections where
  debugLine := ⟨0, [19, 0, 0, 0, 5, 0, 8, 0, 10, 0, 0, 0, 1, 1, 1, 0xfb, 0, 1, 0, 0, 0, 0, 0x20],
    by decide⟩

/-- Decoding it divides by zero. -/
theorem not_arithmeticDefined_zeroRange :
    ¬ ∀ (host : Host) (sections : ProgramSections), ArithmeticDefined host sections := by
  intro h
  exact (h (.zeroed true) zeroRangeSections).divides rfl

end Dabugger.Dwarf.Arithmetic
