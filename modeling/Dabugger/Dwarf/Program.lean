import Dabugger.Dwarf.Header
import Dabugger.Lib.Loop

/-! # `decode_line_num_prog` and `parse_debug_line_section`

The decoder of line number programs of `dwarf.c`, with the helpers it calls, and the loop over the
units of a section. The branches of the decoder's loop body are definitions of their own.

A `while` loop of the source is `runWhile` with as many iterations as its input can take;
`Dabugger.Dwarf.Termination` shows that they suffice. -/

namespace Dabugger.Dwarf.Program

open Dabugger.Lib.Exact Dabugger.Lib.Loop Dabugger.Base Dabugger.Base.BinaryReader Dabugger.Reader
open Dabugger.Dwarf.Types Dabugger.Dwarf.Header

/-- A `while` loop that gets `n` iterations. -/
def runWhile {α : Type} (cond : α → BinaryReader → Bool) (body : α → Parse (Flow α)) (n : ℕ)
    (a : α) : Parse α := fun reader =>
  (whileLoop cond body n a reader).getD (.error .diverges)

theorem runWhile_of_some {α : Type} {cond : α → BinaryReader → Bool} {body : α → Parse (Flow α)}
    {n : ℕ} {a : α} {r : BinaryReader} {x : Except Fault (α × BinaryReader)}
    (h : whileLoop cond body n a r = some x) : runWhile cond body n a r = x := by
  rw [runWhile, h, Option.getD_some]

/-- The entry that `append_line_info_entry` makes of the registers. -/
def lineInfoEntry (stateMachine : LineNumStateMachine) : LineInfoEntry where
  address := stateMachine.address
  opIndex := stateMachine.opIndex
  file := stateMachine.file
  line := stateMachine.line
  column := stateMachine.column
  discriminator := stateMachine.discriminator
  endSequence := stateMachine.endSequence
  isStmt := stateMachine.isStmt
  basicBlock := stateMachine.basicBlock
  prologueEnd := stateMachine.prologueEnd
  epilogueBegin := stateMachine.epilogueBegin

/-- `append_line_info_entry`: the entry goes to the last sequence, which is made if there is none;
after the last entry of a sequence an empty one is opened. -/
def appendLineInfoEntry (lineInfoTable : LineInfoTable) (stateMachine : LineNumStateMachine) :
    LineInfoTable :=
  let sequence := lineInfoTable.sequences.getLastD ⟨[]⟩
  let sequence := ⟨sequence.entries ++ [lineInfoEntry stateMachine]⟩
  let sequences := lineInfoTable.sequences.dropLast ++ [sequence]
  if stateMachine.endSequence then ⟨sequences ++ [⟨[]⟩]⟩ else ⟨sequences⟩

/-- `reset_line_num_state_machine`. -/
def resetLineNumStateMachine (defaultIsStmt : Bool) : LineNumStateMachine where
  address := 0
  opIndex := 0
  file := 1
  line := 1
  column := 0
  isStmt := defaultIsStmt
  basicBlock := false
  endSequence := false
  prologueEnd := false
  epilogueBegin := false
  isa := 0
  discriminator := 0

/-- `state_machine_advance_pc`. -/
def stateMachineAdvancePc (stateMachine : LineNumStateMachine) (header : LineNumProgHeader)
    (opAdvance : UInt64) : Except Fault LineNumStateMachine :=
  let maxOps := header.maximumOperationsPerInstruction.toUInt64
  if maxOps = 0 then .error .divByZero
  else .ok { stateMachine with
    address := stateMachine.address +
      header.minimumInstructionLength.toUInt64 * ((stateMachine.opIndex + opAdvance) / maxOps)
    opIndex := (stateMachine.opIndex + opAdvance) % maxOps }

/-- What the loop of `decode_line_num_prog` carries besides the reader. -/
abbrev DecodeState := LineNumStateMachine × LineInfoTable

/-- The branch of `decode_line_num_prog` for extended opcodes. -/
def decodeExtended (header : LineNumProgHeader) (stateMachine : LineNumStateMachine)
    (table : LineInfoTable) : Parse DecodeState := do
  let (_, instructionSize) ← readUleb128
  let extendedOpcode ← readUInt8
  if extendedOpcode = Lne.endSequence then
    return (resetLineNumStateMachine (header.defaultIsStmt ≠ 0),
      appendLineInfoEntry table { stateMachine with endSequence := true })
  else if extendedOpcode = Lne.setAddress then do
    -- the count is a `size_t`: a length of zero asks for `SIZE_MAX` bytes
    let (_, address) ← readInt 8 0 (instructionSize - 1).toNat
    return ({ stateMachine with address := UInt64.ofNat address, opIndex := 0 }, table)
  else if extendedOpcode = Lne.setDiscriminator then do
    let (_, discriminator) ← readUleb128
    return ({ stateMachine with discriminator := discriminator.toUInt32 }, table)
  -- the operands of other extended opcodes are not skipped
  else return (stateMachine, table)

/-- The branch of `decode_line_num_prog` for standard opcodes. -/
def decodeStandard (header : LineNumProgHeader) (opcode : UInt8)
    (stateMachine : LineNumStateMachine) (table : LineInfoTable) : Parse DecodeState := do
  if opcode = Lns.copy then
    let table := appendLineInfoEntry table stateMachine
    return ({ stateMachine with
      discriminator := 0, basicBlock := false, prologueEnd := false, epilogueBegin := false }, table)
  else if opcode = Lns.advancePc then do
    let (_, opAdvance) ← readUleb128
    -- the source repeats the body of `state_machine_advance_pc` here
    let stateMachine ← stateMachineAdvancePc stateMachine header opAdvance
    return (stateMachine, table)
  else if opcode = Lns.advanceLine then do
    let (_, lineIncrement) ← readSleb128
    let line := (stateMachine.line.toUInt64.toInt64 + lineIncrement).toUInt64.toUInt32
    return ({ stateMachine with line }, table)
  else if opcode = Lns.setFile then do
    let (_, fileIndex) ← readUleb128
    return ({ stateMachine with file := fileIndex.toUInt32 }, table)
  else if opcode = Lns.setColumn then do
    let (_, column) ← readUleb128
    return ({ stateMachine with column := column.toUInt32 }, table)
  else if opcode = Lns.negateStmt then
    return ({ stateMachine with isStmt := !stateMachine.isStmt }, table)
  else if opcode = Lns.setBasicBlock then
    return ({ stateMachine with basicBlock := true }, table)
  else if opcode = Lns.constAddPc then do
    if header.lineRange = 0 then throw .divByZero
    let opAdvance := (255 - header.opcodeBase.toNat) / header.lineRange.toNat
    let stateMachine ← stateMachineAdvancePc stateMachine header (UInt64.ofNat opAdvance)
    return (stateMachine, table)
  else if opcode = Lns.fixedAdvancePc then do
    let fixedAdvance ← readUInt16
    return ({ stateMachine with
      address := stateMachine.address + fixedAdvance.toUInt64, opIndex := 0 }, table)
  else if opcode = Lns.setPrologueEnd then
    return ({ stateMachine with prologueEnd := true }, table)
  else if opcode = Lns.setEpilogueBegin then
    return ({ stateMachine with epilogueBegin := true }, table)
  else if opcode = Lns.setIsa then do
    let (_, isa) ← readUleb128
    return ({ stateMachine with isa := isa.toUInt16 }, table)
  -- the operands of other standard opcodes are not skipped
  else return (stateMachine, table)

section
variable (header : LineNumProgHeader) (stateMachine : LineNumStateMachine)
  (table : LineInfoTable)

theorem decodeStandard_advancePc : decodeStandard header Lns.advancePc stateMachine table =
    readUleb128 >>= fun x =>
      liftM (stateMachineAdvancePc stateMachine header x.2) >>= fun stateMachine =>
        pure (stateMachine, table) := rfl

theorem decodeStandard_constAddPc : decodeStandard header Lns.constAddPc stateMachine table =
    (do
      if header.lineRange = 0 then throw .divByZero
      let stateMachine ← stateMachineAdvancePc stateMachine header
        (UInt64.ofNat ((255 - header.opcodeBase.toNat) / header.lineRange.toNat))
      return (stateMachine, table)) := rfl

theorem decodeStandard_fixedAdvancePc :
    decodeStandard header Lns.fixedAdvancePc stateMachine table =
      readUInt16 >>= fun fixedAdvance => pure ({ stateMachine with
        address := stateMachine.address + fixedAdvance.toUInt64, opIndex := 0 }, table) := rfl

end

/-- The branch of `decode_line_num_prog` for special opcodes. -/
def decodeSpecial (header : LineNumProgHeader) (opcode : UInt8)
    (stateMachine : LineNumStateMachine) (table : LineInfoTable) : Parse DecodeState := do
  let adjustedOpcode := opcode - header.opcodeBase
  if header.lineRange = 0 then throw .divByZero
  let opAdvance := adjustedOpcode / header.lineRange
  let lineAdvance := header.lineBase.toInt + (adjustedOpcode % header.lineRange).toNat
  let stateMachine := { stateMachine with line := stateMachine.line + UInt32.ofInt lineAdvance }
  let stateMachine ← stateMachineAdvancePc stateMachine header opAdvance.toUInt64
  let table := appendLineInfoEntry table stateMachine
  return ({ stateMachine with
    basicBlock := false, prologueEnd := false, epilogueBegin := false, discriminator := 0 }, table)

/-- The `if` of the loop body, for an opcode that was read. -/
def decodeOpcode (header : LineNumProgHeader) (opcode : UInt8)
    (state : DecodeState) : Parse DecodeState :=
  if opcode = 0 then decodeExtended header state.1 state.2
  else if opcode < header.opcodeBase then decodeStandard header opcode state.1 state.2
  else decodeSpecial header opcode state.1 state.2

/-- The body of the loop of `decode_line_num_prog`. -/
def decodeStep (header : LineNumProgHeader) (state : DecodeState) :
    Parse (Flow DecodeState) := do
  let (result, opcode) ← readInt 1 0 1
  if result.status ≠ .ok then return .stop state
  let state ← decodeOpcode header (UInt8.ofNat opcode) state
  return .next state

/-- An iteration that finds an opcode. -/
theorem decodeStep_cons (header : LineNumProgHeader) (state : DecodeState)
    (opcode : UInt8) (bs : List UInt8) :
    decodeStep header state (ofBytes (opcode :: bs)) =
      (decodeOpcode header opcode state >>= fun state => pure (.next state)) (ofBytes bs) := by
  have hopcode : readInt 1 0 1 (ofBytes (opcode :: bs)) = _ :=
    reads_readInt_byte 0 opcode bs
  rw [decodeStep, bind_of_ok hopcode]
  dsimp only
  rw [if_neg (by simp), UInt8.ofNat_toNat]

/-- `line_prog_length`, which may wrap around. -/
def lineProgLength (header : LineNumProgHeader) : UInt64 :=
  header.unitLength - 2 - 1 - 1 - (if header.isDwarf64 then 8 else 4) - header.headerLength

/-- The test of the loop of `decode_line_num_prog`. -/
def decodeCond (origRemaining : ℕ) (lineProgLength : UInt64) (_ : DecodeState)
    (reader : BinaryReader) : Bool :=
  decide (origRemaining - reader.remaining < lineProgLength.toNat)

/-- The state before the loop of `decode_line_num_prog`. -/
def decodeStart (header : LineNumProgHeader) : DecodeState :=
  (resetLineNumStateMachine (header.defaultIsStmt ≠ 0), ⟨[]⟩)

/-- `decode_line_num_prog`. -/
def decodeLineNumProg (host : Host) (header : LineNumProgHeader) : Parse LineInfoTable := do
  let origRemaining := (← get).remaining
  cAssert host (decide ((lineProgLength header).toNat ≤ origRemaining))
  let (_, lineInfoTable) ← runWhile (decodeCond origRemaining (lineProgLength header))
    (decodeStep header) (origRemaining + 1) (decodeStart header)
  return lineInfoTable

theorem decodeLineNumProg_apply (host : Host) (header : LineNumProgHeader) (r : BinaryReader) :
    decodeLineNumProg host header r =
      (cAssert host (decide ((lineProgLength header).toNat ≤ r.remaining))).bind fun _ =>
        ((whileLoop (decodeCond r.remaining (lineProgLength header)) (decodeStep header)
          (r.remaining + 1) (decodeStart header) r).getD (.error .diverges)).map
            fun y => (y.1.2, y.2) := by
  rw [decodeLineNumProg, get_bind]
  cases hc : cAssert host (decide ((lineProgLength header).toNat ≤ r.remaining)) with
  | error e => exact lift_bind_error _
  | ok u =>
    rw [lift_bind_ok]
    cases hx : runWhile (decodeCond r.remaining (lineProgLength header)) (decodeStep header)
      (r.remaining + 1) (decodeStart header) r with
    | error e => rw [bind_of_error hx, show Option.getD _ _ = _ from hx]; rfl
    | ok y => rw [bind_of_ok hx, show Option.getD _ _ = _ from hx]; rfl

/-- What a run of the decoder that returns has done. -/
theorem decodeLineNumProg_ok {host : Host} {header : LineNumProgHeader} {r r' : BinaryReader}
    {table : LineInfoTable} (h : decodeLineNumProg host header r = .ok (table, r')) :
    ∃ stateMachine, whileLoop (decodeCond r.remaining (lineProgLength header))
      (decodeStep header) (r.remaining + 1) (decodeStart header) r =
        some (.ok ((stateMachine, table), r')) := by
  rw [decodeLineNumProg_apply] at h
  cases hc : cAssert host (decide ((lineProgLength header).toNat ≤ r.remaining)) with
  | error e => rw [hc] at h; cases h
  | ok u =>
    rw [hc] at h
    rcases hx : whileLoop (decodeCond r.remaining (lineProgLength header)) (decodeStep header)
      (r.remaining + 1) (decodeStart header) r with _ | (e | y)
    · rw [hx] at h
      cases h
    · rw [hx] at h
      cases h
    · rw [hx] at h
      cases h
      exact ⟨y.1.1, rfl⟩

/-- The body of the loop of `parse_debug_line_section`. -/
def parseCompUnit (host : Host) (compUnits : List LineInfoCompUnit) :
    Parse (Flow (List LineInfoCompUnit)) := do
  let header ← parseLineHeader host
  let table ← decodeLineNumProg host header
  return .next (compUnits ++ [⟨header, table⟩])

/-- The test of the loop of `parse_debug_line_section`. -/
def sectionCond (_ : List LineInfoCompUnit) (reader : BinaryReader) : Bool :=
  decide (reader.remaining > 0)

/-- `parse_debug_line_section`, with the reader it leaves behind. -/
def parseDebugLineSection (host : Host) (sections : ProgramSections) :
    Except Fault (LineInfo × BinaryReader) := do
  let (compUnits, reader) ← runWhile sectionCond (parseCompUnit host) sections.debugLine.size []
    (ofBytes sections.debugLine.data)
  return (⟨compUnits⟩, reader)

theorem parseDebugLineSection_of_some {host : Host} {sections : ProgramSections}
    {x : Except Fault (List LineInfoCompUnit × BinaryReader)}
    (h : whileLoop sectionCond (parseCompUnit host) sections.debugLine.size []
      (ofBytes sections.debugLine.data) = some x) :
    parseDebugLineSection host sections = x.map fun y => (⟨y.1⟩, y.2) := by
  rw [parseDebugLineSection, runWhile_of_some h]
  cases x <;> rfl

end Dabugger.Dwarf.Program
