import Dabugger.Dwarf.HeaderRoundTrip
import Dabugger.Dwarf.Program
import Dabugger.LineProgram.Encoding

/-! # The decoder refines the line number state machine

`Matches` relates the registers of the machine to those of the decoder, `Shows` a row of the matrix
to an entry of the table. An iteration of the decoder's loop on the encoding of an instruction takes
exactly the encoding and simulates the instruction (`reads_decodeStep`). -/

namespace Dabugger.Dwarf.Refinement

open Dabugger.Lib.Bytes Dabugger.Lib.Exact Dabugger.Lib.Loop Dabugger.Base
open Dabugger.Base.BinaryReader Dabugger.Reader Dabugger.Dwarf.Types Dabugger.Dwarf.Header
open Dabugger.Dwarf.HeaderRoundTrip Dabugger.Dwarf.Program
open Dabugger.LineProgram.Machine Dabugger.LineProgram.Encoding

/-- The parameters of the machine for a header. -/
def params (header : LineNumProgHeader) : Params where
  minimumInstructionLength := header.minimumInstructionLength.toNat
  maximumOperationsPerInstruction := header.maximumOperationsPerInstruction.toNat
  defaultIsStmt := header.defaultIsStmt ≠ 0
  lineBase := header.lineBase.toInt
  lineRange := header.lineRange.toNat
  opcodeBase := header.opcodeBase.toNat

/-- The decoder's registers hold those of the machine: addresses and lines modulo the size of their
variable, the others exactly. -/
structure Matches (r : Registers) (stateMachine : LineNumStateMachine) : Prop where
  address : stateMachine.address = UInt64.ofNat r.address
  opIndex : stateMachine.opIndex.toNat = r.opIndex
  file : stateMachine.file.toNat = r.file
  line : stateMachine.line = UInt32.ofInt r.line
  column : stateMachine.column.toNat = r.column
  discriminator : stateMachine.discriminator.toNat = r.discriminator
  isa : stateMachine.isa = UInt16.ofNat r.isa
  isStmt : stateMachine.isStmt = r.isStmt
  basicBlock : stateMachine.basicBlock = r.basicBlock
  endSequence : stateMachine.endSequence = r.endSequence
  prologueEnd : stateMachine.prologueEnd = r.prologueEnd
  epilogueBegin : stateMachine.epilogueBegin = r.epilogueBegin

/-- **The entry shows the row**, its address modulo `2^64` and its line modulo `2^32`. -/
structure Shows (row : Registers) (entry : LineInfoEntry) : Prop where
  address : entry.address.toNat = row.address % 2 ^ 64
  opIndex : entry.opIndex.toNat = row.opIndex
  file : entry.file.toNat = row.file
  line : (entry.line.toNat : ℤ) = row.line % 2 ^ 32
  column : entry.column.toNat = row.column
  discriminator : entry.discriminator.toNat = row.discriminator
  endSequence : entry.endSequence = row.endSequence
  isStmt : entry.isStmt = row.isStmt
  basicBlock : entry.basicBlock = row.basicBlock
  prologueEnd : entry.prologueEnd = row.prologueEnd
  epilogueBegin : entry.epilogueBegin = row.epilogueBegin

/-- `table'` is `table` with entries for the rows. -/
def Appends (rows : List Registers) (table table' : LineInfoTable) : Prop :=
  ∃ entries, table'.rows = table.rows ++ entries ∧ List.Forall₂ Shows rows entries

theorem Appends.none (table : LineInfoTable) : Appends [] table table :=
  ⟨[], by simp, .nil⟩

/-! ### Machine arithmetic -/

theorem toNat_ofInt32 (z : ℤ) : ((UInt32.ofInt z).toNat : ℤ) = z % 2 ^ 32 := by
  rw [UInt32.ofInt, UInt32.toNat_ofNat']
  omega

theorem toUInt32_ofNat {n : ℕ} (h : n < 2 ^ 32) : (UInt64.ofNat n).toUInt32.toNat = n := by
  rw [UInt64.toNat_toUInt32, UInt64.toNat_ofNat']
  omega

theorem toUInt16_ofNat (n : ℕ) : (UInt64.ofNat n).toUInt16 = UInt16.ofNat n := by
  apply UInt16.toNat_inj.mp
  rw [UInt64.toNat_toUInt16, UInt64.toNat_ofNat', UInt16.toNat_ofNat']
  omega

/-- The line advances modulo `2^32`, whatever the 64-bit operand is. -/
theorem advance_line (line v : ℤ) :
    ((UInt32.ofInt line).toUInt64.toInt64 + Int64.ofInt v).toUInt64.toUInt32 =
      UInt32.ofInt (line + v) := by
  have hv : (Int64.ofInt v).toUInt64.toUInt32 = UInt32.ofInt v := by
    have h64 : ((Int64.ofInt v).toUInt64.toNat : ℤ) = v % 2 ^ 64 := by
      show (((Int64.ofInt v).toBitVec.toNat : ℕ) : ℤ) = _
      rw [Int64.toBitVec_ofInt, BitVec.toNat_ofInt]
      omega
    have h32 := toNat_ofInt32 v
    apply UInt32.toNat_inj.mp
    rw [UInt64.toNat_toUInt32]
    omega
  rw [Int64.toUInt64_add, UInt64.toUInt64_toInt64, UInt64.toUInt32_add,
    UInt32.toUInt32_toUInt64, UInt32.ofInt_add, hv]

/-! ### The helpers of the decoder -/

theorem Matches.shows {r : Registers} {stateMachine : LineNumStateMachine}
    (h : Matches r stateMachine) : Shows r (lineInfoEntry stateMachine) where
  address := by
    show stateMachine.address.toNat = _
    rw [h.address, UInt64.toNat_ofNat']
  opIndex := h.opIndex
  file := h.file
  line := by
    show (stateMachine.line.toNat : ℤ) = _
    rw [h.line, toNat_ofInt32]
  column := h.column
  discriminator := h.discriminator
  endSequence := h.endSequence
  isStmt := h.isStmt
  basicBlock := h.basicBlock
  prologueEnd := h.prologueEnd
  epilogueBegin := h.epilogueBegin

theorem Matches.cleared {r : Registers} {stateMachine : LineNumStateMachine}
    (h : Matches r stateMachine) : Matches r.cleared { stateMachine with
      discriminator := 0, basicBlock := false, prologueEnd := false, epilogueBegin := false } :=
  { h with discriminator := rfl, basicBlock := rfl, prologueEnd := rfl, epilogueBegin := rfl }

theorem matches_reset (header : LineNumProgHeader) :
    Matches (initial (params header)) (resetLineNumStateMachine (header.defaultIsStmt ≠ 0)) := by
  constructor <;> rfl

/-- An entry goes to the end of the table. -/
theorem rows_appendLineInfoEntry (table : LineInfoTable) (stateMachine : LineNumStateMachine) :
    (appendLineInfoEntry table stateMachine).rows = table.rows ++ [lineInfoEntry stateMachine] := by
  obtain ⟨sequences⟩ := table
  have hrows : (LineInfoTable.mk (sequences.dropLast ++
      [⟨(sequences.getLastD ⟨[]⟩).entries ++ [lineInfoEntry stateMachine]⟩])).rows =
      (LineInfoTable.mk sequences).rows ++ [lineInfoEntry stateMachine] := by
    rcases List.eq_nil_or_concat sequences with rfl | ⟨init, last, rfl⟩
    · rfl
    · simp [LineInfoTable.rows]
  rw [← hrows, appendLineInfoEntry]
  dsimp only
  split
  · simp [LineInfoTable.rows]
  · rfl

theorem Matches.appends {r : Registers} {stateMachine : LineNumStateMachine}
    (h : Matches r stateMachine) (table : LineInfoTable) :
    Appends [r] table (appendLineInfoEntry table stateMachine) :=
  ⟨_, rows_appendLineInfoEntry table stateMachine, .cons h.shows .nil⟩

/-- The program counter advances, and as the machine's does if the sum does not wrap around. -/
theorem advancePc_matches {header : LineNumProgHeader} (r : Registers)
    (stateMachine : LineNumStateMachine) (n : ℕ)
    (hmax : 1 ≤ header.maximumOperationsPerInstruction.toNat) :
    ∃ stateMachine',
      stateMachineAdvancePc stateMachine header (UInt64.ofNat n) = .ok stateMachine' ∧
      (Matches r stateMachine → r.opIndex + n < 2 ^ 64 →
        Matches (r.advance (params header) n) stateMachine') := by
  have hmax0 : header.maximumOperationsPerInstruction.toUInt64 ≠ 0 := by
    intro h0
    have := congrArg UInt64.toNat h0
    rw [UInt8.toNat_toUInt64, UInt64.toNat_zero] at this
    omega
  refine ⟨_, if_neg hmax0, fun h hn => ?_⟩
  have hsum : (stateMachine.opIndex + UInt64.ofNat n).toNat = r.opIndex + n := by
    rw [UInt64.toNat_add, UInt64.toNat_ofNat', h.opIndex]
    omega
  have hdiv : (stateMachine.opIndex + UInt64.ofNat n) /
      header.maximumOperationsPerInstruction.toUInt64 =
        UInt64.ofNat ((r.opIndex + n) / header.maximumOperationsPerInstruction.toNat) := by
    apply UInt64.toNat_inj.mp
    rw [UInt64.toNat_div, hsum, UInt8.toNat_toUInt64, UInt64.toNat_ofNat',
      Nat.mod_eq_of_lt (lt_of_le_of_lt (Nat.div_le_self _ _) hn)]
  have hmin : header.minimumInstructionLength.toUInt64 =
      UInt64.ofNat header.minimumInstructionLength.toNat := by
    apply UInt64.toNat_inj.mp
    rw [UInt8.toNat_toUInt64, UInt64.toNat_ofNat']
    have := header.minimumInstructionLength.toNat_lt
    omega
  refine { h with address := ?_, opIndex := ?_ }
  · show stateMachine.address + _ * _ = UInt64.ofNat (_ + _ * _)
    rw [h.address, hdiv, hmin, UInt64.ofNat_add, UInt64.ofNat_mul]
    rfl
  · show ((stateMachine.opIndex + UInt64.ofNat n) % _).toNat = _
    rw [UInt64.toNat_mod, hsum, UInt8.toNat_toUInt64]
    rfl

/-! ### One instruction -/

/-- The header has the fields without which the machine gets stuck. -/
structure Steppable (header : LineNumProgHeader) : Prop where
  opcodeBase_pos : 1 ≤ header.opcodeBase.toNat
  lineRange_pos : 1 ≤ header.lineRange.toNat
  maximumOperations_pos : 1 ≤ header.maximumOperationsPerInstruction.toNat

/-- Before `bs`, the parser of a part of the loop body takes `bs`; and if the decoder's registers
hold those of the machine and the operand fits, it simulates the instruction. -/
def Simulates (header : LineNumProgHeader) (r : Registers) (stateMachine : LineNumStateMachine)
    (table : LineInfoTable) (i : Instruction) (p : Parse DecodeState) (bs : List UInt8) : Prop :=
  ∃ stateMachine' table', Reads ofBytes p bs (stateMachine', table') ∧
    (Matches r stateMachine → i.Fits r →
      r.opIndex < header.maximumOperationsPerInstruction.toNat →
        Matches (step (params header) r i).1 stateMachine' ∧
          Appends (step (params header) r i).2 table table')

variable (host : Host) {header : LineNumProgHeader} (r : Registers)
  (stateMachine : LineNumStateMachine) (table : LineInfoTable) {i : Instruction} {bs : List UInt8}

theorem Steppable.lineRange_ne (h : Steppable header) : header.lineRange ≠ 0 := by
  intro h0
  have := h.lineRange_pos
  rw [h0] at this
  simp at this

/-- The advance of a special opcode does not wrap around. -/
theorem special_lt {r : Registers}
    (hop : r.opIndex < header.maximumOperationsPerInstruction.toNat) {opcode : ℕ}
    (h : opcode < 256) : r.opIndex + operationAdvance (params header) opcode < 2 ^ 64 := by
  have hle : operationAdvance (params header) opcode ≤ opcode :=
    (Nat.div_le_self _ _).trans (Nat.sub_le _ _)
  have := header.maximumOperationsPerInstruction.toNat_lt
  omega

/-- The standard opcodes. -/
theorem simulates_standard {opcode : UInt8} {operand : List UInt8} (hw : Steppable header)
    (he : Encodes header.opcodeBase.toNat i (opcode :: operand)) (h0 : opcode ≠ 0)
    (hb : opcode.toNat < header.opcodeBase.toNat) :
    Simulates header r stateMachine table i
      (decodeStandard header opcode stateMachine table) operand := by
  have hmax := hw.maximumOperations_pos
  cases i with
  | special =>
    obtain ⟨h1, ⟨⟩⟩ := he
    omega
  | copy =>
    obtain ⟨-, ⟨⟩⟩ := he
    exact ⟨_, _, .pure _, fun hm _ _ => ⟨hm.cleared, hm.appends table⟩⟩
  | advancePc n =>
    obtain ⟨u, hu, -, ⟨⟩⟩ := he
    obtain ⟨sm', ha, hm'⟩ := advancePc_matches r stateMachine n hmax
    exact ⟨_, _, (reads_readUleb128 hu).bind_pure ((Reads.lift ha).bind_pure (.pure _)),
      fun hm hf _ => ⟨hm' hm hf, .none _⟩⟩
  | advanceLine n =>
    obtain ⟨u, hu, -, ⟨⟩⟩ := he
    refine ⟨_, _, (reads_readSleb128 hu).bind_pure (.pure _),
      fun hm _ _ => ⟨{ hm with line := ?_ }, .none _⟩⟩
    show ((stateMachine.line).toUInt64.toInt64 + _).toUInt64.toUInt32 = _
    rw [hm.line, advance_line]
    rfl
  | setFile n =>
    obtain ⟨u, hu, -, ⟨⟩⟩ := he
    exact ⟨_, _, (reads_readUleb128 hu).bind_pure (.pure _),
      fun hm hf _ => ⟨{ hm with file := toUInt32_ofNat hf }, .none _⟩⟩
  | setColumn n =>
    obtain ⟨u, hu, -, ⟨⟩⟩ := he
    exact ⟨_, _, (reads_readUleb128 hu).bind_pure (.pure _),
      fun hm hf _ => ⟨{ hm with column := toUInt32_ofNat hf }, .none _⟩⟩
  | negateStmt =>
    obtain ⟨-, ⟨⟩⟩ := he
    exact ⟨_, _, .pure _, fun hm _ _ => ⟨{ hm with isStmt := congrArg not hm.isStmt }, .none _⟩⟩
  | setBasicBlock =>
    obtain ⟨-, ⟨⟩⟩ := he
    exact ⟨_, _, .pure _, fun hm _ _ => ⟨{ hm with basicBlock := rfl }, .none _⟩⟩
  | constAddPc =>
    obtain ⟨-, ⟨⟩⟩ := he
    obtain ⟨sm', ha, hm'⟩ := advancePc_matches r stateMachine
      (operationAdvance (params header) 255) hmax
    refine ⟨sm', table, ?_, fun hm _ hop => ⟨hm' hm ?_, .none _⟩⟩
    · show Reads ofBytes (if header.lineRange = 0 then _ else _) [] _
      rw [if_neg hw.lineRange_ne]
      exact (Reads.lift ha).bind_pure (.pure _)
    · exact special_lt hop (show 255 < 256 by decide)
  | fixedAdvancePc n =>
    obtain ⟨hn, -, ⟨⟩⟩ := he
    have hr := reads_uint16 (UInt16.ofNat n)
    rw [UInt16.toNat_ofNat_of_lt' hn] at hr
    refine ⟨_, _, hr.bind_pure (.pure _),
      fun hm _ _ => ⟨{ hm with address := ?_, opIndex := rfl }, .none _⟩⟩
    show stateMachine.address + (UInt16.ofNat n).toUInt64 = UInt64.ofNat (r.address + n)
    have h64 : (UInt16.ofNat n).toUInt64 = UInt64.ofNat n := by
      apply UInt64.toNat_inj.mp
      rw [UInt16.toNat_toUInt64, UInt16.toNat_ofNat_of_lt' hn, UInt64.toNat_ofNat']
      omega
    rw [hm.address, h64, UInt64.ofNat_add]
  | setPrologueEnd =>
    obtain ⟨-, ⟨⟩⟩ := he
    exact ⟨_, _, .pure _, fun hm _ _ => ⟨{ hm with prologueEnd := rfl }, .none _⟩⟩
  | setEpilogueBegin =>
    obtain ⟨-, ⟨⟩⟩ := he
    exact ⟨_, _, .pure _, fun hm _ _ => ⟨{ hm with epilogueBegin := rfl }, .none _⟩⟩
  | setIsa n =>
    obtain ⟨u, hu, -, ⟨⟩⟩ := he
    exact ⟨_, _, (reads_readUleb128 hu).bind_pure (.pure _),
      fun hm _ _ => ⟨{ hm with isa := toUInt16_ofNat n }, .none _⟩⟩
  | endSequence =>
    obtain ⟨_, _, h⟩ := he
    exact absurd (List.cons.inj h).1 h0
  | setAddress =>
    obtain ⟨_, _, _, _, _, _, h⟩ := he
    exact absurd (List.cons.inj h).1 h0
  | setDiscriminator =>
    obtain ⟨_, _, _, _, h⟩ := he
    exact absurd (List.cons.inj h).1 h0

theorem reads_byte (b : UInt8) : Reads ofBytes readUInt8 [b] b :=
  (reads_uint8 b).of_eq (by simp [toLe])

/-- The extended opcodes. -/
theorem simulates_extended {operand : List UInt8} (hw : Steppable header)
    (he : Encodes header.opcodeBase.toNat i (0 :: operand)) :
    Simulates header r stateMachine table i
      (decodeExtended header stateMachine table) operand := by
  cases i with
  | endSequence =>
    obtain ⟨size, hs, ⟨⟩⟩ := he
    refine ⟨_, _, (reads_readUleb128 hs).bind ((reads_byte 0x01).bind_pure (.pure _)),
      fun hm _ _ => ⟨matches_reset header, ?_⟩⟩
    have hend : Matches { r with endSequence := true } { stateMachine with endSequence := true } :=
      { hm with endSequence := rfl }
    exact hend.appends table
  | setAddress n =>
    obtain ⟨w, hw1, hw8, hn, size, hs, ⟨⟩⟩ := he
    rw [length_toLe] at hs
    have hsize : (UInt64.ofNat (w + 1) - 1).toNat = w := by
      rw [UInt64.ofNat_add, show UInt64.ofNat 1 = 1 from rfl, UInt64.add_sub_cancel,
        UInt64.toNat_ofNat']
      omega
    have hr : Reads ofBytes (readInt 8 0 (UInt64.ofNat (w + 1) - 1).toNat) (toLe w n)
        (⟨w, .ok⟩, n) := by
      rw [hsize]
      exact reads_readInt_zero hw8 hn
    exact ⟨_, _, (reads_readUleb128 hs).bind (Reads.bind (c := toLe w n)
      (reads_byte 0x02) (hr.bind_pure (.pure _))),
      fun hm _ _ => ⟨{ hm with address := rfl, opIndex := rfl }, .none _⟩⟩
  | setDiscriminator n =>
    obtain ⟨u, hu, size, hs, ⟨⟩⟩ := he
    exact ⟨_, _, (reads_readUleb128 hs).bind (Reads.bind (c := u) (reads_byte 0x04)
      ((reads_readUleb128 hu).bind_pure (.pure _))),
      fun hm hf _ => ⟨{ hm with discriminator := toUInt32_ofNat hf }, .none _⟩⟩
  | special opcode =>
    obtain ⟨h1, ⟨⟩⟩ := he
    exact absurd hw.opcodeBase_pos (by simpa using h1)
  | copy | negateStmt | setBasicBlock | constAddPc | setPrologueEnd | setEpilogueBegin =>
    obtain ⟨-, ⟨⟩⟩ := he
  | fixedAdvancePc =>
    obtain ⟨-, -, ⟨⟩⟩ := he
  | advancePc | advanceLine | setFile | setColumn | setIsa =>
    obtain ⟨_, _, -, ⟨⟩⟩ := he

/-- The special opcodes. -/
theorem simulates_special {opcode : UInt8} (hw : Steppable header)
    (hb : header.opcodeBase.toNat ≤ opcode.toNat) :
    Simulates header r stateMachine table (.special opcode)
      (decodeSpecial header opcode stateMachine table) [] := by
  have hsub : (opcode - header.opcodeBase).toNat = opcode.toNat - header.opcodeBase.toNat :=
    UInt8.toNat_sub_of_le _ _ hb
  have hadv : ((opcode - header.opcodeBase) / header.lineRange).toUInt64 =
      UInt64.ofNat (operationAdvance (params header) opcode.toNat) := by
    apply UInt64.toNat_inj.mp
    have hlt : (opcode.toNat - header.opcodeBase.toNat) / header.lineRange.toNat < 256 :=
      lt_of_le_of_lt ((Nat.div_le_self _ _).trans (Nat.sub_le _ _)) opcode.toNat_lt
    rw [UInt8.toNat_toUInt64, UInt8.toNat_div, hsub, UInt64.toNat_ofNat']
    exact (Nat.mod_eq_of_lt (show _ < _ by omega)).symm
  obtain ⟨sm', ha, hm'⟩ := advancePc_matches
    { r with line := r.line + lineAdvance (params header) opcode.toNat }
    { stateMachine with line := stateMachine.line + UInt32.ofInt (header.lineBase.toInt +
      ((opcode - header.opcodeBase) % header.lineRange).toNat) }
    (operationAdvance (params header) opcode.toNat) hw.maximumOperations_pos
  refine ⟨{ sm' with
      basicBlock := false, prologueEnd := false, epilogueBegin := false, discriminator := 0 },
    appendLineInfoEntry table sm', ?_, fun hm _ hop => ?_⟩
  · show Reads ofBytes (if header.lineRange = 0 then _ else _) [] _
    rw [if_neg hw.lineRange_ne, hadv]
    exact (Reads.lift ha).bind_pure (.pure _)
  · have hline : stateMachine.line + UInt32.ofInt (header.lineBase.toInt +
        ((opcode - header.opcodeBase) % header.lineRange).toNat) =
          UInt32.ofInt (r.line + lineAdvance (params header) opcode.toNat) := by
      rw [hm.line, ← UInt32.ofInt_add, UInt8.toNat_mod, hsub]
      rfl
    have hrow := hm' { hm with line := hline } (special_lt hop opcode.toNat_lt)
    exact ⟨hrow.cleared, hrow.appends table⟩

/-- An iteration takes the opcode, and then what is taken for it. -/
theorem reads_decodeStep_cons {opcode : UInt8} {operand : List UInt8} {state state' : DecodeState}
    (h : Reads ofBytes (decodeOpcode header opcode state) operand state') :
    Reads ofBytes (decodeStep header state) (opcode :: operand) (.next state') := by
  intro rest
  rw [List.cons_append, decodeStep_cons]
  have hnext : Reads ofBytes (decodeOpcode header opcode state >>= fun state =>
      pure (Flow.next state)) operand (Flow.next state') := h.bind_pure (.pure _)
  exact hnext rest

/-- **One iteration of the decoder's loop** takes the encoding of an instruction, and simulates it. -/
theorem reads_decodeStep (hw : Steppable header) (he : Encodes header.opcodeBase.toNat i bs) :
    ∃ stateMachine' table',
      Reads ofBytes (decodeStep header (stateMachine, table)) bs
        (.next (stateMachine', table')) ∧
      (Matches r stateMachine → i.Fits r →
        r.opIndex < header.maximumOperationsPerInstruction.toNat →
          Matches (step (params header) r i).1 stateMachine' ∧
            Appends (step (params header) r i).2 table table') := by
  obtain ⟨opcode, operand, rfl⟩ := List.exists_cons_of_ne_nil he.ne_nil
  have hbranch : Simulates header r stateMachine table i
      (decodeOpcode header opcode (stateMachine, table)) operand := by
    by_cases h0 : opcode = 0
    · subst h0
      exact simulates_extended r stateMachine table hw he
    by_cases hb : opcode.toNat < header.opcodeBase.toNat
    · rw [decodeOpcode, if_neg h0, if_pos (UInt8.lt_iff_toNat_lt.mpr hb)]
      exact simulates_standard r stateMachine table hw he h0 hb
    · rw [decodeOpcode, if_neg h0, if_neg (by rwa [UInt8.lt_iff_toNat_lt])]
      obtain ⟨rfl, rfl⟩ := he.eq_special h0 (not_lt.mp hb)
      exact simulates_special r stateMachine table hw (not_lt.mp hb)
  obtain ⟨sm', table', hr, hsim⟩ := hbranch
  exact ⟨sm', table', reads_decodeStep_cons hr, hsim⟩

/-! ### Programs -/

/-- `unit_length` and `header_length` leave `n` bytes to the program. -/
abbrev ProgramLength (header : LineNumProgHeader) (n : ℕ) : Prop :=
  header.unitLength.toNat =
    2 + 1 + 1 + (if header.isDwarf64 then 8 else 4) + header.headerLength.toNat + n

theorem ProgramLength.toNat_lineProgLength {n : ℕ} (h : ProgramLength header n) :
    (lineProgLength header).toNat = n := by
  have hlt := header.unitLength.toNat_lt
  have hlt' := header.headerLength.toNat_lt
  unfold ProgramLength at h
  unfold lineProgLength
  cases hd : header.isDwarf64 with
  | false =>
    rw [hd, if_neg (by simp)] at h
    rw [if_neg (by simp)]
    simp only [UInt64.toNat_sub, UInt64.reduceToNat]
    omega
  | true =>
    rw [hd, if_pos rfl] at h
    rw [if_pos rfl]
    simp only [UInt64.toNat_sub, UInt64.reduceToNat]
    omega

/-- On what is left of a program of `n` bytes, the test of the decoder's loop asks whether
something is. -/
theorem decodeCond_suffix {bs rest : List UInt8} {len : UInt64} (hlen : len.toNat = bs.length)
    (state : DecodeState) (cs : List UInt8) (hs : cs <:+ bs) :
    decodeCond (bs ++ rest).length len state (ofBytes (cs ++ rest)) = !cs.isEmpty := by
  have hle := hs.length_le
  have hcs : (!cs.isEmpty) = decide (0 < cs.length) := by cases cs <;> simp
  rw [decodeCond, remaining_ofBytes, List.length_append, List.length_append, hlen, hcs,
    decide_eq_decide]
  omega

/-- The decoder stands before the rest of a program: it holds the registers of the machine, and the
table shows the rows appended so far. -/
def Decoding (header : LineNumProgHeader) (rows : List Registers) (state : DecodeState)
    (is : List Instruction) : Prop :=
  ∃ r done, Matches r state.1 ∧ r.opIndex < header.maximumOperationsPerInstruction.toNat ∧
    Fits (params header) r is ∧ rows = done ++ (run (params header) r is).2 ∧
    List.Forall₂ Shows done state.2.rows

/-- **The decoder takes exactly the program**; and if the operands fit, its table shows the matrix of
the program. -/
theorem reads_decodeLineNumProg (hw : Steppable header) {is : List Instruction}
    (he : Tiles (Encodes header.opcodeBase.toNat) is bs) (hlen : ProgramLength header bs.length) :
    ∃ table, Reads ofBytes (decodeLineNumProg host header) bs table ∧
      (Fits (params header) (initial (params header)) is →
        List.Forall₂ Shows (matrix (params header) is) table.rows) := by
  -- the registers the machine has reached matter only if the operands fit
  let I (state : DecodeState) (is' : List Instruction) : Prop :=
    Fits (params header) (initial (params header)) is →
      Decoding header (matrix (params header) is) state is'
  have hstart : I (decodeStart header) is := fun hf =>
    ⟨_, [], matches_reset header, hw.maximumOperations_pos, hf, rfl, .nil⟩
  have hbody : ∀ state i is' b, I state (i :: is') → Encodes header.opcodeBase.toNat i b →
      ∃ state', Reads ofBytes (decodeStep header state) b (.next state') ∧ I state' is' := by
    intro state i is' b hI hi
    by_cases hf : Fits (params header) (initial (params header)) is
    · obtain ⟨r, done, hm, hop, hfits, hrows, hshow⟩ := hI hf
      obtain ⟨sm', table', hr, hsim⟩ := reads_decodeStep r state.1 state.2 hw hi
      obtain ⟨hm', entries, htable, hentries⟩ := hsim hm hfits.1 hop
      refine ⟨_, hr, fun _ => ⟨_, done ++ (step (params header) r i).2, hm',
        opIndex_step hw.maximumOperations_pos hop i, hfits.2, ?_, ?_⟩⟩
      · rw [hrows, run, List.append_assoc]
      · show List.Forall₂ Shows _ table'.rows
        rw [htable]
        exact List.rel_append hshow hentries
    · obtain ⟨sm', table', hr, -⟩ :=
        reads_decodeStep (initial (params header)) state.1 state.2 hw hi
      exact ⟨_, hr, fun h => absurd h hf⟩
  obtain ⟨⟨stateMachine', table⟩, hI, hloop⟩ :=
    whileLoop_tiles (fun _ _ h => h.ne_nil) hbody he hstart
  refine ⟨table, fun rest => ?_, fun hf => ?_⟩
  · have hprog := hlen.toNat_lineProgLength
    have hle := he.length_le fun _ _ h => h.ne_nil
    rw [decodeLineNumProg_apply, remaining_ofBytes,
      hloop _ rest _ (decodeCond_suffix hprog) (by rw [List.length_append]; omega), hprog,
      List.length_append, decide_eq_true (Nat.le_add_right _ _), cAssert_true]
    rfl
  · obtain ⟨r, done, -, -, -, hrows, hshow⟩ := hI hf
    rw [hrows]
    simpa [run] using hshow

/-- **The decoder computes the matrix of the line number state machine.** On the encoding of a
program, whatever follows it, the sequences of the table it returns are together the rows of the
matrix, and it takes exactly the program. -/
theorem decodeLineNumProg_refines (hw : Steppable header) {is : List Instruction}
    (he : Tiles (Encodes header.opcodeBase.toNat) is bs) (hlen : ProgramLength header bs.length)
    (hf : Fits (params header) (initial (params header)) is) (rest : List UInt8) :
    ∃ table, decodeLineNumProg host header (ofBytes (bs ++ rest)) = .ok (table, ofBytes rest) ∧
      List.Forall₂ Shows (matrix (params header) is) table.rows := by
  obtain ⟨table, hr, hshow⟩ := reads_decodeLineNumProg host hw he hlen
  exact ⟨table, hr rest, hshow hf⟩

/-- A sequence of one row, at the address `0x1000`. -/
def sampleProgram : List Instruction := [.setAddress 0x1000, .special 75, .endSequence]

/-- The encoding of `sampleProgram`. -/
def sampleProgramBytes : List UInt8 := [0, 9, 2, 0, 16, 0, 0, 0, 0, 0, 0] ++ ([75] ++ [0, 1, 1])

theorem sampleProgram_encodes : Tiles (Encodes 13) sampleProgram sampleProgramBytes := by
  refine .cons ⟨8, by decide, by decide, by decide, [9], by decide, by decide⟩ (.cons ?_ (.single ?_))
  · exact ⟨by decide, rfl⟩
  · exact ⟨[1], by decide, rfl⟩

/-- `sampleProgram` after `sampleHeader`, with one byte behind it. -/
theorem decodeLineNumProg_refines_sample :
    ∃ table, decodeLineNumProg (.zeroed true) (parsedHeader sampleHeader [] [])
        (ofBytes (sampleProgramBytes ++ [0])) = .ok (table, ofBytes [0]) ∧
      List.Forall₂ Shows (matrix (params (parsedHeader sampleHeader [] [])) sampleProgram)
        table.rows :=
  have hw : Steppable (parsedHeader sampleHeader [] []) := ⟨by decide, by decide, by decide⟩
  decodeLineNumProg_refines _ hw sampleProgram_encodes (by decide) (by decide) [0]

end Dabugger.Dwarf.Refinement
