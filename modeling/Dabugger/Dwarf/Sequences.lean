import Dabugger.Dwarf.FailedReads

/-! # The sequences of a table

`append_line_info_entry` puts a row at the end of the last sequence, and opens the next sequence
behind a row that ends one. So the sequences of a table are the rows in the order in which they were
appended, cut behind the rows that end a sequence (`CutInto`); the last one may be empty. -/

namespace Dabugger.Dwarf.Sequences

open Dabugger.Lib.Exact Dabugger.Lib.Loop Dabugger.Base Dabugger.Base.BinaryReader
open Dabugger.Reader Dabugger.Dwarf.Types Dabugger.Dwarf.Header Dabugger.Dwarf.Program
open Dabugger.Dwarf.Refinement Dabugger.Dwarf.Termination Dabugger.Dwarf.Widths
open Dabugger.Dwarf.Framing Dabugger.Dwarf.FailedReads Dabugger.Dwarf.Reached

/-! ### The rows that are appended -/

/-- The registers for which a special opcode appends a row. -/
def specialRow (header : LineNumProgHeader) (opcode : UInt8) (stateMachine : LineNumStateMachine) :
    Except Fault LineNumStateMachine :=
  let adjustedOpcode := opcode - header.opcodeBase
  let lineAdvance := header.lineBase.toInt + (adjustedOpcode % header.lineRange).toNat
  stateMachineAdvancePc { stateMachine with line := stateMachine.line + UInt32.ofInt lineAdvance }
    header (adjustedOpcode / header.lineRange).toUInt64

/-- The registers that `append_line_info_entry` is called with for the instruction at the start of the
bytes. -/
def appendedBy (header : LineNumProgHeader) (stateMachine : LineNumStateMachine) :
    List UInt8 → List LineNumStateMachine
  | [] => []
  | opcode :: operand =>
    if opcode = 0 then
      if (skipLeb operand).headD 0 = Lne.endSequence then [{ stateMachine with endSequence := true }]
      else []
    else if opcode < header.opcodeBase then if opcode = Lns.copy then [stateMachine] else []
    else (specialRow header opcode stateMachine).toOption.toList

/-- **The rows that a run of `decode_line_num_prog` appends**, in the order of the calls of
`append_line_info_entry`. -/
def appendedRows (header : LineNumProgHeader) (program : List UInt8) :
    List LineInfoEntry :=
  (whileTrace (decodeCond program.length (lineProgLength header)) (decodeStep header)
    (fun state r => appendedBy header state.1 r.cursor) (program.length + 1) (decodeStart header)
    (ofBytes program)).map lineInfoEntry

section
variable {host : Host} {header : LineNumProgHeader} {stateMachine : LineNumStateMachine}
  {table : LineInfoTable}

theorem decodeSpecial_eq {opcode : UInt8} {state' : DecodeState} {r r' : BinaryReader}
    (h : decodeSpecial header opcode stateMachine table r = .ok (state', r')) :
    ∃ row, specialRow header opcode stateMachine = .ok row ∧
      state' = ({ row with basicBlock := false, prologueEnd := false, epilogueBegin := false,
                           discriminator := 0 }, appendLineInfoEntry table row) := by
  rw [decodeSpecial] at h
  dsimp only at h
  by_cases hrange : header.lineRange = 0
  · rw [if_pos hrange] at h
    cases h
  · rw [if_neg hrange] at h
    rw [specialRow]
    cases hrow : stateMachineAdvancePc _ header _ with
    | error e =>
      rw [hrow] at h
      cases h
    | ok row =>
      rw [hrow] at h
      cases h
      exact ⟨row, rfl, rfl⟩

/-- **What an iteration does to the table**: it appends the rows of the instruction. -/
theorem decodeStep_appends {state state' : DecodeState} {bs : List UInt8} {r : BinaryReader}
    (h : decodeStep header state (ofBytes bs) = .ok (.next state', r)) :
    state'.2 = (appendedBy header state.1 bs).foldl appendLineInfoEntry state.2 := by
  cases bs with
  | nil => cases h
  | cons opcode operand =>
    rw [decodeStep_cons] at h
    obtain ⟨_, _, hopcode, ⟨⟩⟩ := bind_ok h
    rw [decodeOpcode] at hopcode
    rw [appendedBy]
    by_cases h0 : opcode = 0
    · rw [if_pos h0] at hopcode ⊢
      rw [decodeExtended_table hopcode]
      split <;> rfl
    · rw [if_neg h0] at hopcode ⊢
      by_cases hstandard : opcode < header.opcodeBase
      · rw [if_pos hstandard] at hopcode ⊢
        rw [decodeStandard_table opcode _ _ _ hopcode]
        split <;> rfl
      · rw [if_neg hstandard] at hopcode ⊢
        obtain ⟨row, hrow, rfl⟩ := decodeSpecial_eq hopcode
        rw [hrow]
        rfl

/-- The table of a run, from the calls of `append_line_info_entry`. -/
theorem decodeLineNumProg_trace {program : List UInt8} {table : LineInfoTable} {r : BinaryReader}
    (h : decodeLineNumProg host header (ofBytes program) = .ok (table, r)) :
    ∃ rows : List LineNumStateMachine, appendedRows header program = rows.map lineInfoEntry ∧
      table = rows.foldl appendLineInfoEntry ⟨[]⟩ := by
  obtain ⟨stateMachine, hloop⟩ := decodeLineNumProg_ok h
  refine ⟨_, rfl, ?_⟩
  refine whileLoop_trace (f := fun state : DecodeState => state.2) (I := fun r => ∃ bs, r = ofBytes bs)
    ?_ ?_ ⟨program, rfl⟩ hloop
  · rintro state _ state' r' ⟨bs, rfl⟩ hok
    obtain ⟨cs, -, hcs⟩ := (local_decodeStep header state).length_le hok
    exact ⟨⟨cs, hcs⟩, decodeStep_appends hok⟩
  · rintro state _ state' r' ⟨bs, rfl⟩ hok
    obtain ⟨rfl, rfl⟩ := decodeStep_stop hok
    rfl

end

/-! ### Cut behind the rows that end a sequence -/

/-- **The sequences are the rows**, cut behind the rows that end a sequence: every sequence but the last
ends with such a row and has no other, the last one has none. -/
structure CutInto (rows : List LineInfoEntry) (table : LineInfoTable) : Prop where
  rows : table.rows = rows
  complete : ∀ sequence ∈ table.sequences.dropLast, ∃ init last,
    sequence.entries = init ++ [last] ∧ last.endSequence = true ∧
      ∀ entry ∈ init, entry.endSequence = false
  last : ∀ sequence, table.sequences.getLast? = some sequence →
    ∀ entry ∈ sequence.entries, entry.endSequence = false

theorem CutInto.nil : CutInto [] ⟨[]⟩ :=
  ⟨rfl, fun _ h => (List.not_mem_nil h).elim, fun _ h => (by cases h)⟩

/-- **One row more.** -/
theorem CutInto.append {rows : List LineInfoEntry} {table : LineInfoTable} (h : CutInto rows table)
    (stateMachine : LineNumStateMachine) :
    CutInto (rows ++ [lineInfoEntry stateMachine]) (appendLineInfoEntry table stateMachine) := by
  have hopen : ∀ entry ∈ (table.sequences.getLastD ⟨[]⟩).entries, entry.endSequence = false := by
    rw [List.getLastD_eq_getLast?]
    cases hlast : table.sequences.getLast? with
    | none => exact fun _ he => (List.not_mem_nil he).elim
    | some sequence => exact h.last sequence hlast
  refine ⟨by rw [rows_appendLineInfoEntry, h.rows], ?_, ?_⟩
  · intro sequence hsequence
    rw [appendLineInfoEntry] at hsequence
    split at hsequence
    · rename_i hend
      rw [List.dropLast_concat] at hsequence
      rcases List.mem_append.mp hsequence with hold | hnew
      · exact h.complete sequence hold
      · obtain rfl := List.mem_singleton.mp hnew
        exact ⟨_, _, rfl, hend, hopen⟩
    · rw [List.dropLast_concat] at hsequence
      exact h.complete sequence hsequence
  · intro sequence hlast entry hentry
    rw [appendLineInfoEntry] at hlast
    split at hlast
    · rw [List.getLast?_concat] at hlast
      cases hlast
      cases hentry
    · rename_i hend
      rw [List.getLast?_concat] at hlast
      cases hlast
      rcases List.mem_append.mp hentry with hold | hnew
      · exact hopen entry hold
      · obtain rfl := List.mem_singleton.mp hnew
        exact Bool.eq_false_iff.mpr hend

theorem CutInto.foldl : ∀ {rows : List LineInfoEntry} {table : LineInfoTable}
    (stateMachines : List LineNumStateMachine), CutInto rows table →
      CutInto (rows ++ stateMachines.map lineInfoEntry)
        (stateMachines.foldl appendLineInfoEntry table)
  | rows, table, [], h => by rwa [List.map_nil, List.append_nil]
  | rows, table, stateMachine :: stateMachines, h => by
    have ih := (h.append stateMachine).foldl stateMachines
    rwa [List.append_assoc, List.singleton_append, ← List.map_cons] at ih

/-- An entry that ends a sequence is its last. -/
theorem CutInto.getLast?_of_endSequence {rows : List LineInfoEntry} {table : LineInfoTable}
    (h : CutInto rows table) {sequence : LineInfoSequence} (hs : sequence ∈ table.sequences)
    {entry : LineInfoEntry} (he : entry ∈ sequence.entries) (hend : entry.endSequence = true) :
    sequence.entries.getLast? = some entry := by
  have hne : table.sequences ≠ [] := List.ne_nil_of_mem hs
  rw [← List.dropLast_concat_getLast hne] at hs
  rcases List.mem_append.mp hs with hs | hs
  · obtain ⟨init, last, hentries, -, hinit⟩ := h.complete sequence hs
    rw [hentries] at he ⊢
    rcases List.mem_append.mp he with he | he
    · rw [hinit entry he] at hend
      cases hend
    · rw [List.mem_singleton.mp he, List.getLast?_concat]
  · have hlast := h.last sequence (by
      rw [List.mem_singleton.mp hs, List.getLast?_eq_getLast_of_ne_nil hne]) entry he
    rw [hlast] at hend
    cases hend

/-- **The structure of the table**: for every header and all bytes, the sequences are the rows in the
order in which they were appended, cut behind the rows that end a sequence. -/
theorem decodeLineNumProg_cutInto {host : Host} {header : LineNumProgHeader} {program : List UInt8}
    {table : LineInfoTable} {r : BinaryReader}
    (h : decodeLineNumProg host header (ofBytes program) = .ok (table, r)) :
    CutInto (appendedRows header program) table := by
  obtain ⟨rows, hrows, rfl⟩ := decodeLineNumProg_trace h
  have hcut := CutInto.nil.foldl rows
  rwa [List.nil_append, ← hrows] at hcut

/-- The header of `sampleHeader` before a program of five bytes. -/
def fiveByteHeader : LineNumProgHeader :=
  { sampleProgHeader with unitLength := sampleProgHeader.headerLength + 13 }

/-- `DW_LNS_copy`, `DW_LNE_end_sequence` and `DW_LNS_copy` make two sequences. -/
theorem decodeLineNumProg_cutInto_sample : ∃ table,
    decodeLineNumProg (.zeroed true) fiveByteHeader (ofBytes [1, 0, 1, 1, 1]) =
        .ok (table, ofBytes []) ∧
      CutInto (appendedRows fiveByteHeader [1, 0, 1, 1, 1]) table ∧
      table.sequences.map (·.entries.length) = [2, 1] :=
  have hok : decodeLineNumProg (.zeroed true) fiveByteHeader (ofBytes [1, 0, 1, 1, 1]) = _ := rfl
  ⟨_, hok, decodeLineNumProg_cutInto hok, rfl⟩

end Dabugger.Dwarf.Sequences
