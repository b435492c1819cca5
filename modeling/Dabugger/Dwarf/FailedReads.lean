import Dabugger.Dwarf.Containment
import Dabugger.Dwarf.Reached

/-! # Rows after a failed read

`decode_line_num_prog` leaves its loop when it finds no opcode, but ignores the results of all other
reads. So it goes on behind an operand that it could not read, and what is left of the operand is
decoded as instructions; the table has none but the rows that were complete before
(`NoRowAfterFailure`) exactly if none of these instructions appends a row. -/

namespace Dabugger.Dwarf.FailedReads

open Dabugger.Lib.Exact Dabugger.Lib.Loop Dabugger.Base Dabugger.Base.BinaryReader
open Dabugger.Reader Dabugger.Dwarf.Types Dabugger.Dwarf.Header Dabugger.Dwarf.Program
open Dabugger.Dwarf.Refinement Dabugger.Dwarf.Termination Dabugger.Dwarf.Widths
open Dabugger.Dwarf.Containment Dabugger.Dwarf.Framing Dabugger.Dwarf.Reached

/-! ### The operand reads of an instruction -/

/-- The statuses of the operand reads that `decode_line_num_prog` makes for an opcode, in order. -/
def operandStatuses (header : LineNumProgHeader) (opcode : UInt8) :
    Parse (List ReadStatus) :=
  if opcode = 0 then do
    let (size, instructionSize) ← readUleb128
    let (extended, extendedOpcode) ← readInt 1 0 1
    if UInt8.ofNat extendedOpcode = Lne.setAddress then do
      let (address, _) ← readInt 8 0 (instructionSize - 1).toNat
      return [size.status, extended.status, address.status]
    else if UInt8.ofNat extendedOpcode = Lne.setDiscriminator then do
      let (discriminator, _) ← readUleb128
      return [size.status, extended.status, discriminator.status]
    else return [size.status, extended.status]
  else if opcode < header.opcodeBase then
    if opcode ∈ [Lns.advancePc, Lns.setFile, Lns.setColumn, Lns.setIsa] then do
      let (result, _) ← readUleb128
      return [result.status]
    else if opcode = Lns.advanceLine then do
      let (result, _) ← readSleb128
      return [result.status]
    else if opcode = Lns.fixedAdvancePc then do
      let (result, _) ← readInt 2 0 2
      return [result.status]
    else return []
  else return []

/-- An operand read of the instruction at the start of `bs` fails. -/
def ReadFails (header : LineNumProgHeader) (bs : List UInt8) : Prop :=
  ∃ opcode operand statuses r, bs = opcode :: operand ∧
    operandStatuses header opcode (ofBytes operand) = .ok (statuses, r) ∧
    ∃ status ∈ statuses, status ≠ .ok

/-! ### The instructions that append a row -/

/-- The instruction at the start of `bs` appends a row. -/
def appendsRow (header : LineNumProgHeader) : List UInt8 → Bool
  | [] => false
  | opcode :: operand =>
    if opcode = 0 then decide ((skipLeb operand).headD 0 = Lne.endSequence)
    else if opcode < header.opcodeBase then decide (opcode = Lns.copy)
    else true

section
variable {header : LineNumProgHeader} {stateMachine : LineNumStateMachine}
  {table : LineInfoTable}

theorem decodeExtended_table {operand : List UInt8} {state' : DecodeState} {r : BinaryReader}
    (h : decodeExtended header stateMachine table (ofBytes operand) = .ok (state', r)) :
    state'.2 = if (skipLeb operand).headD 0 = Lne.endSequence then
      appendLineInfoEntry table { stateMachine with endSequence := true } else table := by
  obtain ⟨_, hcode, rfl⟩ := leaves_uint8 (skipLeb operand)
  rw [decodeExtended, bind_of_ok (readUleb128_ofBytes operand)] at h
  dsimp only at h
  rw [← skipLeb, bind_of_ok hcode] at h
  by_cases hend : (skipLeb operand).headD 0 = Lne.endSequence
  · rw [if_pos hend] at h ⊢
    cases h
    rfl
  · rw [if_neg hend] at h ⊢
    split at h
    · obtain ⟨_, _, -, ⟨⟩⟩ := bind_ok h
      rfl
    split at h
    · obtain ⟨_, _, -, ⟨⟩⟩ := bind_ok h
      rfl
    · cases h
      rfl

theorem decodeStandard_table (opcode : UInt8) :
    Returns (decodeStandard header opcode stateMachine table) fun state' =>
      state'.2 = if opcode = Lns.copy then appendLineInfoEntry table stateMachine else table := by
  refine .ite (fun h => .pure (if_pos h).symm) fun h => ?_
  rw [if_neg h]
  have hbind : ∀ {β : Type} {p : Parse β} {f : β → LineNumStateMachine},
      Returns (p >>= fun x => pure (f x, table)) (·.2 = table) := .bind fun _ => .pure rfl
  refine .ite (fun _ => .bind fun _ => hbind) fun _ => .ite (fun _ => hbind) fun _ => ?_
  refine .ite (fun _ => hbind) fun _ => .ite (fun _ => hbind) fun _ => ?_
  refine .ite (fun _ => .pure rfl) fun _ => .ite (fun _ => .pure rfl) fun _ => ?_
  refine .ite (fun _ => .ite (fun _ => .bind fun _ => hbind) fun _ => hbind) fun _ => ?_
  refine .ite (fun _ => hbind) fun _ => .ite (fun _ => .pure rfl) fun _ => ?_
  exact .ite (fun _ => .pure rfl) fun _ => .ite (fun _ => hbind) fun _ => .pure rfl

theorem decodeSpecial_table (opcode : UInt8) :
    Returns (decodeSpecial header opcode stateMachine table) fun state' =>
      ∃ stateMachine', state'.2 = appendLineInfoEntry table stateMachine' := by
  have hadvance : ∀ {stateMachine : LineNumStateMachine} {opAdvance : UInt64}
      {f : LineNumStateMachine → LineNumStateMachine},
      Returns (liftM (stateMachineAdvancePc stateMachine header opAdvance) >>= fun stateMachine' =>
        pure (f stateMachine', appendLineInfoEntry table stateMachine') : Parse DecodeState)
        fun state' => ∃ stateMachine', state'.2 = appendLineInfoEntry table stateMachine' :=
    .bind fun stateMachine' => .pure ⟨stateMachine', rfl⟩
  exact .ite (fun _ => .bind fun _ => hadvance) fun _ => hadvance

/-- **What an iteration does to the rows**: it appends one for the instructions that append a row. -/
theorem decodeStep_rows {state state' : DecodeState} {bs : List UInt8} {r : BinaryReader}
    (h : decodeStep header state (ofBytes bs) = .ok (.next state', r)) :
    ∃ new, state'.2.rows = state.2.rows ++ new ∧ (new = [] ↔ ¬ appendsRow header bs = true) := by
  cases bs with
  | nil => cases h
  | cons opcode operand =>
    rw [decodeStep_cons] at h
    obtain ⟨_, _, hopcode, ⟨⟩⟩ := bind_ok h
    rw [decodeOpcode] at hopcode
    rw [appendsRow]
    have happends : ∀ {b : Bool} {stateMachine : LineNumStateMachine}, b = true →
        state'.2 = appendLineInfoEntry state.2 stateMachine →
          ∃ new, state'.2.rows = state.2.rows ++ new ∧ (new = [] ↔ ¬ b = true) := by
      rintro _ stateMachine rfl hs
      exact ⟨_, hs ▸ rows_appendLineInfoEntry _ _, by simp⟩
    have hkeeps : ∀ {b : Bool}, b = false → state'.2 = state.2 →
        ∃ new, state'.2.rows = state.2.rows ++ new ∧ (new = [] ↔ ¬ b = true) := by
      rintro _ rfl hs
      exact ⟨[], by rw [hs, List.append_nil], by simp⟩
    by_cases h0 : opcode = 0
    · rw [if_pos h0] at hopcode ⊢
      have htable := decodeExtended_table hopcode
      by_cases hend : (skipLeb operand).headD 0 = Lne.endSequence
      · rw [if_pos hend] at htable
        exact happends (decide_eq_true hend) htable
      · rw [if_neg hend] at htable
        exact hkeeps (decide_eq_false hend) htable
    · rw [if_neg h0] at hopcode ⊢
      by_cases hstandard : opcode < header.opcodeBase
      · rw [if_pos hstandard] at hopcode ⊢
        have htable := decodeStandard_table opcode _ _ _ hopcode
        by_cases hcopy : opcode = Lns.copy
        · rw [if_pos hcopy] at htable
          exact happends (decide_eq_true hcopy) htable
        · rw [if_neg hcopy] at htable
          exact hkeeps (decide_eq_false hcopy) htable
      · rw [if_neg hstandard] at hopcode ⊢
        obtain ⟨stateMachine, htable⟩ := decodeSpecial_table opcode _ _ _ hopcode
        exact happends rfl htable

/-- The decoder leaves its loop where there is no opcode. -/
theorem decodeStep_stop {state state' : DecodeState} {bs : List UInt8} {r : BinaryReader}
    (h : decodeStep header state (ofBytes bs) = .ok (.stop state', r)) :
    bs = [] ∧ state' = state := by
  cases bs with
  | nil =>
    cases h
    exact ⟨rfl, rfl⟩
  | cons opcode operand =>
    rw [decodeStep_cons] at h
    obtain ⟨_, _, -, ⟨⟩⟩ := bind_ok h

end

/-! ### Programs -/

section
variable (header : LineNumProgHeader) (program : List UInt8)

/-- More of the program is to be decoded. -/
def moreToDecode (bs : List UInt8) : Bool :=
  decide (program.length - bs.length < (lineProgLength header).toNat)

/-- Behind `bs`, one instruction after another, there is one that begins with `cs`. -/
def InstructionBehind (bs cs : List UInt8) : Prop :=
  Walks (skipUnder header) (moreToDecode header program) bs cs ∧
    moreToDecode header program cs = true

/-- **The table has no row but those that were complete before an instruction of which a read
fails.** -/
def NoRowAfterFailure (table : LineInfoTable) : Prop :=
  ∀ state bs, DecodesAt header program state bs → ReadFails header bs →
    table.rows = state.2.rows

variable {host header program}

/-- The decoder comes to the instructions of the program, whatever the registers hold. -/
theorem visits_iff (state : DecodeState) {bs cs : List UInt8} :
    (∃ state', Visits (decodeCond program.length (lineProgLength header)) (decodeStep header)
      (state, ofBytes bs) (state', ofBytes cs)) ↔
      Walks (skipUnder header) (moreToDecode header program) bs cs := by
  refine visits_iff_walks ofBytes_injective ?_ ?_ fun _ _ => rfl
  · intro state cs ds hds
    have hne : cs ≠ [] := by
      rintro rfl
      cases hds
    have hleaves : Leaves ofBytes (decodeStep header state) cs (skipUnder header cs) _ :=
      leaves_decodeStep_of_ne_nil header state cs hne
    rw [hds] at hleaves
    obtain ⟨_, hok, state', rfl⟩ := hleaves
    exact ⟨state', hok⟩
  · intro state cs state' r hok
    have hne : cs ≠ [] := by
      rintro rfl
      cases hok
    obtain ⟨ds, hds, hr, -⟩ := (leaves_decodeStep_of_ne_nil header state cs hne).of_run hok
    exact ⟨ds, hds, hr⟩

theorem decodesAt_iff {bs : List UInt8} :
    (∃ state, DecodesAt header program state bs) ↔
      InstructionBehind header program program bs := by
  rw [InstructionBehind, ← visits_iff (decodeStart header)]
  constructor
  · rintro ⟨state, hv, hc⟩
    exact ⟨⟨state, hv⟩, hc⟩
  · rintro ⟨⟨state, hv⟩, hc⟩
    exact ⟨state, hv, hc⟩

/-- **The rows that are appended from an instruction on**: there are none exactly if no instruction
behind it, itself included, appends one. -/
theorem rows_eq_iff {table : LineInfoTable} {r : BinaryReader} {state : DecodeState} {bs : List UInt8}
    (hok : decodeLineNumProg host header (ofBytes program) = .ok (table, r))
    (hd : DecodesAt header program state bs) :
    table.rows = state.2.rows ↔ ∀ cs, InstructionBehind header program bs cs →
      appendsRow header cs = false := by
  obtain ⟨stateMachine, hx⟩ := decodeLineNumProg_ok hok
  obtain ⟨x', hx'⟩ := decodeLoop_ends header (lineProgLength header) program.length state
    (ofBytes bs)
  -- the loop ends as it does from `bs` on
  obtain ⟨m, hm⟩ := hd.1.whileLoop hx'
  obtain rfl := whileLoop_unique hx hm
  have hbytes : ∀ (state : DecodeState) (r : BinaryReader) (state' : DecodeState) (r' : BinaryReader),
      (∃ bs, r = ofBytes bs) → decodeStep header state r = .ok (.next state', r') →
        ∃ bs, r' = ofBytes bs := by
    rintro state _ state' r' ⟨bs, rfl⟩ h
    obtain ⟨cs, -, hcs⟩ := (local_decodeStep header state).length_le h
    exact ⟨cs, hcs⟩
  have hnext : ∀ (state : DecodeState) (r : BinaryReader) (state' : DecodeState) (r' : BinaryReader),
      (∃ bs, r = ofBytes bs) → decodeStep header state r = .ok (.next state', r') →
        ∃ new, state'.2.rows = state.2.rows ++ new ∧
          (new = [] ↔ ¬ appendsRow header r.cursor = true) := by
    rintro state _ state' r' ⟨bs, rfl⟩ h
    exact decodeStep_rows h
  have hstop : ∀ (state : DecodeState) (r : BinaryReader) (state' : DecodeState) (r' : BinaryReader),
      (∃ bs, r = ofBytes bs) → decodeStep header state r = .ok (.stop state', r') →
        state'.2.rows = state.2.rows ∧ ¬ appendsRow header r.cursor = true := by
    rintro state _ state' r' ⟨bs, rfl⟩ h
    obtain ⟨rfl, rfl⟩ := decodeStep_stop h
    exact ⟨rfl, Bool.false_ne_true⟩
  obtain ⟨new, hnew, hsilent⟩ := whileLoop_output (fun state => state.2.rows)
    (fun r => ∃ bs, r = ofBytes bs) (fun r => appendsRow header r.cursor = true) hbytes hnext hstop
    ⟨bs, rfl⟩ hx'
  rw [show table.rows = state.2.rows ++ new from hnew, List.append_right_eq_self, hsilent]
  constructor
  · rintro h cs ⟨hw, hc⟩
    obtain ⟨state', hv⟩ := (visits_iff _).mpr hw
    exact Bool.eq_false_iff.mpr (h _ hv hc)
  · intro h y hv hc
    obtain ⟨cs, hcs⟩ := visits_ofBytes hv
    rw [hcs] at hv hc
    rw [hcs]
    exact Bool.eq_false_iff.mp (h cs ⟨(visits_iff _).mp ⟨_, hv⟩, hc⟩)

/-- **Rows after a failed read.** There are none exactly if, from every instruction of the program on
of which a read fails, no instruction appends a row: itself included, none of them is `DW_LNS_copy`,
`DW_LNE_end_sequence` or a special opcode. -/
theorem noRowAfterFailure_iff {table : LineInfoTable} {r : BinaryReader}
    (hok : decodeLineNumProg host header (ofBytes program) = .ok (table, r)) :
    NoRowAfterFailure header program table ↔
      ∀ bs cs, InstructionBehind header program program bs → ReadFails header bs →
        InstructionBehind header program bs cs → appendsRow header cs = false := by
  constructor
  · intro h bs cs hbs hfails hcs
    obtain ⟨state, hd⟩ := decodesAt_iff.mpr hbs
    exact (rows_eq_iff hok hd).mp (h state bs hd hfails) cs hcs
  · intro h state bs hd hfails
    exact (rows_eq_iff hok hd).mpr fun cs hcs => h bs cs (decodesAt_iff.mp ⟨state, hd⟩) hfails hcs

end

/-! ### Programs of two bytes -/

/-- The header of `sampleHeader` before a program of two bytes. -/
def shortHeader : LineNumProgHeader :=
  { sampleProgHeader with unitLength := sampleProgHeader.headerLength + 10 }

/-- Behind `DW_LNS_copy` nothing is left of `DW_LNS_fixed_advance_pc`. -/
theorem noRowAfterFailure_iff_sample : ∃ table,
    NoRowAfterFailure shortHeader [1, 9] table := by
  have hok : decodeLineNumProg (.zeroed true) shortHeader (ofBytes [1, 9]) = _ := rfl
  refine ⟨_, (noRowAfterFailure_iff hok).mpr ?_⟩
  rintro bs cs ⟨hbs, -⟩ hfails ⟨hcs, -⟩
  have hlast : ∀ {ds : List UInt8}, Walks (skipUnder shortHeader)
      (moreToDecode shortHeader [1, 9]) [9] ds → ds = [9] ∨ ds = [] := by
    intro ds hds
    cases hds with
    | refl => exact .inl rfl
    | step _ hn hds =>
      cases hn
      cases hds with
      | refl => exact .inr rfl
      | step _ hn _ => cases hn
  cases hbs with
  | refl =>
    -- `DW_LNS_copy` has no operand
    obtain ⟨_, _, _, _, ⟨⟩, hstatuses, _, hstatus, -⟩ := hfails
    cases hstatuses
    cases hstatus
  | step _ hn hbs =>
    cases hn
    rcases hlast hbs with rfl | rfl
    · rcases hlast hcs with rfl | rfl
      · rfl
      · rfl
    · obtain ⟨_, _, _, _, ⟨⟩, -⟩ := hfails

/-- With one byte of two left, that byte is decoded as `DW_LNS_copy`. -/
theorem not_noRowAfterFailure_short : ¬ ∀ (host : Host) (header : LineNumProgHeader)
    (program : List UInt8) (table : LineInfoTable) (r : BinaryReader),
      decodeLineNumProg host header (ofBytes program) = .ok (table, r) →
        NoRowAfterFailure header program table := by
  intro h
  have hrows := h (.zeroed true) shortHeader [9, 1] _ _ rfl (decodeStart shortHeader) [9, 1]
    ⟨.refl _, rfl⟩ ⟨9, [1], _, _, rfl, rfl, .outOfBounds, List.mem_singleton_self _, by simp⟩
  cases hrows

end Dabugger.Dwarf.FailedReads
