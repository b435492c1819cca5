import Dabugger.Dwarf.Sequences

/-! # Ascending addresses

`append_line_info_entry` relies on it that the addresses within a sequence do not descend. They do not
in every program that sets the address before the first row of a sequence only, and in which no
address computation wraps around (`Climbs`): all the other instructions move the address up. -/

namespace Dabugger.Dwarf.Ascending

open Dabugger.Lib.Exact Dabugger.Lib.Loop Dabugger.Base Dabugger.Base.BinaryReader
open Dabugger.Reader Dabugger.Dwarf.Types Dabugger.Dwarf.Header Dabugger.Dwarf.Program
open Dabugger.Dwarf.Refinement Dabugger.Dwarf.Termination Dabugger.Dwarf.Widths
open Dabugger.Dwarf.Framing Dabugger.Dwarf.FailedReads Dabugger.Dwarf.Reached
open Dabugger.Dwarf.Sequences

/-! ### Address computations -/

section
variable (header : LineNumProgHeader) (stateMachine : LineNumStateMachine)

/-- No sum and no product of `state_machine_advance_pc` exceeds `2^64 - 1`. -/
def AdvanceFits (opAdvance : UInt64) : Prop :=
  stateMachine.opIndex.toNat + opAdvance.toNat < 2 ^ 64 ∧
    stateMachine.address.toNat + header.minimumInstructionLength.toNat *
      ((stateMachine.opIndex.toNat + opAdvance.toNat) /
        header.maximumOperationsPerInstruction.toNat) < 2 ^ 64

/-- No address computation of the instruction at the start of the bytes exceeds `2^64 - 1`. -/
def AddressFits : List UInt8 → Prop
  | [] => True
  | opcode :: operand =>
    if opcode = 0 then True
    else if opcode < header.opcodeBase then
      if opcode = Lns.advancePc then AdvanceFits header stateMachine (lebAt operand)
      else if opcode = Lns.constAddPc then
        AdvanceFits header stateMachine
          (UInt64.ofNat ((255 - header.opcodeBase.toNat) / header.lineRange.toNat))
      else if opcode = Lns.fixedAdvancePc then
        ∀ fixedAdvance r, readUInt16 (ofBytes operand) = .ok (fixedAdvance, r) →
          stateMachine.address.toNat + fixedAdvance.toNat < 2 ^ 64
      else True
    else AdvanceFits header stateMachine ((opcode - header.opcodeBase) / header.lineRange).toUInt64

/-- The instruction at the start of the bytes is `DW_LNE_set_address`. -/
def SetsAddress : List UInt8 → Prop
  | [] => False
  | opcode :: operand => opcode = 0 ∧ (skipLeb operand).headD 0 = Lne.setAddress

end

/-- The sequence that the next row goes to. -/
def currentSequence (table : LineInfoTable) : LineInfoSequence := table.sequences.getLastD ⟨[]⟩

/-- **The program climbs**: it sets the address before the first row of a sequence only, and no address
computation exceeds `2^64 - 1`. -/
structure Climbs (header : LineNumProgHeader) (program : List UInt8) : Prop where
  setAddress : ∀ state bs, DecodesAt header program state bs → SetsAddress bs →
    (currentSequence state.2).entries = []
  fits : ∀ state bs, DecodesAt header program state bs → AddressFits header state.1 bs

section
variable {host : Host} {header : LineNumProgHeader} {stateMachine stateMachine' : LineNumStateMachine}

theorem advancePc_le {opAdvance : UInt64} (hfits : AdvanceFits header stateMachine opAdvance)
    (h : stateMachineAdvancePc stateMachine header opAdvance = .ok stateMachine') :
    stateMachine.address ≤ stateMachine'.address := by
  unfold stateMachineAdvancePc at h
  dsimp only at h
  split at h
  · cases h
  · cases h
    obtain ⟨hsum, haddress⟩ := hfits
    have hindex : (stateMachine.opIndex + opAdvance).toNat =
        stateMachine.opIndex.toNat + opAdvance.toNat := by
      rw [UInt64.toNat_add, Nat.mod_eq_of_lt hsum]
    have hproduct : (header.minimumInstructionLength.toUInt64 * ((stateMachine.opIndex + opAdvance) /
        header.maximumOperationsPerInstruction.toUInt64)).toNat =
        header.minimumInstructionLength.toNat *
          ((stateMachine.opIndex.toNat + opAdvance.toNat) /
            header.maximumOperationsPerInstruction.toNat) := by
      rw [UInt64.toNat_mul, UInt64.toNat_div, hindex, UInt8.toNat_toUInt64, UInt8.toNat_toUInt64,
        Nat.mod_eq_of_lt (by omega)]
    rw [UInt64.le_iff_toNat_le]
    show _ ≤ (stateMachine.address + _ * _).toNat
    rw [UInt64.toNat_add, hproduct, Nat.mod_eq_of_lt haddress]
    omega

theorem specialRow_le {opcode : UInt8}
    (hfits : AdvanceFits header stateMachine
      ((opcode - header.opcodeBase) / header.lineRange).toUInt64)
    (h : specialRow header opcode stateMachine = .ok stateMachine') :
    stateMachine.address ≤ stateMachine'.address := by
  unfold specialRow at h
  dsimp only at h
  -- the line has moved, which the address does not depend on
  have hle := advancePc_le (by exact hfits) h
  exact hle

/-- An extended opcode leaves the address, unless it sets it or ends the sequence. -/
theorem decodeExtended_address {table : LineInfoTable} {operand : List UInt8} {state' : DecodeState}
    {r : BinaryReader}
    (h : decodeExtended header stateMachine table (ofBytes operand) = .ok (state', r))
    (hend : (skipLeb operand).headD 0 ≠ Lne.endSequence)
    (hset : (skipLeb operand).headD 0 ≠ Lne.setAddress) :
    state'.1.address = stateMachine.address := by
  obtain ⟨_, hcode, rfl⟩ := leaves_uint8 (skipLeb operand)
  rw [decodeExtended, bind_of_ok (readUleb128_ofBytes operand)] at h
  dsimp only at h
  rw [← skipLeb, bind_of_ok hcode, if_neg hend, if_neg hset] at h
  split at h
  · obtain ⟨_, _, -, ⟨⟩⟩ := bind_ok h
    rfl
  · cases h
    rfl

/-- The standard opcodes that compute no address leave it. -/
theorem decodeStandard_address {table : LineInfoTable} {opcode : UInt8}
    (hadvance : opcode ≠ Lns.advancePc) (hconst : opcode ≠ Lns.constAddPc)
    (hfixed : opcode ≠ Lns.fixedAdvancePc) :
    Returns (decodeStandard header opcode stateMachine table)
      (·.1.address = stateMachine.address) := by
  have hbind : ∀ {β : Type} {p : Parse β} {f : β → DecodeState},
      (∀ b, (f b).1.address = stateMachine.address) →
        Returns (p >>= fun b => pure (f b)) (·.1.address = stateMachine.address) :=
    fun hf => .bind fun b => .pure (hf b)
  refine .ite (fun _ => .pure rfl) fun _ => .ite (fun h => absurd h hadvance) fun _ => ?_
  refine .ite (fun _ => hbind fun _ => rfl) fun _ => .ite (fun _ => hbind fun _ => rfl) fun _ => ?_
  refine .ite (fun _ => hbind fun _ => rfl) fun _ => .ite (fun _ => .pure rfl) fun _ => ?_
  refine .ite (fun _ => .pure rfl) fun _ => .ite (fun h => absurd h hconst) fun _ => ?_
  refine .ite (fun h => absurd h hfixed) fun _ => .ite (fun _ => .pure rfl) fun _ => ?_
  exact .ite (fun _ => .pure rfl) fun _ => .ite (fun _ => hbind fun _ => rfl) fun _ => .pure rfl

/-- An opcode that does nothing but advance. -/
theorem advanced_le {table : LineInfoTable} {opAdvance : UInt64} {state' : DecodeState}
    {r r' : BinaryReader} (hfits : AdvanceFits header stateMachine opAdvance)
    (h : (liftM (stateMachineAdvancePc stateMachine header opAdvance) >>= fun stateMachine =>
      pure (stateMachine, table) : Parse DecodeState) r = .ok (state', r')) :
    stateMachine.address ≤ state'.1.address := by
  obtain ⟨row, _, hlift, ⟨⟩⟩ := bind_ok h
  cases hrow : stateMachineAdvancePc stateMachine header opAdvance with
  | error e =>
    rw [hrow] at hlift
    cases hlift
  | ok row' =>
    rw [hrow] at hlift
    cases hlift
    exact advancePc_le hfits hrow

/-- A standard opcode moves the address up. -/
theorem decodeStandard_le {table : LineInfoTable} {opcode : UInt8} {operand : List UInt8}
    {state' : DecodeState} {r : BinaryReader} (h0 : opcode ≠ 0) (hlt : opcode < header.opcodeBase)
    (hfits : AddressFits header stateMachine (opcode :: operand))
    (h : decodeStandard header opcode stateMachine table (ofBytes operand) = .ok (state', r)) :
    stateMachine.address ≤ state'.1.address := by
  rw [AddressFits, if_neg h0, if_pos hlt] at hfits
  by_cases hadvance : opcode = Lns.advancePc
  · subst hadvance
    rw [if_pos rfl] at hfits
    rw [decodeStandard_advancePc, bind_of_ok (readUleb128_ofBytes operand)] at h
    exact advanced_le hfits h
  rw [if_neg hadvance] at hfits
  by_cases hconst : opcode = Lns.constAddPc
  · subst hconst
    rw [if_pos rfl] at hfits
    rw [decodeStandard_constAddPc] at h
    split at h
    · cases h
    · exact advanced_le hfits h
  rw [if_neg hconst] at hfits
  by_cases hfixed : opcode = Lns.fixedAdvancePc
  · subst hfixed
    rw [if_pos rfl] at hfits
    rw [decodeStandard_fixedAdvancePc] at h
    obtain ⟨fixedAdvance, r1, hread, ⟨⟩⟩ := bind_ok h
    have hsum := hfits fixedAdvance _ hread
    rw [UInt64.le_iff_toNat_le]
    show _ ≤ (stateMachine.address + fixedAdvance.toUInt64).toNat
    rw [UInt64.toNat_add, UInt16.toNat_toUInt64, Nat.mod_eq_of_lt hsum]
    exact Nat.le_add_right _ _
  · have hsame := decodeStandard_address hadvance hconst hfixed _ _ _ h
    exact (UInt64.le_of_eq hsame.symm)

/-! ### The invariant -/

/-- No sequence descends, and the address is not below the rows of the current one. -/
structure Ascends (table : LineInfoTable) (address : UInt64) : Prop where
  sorted : ∀ sequence ∈ table.sequences, sequence.entries.Pairwise (·.address ≤ ·.address)
  current : ∀ entry ∈ (currentSequence table).entries, entry.address ≤ address

theorem Ascends.mono {table : LineInfoTable} {address address' : UInt64} (h : Ascends table address)
    (hle : address ≤ address') : Ascends table address' :=
  ⟨h.sorted, fun entry he => UInt64.le_trans (h.current entry he) hle⟩

theorem currentSequence_append (table : LineInfoTable) (stateMachine : LineNumStateMachine) :
    currentSequence (appendLineInfoEntry table stateMachine) =
      if stateMachine.endSequence = true then ⟨[]⟩
      else ⟨(currentSequence table).entries ++ [lineInfoEntry stateMachine]⟩ := by
  rw [appendLineInfoEntry, currentSequence]
  split
  · exact List.getLastD_concat
  · exact List.getLastD_concat

theorem Ascends.sorted_current {table : LineInfoTable} {address : UInt64} (h : Ascends table address) :
    (currentSequence table).entries.Pairwise (·.address ≤ ·.address) := by
  rw [currentSequence, List.getLastD_eq_getLast?]
  cases hlast : table.sequences.getLast? with
  | none => exact .nil
  | some sequence => exact h.sorted sequence (List.mem_of_getLast? hlast)

/-- **A row more**, at the address. -/
theorem Ascends.append {table : LineInfoTable} (h : Ascends table stateMachine.address) :
    Ascends (appendLineInfoEntry table stateMachine) stateMachine.address := by
  have hnew : ((currentSequence table).entries ++ [lineInfoEntry stateMachine]).Pairwise
      (·.address ≤ ·.address) := by
    refine List.pairwise_append.mpr ⟨h.sorted_current, List.pairwise_singleton _ _, ?_⟩
    intro entry he row hrow
    rw [List.mem_singleton.mp hrow]
    exact h.current entry he
  have hsorted : ∀ sequence ∈ table.sequences.dropLast ++
      [⟨(currentSequence table).entries ++ [lineInfoEntry stateMachine]⟩],
      sequence.entries.Pairwise (·.address ≤ ·.address) := by
    intro sequence hs
    rcases List.mem_append.mp hs with hs | hs
    · exact h.sorted sequence (List.mem_of_mem_dropLast hs)
    · rw [List.mem_singleton.mp hs]
      exact hnew
  refine ⟨?_, ?_⟩
  · rw [appendLineInfoEntry]
    split
    · intro sequence hs
      rcases List.mem_append.mp hs with hs | hs
      · exact hsorted sequence hs
      · rw [List.mem_singleton.mp hs]
        exact .nil
    · exact hsorted
  · rw [currentSequence_append]
    split
    · exact fun _ he => (List.not_mem_nil he).elim
    · intro entry he
      rcases List.mem_append.mp he with he | he
      · exact h.current entry he
      · rw [List.mem_singleton.mp he]
        exact UInt64.le_refl _

/-- **One iteration** keeps the invariant. -/
theorem decodeStep_ascends {state state' : DecodeState} {bs : List UInt8} {r : BinaryReader}
    (hset : SetsAddress bs → (currentSequence state.2).entries = [])
    (hfits : AddressFits header state.1 bs) (h : Ascends state.2 state.1.address)
    (hrun : decodeStep header state (ofBytes bs) = .ok (.next state', r)) :
    Ascends state'.2 state'.1.address := by
  cases bs with
  | nil => cases hrun
  | cons opcode operand =>
    rw [decodeStep_cons] at hrun
    obtain ⟨_, _, hopcode, ⟨⟩⟩ := bind_ok hrun
    rw [decodeOpcode] at hopcode
    by_cases h0 : opcode = 0
    · rw [if_pos h0] at hopcode
      have htable := decodeExtended_table hopcode
      by_cases hend : (skipLeb operand).headD 0 = Lne.endSequence
      · -- the next sequence is empty, so that its address may be any
        rw [if_pos hend] at htable
        rw [htable]
        have hrow : Ascends state.2
            ({ state.1 with endSequence := true } : LineNumStateMachine).address := h
        refine ⟨hrow.append.sorted, ?_⟩
        rw [currentSequence_append, if_pos rfl]
        exact fun _ he => (List.not_mem_nil he).elim
      · rw [if_neg hend] at htable
        rw [htable]
        by_cases haddress : (skipLeb operand).headD 0 = Lne.setAddress
        · refine ⟨h.sorted, ?_⟩
          rw [hset ⟨h0, haddress⟩]
          exact fun _ he => (List.not_mem_nil he).elim
        · rw [decodeExtended_address hopcode hend haddress]
          exact h
    · rw [if_neg h0] at hopcode
      by_cases hstandard : opcode < header.opcodeBase
      · rw [if_pos hstandard] at hopcode
        have hle := decodeStandard_le h0 hstandard hfits hopcode
        rw [decodeStandard_table opcode _ _ _ hopcode]
        split
        · exact h.append.mono hle
        · exact h.mono hle
      · rw [if_neg hstandard] at hopcode
        rw [AddressFits, if_neg h0, if_neg hstandard] at hfits
        obtain ⟨row, hrow, rfl⟩ := decodeSpecial_eq hopcode
        exact (h.mono (specialRow_le hfits hrow)).append

/-! ### Runs -/

/-- **The addresses of a sequence ascend**: they do not descend, none is above that of an entry that
ends the sequence, and all lie between the first and the last. -/
structure AscendingSequence (sequence : LineInfoSequence) : Prop where
  sorted : sequence.entries.Pairwise (·.address ≤ ·.address)
  endSequence : ∀ last ∈ sequence.entries, last.endSequence = true →
    ∀ entry ∈ sequence.entries, entry.address ≤ last.address
  between : ∀ entry ∈ sequence.entries, ∀ first ∈ sequence.entries.head?,
    ∀ last ∈ sequence.entries.getLast?, first.address ≤ entry.address ∧ entry.address ≤ last.address

theorem le_getLast {entries : List LineInfoEntry} (h : entries.Pairwise (·.address ≤ ·.address))
    {entry last : LineInfoEntry} (he : entry ∈ entries) (hlast : last ∈ entries.getLast?) :
    entry.address ≤ last.address := by
  obtain ⟨init, rfl⟩ := List.getLast?_eq_some_iff.mp hlast
  rcases List.mem_append.mp he with he | he
  · exact (List.pairwise_append.mp h).2.2 entry he last (List.mem_singleton_self last)
  · rw [List.mem_singleton.mp he]
    exact UInt64.le_refl _

theorem head_le {entries : List LineInfoEntry} (h : entries.Pairwise (·.address ≤ ·.address))
    {entry first : LineInfoEntry} (he : entry ∈ entries) (hfirst : first ∈ entries.head?) :
    first.address ≤ entry.address := by
  obtain ⟨rest, rfl⟩ := List.head?_eq_some_iff.mp hfirst
  rcases List.mem_cons.mp he with rfl | he
  · exact UInt64.le_refl _
  · exact List.rel_of_pairwise_cons h he

/-- The invariant in the states that the loop visits. -/
theorem ascends_of_visits {program : List UInt8} (hclimbs : Climbs header program)
    {y : DecodeState × BinaryReader}
    (hv : Visits (decodeCond program.length (lineProgLength header)) (decodeStep header)
      (decodeStart header, ofBytes program) y) : Ascends y.1.2 y.1.1.address := by
  have hstart : Ascends (decodeStart header).2 (decodeStart header).1.address :=
    ⟨fun _ hs => (List.not_mem_nil hs).elim, fun _ he => (List.not_mem_nil he).elim⟩
  have hboth := hv.invariant (P := fun state r =>
    Visits (decodeCond program.length (lineProgLength header)) (decodeStep header)
      (decodeStart header, ofBytes program) (state, r) ∧ Ascends state.2 state.1.address)
    (fun state r state' r' ⟨hreached, hinv⟩ hc hstep => by
      obtain ⟨bs, hbs⟩ := visits_ofBytes hreached
      obtain rfl : r = ofBytes bs := congrArg Prod.snd hbs
      exact ⟨hreached.trans (.step hc hstep (.refl _)),
        decodeStep_ascends (hclimbs.setAddress state bs ⟨hreached, hc⟩)
          (hclimbs.fits state bs ⟨hreached, hc⟩) hinv hstep⟩)
    ⟨.refl _, hstart⟩
  exact hboth.2

/-- **Addresses ascend within a sequence**, for every program that climbs. -/
theorem decodeLineNumProg_ascending {program : List UInt8} (hclimbs : Climbs header program)
    {table : LineInfoTable} {r : BinaryReader}
    (h : decodeLineNumProg host header (ofBytes program) = .ok (table, r)) :
    ∀ sequence ∈ table.sequences, AscendingSequence sequence := by
  obtain ⟨stateMachine, hloop⟩ := decodeLineNumProg_ok h
  have hascends : ∃ address, Ascends table address := by
    obtain ⟨y, hv, ⟨-, rfl⟩ | ⟨-, hstop⟩⟩ := whileLoop_ok hloop
    · exact ⟨_, ascends_of_visits hclimbs hv⟩
    · obtain ⟨bs, hbs⟩ := visits_ofBytes hv
      rw [hbs] at hv hstop
      obtain ⟨-, hsame⟩ := decodeStep_stop hstop
      have hinv := ascends_of_visits hclimbs hv
      rw [← hsame] at hinv
      exact ⟨_, hinv⟩
  obtain ⟨address, hascends⟩ := hascends
  have hcut : ∃ rows, CutInto rows table := by
    obtain ⟨rows, -, rfl⟩ := decodeLineNumProg_trace h
    exact ⟨_, CutInto.nil.foldl rows⟩
  obtain ⟨rows, hcut⟩ := hcut
  intro sequence hs
  have hsorted := hascends.sorted sequence hs
  refine ⟨hsorted, ?_, fun entry he first hfirst last hlast =>
    ⟨head_le hsorted he hfirst, le_getLast hsorted he hlast⟩⟩
  intro last hlast hend entry he
  exact le_getLast hsorted he (hcut.getLast?_of_endSequence hs hlast hend)

end

/-! ### A program that climbs -/

/-- The header of `sampleHeader` before a program of ten bytes. -/
def tenByteHeader : LineNumProgHeader :=
  { sampleProgHeader with unitLength := sampleProgHeader.headerLength + 18 }

/-- `DW_LNE_set_address 5`, `DW_LNS_copy`, `DW_LNS_advance_pc 3`, `DW_LNE_end_sequence`. -/
def climbingProgram : List UInt8 := [0, 2, 2, 5, 1, 2, 3, 0, 1, 1]

theorem climbs_climbingProgram : Climbs tenByteHeader climbingProgram := by
  have hall : ∀ state bs, DecodesAt tenByteHeader climbingProgram state bs →
      (SetsAddress bs → (currentSequence state.2).entries = []) ∧
        AddressFits tenByteHeader state.1 bs := by
    rintro state bs ⟨hv, hc⟩
    cases hv with
    | refl => exact ⟨fun _ => rfl, trivial⟩
    | step _ hb hv =>
      cases hb
      cases hv with
      | refl => exact ⟨fun h => absurd h.1 (by decide), trivial⟩
      | step _ hb hv =>
        cases hb
        cases hv with
        | refl => exact ⟨fun h => absurd h.1 (by decide), by decide, by decide⟩
        | step _ hb hv =>
          cases hb
          cases hv with
          | refl => exact ⟨fun h => absurd h.2 (by decide), trivial⟩
          | step _ hb hv =>
            cases hb
            cases hv with
            | refl => cases hc
            | step hc _ _ => cases hc
  exact ⟨fun state bs h => (hall state bs h).1, fun state bs h => (hall state bs h).2⟩

theorem decodeLineNumProg_ascending_sample : ∃ table,
    decodeLineNumProg (.zeroed true) tenByteHeader (ofBytes climbingProgram) =
        .ok (table, ofBytes []) ∧
      table.rows.map (·.address) = [5, 8] ∧
      ∀ sequence ∈ table.sequences, AscendingSequence sequence :=
  have hok : decodeLineNumProg (.zeroed true) tenByteHeader (ofBytes climbingProgram) = _ := rfl
  ⟨_, hok, rfl, decodeLineNumProg_ascending climbs_climbingProgram hok⟩

end Dabugger.Dwarf.Ascending
