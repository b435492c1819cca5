import Dabugger.Debug.Assembly
import Dabugger.Debug.StoreExact
import Dabugger.Dwarf.Section
import Dabugger.Lib.Log

/-! # Addresses of the line table, and `.text`

The addresses of the line table come from a section of their own. `get_assembly_buffer` makes windows of
`.text` of them without a check; `get_text_data` checks them, by an assertion. A toggle returns where the
byte can be read (`toggleBreakpoint_returns_iff`, `toggleSourceBreakpoint_returns_iff`).
`AddressesChecked` says that no window leaves the buffer of `.text` and the toggles return.
`addressesChecked_iff` says for which tables that is so in every session that is reached. -/

namespace Dabugger.Debug.TextChecks

open Dabugger.Lib.Arrays Dabugger.Lib.Runs Dabugger.Lib.Log Dabugger.Base
open Dabugger.Base.BinaryReader Dabugger.Dwarf.Types Dabugger.Dwarf.Program Dabugger.Debug.Session
open Dabugger.Debug.Store Dabugger.Debug.StoreRuns Dabugger.Debug.Events Dabugger.Debug.StoreExact
open Dabugger.Debug.Inferior Dabugger.Debug.Buffers Dabugger.Debug.Assembly

/-! ### Windows -/

/-- What `ZydisDisassembleIntel` is called with: an offset in the buffer of `.text`, and a length. -/
structure Window where
  offset : ℕ
  length : ℕ
  deriving DecidableEq

/-- The window is in a buffer of this size. -/
def Window.Inside (size : ℕ) (window : Window) : Prop := window.offset + window.length ≤ size

/-- `disassemble`, with a log of the windows. -/
def disassembleLog (zydis : Zydis) (textSection : SectionBuffer) (endAddr : UInt64) :
    ℕ → UInt64 → UInt32 → AssemblyBuffer → Logged Window Fault AssemblyBuffer
  | 0, _, _, _ => fail .diverges
  | n + 1, instructionAddr, lineNum, asmBuffer => do
    emit ⟨(instructionAddr - textSection.address).toNat, (endAddr - instructionAddr).toNat⟩
    let window ← textWindow textSection instructionAddr endAddr
    match zydis.disassembleIntel instructionAddr window with
    | none => return asmBuffer
    | some (text, length) => do
      let textBuffer ← setLine asmBuffer.textBuffer lineNum text
      let addresses := (resize 0 textBuffer.lineCount.toNat asmBuffer.addresses).set lineNum.toNat
        instructionAddr
      disassembleLog zydis textSection endAddr n (instructionAddr + UInt64.ofNat length)
        (lineNum + 1) { textBuffer, addresses }

/-- `disassembleSequence`, with a log of the windows. -/
def disassembleSequenceLog (zydis : Zydis) (textSection : SectionBuffer)
    (asmBuffer : AssemblyBuffer) (sequence : LineInfoSequence) :
    Logged Window Fault AssemblyBuffer :=
  match sequence.entries with
  | [] => pure asmBuffer
  | entry :: entries =>
    let startAddr := entry.address
    let endAddr := ((entry :: entries).getLast (List.cons_ne_nil _ _)).address
    disassembleLog zydis textSection endAddr ((endAddr - startAddr).toNat + 1) startAddr 0 asmBuffer

/-- `get_assembly_buffer`, with a log of the windows. -/
def getAssemblyBufferLog (zydis : Zydis) (session : DebugSession) (compUnitIndex : ℕ) :
    Logged Window Fault (Option AssemblyBuffer) := do
  match session.lineInfo.compUnits[compUnitIndex]? with
  | none => return none
  | some compUnit => do
    let asmBuffer ← compUnit.table.sequences.foldlM
      (disassembleSequenceLog zydis session.programData.sections.text) {}
    return some asmBuffer

/-! ### Without the log -/

section
variable (zydis : Zydis) (textSection : SectionBuffer)

theorem result_disassembleLog (endAddr : UInt64) :
    ∀ (n : ℕ) (address : UInt64) (lineNum : UInt32) (asmBuffer : AssemblyBuffer),
      (disassembleLog zydis textSection endAddr n address lineNum asmBuffer).result =
        disassemble zydis textSection endAddr n address lineNum asmBuffer
  | 0, _, _, _ => rfl
  | n + 1, address, lineNum, asmBuffer => by
    unfold disassembleLog disassemble
    rw [result_emit_bind, result_lift_bind]
    refine bind_congr fun window => ?_
    cases zydis.disassembleIntel address window with
    | none => rfl
    | some r =>
      obtain ⟨text, length⟩ := r
      dsimp only
      rw [result_lift_bind]
      exact bind_congr fun textBuffer => result_disassembleLog endAddr n _ _ _

theorem result_disassembleSequenceLog (asmBuffer : AssemblyBuffer) (sequence : LineInfoSequence) :
    (disassembleSequenceLog zydis textSection asmBuffer sequence).result =
      disassembleSequence zydis textSection asmBuffer sequence := by
  unfold disassembleSequenceLog disassembleSequence
  cases sequence.entries with
  | nil => rfl
  | cons entry entries => exact result_disassembleLog zydis textSection _ _ _ _ _

/-- **Without the log**, the function is `get_assembly_buffer`. -/
theorem result_getAssemblyBufferLog (session : DebugSession) (compUnitIndex : ℕ) :
    (getAssemblyBufferLog zydis session compUnitIndex).result =
      getAssemblyBuffer zydis session compUnitIndex := by
  unfold getAssemblyBufferLog getAssemblyBuffer
  cases session.lineInfo.compUnits[compUnitIndex]? with
  | none => rfl
  | some compUnit =>
    dsimp only
    rw [result_bind, result_foldlM (result_disassembleSequenceLog zydis _)]
    rfl

end

/-! ### Where the windows are inside -/

/-- **The windows of the sequences are inside** the buffer, as far as the loop comes: it ends at a
sequence with more instructions than an `unsigned` counts. -/
def WindowsInside (zydis : Zydis) (textSection : SectionBuffer) : List LineInfoSequence → Prop
  | [] => True
  | sequence :: sequences => SequenceInside textSection sequence ∧
      ((sequenceListing zydis textSection sequence).length < 2 ^ 32 →
        WindowsInside zydis textSection sequences)

section
variable {zydis : Zydis} {textSection : SectionBuffer}

/-- From a window inside the buffer on, all are. -/
theorem emits_disassembleLog {endAddr : UInt64} :
    ∀ {n : ℕ} {address : UInt64} {lineNum : UInt32} {asmBuffer : AssemblyBuffer},
      WindowInside textSection address endAddr →
      Emits (Window.Inside textSection.size)
        (disassembleLog zydis textSection endAddr n address lineNum asmBuffer)
  | 0, _, _, _, _ => .fail _
  | n + 1, address, lineNum, asmBuffer, hin => by
    unfold disassembleLog
    refine emits_emit_bind_iff.mpr ⟨hin, .bind (.lift _) fun window hwin => ?_⟩
    replace hwin : textWindow textSection address endAddr = .ok window := hwin
    obtain rfl := Except.ok.inj (hwin.symm.trans hin.textWindow)
    have hlen := hin.length_windowBytes
    cases hd : zydis.disassembleIntel address (windowBytes textSection address endAddr) with
    | none => exact .pure _
    | some r =>
      obtain ⟨text, length⟩ := r
      have hle := zydis.length_le hd
      rw [hlen] at hle
      exact .bind (.lift _) fun textBuffer _ => emits_disassembleLog (hin.advance hle)

/-- The windows of a sequence are inside exactly if the first one is. -/
theorem emits_disassembleSequenceLog_iff (asmBuffer : AssemblyBuffer)
    (sequence : LineInfoSequence) :
    Emits (Window.Inside textSection.size)
        (disassembleSequenceLog zydis textSection asmBuffer sequence) ↔
      SequenceInside textSection sequence := by
  unfold disassembleSequenceLog SequenceInside
  cases hs : sequence.entries with
  | nil => exact iff_of_true (.pure _) nofun
  | cons entry entries =>
    constructor
    · rintro h _ _ ⟨⟩
      unfold disassembleLog at h
      exact (emits_emit_bind_iff.mp h).1
    · intro h
      exact emits_disassembleLog (h entry entries rfl)

/-- The line numbers suffice for a sequence, or the loop ends there. -/
theorem disassembleSequence_ok_iff {sequence : LineInfoSequence}
    (h : SequenceInside textSection sequence) (asmBuffer : AssemblyBuffer) :
    (∃ asmBuffer', disassembleSequence zydis textSection asmBuffer sequence = .ok asmBuffer') ↔
      (sequenceListing zydis textSection sequence).length < 2 ^ 32 := by
  rw [disassembleSequence_eq zydis h]
  split
  · rename_i hnil
    exact iff_of_true ⟨_, rfl⟩ (by rw [hnil]; exact Nat.two_pow_pos 32)
  · split
    · rename_i hlen
      exact iff_of_true ⟨_, rfl⟩ hlen
    · rename_i hlen
      exact iff_of_false nofun hlen

theorem emits_foldlM_iff : ∀ (sequences : List LineInfoSequence) (asmBuffer : AssemblyBuffer),
    Emits (Window.Inside textSection.size)
        (sequences.foldlM (disassembleSequenceLog zydis textSection) asmBuffer) ↔
      WindowsInside zydis textSection sequences
  | [], _ => iff_of_true (.pure _) trivial
  | sequence :: sequences, asmBuffer => by
    rw [List.foldlM_cons, emits_bind_iff, emits_disassembleSequenceLog_iff, WindowsInside,
      result_disassembleSequenceLog]
    refine and_congr_right fun hin => ?_
    have hok := @disassembleSequence_ok_iff zydis _ _ hin asmBuffer
    constructor
    · intro h hlen
      obtain ⟨asmBuffer', hseq⟩ := hok.mpr hlen
      exact (emits_foldlM_iff sequences asmBuffer').mp (h asmBuffer' hseq)
    · intro h asmBuffer' hseq
      exact (emits_foldlM_iff sequences asmBuffer').mpr (h (hok.mp ⟨asmBuffer', hseq⟩))

/-- **The windows of a unit.** -/
theorem emits_getAssemblyBufferLog_iff (session : DebugSession) (compUnitIndex : ℕ) :
    Emits (Window.Inside session.programData.sections.text.size)
        (getAssemblyBufferLog zydis session compUnitIndex) ↔
      ∀ compUnit, session.lineInfo.compUnits[compUnitIndex]? = some compUnit →
        WindowsInside zydis session.programData.sections.text compUnit.table.sequences := by
  unfold getAssemblyBufferLog
  cases session.lineInfo.compUnits[compUnitIndex]? with
  | none => exact iff_of_true (.pure _) nofun
  | some compUnit =>
    dsimp only
    rw [emits_bind_iff, emits_foldlM_iff]
    constructor
    · rintro h _ ⟨⟩
      exact h.1
    · intro h
      exact ⟨h compUnit rfl, fun _ _ => .pure _⟩

end

/-! ### The byte at an address -/

theorem cAssert_eq_ok_iff (host : Host) (p : Bool) :
    cAssert host p = .ok () ↔ (host.asserts = true → p = true) := by
  unfold cAssert
  cases host.asserts <;> cases p <;> simp

/-- The byte is in the buffer of `.text`, and the assertion of `get_text_data` holds if it is compiled
in. -/
structure Readable (host : Host) (session : DebugSession) (address : UInt64) : Prop where
  inside : (address - session.programData.sections.text.address).toNat <
    session.programData.sections.text.size
  asserted : host.asserts = true → InText session address

instance (host : Host) (session : DebugSession) (address : UInt64) :
    Decidable (Readable host session address) :=
  decidable_of_iff (_ ∧ _) ⟨fun h => ⟨h.1, h.2⟩, fun h => ⟨h.inside, h.asserted⟩⟩

section
variable {host : Host} {session : DebugSession} {address : UInt64} {compUnitIndex lineNum : ℕ}

theorem getTextData_returns_iff :
    Returns (getTextData host session address) ↔ Readable host session address := by
  have hin : (decide (address ≥ session.programData.sections.text.address) &&
      decide (address < session.programData.sections.text.address +
        UInt64.ofNat session.programData.sections.text.size)) = true ↔ InText session address := by
    simp [InText]
  unfold getTextData
  dsimp only
  rw [returns_bind_iff]
  constructor
  · rintro ⟨⟨⟩, hassert, byte, h⟩
    rw [cAssert_eq_ok_iff, hin] at hassert
    refine ⟨?_, hassert⟩
    split at h
    · next hbyte => exact (List.getElem?_eq_some_iff.mp hbyte).1
    · cases h
  · intro h
    refine ⟨(), (cAssert_eq_ok_iff host _).mpr fun ha => hin.mpr (h.asserted ha), ?_⟩
    rw [List.getElem?_eq_getElem h.inside]
    exact returns_pure _

/-! ### Breakpoints -/

theorem addBreakpoint_returns_iff :
    Returns (addBreakpoint host session address) ↔
      Listed session address ∨ Readable host session address := by
  have hany : (session.breakpoints.any (·.address = address)) = true ↔ Listed session address := by
    simp [Listed]
  unfold addBreakpoint
  split
  · next hlisted => exact iff_of_true (returns_pure _) (.inl (hany.mp hlisted))
  · next hlisted =>
    rw [or_iff_right fun hl => hlisted (hany.mpr hl), ← getTextData_returns_iff]
    exact returns_bind_iff_left fun byte => returns_pure _

/-- **`toggle_breakpoint`** returns at a breakpoint, and where the byte can be read. -/
theorem toggleBreakpoint_returns_iff (hk : StoreKeys session) :
    Returns (toggleBreakpoint host session address) ↔
      Listed session address ∨ Readable host session address := by
  have hany : (session.breakpoints.any (·.address = address)) = true ↔ Listed session address := by
    simp [Listed]
  unfold toggleBreakpoint
  split
  · next hlisted =>
    exact iff_of_true (.of_ok (hk.removeBreakpoint_eq address)) (.inl (hany.mp hlisted))
  · rw [← addBreakpoint_returns_iff]
    exact returns_bind_iff_left fun _ => returns_pure _

/-! ### Source breakpoints -/

theorem getInstructionsForLine_returns_iff :
    Returns (getInstructionsForLine host session compUnitIndex lineNum) ↔
      (host.asserts = true → lineNum ≠ 0) ∧ compUnitIndex < session.lineInfo.compUnits.length := by
  unfold getInstructionsForLine
  rw [returns_bind_iff]
  constructor
  · rintro ⟨⟨⟩, hassert, h⟩
    rw [cAssert_eq_ok_iff, decide_eq_true_iff] at hassert
    obtain ⟨compUnit, hunit, -⟩ := returns_bind_iff.mp h
    refine ⟨hassert, ?_⟩
    unfold index at hunit
    split at hunit
    · next hget => exact (List.getElem?_eq_some_iff.mp hget).1
    · cases hunit
  · rintro ⟨hassert, hunit⟩
    refine ⟨(), (cAssert_eq_ok_iff host _).mpr fun ha => decide_eq_true (hassert ha), ?_⟩
    refine returns_bind_iff.mpr ⟨session.lineInfo.compUnits[compUnitIndex], ?_, returns_pure _⟩
    rw [index, List.getElem?_eq_getElem hunit]

/-- There is the unit, the line has a number, and where it has a first statement a breakpoint can be
set at that. -/
structure Settable (host : Host) (session : DebugSession) (compUnitIndex lineNum : ℕ) : Prop where
  unit : compUnitIndex < session.lineInfo.compUnits.length
  numbered : host.asserts = true → lineNum ≠ 0
  row : ∀ row, firstStmtRow session compUnitIndex lineNum = some row →
    Listed session row.address ∨ Readable host session row.address

theorem setSourceBreakpoint_returns_iff (hnew : ¬ LineListed session compUnitIndex lineNum) :
    Returns (setSourceBreakpoint host session compUnitIndex lineNum) ↔
      Settable host session compUnitIndex lineNum := by
  have hany : ¬ (session.srcBreakpoints.any fun sb =>
      decide (sb.compUnitIndex = compUnitIndex ∧ sb.lineNum = lineNum)) = true := by
    intro h
    obtain ⟨sb, hsb, hkey⟩ := List.any_eq_true.mp h
    obtain ⟨rfl, rfl⟩ := of_decide_eq_true hkey
    exact hnew ⟨sb, hsb, rfl⟩
  unfold setSourceBreakpoint
  rw [if_neg hany]
  by_cases hline : Returns (getInstructionsForLine host session compUnitIndex lineNum)
  · obtain ⟨rows, hrows⟩ := hline
    obtain ⟨hnumbered, hunit⟩ := getInstructionsForLine_returns_iff.mp (.of_ok hrows)
    have hsettable : Settable host session compUnitIndex lineNum ↔
        ∀ row, firstStmtRow session compUnitIndex lineNum = some row →
          Listed session row.address ∨ Readable host session row.address :=
      ⟨Settable.row, fun hrow => ⟨hunit, hnumbered, hrow⟩⟩
    rw [hsettable, except_bind_of_ok hrows, getInstructionsForLine_find? hrows]
    cases firstStmtRow session compUnitIndex lineNum with
    | none => exact iff_of_true (returns_pure _) nofun
    | some row =>
      dsimp only
      rw [returns_bind_iff_left, addBreakpoint_returns_iff]
      · exact ⟨by rintro h _ ⟨⟩; exact h, fun h => h row rfl⟩
      · rintro ⟨_, isSet⟩
        cases isSet <;> exact returns_pure _
  · refine iff_of_false (fun h => hline ?_) fun h =>
      hline (getInstructionsForLine_returns_iff.mpr ⟨h.numbered, h.unit⟩)
    obtain ⟨rows, hrows, -⟩ := returns_bind_iff.mp h
    exact .of_ok hrows

/-- **`toggle_source_breakpoint`** returns at a line that has a breakpoint, and at one that can have
one. -/
theorem toggleSourceBreakpoint_returns_iff (hk : StoreKeys session) :
    Returns (toggleSourceBreakpoint host session compUnitIndex lineNum) ↔
      LineListed session compUnitIndex lineNum ∨ Settable host session compUnitIndex lineNum := by
  unfold toggleSourceBreakpoint
  split
  · next hany =>
    obtain ⟨sb, hsb, hkey⟩ := List.any_eq_true.mp hany
    refine iff_of_true (removeSourceBreakpoint_returns hk _ _) (.inl ⟨sb, hsb, ?_⟩)
    simpa [lineKey] using hkey
  · next hany =>
    have hnew : ¬ LineListed session compUnitIndex lineNum := by
      rintro ⟨sb, hsb, hkey⟩
      exact any_line_eq_false hany sb hsb hkey
    rw [or_iff_right hnew, ← setSourceBreakpoint_returns_iff hnew]
    exact returns_bind_iff_left fun _ => returns_pure _

end

/-! ### The addresses of the assembly -/

section
variable {zydis : Zydis} {textSection : SectionBuffer}

/-- The instructions of a window inside the buffer are inside the buffer. -/
theorem listing_offset_lt {endAddr : UInt64} {line : UInt64 × List UInt8} :
    ∀ {n : ℕ} {address : UInt64}, WindowInside textSection address endAddr →
      line ∈ listing zydis n address (windowBytes textSection address endAddr) →
      (line.1 - textSection.address).toNat < textSection.size
  | 0, _, _, hline => absurd hline List.not_mem_nil
  | n + 1, address, hin, hline => by
    have hlen := hin.length_windowBytes
    cases hd : zydis.disassembleIntel address (windowBytes textSection address endAddr) with
    | none =>
      rw [listing_of_none hd] at hline
      exact absurd hline List.not_mem_nil
    | some r =>
      obtain ⟨text, length⟩ := r
      have hpos := zydis.length_pos hd
      have hle := zydis.length_le hd
      rw [hlen] at hle
      rw [listing_of_some hd, ← hin.windowBytes_advance hle] at hline
      rcases List.mem_cons.mp hline with rfl | hline
      · unfold WindowInside at hin
        dsimp only
        omega
      · exact listing_offset_lt (hin.advance hle) hline

theorem sequenceListing_offset_lt {sequence : LineInfoSequence}
    (hin : SequenceInside textSection sequence) {line : UInt64 × List UInt8}
    (hline : line ∈ sequenceListing zydis textSection sequence) :
    (line.1 - textSection.address).toNat < textSection.size := by
  unfold sequenceListing sequenceWindow at hline
  cases hs : sequence.entries with
  | nil =>
    rw [hs] at hline
    exact absurd hline List.not_mem_nil
  | cons entry entries =>
    rw [hs] at hline
    exact listing_offset_lt (hin entry entries hs) hline

theorem mem_lastNonempty {sequences : List LineInfoSequence} {line : UInt64 × List UInt8}
    (h : line ∈ lastNonempty [] (sequences.map (sequenceListing zydis textSection))) :
    ∃ sequence ∈ sequences, line ∈ sequenceListing zydis textSection sequence := by
  rcases List.mem_cons.mp
    (lastNonempty_mem (sequences.map (sequenceListing zydis textSection)) []) with hnil | hmem
  · rw [hnil] at h
    exact absurd h List.not_mem_nil
  · obtain ⟨sequence, hseq, he⟩ := List.mem_map.mp hmem
    exact ⟨sequence, hseq, by rwa [he]⟩

/-- Where the line numbers suffice, the loop comes to all sequences. -/
theorem WindowsInside.sequenceInside : ∀ {sequences : List LineInfoSequence},
    WindowsInside zydis textSection sequences → Numbered zydis textSection sequences →
      ∀ sequence ∈ sequences, SequenceInside textSection sequence
  | [], _, _ => nofun
  | _ :: _, ⟨hin, hrest⟩, hnum => by
    obtain ⟨hlen, hnum⟩ := List.forall_mem_cons.mp hnum
    exact List.forall_mem_cons.mpr ⟨hin, (hrest hlen).sequenceInside hnum⟩

/-- They suffice where it ends well. -/
theorem WindowsInside.numbered : ∀ {sequences : List LineInfoSequence}
    {asmBuffer asmBuffer' : AssemblyBuffer}, WindowsInside zydis textSection sequences →
      sequences.foldlM (disassembleSequence zydis textSection) asmBuffer = .ok asmBuffer' →
      Numbered zydis textSection sequences
  | [], _, _, _, _ => nofun
  | _ :: _, asmBuffer, _, ⟨hin, hrest⟩, h => by
    rw [List.foldlM_cons] at h
    obtain ⟨asmBuffer₁, hseq, h⟩ := except_bind_ok h
    have hlen := (disassembleSequence_ok_iff hin asmBuffer).mp ⟨asmBuffer₁, hseq⟩
    exact List.forall_mem_cons.mpr ⟨hlen, (hrest hlen).numbered h⟩

end

/-- The addresses in the assembly of a unit whose windows are inside. -/
theorem getAssemblyBuffer_addresses {zydis : Zydis} {session : DebugSession} {compUnitIndex : ℕ}
    {compUnit : LineInfoCompUnit} {asmBuffer : AssemblyBuffer}
    (hu : session.lineInfo.compUnits[compUnitIndex]? = some compUnit)
    (hin : WindowsInside zydis session.programData.sections.text compUnit.table.sequences)
    (hget : getAssemblyBuffer zydis session compUnitIndex = .ok (some asmBuffer)) :
    Numbered zydis session.programData.sections.text compUnit.table.sequences ∧
      asmBuffer.addresses = (lastNonempty [] (compUnit.table.sequences.map
        (sequenceListing zydis session.programData.sections.text))).map Prod.fst := by
  have hnum : Numbered zydis session.programData.sections.text compUnit.table.sequences := by
    unfold getAssemblyBuffer at hget
    rw [hu] at hget
    obtain ⟨_, hfold, -⟩ := except_bind_ok hget
    exact hin.numbered hfold
  obtain ⟨-, rfl⟩ := (getAssemblyBuffer_eq zydis hu (hin.sequenceInside hnum) asmBuffer).mp hget
  exact ⟨hnum, by simp [writeFrom]⟩

/-! ### Reachable sessions -/

/-- A session that operations and events lead to, from the one of this program. -/
def ReachableFrom (host : Host) (programData : ProgramData) (lineInfo : LineInfo)
    (session : DebugSession) : Prop :=
  ∃ steps tracee,
    Run (SessionStep host) ⟨initDebugSession programData lineInfo, none⟩ steps ⟨session, tracee⟩

theorem ReachableFrom.sameProgram {host : Host} {programData : ProgramData} {lineInfo : LineInfo}
    {session : DebugSession} (h : ReachableFrom host programData lineInfo session) :
    SameProgram (initDebugSession programData lineInfo) session := by
  obtain ⟨steps, tracee, r⟩ := h
  exact r.invariant (I := fun w => SameProgram (initDebugSession programData lineInfo) w.session)
    (fun _ _ _ hs h => h.trans (hs.sameProgram h.inv)) ⟨StoreInv.of_empty rfl rfl, rfl, rfl⟩

/-! ### The checks -/

/-- An address that a row of a unit or its assembly offers for a breakpoint. -/
inductive Offered (zydis : Zydis) (session : DebugSession) (address : UInt64) : Prop
  | row {compUnit : LineInfoCompUnit} {row : LineInfoEntry}
      (hu : compUnit ∈ session.lineInfo.compUnits) (hr : row ∈ compUnit.table.rows)
      (hend : row.endSequence = false) (ha : row.address = address)
  | assembly {compUnitIndex : ℕ} {asmBuffer : AssemblyBuffer}
      (hget : getAssemblyBuffer zydis session compUnitIndex = .ok (some asmBuffer))
      (ha : address ∈ asmBuffer.addresses)

/-- **Addresses are checked before use**: the disassembler is given windows of the buffer only, and no
toggle of a line or of an address that is offered fails at the assertion of `get_text_data`, or where
this is not compiled in at an access outside of the buffer. -/
structure AddressesChecked (host : Host) (zydis : Zydis) (session : DebugSession) : Prop where
  windows : ∀ compUnitIndex, Emits (Window.Inside session.programData.sections.text.size)
    (getAssemblyBufferLog zydis session compUnitIndex)
  lines : ∀ compUnitIndex lineNum, compUnitIndex < session.lineInfo.compUnits.length →
    1 ≤ lineNum → Returns (toggleSourceBreakpoint host session compUnitIndex lineNum)
  addresses : ∀ address, Offered zydis session address →
    Returns (toggleBreakpoint host session address)

/-- **The line table suits `.text`**: the windows of the sequences are inside, and the bytes of the rows
that are no end of a sequence can be read; and where the assertion is compiled in, `.text` does not wrap
around where a unit has instructions to show. -/
structure TableSuits (host : Host) (zydis : Zydis) (session : DebugSession) : Prop where
  windows : ∀ compUnit ∈ session.lineInfo.compUnits,
    WindowsInside zydis session.programData.sections.text compUnit.table.sequences
  rows : ∀ compUnit ∈ session.lineInfo.compUnits, ∀ row ∈ compUnit.table.rows,
    row.endSequence = false → Readable host session row.address
  noWrap : host.asserts = true → ∀ compUnit ∈ session.lineInfo.compUnits,
    Numbered zydis session.programData.sections.text compUnit.table.sequences →
    ∀ sequence ∈ compUnit.table.sequences,
      Contributes zydis session.programData.sections.text sequence = true →
      session.programData.sections.text.address.toNat +
        session.programData.sections.text.size < 2 ^ 64

theorem Readable.of_programData {host : Host} {session session' : DebugSession} {address : UInt64}
    (h : Readable host session address) (hp : session'.programData = session.programData) :
    Readable host session' address where
  inside := by rw [hp]; exact h.inside
  asserted := by unfold InText; rw [hp]; exact h.asserted

/-- It depends on the program only. -/
theorem TableSuits.of_sameProgram {host : Host} {zydis : Zydis} {session session' : DebugSession}
    (h : TableSuits host zydis session) (hp : SameProgram session session') :
    TableSuits host zydis session' where
  windows := by rw [hp.lineInfo, hp.programData]; exact h.windows
  rows := by
    rw [hp.lineInfo]
    exact fun compUnit hu row hr hend => (h.rows compUnit hu row hr hend).of_programData hp.programData
  noWrap := by rw [hp.lineInfo, hp.programData]; exact h.noWrap

/-- An offset of the buffer is an address in `.text`, if that does not wrap around. -/
theorem inText_of_offset_lt {session : DebugSession} {address : UInt64}
    (hlt : (address - session.programData.sections.text.address).toNat <
      session.programData.sections.text.size)
    (hwrap : session.programData.sections.text.address.toNat +
      session.programData.sections.text.size < 2 ^ 64) : InText session address := by
  have hadd : (address - session.programData.sections.text.address +
      session.programData.sections.text.address).toNat = _ := UInt64.toNat_add _ _
  rw [UInt64.sub_add_cancel, Nat.mod_eq_of_lt (by omega)] at hadd
  exact inText_iff.mpr ⟨by omega, by omega, hwrap⟩

/-- The bytes of the addresses that are offered can be read. -/
theorem Offered.readable {host : Host} {zydis : Zydis} {session : DebugSession} {address : UInt64}
    (h : Offered zydis session address) (hs : TableSuits host zydis session) :
    Readable host session address := by
  cases h with
  | row hu hr hend haddr =>
    rw [← haddr]
    exact hs.rows _ hu _ hr hend
  | assembly hget hmem =>
    have hlt := (getAssemblyBuffer_ne_none_iff hget).mp nofun
    have hunit := List.getElem_mem hlt
    have hwindows := hs.windows _ hunit
    obtain ⟨hnum, haddresses⟩ :=
      getAssemblyBuffer_addresses (List.getElem?_eq_getElem hlt) hwindows hget
    rw [haddresses] at hmem
    obtain ⟨line, hline, rfl⟩ := List.mem_map.mp hmem
    obtain ⟨sequence, hseq, hline⟩ := mem_lastNonempty hline
    have hcontributes := (sequenceListing_ne_nil_iff _ _ _).mp (List.ne_nil_of_mem hline)
    have hinside := sequenceListing_offset_lt (hwindows.sequenceInside hnum sequence hseq) hline
    exact ⟨hinside, fun ha =>
      inText_of_offset_lt hinside (hs.noWrap ha _ hunit hnum sequence hseq hcontributes)⟩

/-- Where the table suits, the addresses are checked. -/
theorem TableSuits.addressesChecked {host : Host} {zydis : Zydis} {session : DebugSession}
    (h : TableSuits host zydis session) (hk : StoreKeys session) :
    AddressesChecked host zydis session where
  windows compUnitIndex := by
    refine (emits_getAssemblyBufferLog_iff session compUnitIndex).mpr fun compUnit hu => ?_
    exact h.windows compUnit (List.mem_of_getElem? hu)
  lines compUnitIndex lineNum hu hn := by
    refine (toggleSourceBreakpoint_returns_iff hk).mpr (.inr ⟨hu, fun _ => by omega, ?_⟩)
    intro row hrow
    obtain ⟨compUnit, hunit, hr, hend⟩ := firstStmtRow_mem hrow
    exact .inr (h.rows compUnit hunit row hr hend)
  addresses address hoffered := (toggleBreakpoint_returns_iff hk).mpr (.inr (hoffered.readable h))

/-- A unit with instructions offers an address. -/
theorem exists_offered {zydis : Zydis} {session : DebugSession} {compUnit : LineInfoCompUnit}
    (hu : compUnit ∈ session.lineInfo.compUnits)
    (hin : WindowsInside zydis session.programData.sections.text compUnit.table.sequences)
    (hnum : Numbered zydis session.programData.sections.text compUnit.table.sequences)
    {sequence : LineInfoSequence} (hseq : sequence ∈ compUnit.table.sequences)
    (hc : Contributes zydis session.programData.sections.text sequence = true) :
    ∃ address, Offered zydis session address := by
  obtain ⟨compUnitIndex, hget?⟩ := List.mem_iff_getElem?.mp hu
  have hget := (getAssemblyBuffer_eq zydis hget? (hin.sequenceInside hnum) _).mpr ⟨hnum, rfl⟩
  obtain ⟨-, haddresses⟩ := getAssemblyBuffer_addresses hget? hin hget
  have hne : lastNonempty [] (compUnit.table.sequences.map
      (sequenceListing zydis session.programData.sections.text)) ≠ [] := by
    intro hnil
    refine (sequenceListing_ne_nil_iff _ _ _).mpr hc ((lastNonempty_eq_nil_iff _ _).mp hnil _ ?_)
    exact List.mem_cons_of_mem _ (List.mem_map_of_mem hseq)
  obtain ⟨line, hline⟩ := List.exists_mem_of_ne_nil _ hne
  exact ⟨line.1, .assembly hget (by rw [haddresses]; exact List.mem_map_of_mem hline)⟩

/-- Before any breakpoint is set, addresses are checked only where the table suits. -/
theorem AddressesChecked.tableSuits {host : Host} {zydis : Zydis} {session : DebugSession}
    (h : AddressesChecked host zydis session) (hk : StoreKeys session)
    (hb : session.breakpoints = []) : TableSuits host zydis session := by
  have hwindows : ∀ compUnit ∈ session.lineInfo.compUnits,
      WindowsInside zydis session.programData.sections.text compUnit.table.sequences := by
    intro compUnit hu
    obtain ⟨compUnitIndex, hget⟩ := List.mem_iff_getElem?.mp hu
    exact (emits_getAssemblyBufferLog_iff session compUnitIndex).mp (h.windows _) compUnit hget
  have hreadable : ∀ address, Offered zydis session address → Readable host session address := by
    intro address hoffered
    refine ((toggleBreakpoint_returns_iff hk).mp (h.addresses address hoffered)).resolve_left ?_
    rintro ⟨bp, hbp, -⟩
    rw [hb] at hbp
    exact absurd hbp List.not_mem_nil
  refine ⟨hwindows, fun compUnit hu row hr hend => hreadable _ (.row hu hr hend rfl), ?_⟩
  intro ha compUnit hu hnum sequence hseq hc
  obtain ⟨address, hoffered⟩ := exists_offered hu (hwindows compUnit hu) hnum hseq hc
  exact (inText_iff.mp ((hreadable address hoffered).asserted ha)).2.2

/-- **Addresses of the line table are checked** in every session that is reached exactly if the table
suits the section. -/
theorem addressesChecked_iff (host : Host) (zydis : Zydis) (programData : ProgramData)
    (lineInfo : LineInfo) :
    (∀ session, ReachableFrom host programData lineInfo session →
      AddressesChecked host zydis session) ↔
      TableSuits host zydis (initDebugSession programData lineInfo) := by
  have hi : StoreInv (initDebugSession programData lineInfo) := StoreInv.of_empty rfl rfl
  constructor
  · intro h
    exact (h _ ⟨[], none, .refl _⟩).tableSuits hi.toStoreKeys rfl
  · intro h session hr
    have hp := hr.sameProgram
    exact (h.of_sameProgram hp).addressesChecked hp.inv.toStoreKeys

example : TableSuits (.zeroed true) sampleZydis
    (sampleAssembly [sampleSequence 0x1000 0x1002]) where
  windows compUnit hu := by
    obtain rfl := List.mem_singleton.mp hu
    have hin := sampleSequence_insideText (show 0x1000 ≤ (0x1000 : UInt64).toNat by decide)
      (show _ ≤ (0x1002 : UInt64).toNat by decide) (by decide)
    exact ⟨hin.sequenceInside, fun _ => trivial⟩
  rows := by decide
  noWrap _ _ _ _ _ _ _ := by decide

/-! ### A function that the linker removed -/

/-- A sequence at address 0, with a row for line 1. -/
def removedProgram : List UInt8 := [0, 9, 2, 0, 0, 0, 0, 0, 0, 0, 0] ++ [1, 2, 4, 0, 1, 1]

/-- A unit with this program, and no directories and files; `.text` is at `0x1000`. -/
def removedSections : ProgramSections where
  text := ⟨0x1000, List.replicate 12 0x90, by decide +kernel⟩
  debugLine := ⟨0, [47, 0, 0, 0, 5, 0, 8, 0, 22, 0, 0, 0] ++
    ([1, 1, 1, 0xfb, 14, 13, 0, 1, 1, 1, 1, 0, 0, 0, 1, 0, 0, 1, 0, 0, 0, 0] ++ removedProgram),
    by decide +kernel⟩

/-- What it is parsed to. -/
def removedInfo : LineInfo where
  compUnits := [{
    header := { sampleFiles with
      unitLength := 47
      headerLength := 22
      directoryEntryFormatCount := 0
      directoryEntryFormat := []
      directoriesCount := 0
      directories := []
      fileNameEntryFormatCount := 0
      fileNameEntryFormat := []
      fileNamesCount := 0
      fileNames := [] }
    table := { sequences := [
      { entries := [sampleRow 0 1 1, { sampleRow 4 1 1 with endSequence := true }] },
      { entries := [] }] } }]

example : (getAssemblyBufferLog sampleZydis
    (initDebugSession { sections := removedSections } removedInfo) 0).log =
      [⟨2 ^ 64 - 0x1000, 4⟩] := by decide +kernel

/-- A breakpoint at line 1 fails the assertion. -/
theorem not_addressesChecked_removed : ¬ ∀ (host : Host) (zydis : Zydis) (programData : ProgramData)
    (lineInfo : LineInfo) (r : BinaryReader),
      parseDebugLineSection host programData.sections = .ok (lineInfo, r) →
      ∀ session, ReachableFrom host programData lineInfo session →
        AddressesChecked host zydis session := by
  intro h
  have hparse : parseDebugLineSection (.zeroed true) removedSections =
      .ok (removedInfo, ofBytes []) := by decide +kernel
  have hchecked := h (.zeroed true) sampleZydis { sections := removedSections } removedInfo _
    hparse _ ⟨[], none, .refl _⟩
  have hfail : toggleSourceBreakpoint (.zeroed true)
      (initDebugSession { sections := removedSections } removedInfo) 0 1 = .error .assertFailed := rfl
  have hline := hchecked.lines 0 1 (by decide) (Nat.le_refl 1)
  rw [hfail] at hline
  exact not_returns_error _ hline

end Dabugger.Debug.TextChecks
