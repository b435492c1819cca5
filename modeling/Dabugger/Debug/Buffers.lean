import Dabugger.Debug.Session
import Dabugger.Lib.Arrays
import Dabugger.Lib.Runs

/-! # The buffers that are shown

The functions of `debug.c` that make the lines of a source file, of the assembly of a unit and of the
file picker. The files that `fopen` finds and the disassembler are parameters: `Zydis` holds what is
asked of `ZydisDisassembleIntel`. -/

namespace Dabugger.Debug.Buffers

open Dabugger.Lib.Runs Dabugger.Lib.Arrays Dabugger.Base Dabugger.Dwarf.Types Dabugger.Debug.Session

/-! ### Types -/

/-- `LinesBuffer`; a line is a C string, or null. -/
structure LinesBuffer where
  lineCount : UInt64 := 0
  lines : List (Option (List UInt8)) := []
  deriving DecidableEq

/-- `AssemblyBuffer`. -/
structure AssemblyBuffer where
  textBuffer : LinesBuffer := {}
  addresses : List UInt64 := []
  deriving DecidableEq

/-- `ZydisDisassembleIntel`: the text and the length of the instruction at an address, from a window
of bytes. -/
structure Zydis where
  disassembleIntel : UInt64 → List UInt8 → Option (List UInt8 × ℕ)
  length_pos : ∀ {address window text length},
    disassembleIntel address window = some (text, length) → 1 ≤ length
  length_le : ∀ {address window text length},
    disassembleIntel address window = some (text, length) → length ≤ window.length

/-- The contents of the files that can be opened, by path. -/
abbrev Files := List UInt8 → Option (List UInt8)

/-! ### Lines -/

/-- Make room for a line and write it. The number is an `unsigned`: behind the last one
`reallocarray` is asked for no elements and returns null. -/
def setLine (buffer : LinesBuffer) (lineNum : UInt32) (line : List UInt8) :
    Except Fault LinesBuffer :=
  if lineNum + 1 = 0 then .error .outOfBounds
  else .ok
    { lineCount := (lineNum + 1).toUInt64
      lines := (resize none (lineNum.toNat + 1) buffer.lines).set lineNum.toNat (some line) }

/-- What `getline` returns one after another, without the newlines; `line` has been read. -/
def getlines : List UInt8 → List UInt8 → List (List UInt8)
  | [], line => if line = [] then [] else [line]
  | c :: cs, line => if c = 10 then line :: getlines cs [] else getlines cs (line ++ [c])

/-- The loop of `get_source_buffer`. -/
def setLines (buffer : LinesBuffer) : UInt32 → List (List UInt8) → Except Fault LinesBuffer
  | _, [] => .ok buffer
  | lineNum, line :: lines => do
    let buffer ← setLine buffer lineNum (line.takeWhile (· ≠ 0))
    setLines buffer (lineNum + 1) lines

/-- `get_source_buffer`; `none` is the null pointer. -/
def getSourceBuffer (files : Files) (session : DebugSession) (compUnitIndex : ℕ) :
    Except Fault (Option LinesBuffer) := do
  match session.lineInfo.compUnits[compUnitIndex]? with
  | none => return none
  | some compUnit => do
    let path ← getFilePath session.programData.sections.debugLineStr.data compUnit.header 0
    -- a null path, or a null stream
    match path.bind files with
    | none => throw .outOfBounds
    | some content => do
      let buffer ← setLines {} 0 (getlines content [])
      return some buffer

/-- `get_file_picker_buffer`. -/
def getFilePickerBuffer (session : DebugSession) : Except Fault LinesBuffer := do
  let lines ← session.lineInfo.compUnits.mapM fun compUnit =>
    getFilePath session.programData.sections.debugLineStr.data compUnit.header 0
  return { lineCount := UInt64.ofNat session.lineInfo.compUnits.length, lines }

/-! ### Assembly -/

/-- The bytes from an address up to another, in the buffer of `.text`. A window that leaves the buffer is
a fault where it is handed to `ZydisDisassembleIntel`, whatever of it that function reads. -/
def textWindow (textSection : SectionBuffer) (address endAddr : UInt64) :
    Except Fault (List UInt8) :=
  let offset := (address - textSection.address).toNat
  let length := (endAddr - address).toNat
  if length = 0 then .ok []
  else if offset + length ≤ textSection.size then
    .ok ((textSection.data.drop offset).take length)
  else .error .outOfBounds

/-- The inner loop of `get_assembly_buffer`; the first argument bounds the iterations. -/
def disassemble (zydis : Zydis) (textSection : SectionBuffer) (endAddr : UInt64) :
    ℕ → UInt64 → UInt32 → AssemblyBuffer → Except Fault AssemblyBuffer
  | 0, _, _, _ => .error .diverges
  | n + 1, instructionAddr, lineNum, asmBuffer => do
    let window ← textWindow textSection instructionAddr endAddr
    match zydis.disassembleIntel instructionAddr window with
    | none => return asmBuffer
    | some (text, length) => do
      let textBuffer ← setLine asmBuffer.textBuffer lineNum text
      let addresses := (resize 0 textBuffer.lineCount.toNat asmBuffer.addresses).set lineNum.toNat
        instructionAddr
      disassemble zydis textSection endAddr n (instructionAddr + UInt64.ofNat length) (lineNum + 1)
        { textBuffer, addresses }

/-- The body of the outer loop of `get_assembly_buffer`. -/
def disassembleSequence (zydis : Zydis) (textSection : SectionBuffer)
    (asmBuffer : AssemblyBuffer) (sequence : LineInfoSequence) : Except Fault AssemblyBuffer :=
  match sequence.entries with
  | [] => .ok asmBuffer
  | entry :: entries =>
    let startAddr := entry.address
    let endAddr := ((entry :: entries).getLast (List.cons_ne_nil _ _)).address
    -- each instruction has at least one byte
    disassemble zydis textSection endAddr ((endAddr - startAddr).toNat + 1) startAddr 0 asmBuffer

/-- `get_assembly_buffer`; `none` is the null pointer. -/
def getAssemblyBuffer (zydis : Zydis) (session : DebugSession) (compUnitIndex : ℕ) :
    Except Fault (Option AssemblyBuffer) := do
  match session.lineInfo.compUnits[compUnitIndex]? with
  | none => return none
  | some compUnit => do
    let asmBuffer ← compUnit.table.sequences.foldlM
      (disassembleSequence zydis session.programData.sections.text) {}
    return some asmBuffer

/-! ### Null pointers -/

/-- The source of a unit is null exactly if there is no such unit. -/
theorem getSourceBuffer_ne_none_iff {files : Files} {session : DebugSession} {compUnitIndex : ℕ}
    {buffer : Option LinesBuffer} (h : getSourceBuffer files session compUnitIndex = .ok buffer) :
    buffer ≠ none ↔ compUnitIndex < session.lineInfo.compUnits.length := by
  unfold getSourceBuffer at h
  cases hunit : session.lineInfo.compUnits[compUnitIndex]? with
  | none =>
    rw [hunit] at h
    cases h
    exact iff_of_false (not_not_intro rfl) (List.getElem?_eq_none_iff.mp hunit).not_gt
  | some compUnit =>
    rw [hunit] at h
    obtain ⟨path, -, h⟩ := except_bind_ok h
    refine iff_of_true ?_ (List.getElem?_eq_some_iff.mp hunit).1
    cases hcontent : path.bind files with
    | none => rw [hcontent] at h; cases h
    | some content =>
      rw [hcontent] at h
      obtain ⟨lines, -, h⟩ := except_bind_ok h
      cases h
      nofun

/-- The assembly of a unit is null exactly if there is no such unit. -/
theorem getAssemblyBuffer_ne_none_iff {zydis : Zydis} {session : DebugSession} {compUnitIndex : ℕ}
    {buffer : Option AssemblyBuffer}
    (h : getAssemblyBuffer zydis session compUnitIndex = .ok buffer) :
    buffer ≠ none ↔ compUnitIndex < session.lineInfo.compUnits.length := by
  unfold getAssemblyBuffer at h
  cases hunit : session.lineInfo.compUnits[compUnitIndex]? with
  | none =>
    rw [hunit] at h
    cases h
    exact iff_of_false (not_not_intro rfl) (List.getElem?_eq_none_iff.mp hunit).not_gt
  | some compUnit =>
    rw [hunit] at h
    obtain ⟨assembly, -, h⟩ := except_bind_ok h
    cases h
    exact iff_of_true nofun (List.getElem?_eq_some_iff.mp hunit).1

end Dabugger.Debug.Buffers
