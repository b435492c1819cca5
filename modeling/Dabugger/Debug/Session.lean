import Dabugger.Dwarf.Types

/-! # The debug session

The types of `debug.h` and the functions of `debug.c` that work on the session alone: file paths,
addresses, source lines and the two lists of breakpoints. What only names the debuggee for the
kernel (`inferior_real_path`, `inferior_args`) is left out.

`remove_breakpoint` and `remove_source_breakpoint` call each other; the depth of the calls is bounded
by the number of source breakpoints, and `Dabugger.Debug.Store` shows that they return. -/

namespace Dabugger.Debug.Session

open Dabugger.Base Dabugger.Dwarf.Types

/-! ### Types -/

/-- `Breakpoint`. -/
structure Breakpoint where
  address : UInt64
  originalByte : UInt8
  deriving DecidableEq

/-- `SourceBreakpoint`. -/
structure SourceBreakpoint where
  address : UInt64
  compUnitIndex : ℕ
  lineNum : ℕ
  deriving DecidableEq

/-- `DebugState`. -/
inductive DebugState where
  | dead
  | running
  | breakpoint
  deriving DecidableEq

/-- `MAX_OUTPUT_SIZE`. -/
def maxOutputSize : ℕ := 1024

/-- `OutputBuffer`; `cursor` is an offset into `buffer`. -/
structure OutputBuffer where
  buffer : List UInt8 := List.replicate maxOutputSize 0
  cursor : ℕ := 0
  deriving DecidableEq

/-- `struct user_regs_struct`. -/
structure UserRegs where
  r15 : UInt64 := 0
  r14 : UInt64 := 0
  r13 : UInt64 := 0
  r12 : UInt64 := 0
  rbp : UInt64 := 0
  rbx : UInt64 := 0
  r11 : UInt64 := 0
  r10 : UInt64 := 0
  r9 : UInt64 := 0
  r8 : UInt64 := 0
  rax : UInt64 := 0
  rcx : UInt64 := 0
  rdx : UInt64 := 0
  rsi : UInt64 := 0
  rdi : UInt64 := 0
  origRax : UInt64 := 0
  rip : UInt64 := 0
  cs : UInt64 := 0
  eflags : UInt64 := 0
  rsp : UInt64 := 0
  ss : UInt64 := 0
  fsBase : UInt64 := 0
  gsBase : UInt64 := 0
  ds : UInt64 := 0
  es : UInt64 := 0
  fs : UInt64 := 0
  gs : UInt64 := 0

/-- `ProgramData`. -/
structure ProgramData where
  sections : ProgramSections
  entryPoint : UInt64 := 0
  loadAddress : UInt64 := 0

/-- `DebugSession`. -/
structure DebugSession where
  output : OutputBuffer := {}
  inferiorRegisters : UserRegs := {}
  programData : ProgramData
  lineInfo : LineInfo
  breakpoints : List Breakpoint := []
  srcBreakpoints : List SourceBreakpoint := []
  procLoadAddress : UInt64 := 0
  state : DebugState := .dead
  inferiorPid : ℕ := 0
  inferiorMasterFd : ℤ := -1

/-- The session that `init_debug_session` returns for a program and its line information. -/
def initDebugSession (programData : ProgramData) (lineInfo : LineInfo) : DebugSession :=
  { programData, lineInfo }

/-! ### Addresses -/

/-- `get_address_from_vma`. -/
def getAddressFromVma (virtualAddress elfLoadAddress procLoadAddress : UInt64) : UInt64 :=
  (procLoadAddress - elfLoadAddress) + virtualAddress

/-- `get_instruction_pointer_vma`. -/
def getInstructionPointerVma (session : DebugSession) : UInt64 :=
  session.inferiorRegisters.rip + (session.programData.loadAddress - session.procLoadAddress)

/-- `get_text_data`. -/
def getTextData (host : Host) (session : DebugSession) (virtualAddress : UInt64) :
    Except Fault UInt8 := do
  let textSection := session.programData.sections.text
  cAssert host (decide (virtualAddress ≥ textSection.address) &&
    decide (virtualAddress < textSection.address + UInt64.ofNat textSection.size))
  let offsetAddress := virtualAddress - textSection.address
  match textSection.data[offsetAddress.toNat]? with
  | some byte => return byte
  | none => throw .outOfBounds

/-! ### File paths -/

/-- The string that a pointer is used as. -/
def deref (debugLineStr : List UInt8) (pointer : CStr) : Except Fault (List UInt8) :=
  match pointer.string debugLineStr with
  | some s => .ok s
  | none => .error .outOfBounds

/-- `array[index]`. -/
def index {α : Type} (array : List α) (i : ℕ) : Except Fault α :=
  match array[i]? with
  | some a => .ok a
  | none => .error .outOfBounds

/-- The character `/`. -/
def slash : UInt8 := 47

/-- `get_file_path`; `none` is the null pointer. -/
def getFilePath (debugLineStr : List UInt8) (lineProgHeader : LineNumProgHeader) (fileIndex : ℕ) :
    Except Fault (Option (List UInt8)) := do
  let fileEntry ← index lineProgHeader.fileNames fileIndex
  if fileEntry.path = .null then return none
  let fileName ← deref debugLineStr fileEntry.path
  if fileName.head? = some slash then return some fileName
  let directory ← index lineProgHeader.directories fileEntry.directoryIndex.toNat
  if directory.path = .null then return none
  let directory ← deref debugLineStr directory.path
  if directory.head? = some slash then return some (directory ++ slash :: fileName)
  let compilationDir ← index lineProgHeader.directories 0
  if compilationDir.path = .null then return none
  let compilationDir ← deref debugLineStr compilationDir.path
  return some (compilationDir ++ slash :: (directory ++ slash :: fileName))

/-! ### Source lines -/

/-- `get_instructions_for_line`. -/
def getInstructionsForLine (host : Host) (session : DebugSession) (compUnitIndex lineNum : ℕ) :
    Except Fault (List LineInfoEntry) := do
  cAssert host (decide (lineNum ≠ 0))
  let compUnit ← index session.lineInfo.compUnits compUnitIndex
  return compUnit.table.sequences.flatMap fun sequence =>
    sequence.entries.filter fun entry =>
      !entry.endSequence && decide (entry.line.toNat = lineNum)

/-! ### Breakpoints -/

/-- `add_breakpoint`. -/
def addBreakpoint (host : Host) (session : DebugSession) (address : UInt64) :
    Except Fault (DebugSession × Bool) := do
  if session.breakpoints.any (·.address = address) then return (session, false)
  let originalByte ← getTextData host session address
  return ({ session with breakpoints := session.breakpoints ++ [{ address, originalByte }] }, true)

/-- `remove_source_breakpoint`, which calls the given `remove_breakpoint`. -/
def removeSourceBreakpointWith
    (removeBreakpoint : DebugSession → UInt64 → Except Fault DebugSession)
    (session : DebugSession) (compUnitIndex lineNum : ℕ) : Except Fault DebugSession :=
  let isIt (srcBreakpoint : SourceBreakpoint) : Bool :=
    srcBreakpoint.compUnitIndex = compUnitIndex ∧ srcBreakpoint.lineNum = lineNum
  match session.srcBreakpoints.find? isIt with
  | some srcBreakpoint =>
    removeBreakpoint { session with srcBreakpoints := session.srcBreakpoints.eraseP isIt }
      srcBreakpoint.address
  | none => .ok session

/-- The second loop of `remove_breakpoint`, from index `i` on; the first argument bounds the
iterations. The list is read again in each iteration: the calls shift it. -/
def removeSourcesAt (removeSourceBreakpoint : DebugSession → ℕ → ℕ → Except Fault DebugSession)
    (address : UInt64) : ℕ → ℕ → DebugSession → Except Fault DebugSession
  | 0, _, _ => .error .diverges
  | n + 1, i, session =>
    match session.srcBreakpoints[i]? with
    | none => .ok session
    | some srcBreakpoint => do
      let session ←
        if srcBreakpoint.address = address then
          removeSourceBreakpoint session srcBreakpoint.compUnitIndex srcBreakpoint.lineNum
        else .ok session
      removeSourcesAt removeSourceBreakpoint address n (i + 1) session

/-- `remove_breakpoint`, with at most so many calls inside each other. -/
def removeBreakpointDepth : ℕ → DebugSession → UInt64 → Except Fault DebugSession
  | 0, _, _ => .error .diverges
  | depth + 1, session, address =>
    let breakpoints := session.breakpoints.eraseP (·.address = address)
    removeSourcesAt (removeSourceBreakpointWith (removeBreakpointDepth depth)) address
      (session.srcBreakpoints.length + 1) 0 { session with breakpoints }

/-- `remove_breakpoint`. -/
def removeBreakpoint (session : DebugSession) (address : UInt64) : Except Fault DebugSession :=
  removeBreakpointDepth (session.srcBreakpoints.length + 1) session address

/-- `remove_source_breakpoint`. -/
def removeSourceBreakpoint (session : DebugSession) (compUnitIndex lineNum : ℕ) :
    Except Fault DebugSession :=
  removeSourceBreakpointWith removeBreakpoint session compUnitIndex lineNum

/-- `toggle_breakpoint`. -/
def toggleBreakpoint (host : Host) (session : DebugSession) (address : UInt64) :
    Except Fault DebugSession := do
  if session.breakpoints.any (·.address = address) then removeBreakpoint session address
  else
    let (session, _) ← addBreakpoint host session address
    return session

/-- `set_source_breakpoint`. -/
def setSourceBreakpoint (host : Host) (session : DebugSession) (compUnitIndex lineNum : ℕ) :
    Except Fault (DebugSession × Bool) := do
  if session.srcBreakpoints.any fun srcBreakpoint =>
      srcBreakpoint.compUnitIndex = compUnitIndex ∧ srcBreakpoint.lineNum = lineNum then
    return (session, false)
  let selectedInstructions ← getInstructionsForLine host session compUnitIndex lineNum
  match selectedInstructions.find? (·.isStmt) with
  | none => return (session, false)
  | some entry =>
    let address := entry.address
    let (session, isBreakpointSet) ← addBreakpoint host session address
    if isBreakpointSet then
      let srcBreakpoints := session.srcBreakpoints ++ [{ address, compUnitIndex, lineNum }]
      return ({ session with srcBreakpoints }, true)
    return (session, false)

/-- `toggle_source_breakpoint`. -/
def toggleSourceBreakpoint (host : Host) (session : DebugSession) (compUnitIndex lineNum : ℕ) :
    Except Fault DebugSession := do
  if session.srcBreakpoints.any fun srcBreakpoint =>
      srcBreakpoint.compUnitIndex = compUnitIndex ∧ srcBreakpoint.lineNum = lineNum then
    removeSourceBreakpoint session compUnitIndex lineNum
  else
    let (session, _) ← setSourceBreakpoint host session compUnitIndex lineNum
    return session

/-! ### Output -/

/-- `read_inferior_output`, when the terminal has these bytes to read; none if `read` fails. -/
def readInferiorOutput (session : DebugSession) (pending : List UInt8) : DebugSession :=
  let output := session.output
  let cursorOffset := if output.cursor + 1 > maxOutputSize then 0 else output.cursor
  let bytesRemaining := maxOutputSize - cursorOffset
  let bytes := pending.take bytesRemaining
  let buffer := output.buffer.take cursorOffset ++ bytes ++
    output.buffer.drop (cursorOffset + bytes.length)
  { session with output := { buffer, cursor := cursorOffset + bytes.length } }

/-! ### A small session -/

/-- A statement of a file and line. -/
def sampleRow (address : UInt64) (file line : UInt32) : LineInfoEntry where
  address := address
  opIndex := 0
  file := file
  line := line
  column := 0
  discriminator := 0
  endSequence := false
  isStmt := true
  basicBlock := false
  prologueEnd := false
  epilogueBegin := false

/-- A header with the files `/s/a.c` and `/s/b.h`. -/
def sampleFiles : LineNumProgHeader where
  isDwarf64 := false
  unitLength := 0
  version := 5
  addressSize := 8
  segmentSelectorSize := 0
  headerLength := 0
  minimumInstructionLength := 1
  maximumOperationsPerInstruction := 1
  defaultIsStmt := 1
  lineBase := -5
  lineRange := 14
  opcodeBase := 13
  standardOpcodeLengths := [0, 1, 1, 1, 1, 0, 0, 0, 1, 0, 0, 1]
  directoryEntryFormatCount := 1
  directoryEntryFormat := [⟨Lnct.path, Form.string⟩]
  directoriesCount := 1
  directories := [{ path := .heap [47, 115] }]
  fileNameEntryFormatCount := 1
  fileNameEntryFormat := [⟨Lnct.path, Form.string⟩]
  fileNamesCount := 2
  fileNames := [{ path := .heap [97, 46, 99] }, { path := .heap [98, 46, 104] }]

/-- A program of sixteen one-byte instructions at `0x1000`, with one unit of these rows. -/
def sampleSession (rows : List LineInfoEntry) : DebugSession :=
  initDebugSession
    { sections := { text := ⟨0x1000, List.replicate 16 0x90, by decide⟩ } }
    { compUnits := [{ header := sampleFiles, table := { sequences := [{ entries := rows }] } }] }

end Dabugger.Debug.Session
