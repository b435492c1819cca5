import Dabugger.Dwarf.Types
import Dabugger.Reader

/-! # `parse_line_header`

The header parser of `dwarf.c` with the readers of one entry field. The results of the reads are
ignored, so a failed read leaves its field as it was: zero in the header, which is `calloc`ed, and
whatever the stack held in the locals of the `read_lnct_*` functions. -/

namespace Dabugger.Dwarf.Header

open Dabugger.Lib.Bytes Dabugger.Base Dabugger.Reader Dabugger.Dwarf.Types

/-- `read_lnct_path`. -/
def readLnctPath (host : Host) (locals : Locals) (formCode : DwarfFormCode)
    (outEntry : DwarfLineNumContentEntry) (isDwarf64 : Bool) :
    Parse DwarfLineNumContentEntry := do
  let (status, path) ←
    if formCode = Form.string then do
      let (result, path) ← readCstring locals.path
      pure (result.status, path)
    else if formCode = Form.lineStrp ∨ formCode = Form.strp ∨ formCode = Form.strpSup then do
      let (result, offset) ← readInt 8 0 (if isDwarf64 then 8 else 4)
      if formCode = Form.lineStrp then
        pure (result.status, CStr.debugLineStr (UInt64.ofNat offset))
      else if formCode = Form.strp then do
        cAssert host false
        pure (result.status, locals.path)
      else pure (result.status, locals.path)
    -- the `strx` forms and the invalid ones read nothing and leave `result` uninitialised
    else pure (locals.result, locals.path)
  if status ≠ .ok then return outEntry
  return { outEntry with path }

/-- `read_lnct_directory_index`. -/
def readLnctDirectoryIndex (locals : Locals) (formCode : DwarfFormCode)
    (outEntry : DwarfLineNumContentEntry) : Parse DwarfLineNumContentEntry := do
  let (status, directoryIndex) ←
    if formCode = Form.data1 then do
      let (result, n) ← readInt 8 0 1
      pure (result.status, UInt64.ofNat n)
    else if formCode = Form.data2 then do
      let (result, n) ← readInt 8 0 2
      pure (result.status, UInt64.ofNat n)
    else if formCode = Form.udata then do
      let (result, n) ← readUleb128
      pure (result.status, n)
    else pure (locals.result, 0)
  if status ≠ .ok then return outEntry
  return { outEntry with directoryIndex }

/-- `read_lnct_timestamp`. -/
def readLnctTimestamp (locals : Locals) (formCode : DwarfFormCode)
    (outEntry : DwarfLineNumContentEntry) : Parse DwarfLineNumContentEntry := do
  let (status, timestamp) ←
    if formCode = Form.udata then do
      let (result, n) ← readUleb128
      pure (result.status, n)
    else if formCode = Form.data4 then do
      let (result, n) ← readInt 8 locals.timestamp.toNat 4
      pure (result.status, UInt64.ofNat n)
    else if formCode = Form.data8 then do
      let (result, n) ← readInt 8 locals.timestamp.toNat 8
      pure (result.status, UInt64.ofNat n)
    else if formCode = Form.block then do
      let (_, bytesCount) ← readUleb128
      let (result, n) ← readInt 8 locals.timestamp.toNat bytesCount.toNat
      pure (result.status, UInt64.ofNat n)
    else pure (locals.result, locals.timestamp)
  if status ≠ .ok then return outEntry
  return { outEntry with timestamp }

/-- `read_lnct_size`. -/
def readLnctSize (locals : Locals) (formCode : DwarfFormCode)
    (outEntry : DwarfLineNumContentEntry) : Parse DwarfLineNumContentEntry := do
  let (status, size) ←
    if formCode = Form.udata then do
      let (result, n) ← readUleb128
      pure (result.status, n)
    else if formCode = Form.data1 then do
      let (result, n) ← readInt 8 locals.size.toNat 1
      pure (result.status, UInt64.ofNat n)
    else if formCode = Form.data2 then do
      let (result, n) ← readInt 8 locals.size.toNat 2
      pure (result.status, UInt64.ofNat n)
    else if formCode = Form.data4 then do
      let (result, n) ← readInt 8 locals.size.toNat 4
      pure (result.status, UInt64.ofNat n)
    else if formCode = Form.data8 then do
      let (result, n) ← readInt 8 locals.size.toNat 8
      pure (result.status, UInt64.ofNat n)
    else pure (locals.result, locals.size)
  if status ≠ .ok then return outEntry
  return { outEntry with size }

/-- `read_lnct_md5`. -/
def readLnctMd5 (locals : Locals) (formCode : DwarfFormCode)
    (outEntry : DwarfLineNumContentEntry) : Parse DwarfLineNumContentEntry := do
  let (status, md5) ←
    if formCode = Form.data16 then do
      let (result, md5) ← readBytes locals.md5.toList 16
      pure (result.status, md5)
    else pure (locals.result, locals.md5.toList)
  if status ≠ .ok then return outEntry
  return { outEntry with md5 }

/-- The `switch` of `read_lnct_entries`, for the field `j` of the entry `i`. -/
def readLnctField (host : Host) (isDwarf64 : Bool) (i j : ℕ) (fmt : DwarfLineNumFormatDesc)
    (entry : DwarfLineNumContentEntry) : Parse DwarfLineNumContentEntry := do
  let locals := host.locals (← get) i j
  if fmt.contentType = Lnct.path then
    readLnctPath host locals fmt.formCode entry isDwarf64
  else if fmt.contentType = Lnct.directoryIndex then
    readLnctDirectoryIndex locals fmt.formCode entry
  else if fmt.contentType = Lnct.timestamp then
    readLnctTimestamp locals fmt.formCode entry
  else if fmt.contentType = Lnct.size then
    readLnctSize locals fmt.formCode entry
  else if fmt.contentType = Lnct.md5 then
    readLnctMd5 locals fmt.formCode entry
  else if Lnct.loUser ≤ fmt.contentType ∧ fmt.contentType ≤ Lnct.hiUser then do
    cAssert host false
    return entry
  else return entry

/-- The inner loop of `read_lnct_entries`: the fields of the entry `i`, from field `j` on. -/
def readLnctFields (host : Host) (isDwarf64 : Bool) (i : ℕ) :
    ℕ → List DwarfLineNumFormatDesc → DwarfLineNumContentEntry → Parse DwarfLineNumContentEntry
  | _, [], entry => return entry
  | j, fmt :: formats, entry => do
    let entry ← readLnctField host isDwarf64 i j fmt entry
    readLnctFields host isDwarf64 i (j + 1) formats entry

/-- `read_lnct_entries`: `entryCount` entries, from entry `i` on. -/
def readLnctEntries (host : Host) (formats : List DwarfLineNumFormatDesc) (isDwarf64 : Bool) :
    ℕ → ℕ → Parse (List DwarfLineNumContentEntry)
  | _, 0 => return []
  | i, entryCount + 1 => do
    let entry ← readLnctFields host isDwarf64 i 0 formats {}
    let entries ← readLnctEntries host formats isDwarf64 (i + 1) entryCount
    return entry :: entries

/-- The loops over `directory_entry_format` and `file_name_entry_format`. -/
def readFormats : ℕ → Parse (List DwarfLineNumFormatDesc)
  | 0 => return []
  | count + 1 => do
    let (_, contentTypeTmp) ← readUleb128
    let (_, formCodeTmp) ← readUleb128
    let formats ← readFormats count
    return ⟨contentTypeTmp.toUInt32, formCodeTmp.toUInt32⟩ :: formats

/-- Reads a `uint8_t` that holds zero. -/
def readUInt8 : Parse UInt8 := do
  let (_, n) ← readInt 1 0 1
  return UInt8.ofNat n

/-- Reads a `uint16_t` that holds zero. -/
def readUInt16 : Parse UInt16 := do
  let (_, n) ← readInt 2 0 2
  return UInt16.ofNat n

/-- Reads a `uint32_t` that holds zero. -/
def readUInt32 : Parse UInt32 := do
  let (_, n) ← readInt 4 0 4
  return UInt32.ofNat n

/-- Reads the first `bytes` bytes of a `uint64_t` that holds zero. -/
def readUInt64 (bytes : ℕ) : Parse UInt64 := do
  let (_, n) ← readInt 8 0 bytes
  return UInt64.ofNat n

/-- The unit length and the format it announces: `is_dwarf64`, `unit_length`. -/
def readUnitLength (host : Host) : Parse (Bool × UInt64) := do
  let lengthStart ← readUInt32
  if lengthStart < 0xfffffff0 then
    return (false, lengthStart.toUInt64)
  else if lengthStart = 0xffffffff then
    let unitLength ← readUInt64 8
    return (true, unitLength)
  else
    cAssert host false
    return (false, 0)

/-- `parse_line_header`. Every `calloc` succeeds: the one of `SIZE_MAX` bytes with `opcode_base` zero,
and those of the entries whatever their count, also when so many take more bytes than a `size_t`
counts. -/
def parseLineHeader (host : Host) : Parse LineNumProgHeader := do
  let (isDwarf64, unitLength) ← readUnitLength host
  let version ← readUInt16
  let addressSize ← readUInt8
  let segmentSelectorSize ← readUInt8
  let headerLength ← readUInt64 (if isDwarf64 then 8 else 4)
  let minimumInstructionLength ← readUInt8
  let maximumOperationsPerInstruction ← readUInt8
  let defaultIsStmt ← readUInt8
  let lineBase ← readUInt8
  let lineRange ← readUInt8
  let opcodeBase ← readUInt8
  -- `opcode_base - 1` is an `int`: with `opcode_base` zero the count is `SIZE_MAX`
  let (_, standardOpcodeLengths) ← readBytes (List.replicate (opcodeBase.toNat - 1) 0)
    ((opcodeBase.toNat + (2 ^ 64 - 1)) % 2 ^ 64)
  let directoryEntryFormatCount ← readUInt8
  let directoryEntryFormat ← readFormats directoryEntryFormatCount.toNat
  let (_, directoriesCount) ← readUleb128
  let directories ←
    readLnctEntries host directoryEntryFormat isDwarf64 0 directoriesCount.toNat
  let fileNameEntryFormatCount ← readUInt8
  let fileNameEntryFormat ← readFormats fileNameEntryFormatCount.toNat
  let (_, fileNamesCount) ← readUleb128
  let fileNames ← readLnctEntries host fileNameEntryFormat isDwarf64 0 fileNamesCount.toNat
  return {
    isDwarf64, unitLength, version, addressSize, segmentSelectorSize, headerLength
    minimumInstructionLength, maximumOperationsPerInstruction, defaultIsStmt
    lineBase := lineBase.toInt8
    lineRange, opcodeBase, standardOpcodeLengths
    directoryEntryFormatCount, directoryEntryFormat, directoriesCount, directories
    fileNameEntryFormatCount, fileNameEntryFormat, fileNamesCount, fileNames }

end Dabugger.Dwarf.Header
