import Dabugger.Base

/-! # The types of `dwarf.h` and `elf.h`

The C enumerations hold whatever number was cast to them, so they are `UInt32` with named
constants. An array with its count is a list, except where the header stores both. -/

namespace Dabugger.Dwarf.Types

open Dabugger.Base

/-! ### Enumerations -/

/-- `DwarfLineNumContentType`. -/
abbrev DwarfLineNumContentType := UInt32

namespace Lnct

def path : DwarfLineNumContentType := 0x1
def directoryIndex : DwarfLineNumContentType := 0x2
def timestamp : DwarfLineNumContentType := 0x3
def size : DwarfLineNumContentType := 0x4
def md5 : DwarfLineNumContentType := 0x5
def loUser : DwarfLineNumContentType := 0x2000
def hiUser : DwarfLineNumContentType := 0x3fff

end Lnct

/-- `DwarfFormCode`. -/
abbrev DwarfFormCode := UInt32

namespace Form

def data1 : DwarfFormCode := 0x0b
def data2 : DwarfFormCode := 0x05
def data4 : DwarfFormCode := 0x06
def data8 : DwarfFormCode := 0x07
def data16 : DwarfFormCode := 0x1e
def udata : DwarfFormCode := 0x0f
def string : DwarfFormCode := 0x08
def strp : DwarfFormCode := 0x0e
def lineStrp : DwarfFormCode := 0x1f
def strpSup : DwarfFormCode := 0x1d
def block : DwarfFormCode := 0x09

end Form

/-- `DwarfLineStandardOpcode`. -/
abbrev DwarfLineStandardOpcode := UInt8

namespace Lns

def copy : DwarfLineStandardOpcode := 0x01
def advancePc : DwarfLineStandardOpcode := 0x02
def advanceLine : DwarfLineStandardOpcode := 0x03
def setFile : DwarfLineStandardOpcode := 0x04
def setColumn : DwarfLineStandardOpcode := 0x05
def negateStmt : DwarfLineStandardOpcode := 0x06
def setBasicBlock : DwarfLineStandardOpcode := 0x07
def constAddPc : DwarfLineStandardOpcode := 0x08
def fixedAdvancePc : DwarfLineStandardOpcode := 0x09
def setPrologueEnd : DwarfLineStandardOpcode := 0x0a
def setEpilogueBegin : DwarfLineStandardOpcode := 0x0b
def setIsa : DwarfLineStandardOpcode := 0x0c

end Lns

/-- `DwarfLineExtendedOpcode`. -/
abbrev DwarfLineExtendedOpcode := UInt8

namespace Lne

def endSequence : DwarfLineExtendedOpcode := 0x01
def setAddress : DwarfLineExtendedOpcode := 0x02
def setDiscriminator : DwarfLineExtendedOpcode := 0x04

end Lne

/-! ### Sections -/

/-- `SectionBuffer`; `size` is the length of `data`, and fits in a `size_t`. -/
structure SectionBuffer where
  address : UInt64
  data : List UInt8
  size_lt : data.length < 2 ^ 64

namespace SectionBuffer

def size (section_ : SectionBuffer) : ℕ := section_.data.length

/-- The section a program does not have. -/
def empty : SectionBuffer := ⟨0, [], by decide⟩

end SectionBuffer

/-- `ProgramSections`. -/
structure ProgramSections where
  text : SectionBuffer := .empty
  debugLine : SectionBuffer := .empty
  debugStr : SectionBuffer := .empty
  debugLineStr : SectionBuffer := .empty

/-! ### The line table -/

/-- `DwarfLineNumFormatDesc`. -/
structure DwarfLineNumFormatDesc where
  contentType : DwarfLineNumContentType
  formCode : DwarfFormCode
  deriving DecidableEq

/-- `DwarfLineNumContentEntry`; the fields a format does not name stay zero. -/
structure DwarfLineNumContentEntry where
  path : CStr := .null
  directoryIndex : UInt64 := 0
  timestamp : UInt64 := 0
  size : UInt64 := 0
  md5 : List UInt8 := List.replicate 16 0
  deriving DecidableEq

/-- `LineNumProgHeader`. -/
structure LineNumProgHeader where
  isDwarf64 : Bool
  unitLength : UInt64
  version : UInt16
  addressSize : UInt8
  segmentSelectorSize : UInt8
  headerLength : UInt64
  minimumInstructionLength : UInt8
  maximumOperationsPerInstruction : UInt8
  defaultIsStmt : UInt8
  lineBase : Int8
  lineRange : UInt8
  opcodeBase : UInt8
  standardOpcodeLengths : List UInt8
  directoryEntryFormatCount : UInt8
  directoryEntryFormat : List DwarfLineNumFormatDesc
  directoriesCount : UInt64
  directories : List DwarfLineNumContentEntry
  fileNameEntryFormatCount : UInt8
  fileNameEntryFormat : List DwarfLineNumFormatDesc
  fileNamesCount : UInt64
  fileNames : List DwarfLineNumContentEntry
  deriving DecidableEq

/-- `LineNumStateMachine`. -/
structure LineNumStateMachine where
  address : UInt64
  opIndex : UInt64
  file : UInt32
  line : UInt32
  column : UInt32
  discriminator : UInt32
  isa : UInt16
  isStmt : Bool
  basicBlock : Bool
  endSequence : Bool
  prologueEnd : Bool
  epilogueBegin : Bool
  deriving DecidableEq

/-- `LineInfoEntry`. -/
structure LineInfoEntry where
  address : UInt64
  opIndex : UInt64
  file : UInt32
  line : UInt32
  column : UInt32
  discriminator : UInt32
  endSequence : Bool
  isStmt : Bool
  basicBlock : Bool
  prologueEnd : Bool
  epilogueBegin : Bool
  deriving DecidableEq

/-- `LineInfoSequence`. -/
structure LineInfoSequence where
  entries : List LineInfoEntry
  deriving DecidableEq

/-- `LineInfoTable`. -/
structure LineInfoTable where
  sequences : List LineInfoSequence
  deriving DecidableEq

/-- All entries of a table, sequence after sequence. -/
def LineInfoTable.rows (table : LineInfoTable) : List LineInfoEntry :=
  table.sequences.flatMap (·.entries)

/-- `LineInfoCompUnit`. -/
structure LineInfoCompUnit where
  header : LineNumProgHeader
  table : LineInfoTable
  deriving DecidableEq

/-- `LineInfo`. -/
structure LineInfo where
  compUnits : List LineInfoCompUnit
  deriving DecidableEq

end Dabugger.Dwarf.Types
