import Dabugger.Dwarf.Header
import Dabugger.Lib.Exact

/-! # The encoding of a line-program header

A header in the terms of the DWARF 5 specification (section 6.2.4): `HeaderValue`, with a value for
each directory and file (`EntryValue`) and the formats their fields may have (`EntryFormat`).
`HeaderValue.Encodes` relates a header to its encodings; LEB128 numbers may be padded, so there are
several. `HeaderValue.Decodes` says that a parsed header is this one. -/

namespace Dabugger.Dwarf.HeaderEncoding

open Dabugger.Lib.Bytes Dabugger.Lib.Exact Dabugger.Base Dabugger.Dwarf.Types

/-- The content of an entry field. -/
inductive Content where
  | path
  | directoryIndex
  | timestamp
  | size
  | md5
  deriving DecidableEq

/-- The content types with the forms they are given in. -/
inductive EntryFormat where
  | pathString
  | pathLineStrp
  | directoryIndexData1
  | directoryIndexData2
  | directoryIndexUdata
  | timestampUdata
  | timestampData8
  | sizeUdata
  | sizeData8
  | md5Data16
  deriving DecidableEq

namespace EntryFormat

def content : EntryFormat → Content
  | pathString | pathLineStrp => .path
  | directoryIndexData1 | directoryIndexData2 | directoryIndexUdata => .directoryIndex
  | timestampUdata | timestampData8 => .timestamp
  | sizeUdata | sizeData8 => .size
  | md5Data16 => .md5

/-- The pair of codes that stands for the format. -/
def desc : EntryFormat → DwarfLineNumFormatDesc
  | pathString => ⟨Lnct.path, Form.string⟩
  | pathLineStrp => ⟨Lnct.path, Form.lineStrp⟩
  | directoryIndexData1 => ⟨Lnct.directoryIndex, Form.data1⟩
  | directoryIndexData2 => ⟨Lnct.directoryIndex, Form.data2⟩
  | directoryIndexUdata => ⟨Lnct.directoryIndex, Form.udata⟩
  | timestampUdata => ⟨Lnct.timestamp, Form.udata⟩
  | timestampData8 => ⟨Lnct.timestamp, Form.data8⟩
  | sizeUdata => ⟨Lnct.size, Form.udata⟩
  | sizeData8 => ⟨Lnct.size, Form.data8⟩
  | md5Data16 => ⟨Lnct.md5, Form.data16⟩

end EntryFormat

/-- A directory or a file. -/
structure EntryValue where
  path : Option (List UInt8) := none
  directoryIndex : UInt64 := 0
  timestamp : UInt64 := 0
  size : UInt64 := 0
  md5 : List UInt8 := List.replicate 16 0
  deriving DecidableEq

/-- The bytes of an offset. -/
def offsetSize (isDwarf64 : Bool) : ℕ := if isDwarf64 then 8 else 4

/-- `bs` encodes the field of `v` that the format names. -/
def EntryFormat.Encodes (debugLineStr : List UInt8) (isDwarf64 : Bool) (v : EntryValue) :
    EntryFormat → List UInt8 → Prop
  | pathString, bs => ∃ s, v.path = some s ∧ 0 ∉ s ∧ bs = s ++ [0]
  | pathLineStrp, bs => ∃ s offset, v.path = some s ∧ cstringAt debugLineStr offset = some s ∧
      offset < 256 ^ offsetSize isDwarf64 ∧ bs = toLe (offsetSize isDwarf64) offset
  | directoryIndexData1, bs => v.directoryIndex.toNat < 256 ∧ bs = toLe 1 v.directoryIndex.toNat
  | directoryIndexData2, bs => v.directoryIndex.toNat < 65536 ∧ bs = toLe 2 v.directoryIndex.toNat
  | directoryIndexUdata, bs => IsUleb v.directoryIndex.toNat bs
  | timestampUdata, bs => IsUleb v.timestamp.toNat bs
  | timestampData8, bs => bs = toLe 8 v.timestamp.toNat
  | sizeUdata, bs => IsUleb v.size.toNat bs
  | sizeData8, bs => bs = toLe 8 v.size.toNat
  | md5Data16, bs => v.md5.length = 16 ∧ bs = v.md5

/-- The fields that no format names are zero. -/
structure EntryValue.OnlyHas (v : EntryValue) (formats : List EntryFormat) : Prop where
  path : .path ∉ formats.map EntryFormat.content → v.path = none
  directoryIndex : .directoryIndex ∉ formats.map EntryFormat.content → v.directoryIndex = 0
  timestamp : .timestamp ∉ formats.map EntryFormat.content → v.timestamp = 0
  size : .size ∉ formats.map EntryFormat.content → v.size = 0
  md5 : .md5 ∉ formats.map EntryFormat.content → v.md5 = List.replicate 16 0

/-- `bs` encodes the entry `v` in the given formats. -/
def EntryValue.Encodes (debugLineStr : List UInt8) (isDwarf64 : Bool)
    (formats : List EntryFormat) (v : EntryValue) (bs : List UInt8) : Prop :=
  v.OnlyHas formats ∧ Tiles (EntryFormat.Encodes debugLineStr isDwarf64 v) formats bs

/-- `bs` encodes the two codes of the format. -/
def EntryFormat.EncodesDesc (f : EntryFormat) (bs : List UInt8) : Prop :=
  ∃ c d, IsUleb f.desc.contentType.toNat c ∧ IsUleb f.desc.formCode.toNat d ∧ bs = c ++ d

/-- A parsed entry is the value `v`; its path points to the path of `v`. -/
structure EntryValue.Decodes (debugLineStr : List UInt8) (v : EntryValue)
    (e : DwarfLineNumContentEntry) : Prop where
  path : e.path.string debugLineStr = v.path
  directoryIndex : e.directoryIndex = v.directoryIndex
  timestamp : e.timestamp = v.timestamp
  size : e.size = v.size
  md5 : e.md5 = v.md5

/-- `bs` encodes a list of formats, and the entries in these formats. -/
def EncodesEntries (debugLineStr : List UInt8) (isDwarf64 : Bool) (formats : List EntryFormat)
    (entries : List EntryValue) (bs : List UInt8) : Prop :=
  ∃ fs count es, Tiles EntryFormat.EncodesDesc formats fs ∧ IsUleb entries.length count ∧
    Tiles (EntryValue.Encodes debugLineStr isDwarf64 formats) entries es ∧
    bs = toLe 1 formats.length ++ (fs ++ (count ++ es))

/-- The initial length. -/
def lengthBytes (isDwarf64 : Bool) (unitLength : ℕ) : List UInt8 :=
  if isDwarf64 then toLe 4 0xffffffff ++ toLe 8 unitLength else toLe 4 unitLength

/-- A header. -/
structure HeaderValue where
  isDwarf64 : Bool
  unitLength : UInt64
  version : UInt16
  addressSize : UInt8
  segmentSelectorSize : UInt8
  headerLength : UInt64
  minimumInstructionLength : UInt8
  maximumOperationsPerInstruction : UInt8
  defaultIsStmt : UInt8
  lineBase : Int8
  lineRange : UInt8
  opcodeBase : UInt8
  standardOpcodeLengths : List UInt8
  directoryEntryFormat : List EntryFormat
  directories : List EntryValue
  fileNameEntryFormat : List EntryFormat
  fileNames : List EntryValue

namespace HeaderValue

variable (h : HeaderValue)

/-- The fields fit in their encodings. -/
structure WellFormed : Prop where
  opcodeBase_pos : 1 ≤ h.opcodeBase.toNat
  standardOpcodeLengths : h.standardOpcodeLengths.length + 1 = h.opcodeBase.toNat
  directoryFormats : h.directoryEntryFormat.length < 256
  directories : h.directories.length < 2 ^ 64
  fileNameFormats : h.fileNameEntryFormat.length < 256
  fileNames : h.fileNames.length < 2 ^ 64
  unitLength : h.isDwarf64 = false → h.unitLength.toNat < 0xfffffff0
  headerLength : h.headerLength.toNat < 256 ^ offsetSize h.isDwarf64

/-- The fields up to `header_length`. -/
def prelude : List UInt8 :=
  lengthBytes h.isDwarf64 h.unitLength.toNat ++ (toLe 2 h.version.toNat ++
    (toLe 1 h.addressSize.toNat ++ (toLe 1 h.segmentSelectorSize.toNat ++
      toLe (offsetSize h.isDwarf64) h.headerLength.toNat)))

/-- `bs` encodes the fields after `header_length`. -/
def EncodesBody (debugLineStr bs : List UInt8) : Prop :=
  ∃ ds fs, EncodesEntries debugLineStr h.isDwarf64 h.directoryEntryFormat h.directories ds ∧
    EncodesEntries debugLineStr h.isDwarf64 h.fileNameEntryFormat h.fileNames fs ∧
    bs = toLe 1 h.minimumInstructionLength.toNat ++
      (toLe 1 h.maximumOperationsPerInstruction.toNat ++ (toLe 1 h.defaultIsStmt.toNat ++
        (toLe 1 h.lineBase.toUInt8.toNat ++ (toLe 1 h.lineRange.toNat ++
          (toLe 1 h.opcodeBase.toNat ++ (h.standardOpcodeLengths ++ (ds ++ fs)))))))

/-- **The encodings of a header.** -/
def Encodes (debugLineStr bs : List UInt8) : Prop :=
  h.WellFormed ∧ ∃ body, h.EncodesBody debugLineStr body ∧ bs = h.prelude ++ body

/-- **A parsed header is the header `h`.** -/
structure Decodes (debugLineStr : List UInt8) (header : LineNumProgHeader) : Prop where
  isDwarf64 : header.isDwarf64 = h.isDwarf64
  unitLength : header.unitLength = h.unitLength
  version : header.version = h.version
  addressSize : header.addressSize = h.addressSize
  segmentSelectorSize : header.segmentSelectorSize = h.segmentSelectorSize
  headerLength : header.headerLength = h.headerLength
  minimumInstructionLength : header.minimumInstructionLength = h.minimumInstructionLength
  maximumOperationsPerInstruction :
    header.maximumOperationsPerInstruction = h.maximumOperationsPerInstruction
  defaultIsStmt : header.defaultIsStmt = h.defaultIsStmt
  lineBase : header.lineBase = h.lineBase
  lineRange : header.lineRange = h.lineRange
  opcodeBase : header.opcodeBase = h.opcodeBase
  standardOpcodeLengths : header.standardOpcodeLengths = h.standardOpcodeLengths
  directoryEntryFormatCount :
    header.directoryEntryFormatCount.toNat = h.directoryEntryFormat.length
  directoryEntryFormat : header.directoryEntryFormat = h.directoryEntryFormat.map EntryFormat.desc
  directoriesCount : header.directoriesCount.toNat = h.directories.length
  directories : List.Forall₂ (EntryValue.Decodes debugLineStr) h.directories header.directories
  fileNameEntryFormatCount :
    header.fileNameEntryFormatCount.toNat = h.fileNameEntryFormat.length
  fileNameEntryFormat : header.fileNameEntryFormat = h.fileNameEntryFormat.map EntryFormat.desc
  fileNamesCount : header.fileNamesCount.toNat = h.fileNames.length
  fileNames : List.Forall₂ (EntryValue.Decodes debugLineStr) h.fileNames header.fileNames

end HeaderValue

end Dabugger.Dwarf.HeaderEncoding
