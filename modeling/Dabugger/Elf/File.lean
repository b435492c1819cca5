import Dabugger.Debug.Session
import Dabugger.Lib.Bytes
import Dabugger.Lib.Streams

/-! # `parse_elf_file`

The parser of `elf.c`, on the contents of the file. It leaves the program with a message on `stderr`, or
returns the program data. The tables of the file are blocks of memory as long as the header says, and
`malloc` finds them; an index outside of them is not caught. The text of `errno` behind the message of
`perror` is left out, and so are the fields of the headers that the parser does not use. -/

namespace Dabugger.Elf.File

open Dabugger.Lib.Bytes Dabugger.Lib.Streams Dabugger.Dwarf.Types Dabugger.Debug.Session

/-! ### Types of `elf.h` -/

/-- The number on `n` bytes at an offset. -/
def uint (bs : List UInt8) (offset n : ℕ) : ℕ := ofLe (slice bs offset n)

/-- `EI_NIDENT`. -/
def eiNident : ℕ := 16

/-- `ELFMAG`. -/
def elfMag : List UInt8 := [0x7f, 69, 76, 70]

/-- `EI_CLASS`. -/
def eiClass : ℕ := 4

/-- `EI_DATA`. -/
def eiData : ℕ := 5

/-- `ELFCLASS64`. -/
def elfClass64 : UInt8 := 2

/-- `ELFDATA2LSB`. -/
def elfData2Lsb : UInt8 := 1

/-- `EM_X86_64`. -/
def emX86_64 : UInt16 := 62

/-- `PT_LOAD`. -/
def ptLoad : UInt32 := 1

/-- `sizeof(Elf64_Ehdr)`. -/
def ehdrSize : ℕ := 64

/-- `sizeof(Elf64_Shdr)`. -/
def shdrSize : ℕ := 64

/-- `sizeof(Elf64_Phdr)`. -/
def phdrSize : ℕ := 56

/-- `Elf64_Ehdr`. -/
structure Elf64Ehdr where
  machine : UInt16
  entry : UInt64
  phoff : UInt64
  shoff : UInt64
  phentsize : UInt16
  phnum : UInt16
  shentsize : UInt16
  shnum : UInt16
  shstrndx : UInt16
  deriving DecidableEq

/-- `Elf64_Shdr`. -/
structure Elf64Shdr where
  name : UInt32
  addr : UInt64
  offset : UInt64
  size : UInt64
  deriving DecidableEq

/-- `Elf64_Phdr`. -/
structure Elf64Phdr where
  type : UInt32
  vaddr : UInt64
  deriving DecidableEq

/-- The file header at an offset. -/
def ehdrAt (bs : List UInt8) (base : ℕ) : Elf64Ehdr where
  machine := UInt16.ofNat (uint bs (base + 18) 2)
  entry := UInt64.ofNat (uint bs (base + 24) 8)
  phoff := UInt64.ofNat (uint bs (base + 32) 8)
  shoff := UInt64.ofNat (uint bs (base + 40) 8)
  phentsize := UInt16.ofNat (uint bs (base + 54) 2)
  phnum := UInt16.ofNat (uint bs (base + 56) 2)
  shentsize := UInt16.ofNat (uint bs (base + 58) 2)
  shnum := UInt16.ofNat (uint bs (base + 60) 2)
  shstrndx := UInt16.ofNat (uint bs (base + 62) 2)

/-- The section header at an offset. -/
def shdrAt (bs : List UInt8) (base : ℕ) : Elf64Shdr where
  name := UInt32.ofNat (uint bs base 4)
  addr := UInt64.ofNat (uint bs (base + 16) 8)
  offset := UInt64.ofNat (uint bs (base + 24) 8)
  size := UInt64.ofNat (uint bs (base + 32) 8)

/-- The program header at an offset. -/
def phdrAt (bs : List UInt8) (base : ℕ) : Elf64Phdr where
  type := UInt32.ofNat (uint bs base 4)
  vaddr := UInt64.ofNat (uint bs (base + 16) 8)

/-! ### Ends -/

/-- How the parser does not return. -/
inductive Stop where
  /-- `exit(EXIT_FAILURE)`, behind these lines on `stderr` -/
  | exit (stderr : List String)
  /-- an index outside its block, or a product that is no `int` -/
  | undefined
  deriving DecidableEq

/-- The label `error`, behind a message. -/
def error (path message : String) : Stop :=
  .exit [message, "Failed to parse file as an x86-64 ELF executable: " ++ path]

/-- The label `sys_error`. -/
def sysError (path : String) : Stop := error path "error parsing file"

/-- A reader of the file. -/
abbrev Parse := Reading UInt8 Stop

/-! ### Tables -/

/-- `(long)`. -/
def toLong (x : UInt64) : ℤ := x.toBitVec.toInt

/-- The bytes that `malloc` is asked for; the product of two `Elf64_Half` is an `int`. -/
def tableSize (entrySize count : UInt16) : Except Stop ℕ :=
  if entrySize.toNat * count.toNat < 2 ^ 31 then .ok (entrySize.toNat * count.toNat)
  else .error .undefined

/-- A table of entries at an offset of the file, in a block of its own. -/
def readTable (path : String) (offset : UInt64) (entrySize count : UInt16) : Parse (List UInt8) := do
  let _ ← tableSize entrySize count
  seekTo (sysError path) (toLong offset)
  readItems (sysError path) entrySize.toNat count.toNat

/-- `section_header[i]`. -/
def sectionHeaderAt (table : List UInt8) (i : ℕ) : Except Stop Elf64Shdr :=
  if shdrSize * i + shdrSize ≤ table.length then .ok (shdrAt table (shdrSize * i))
  else .error .undefined

/-- `program_header[i]`. -/
def programHeaderAt (table : List UInt8) (i : ℕ) : Except Stop Elf64Phdr :=
  if phdrSize * i + phdrSize ≤ table.length then .ok (phdrAt table (phdrSize * i))
  else .error .undefined

/-! ### Sections -/

/-- The sections that are looked for. -/
inductive SectionKind where
  | debugLine
  | debugStr
  | debugLineStr
  | text
  deriving DecidableEq

namespace SectionKind

/-- The name: `.debug_line`, `.debug_str`, `.debug_line_str`, `.text`. -/
def name : SectionKind → List UInt8
  | debugLine => [46, 100, 101, 98, 117, 103, 95, 108, 105, 110, 101]
  | debugStr => [46, 100, 101, 98, 117, 103, 95, 115, 116, 114]
  | debugLineStr => [46, 100, 101, 98, 117, 103, 95, 108, 105, 110, 101, 95, 115, 116, 114]
  | text => [46, 116, 101, 120, 116]

/-- The buffer of the section. -/
def get (sections : ProgramSections) : SectionKind → SectionBuffer
  | debugLine => sections.debugLine
  | debugStr => sections.debugStr
  | debugLineStr => sections.debugLineStr
  | text => sections.text

/-- Write the buffer of the section. -/
def set (sections : ProgramSections) (buffer : SectionBuffer) : SectionKind → ProgramSections
  | debugLine => { sections with debugLine := buffer }
  | debugStr => { sections with debugStr := buffer }
  | debugLineStr => { sections with debugLineStr := buffer }
  | text => { sections with text := buffer }

end SectionKind

/-- `strcmp(s, literal) == 0`; the string is compared up to the first difference. -/
def strcmp : List UInt8 → List UInt8 → Except Stop Bool
  | [], _ => .error .undefined
  | c :: _, [] => .ok (decide (c = 0))
  | c :: cs, d :: ds => if c = d then strcmp cs ds else .ok false

/-- `current_section`, by the name of the section; `none` is the null pointer. -/
def currentSection (sectionName : List UInt8) : Except Stop (Option SectionKind) := do
  if ← strcmp sectionName SectionKind.debugLine.name then return some .debugLine
  if ← strcmp sectionName SectionKind.debugStr.name then return some .debugStr
  if ← strcmp sectionName SectionKind.debugLineStr.name then return some .debugLineStr
  if ← strcmp sectionName SectionKind.text.name then return some .text
  return none

/-- The buffer of a section: `sh_size` bytes. -/
def readBuffer (path : String) (sectionHeader : Elf64Shdr) : Parse SectionBuffer := do
  seekTo (sysError path) (toLong sectionHeader.offset)
  let data ← readItems (sysError path) sectionHeader.size.toNat 1
  return {
    address := sectionHeader.addr
    data := data.take sectionHeader.size.toNat
    size_lt := (List.length_take_le _ _).trans_lt sectionHeader.size.toNat_lt }

/-- The body of the loop over the sections. -/
def readSection (path : String) (table sectionNames : List UInt8) (i : ℕ)
    (sections : ProgramSections) : Parse ProgramSections := do
  let current ← sectionHeaderAt table i
  match ← currentSection (sectionNames.drop current.name.toNat) with
  | none => return sections
  | some kind => do
    let buffer ← readBuffer path current
    return kind.set sections buffer

/-- The loop over the sections, from section `i` on. -/
def readSections (path : String) (table sectionNames : List UInt8) :
    ℕ → ℕ → ProgramSections → Parse ProgramSections
  | 0, _, sections => return sections
  | n + 1, i, sections => do
    let sections ← readSection path table sectionNames i sections
    readSections path table sectionNames n (i + 1) sections

/-! ### The file -/

/-- The file header, which is read in two parts. -/
def readHeader (path : String) : Parse Elf64Ehdr := do
  let ident ← readItems (sysError path) eiNident 1
  require (error path "This is not an ELF file!") (slice ident 0 elfMag.length = elfMag)
  require (error path "dabugger currently only supports 64 bit executables.")
    (ident[eiClass]? = some elfClass64)
  require (error path "dabugger currently only supports little endian executables.")
    (ident[eiData]? = some elfData2Lsb)
  let rest ← readItems (sysError path) (ehdrSize - eiNident) 1
  let elfHeader := ehdrAt (ident ++ rest) 0
  require (error path "dabugger currently only supports x86-64 executables.")
    (elfHeader.machine = emX86_64)
  return elfHeader

/-- The loop over the program headers, from header `i` on. -/
def findLoadAddress (table : List UInt8) : ℕ → ℕ → Except Stop UInt64
  | 0, _ => return 0
  | n + 1, i => do
    let current ← programHeaderAt table i
    if current.type = ptLoad then return current.vaddr
    findLoadAddress table n (i + 1)

/-- `parse_elf_file`, behind `fopen`. -/
def parseElf (path : String) : Parse ProgramData := do
  let elfHeader ← readHeader path
  let table ← readTable path elfHeader.shoff elfHeader.shentsize elfHeader.shnum
  let stringTableHeader ← sectionHeaderAt table elfHeader.shstrndx.toNat
  seekTo (sysError path) (toLong stringTableHeader.offset)
  let sectionNames ← readItems (sysError path) stringTableHeader.size.toNat 1
  let sections ← readSections path table sectionNames elfHeader.shnum.toNat 0 {}
  let table ← readTable path elfHeader.phoff elfHeader.phentsize elfHeader.phnum
  let loadAddress ← findLoadAddress table elfHeader.phnum.toNat 0
  return { sections, entryPoint := elfHeader.entry, loadAddress }

/-- `parse_elf_file`, on the contents of the file if it can be opened. -/
def parseElfFile (path : String) (file : Option (List UInt8)) : Except Stop ProgramData :=
  match file with
  | none => .error (sysError path)
  | some contents => (parseElf path ⟨contents, 0⟩).map Prod.fst

end Dabugger.Elf.File
