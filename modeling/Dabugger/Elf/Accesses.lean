import Dabugger.Elf.Acceptance

/-! # The indices of `parse_elf_file`

The parser with a log of the products and the indices that it computes from the fields of the file;
without the log it is the parser (`erases_parseElf`). They are in range (`Access.Inside`) as far as the
fields of the image say so (`InRange`): the parser does not compare them. -/

namespace Dabugger.Elf.Accesses

open Dabugger.Base (cstringAt)
open Dabugger.Lib.Bytes Dabugger.Lib.Log Dabugger.Lib.Searches Dabugger.Lib.Streams
open Dabugger.Dwarf.Types Dabugger.Debug.Session Dabugger.Elf.File Dabugger.Elf.Extraction
open Dabugger.Elf.Acceptance

/-! ### The parser with a log -/

/-- What the parser does with fields of the file. -/
inductive Access where
  /-- the product of two `Elf64_Half`, which is an `int` -/
  | product (entrySize count : UInt16)
  /-- an entry of `structSize` bytes, at an index of a table that has been read -/
  | entry (table : List UInt8) (structSize i : ℕ)
  /-- a string at an offset of the section-name table -/
  | name (sectionNames : List UInt8) (offset : ℕ)

/-- The product is an `int`; the entry lies in the table; the string starts and ends in it. -/
def Access.Inside : Access → Prop
  | product entrySize count => entrySize.toNat * count.toNat < 2 ^ 31
  | entry table structSize i => structSize * i + structSize ≤ table.length
  | name sectionNames offset => cstringAt sectionNames offset ≠ none

/-- A reader of the file, with a log. -/
abbrev LoggedParse := StateT (Stream UInt8) (Logged Access Stop)

def readTableLog (path : String) (offset : UInt64) (entrySize count : UInt16) :
    LoggedParse (List UInt8) := do
  emitItem (.product entrySize count)
  unlogged (readTable path offset entrySize count)

def readSectionLog (path : String) (table sectionNames : List UInt8) (i : ℕ)
    (sections : ProgramSections) : LoggedParse ProgramSections := do
  emitItem (.entry table shdrSize i)
  let current ← unlogged (liftM (sectionHeaderAt table i))
  emitItem (.name sectionNames current.name.toNat)
  match ← unlogged (liftM (currentSection (sectionNames.drop current.name.toNat))) with
  | none => return sections
  | some kind => do
    let buffer ← unlogged (readBuffer path current)
    return kind.set sections buffer

def readSectionsLog (path : String) (table sectionNames : List UInt8) :
    ℕ → ℕ → ProgramSections → LoggedParse ProgramSections
  | 0, _, sections => return sections
  | n + 1, i, sections => do
    let sections ← readSectionLog path table sectionNames i sections
    readSectionsLog path table sectionNames n (i + 1) sections

def findLoadAddressLog (table : List UInt8) : ℕ → ℕ → LoggedParse UInt64
  | 0, _ => return 0
  | n + 1, i => do
    emitItem (.entry table phdrSize i)
    let current ← unlogged (liftM (programHeaderAt table i))
    if current.type = ptLoad then return current.vaddr
    findLoadAddressLog table n (i + 1)

/-- `parse_elf_file`, behind `fopen`. -/
def parseElfLog (path : String) : LoggedParse ProgramData := do
  let elfHeader ← unlogged (readHeader path)
  let table ← readTableLog path elfHeader.shoff elfHeader.shentsize elfHeader.shnum
  emitItem (.entry table shdrSize elfHeader.shstrndx.toNat)
  let stringTableHeader ← unlogged (liftM (sectionHeaderAt table elfHeader.shstrndx.toNat))
  unlogged (seekTo (sysError path) (toLong stringTableHeader.offset))
  let sectionNames ← unlogged (readItems (sysError path) stringTableHeader.size.toNat 1)
  let sections ← readSectionsLog path table sectionNames elfHeader.shnum.toNat 0 {}
  let table ← readTableLog path elfHeader.phoff elfHeader.phentsize elfHeader.phnum
  let loadAddress ← findLoadAddressLog table elfHeader.phnum.toNat 0
  return { sections, entryPoint := elfHeader.entry, loadAddress }

/-! ### Without the log -/

section
variable (path : String)

theorem erases_readTable (offset : UInt64) (entrySize count : UInt16) :
    Erases (readTableLog path offset entrySize count) (readTable path offset entrySize count) :=
  .emit_bind (.unlogged _)

theorem erases_readSection (table sectionNames : List UInt8) (i : ℕ) (sections : ProgramSections) :
    Erases (readSectionLog path table sectionNames i sections)
      (readSection path table sectionNames i sections) := by
  refine .emit_bind ((Erases.unlogged _).bind fun current => .emit_bind ?_)
  refine (Erases.unlogged _).bind fun found => ?_
  rcases found with _ | kind
  · exact .pure _
  · exact (Erases.unlogged _).bind fun buffer => .pure _

theorem erases_readSections (table sectionNames : List UInt8) :
    ∀ (n i : ℕ) (sections : ProgramSections),
      Erases (readSectionsLog path table sectionNames n i sections)
        (readSections path table sectionNames n i sections)
  | 0, _, _ => .pure _
  | n + 1, i, sections =>
    (erases_readSection path table sectionNames i sections).bind fun _ =>
      erases_readSections table sectionNames n (i + 1) _

theorem erases_findLoadAddress (table : List UInt8) : ∀ n i : ℕ,
    Erases (findLoadAddressLog table n i) (liftM (findLoadAddress table n i))
  | 0, _ => .pure _
  | n + 1, i => by
    refine .emit_bind ?_
    rw [findLoadAddress, liftM_bind]
    refine (Erases.unlogged _).bind fun current => ?_
    split
    · exact .pure _
    · exact erases_findLoadAddress table n (i + 1)

/-- **The parser with a log** is the parser. -/
theorem erases_parseElf : Erases (parseElfLog path) (parseElf path) := by
  refine (Erases.unlogged _).bind fun elfHeader => ?_
  refine (erases_readTable path _ _ _).bind fun table => .emit_bind ?_
  refine (Erases.unlogged _).bind fun stringTableHeader => ?_
  refine (Erases.unlogged _).bind fun _ => (Erases.unlogged _).bind fun sectionNames => ?_
  refine (erases_readSections path _ _ _ _ _).bind fun sections => ?_
  refine (erases_readTable path _ _ _).bind fun table => ?_
  exact (erases_findLoadAddress _ _ _).bind fun loadAddress => .pure _

end

/-! ### Where the parser comes to -/

section
variable (image : List UInt8)

/-- The file header has been read. -/
def Identified : Prop := IsElf64 image ∧ ehdrSize ≤ image.length

/-- So has the section table. -/
def ReadsSections : Prop :=
  Identified image ∧ Readable image (header image).shoff (header image).shentsize.toNat
    (header image).shnum.toNat

/-- So has the section-name table. -/
def ReadsNames : Prop :=
  ReadsSections image ∧
    Readable image (sectionHeader image (header image).shstrndx.toNat).offset
      (sectionHeader image (header image).shstrndx.toNat).size.toNat 1

/-- So have the sections that are looked for. -/
def ReadsContents : Prop :=
  ReadsNames image ∧ ∀ i < (header image).shnum.toNat, SectionReadable image i

/-- So have the program headers. -/
def ReadsPrograms : Prop :=
  ReadsContents image ∧ Readable image (header image).phoff (header image).phentsize.toNat
    (header image).phnum.toNat

/-- The program header lies in its table. -/
def ProgramIndexed (i : ℕ) : Prop := phdrSize * i + phdrSize ≤ (programTable image).length

/-- **The fields of the image are in range**, each one as far as the parser comes to it: a section counts
if those before it can be read, and a program header if none before it is loaded. -/
structure InRange : Prop where
  sectionProduct : Identified image →
    (header image).shentsize.toNat * (header image).shnum.toNat < 2 ^ 31
  stringTable : ReadsSections image →
    shdrSize * (header image).shstrndx.toNat + shdrSize ≤ (sectionTable image).length
  sections : ReadsNames image →
    AllReached (SectionIndexed image) (SectionReadable image) 0 (header image).shnum.toNat
  programProduct : ReadsContents image →
    (header image).phentsize.toNat * (header image).phnum.toNat < 2 ^ 31
  programs : ReadsPrograms image →
    AllReached (ProgramIndexed image) (fun i => (programHeader image i).type ≠ ptLoad) 0
      (header image).phnum.toNat

end

/-! ### What is logged -/

section
variable {image : List UInt8} {position : ℕ} (path : String)

/-- One section. -/
theorem emits_readSection (i : ℕ) (sections : ProgramSections) :
    EmitsIff Access.Inside image position
      (readSectionLog path (sectionTable image) (sectionNames image) i sections)
      (SectionIndexed image i) := by
  refine EmitsIff.emit_bind fun hentry => ?_
  refine ((EmitsIff.unlogged_bind (accepts_sectionHeaderAt i)
    (Φ := fun current _ => current = sectionHeader image i)
    (Yields.lift fun _ h => sectionHeaderAt_eq_ok h) ?_)).congr (forall_prop_of_true hentry)
  rintro - _ _ rfl
  refine (EmitsIff.emit_bind (D := True) fun _ => ?_).congr (and_iff_left trivial)
  refine (EmitsIff.unlogged_bind (Accepts.lift _) (Φ := fun _ _ => True)
    (Yields.lift fun _ _ => trivial) (D := True) ?_).congr (by simp)
  rintro - (_ | kind) _ -
  · exact .pure _
  · exact (EmitsIff.unlogged_bind (accepts_readBuffer path _) (yields_readBuffer path _)
      fun _ _ _ _ => .pure _).congr (by simp)

/-- The sections from section `i` on. -/
theorem emits_readSections {n : ℕ} : ∀ {position i : ℕ} {sections : ProgramSections},
    Scanned image i sections →
      EmitsIff Access.Inside image position
        (readSectionsLog path (sectionTable image) (sectionNames image) n i sections)
        (AllReached (SectionIndexed image) (SectionReadable image) i n) := by
  induction n with
  | zero =>
    intro _ i sections _
    exact (EmitsIff.pure _).congr (iff_of_true trivial (allReached_zero _ _ i))
  | succ n ih =>
    intro _ i sections hs
    rw [allReached_succ]
    refine (emits_readSection path i sections).bind (erases_readSection path _ _ i sections)
      (fun hi => accepts_readSection path sections hi)
      (fun hi _ => yields_readSection path hi.2 hs) ?_
    intro _ _ sections' _ hs'
    exact ih hs'

/-- The program headers from header `i` on. -/
theorem emits_findLoadAddress {n : ℕ} : ∀ {position i : ℕ},
    EmitsIff Access.Inside image position (findLoadAddressLog (programTable image) n i)
      (AllReached (ProgramIndexed image) (fun i => (programHeader image i).type ≠ ptLoad) i n) := by
  induction n with
  | zero =>
    intro _ i
    exact (EmitsIff.pure _).congr (iff_of_true trivial (allReached_zero _ _ i))
  | succ n ih =>
    intro _ i
    rw [allReached_succ]
    refine EmitsIff.emit_bind fun hentry => ?_
    have hle : phdrSize * i + phdrSize ≤ (programTable image).length := hentry
    have haccepts : ∃ current, programHeaderAt (programTable image) i = .ok current := by
      rw [programHeaderAt_table, if_pos hle]
      exact ⟨_, rfl⟩
    refine (EmitsIff.unlogged_bind (Accepts.lift _)
      (Φ := fun current _ => current = programHeader image i)
      (Yields.lift fun _ h => programHeaderAt_eq_ok h) ?_).congr (forall_prop_of_true haccepts)
    rintro - _ _ rfl
    split
    · exact (EmitsIff.pure _).congr (by simp [*])
    · exact ih.congr (by simp [*])

/-- A table. -/
theorem emits_readTable (offset : UInt64) (entrySize count : UInt16) :
    EmitsIff Access.Inside image position (readTableLog path offset entrySize count)
      (entrySize.toNat * count.toNat < 2 ^ 31) :=
  (EmitsIff.emit_bind fun _ => .unlogged _).congr (and_iff_left trivial)

/-- Reading a table, and the rest. -/
theorem emits_readTable_bind {β : Type} {offset : UInt64} {entrySize count : UInt16}
    {g : List UInt8 → LoggedParse β} {D : Prop}
    (hg : ∀ position',
      EmitsIff Access.Inside image position'
        (g (slice image offset.toNat (entrySize.toNat * count.toNat))) D) :
    EmitsIff Access.Inside image position (readTableLog path offset entrySize count >>= g)
      (entrySize.toNat * count.toNat < 2 ^ 31 ∧
        (Readable image offset entrySize.toNat count.toNat → D)) := by
  refine ((emits_readTable path offset entrySize count).bind
    (erases_readTable path offset entrySize count)
    (fun _ => accepts_readTable path offset entrySize count)
    (fun _ _ => yields_readTable path offset entrySize count) (D := D) ?_).congr
      (and_congr_right fun hproduct => ?_)
  · rintro - - _ position' rfl
    exact hg position'
  · rw [and_iff_right hproduct]

/-- Reading at an offset, and the rest. -/
theorem emits_readAt {β : Type} {offset : UInt64} {size count : ℕ} {g : List UInt8 → LoggedParse β}
    {D : Prop}
    (hg : ∀ position',
      EmitsIff Access.Inside image position' (g (slice image offset.toNat (size * count))) D) :
    EmitsIff Access.Inside image position
      (do
        unlogged (seekTo (sysError path) (toLong offset))
        let data ← unlogged (readItems (sysError path) size count)
        g data)
      (Readable image offset size count → D) := by
  refine (EmitsIff.unlogged_bind (accepts_seekTo _ _) (yields_seekTo _ _) (D := (count = 0 ∨
    0 < size ∧ offset.toNat + size * count ≤ image.length) → D) ?_).congr and_imp.symm
  rintro hseek _ _ ⟨-, rfl⟩
  rw [← toNat_toLong hseek]
  refine EmitsIff.unlogged_bind (accepts_readItems _ _ _) (yields_readItems _ _ _) ?_
  rintro - _ position' ⟨rfl, -, -⟩
  rw [toNat_toLong hseek]
  exact hg position'

/-- The fields in the order in which the parser comes to them. -/
theorem inRange_iff : InRange image ↔ (Identified image →
    (header image).shentsize.toNat * (header image).shnum.toNat < 2 ^ 31 ∧
    (Readable image (header image).shoff (header image).shentsize.toNat
        (header image).shnum.toNat →
      shdrSize * (header image).shstrndx.toNat + shdrSize ≤ (sectionTable image).length ∧
      (Readable image (sectionHeader image (header image).shstrndx.toNat).offset
          (sectionHeader image (header image).shstrndx.toNat).size.toNat 1 →
        AllReached (SectionIndexed image) (SectionReadable image) 0 (header image).shnum.toNat ∧
        ((∀ i < (header image).shnum.toNat, SectionReadable image i) →
          (header image).phentsize.toNat * (header image).phnum.toNat < 2 ^ 31 ∧
          (Readable image (header image).phoff (header image).phentsize.toNat
              (header image).phnum.toNat →
            AllReached (ProgramIndexed image) (fun i => (programHeader image i).type ≠ ptLoad) 0
              (header image).phnum.toNat))))) := by
  constructor
  · intro h hid
    refine ⟨h.sectionProduct hid, fun hs => ⟨h.stringTable ⟨hid, hs⟩, fun hn => ?_⟩⟩
    refine ⟨h.sections ⟨⟨hid, hs⟩, hn⟩, fun hc => ?_⟩
    exact ⟨h.programProduct ⟨⟨⟨hid, hs⟩, hn⟩, hc⟩, fun hp => h.programs ⟨⟨⟨⟨hid, hs⟩, hn⟩, hc⟩, hp⟩⟩
  · intro h
    exact {
      sectionProduct := fun hid => (h hid).1
      stringTable := fun hs => ((h hs.1).2 hs.2).1
      sections := fun hn => (((h hn.1.1).2 hn.1.2).2 hn.2).1
      programProduct := fun hc => ((((h hc.1.1.1).2 hc.1.1.2).2 hc.1.2).2 hc.2).1
      programs := fun hp => ((((h hp.1.1.1.1).2 hp.1.1.1.2).2 hp.1.1.2).2 hp.1.2).2 hp.2 }

/-- **What the parser computes from the fields** is in range if and only if the fields are. -/
theorem emits_parseElf :
    EmitsIff Access.Inside image 0 (parseElfLog path) (InRange image) := by
  rw [inRange_iff]
  refine EmitsIff.unlogged_bind (accepts_readHeader path) (yields_readHeader path) ?_
  rintro - _ _ ⟨rfl, -⟩
  refine emits_readTable_bind path fun _ => ?_
  refine EmitsIff.emit_bind fun hentry => ?_
  refine (EmitsIff.unlogged_bind (accepts_sectionHeaderAt _)
    (Φ := fun current _ => current = sectionHeader image (header image).shstrndx.toNat)
    (Yields.lift fun _ h => sectionHeaderAt_eq_ok h) ?_).congr (forall_prop_of_true hentry)
  rintro - _ _ rfl
  refine emits_readAt path fun _ => ?_
  rw [Nat.mul_one]
  refine ((emits_readSections path scanned_zero).bind (erases_readSections path _ _ _ _ _)
    (fun hindexed => accepts_readSections path hindexed scanned_zero)
    (fun hindexed hread => yields_readSections path
      (fun j hij hj => (hindexed.all hread j hij hj).2) scanned_zero) ?_).congr
        (and_congr_right' (imp_congr_left (by simp)))
  rintro - - sections _ -
  exact emits_readTable_bind path fun _ => emits_findLoadAddress.bind_pure _

end

/-- **The parser never leaves its tables** on an image if and only if the fields of the image are in
range. -/
theorem parseElf_inside_iff (path : String) (image : List UInt8) :
    Emits Access.Inside (parseElfLog path ⟨image, 0⟩) ↔ InRange image :=
  emits_parseElf path

instance : DecidablePred Access.Inside
  | .product _ _ => inferInstanceAs (Decidable (_ < _))
  | .entry _ _ _ => inferInstanceAs (Decidable (_ ≤ _))
  | .name _ _ => inferInstanceAs (Decidable (_ ≠ _))

/-- An image that consists of a file header without tables. -/
def bareImage : List UInt8 :=
  elfMag ++ [elfClass64, elfData2Lsb] ++ toLe 10 1 ++ toLe 2 2 ++ toLe 2 62 ++ toLe 44 0

/-- The header of the section-name table is taken from a table without entries. -/
theorem bareImage_outside : IsElf64 bareImage ∧
    ¬ Emits Access.Inside (parseElfLog "a.out" ⟨bareImage, 0⟩) := by
  refine ⟨⟨by decide +kernel, by decide +kernel, by decide +kernel, by decide +kernel⟩, ?_⟩
  unfold Emits
  decide +kernel

end Dabugger.Elf.Accesses
