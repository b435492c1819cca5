import Dabugger.Elf.Extraction

/-! # Which images `parse_elf_file` accepts

Each read of the parser has a condition on the image (`Readable`), and the parser returns where all of
them hold. `fread` counts no item of size 0, so that an empty section with one of the four names is
taken for a read error (`parseElfFile_accepts_iff`). -/

namespace Dabugger.Elf.Acceptance

open Dabugger.Base (cstringAt)
open Dabugger.Lib.Bytes Dabugger.Lib.Searches Dabugger.Lib.Streams
open Dabugger.Dwarf.Types Dabugger.Debug.Session Dabugger.Elf.File Dabugger.Elf.Extraction

/-! ### Conditions on the image -/

section
variable (image : List UInt8)

/-- `count` items of `size` bytes can be read at an offset. -/
def Readable (offset : UInt64) (size count : ℕ) : Prop :=
  0 ≤ toLong offset ∧ (count = 0 ∨ 0 < size ∧ offset.toNat + size * count ≤ image.length)

/-- The contents of the section can be read, if it is one that is looked for. -/
def SectionReadable (i : ℕ) : Prop :=
  ∀ kind : SectionKind, sectionName image i = some kind.name →
    Readable image (sectionHeader image i).offset (sectionHeader image i).size.toNat 1

/-- The header of the section lies in the section table, and its name ends in the section-name table. -/
def SectionIndexed (i : ℕ) : Prop :=
  shdrSize * i + shdrSize ≤ (sectionTable image).length ∧ sectionName image i ≠ none

/-- The section lies inside the file. -/
def Inside (sectionHeader : Elf64Shdr) : Prop :=
  sectionHeader.offset.toNat + sectionHeader.size.toNat ≤ image.length

/-- There is a section-name table. -/
def HasNames : Prop :=
  (header image).shstrndx ≠ 0 ∧ (header image).shstrndx < (header image).shnum

/-- The section-name table lies inside the file and has a string for each section, and so do the sections
that are looked for. -/
structure NamesInside : Prop where
  table : Inside image (sectionHeader image (header image).shstrndx.toNat)
  names : ∀ i < (header image).shnum.toNat, sectionName image i ≠ none
  sections : ∀ kind : SectionKind, ∀ i < (header image).shnum.toNat,
    sectionName image i = some kind.name → Inside image (sectionHeader image i)

/-- **A well-formed executable**: a little-endian x86-64 ELF64 image, in which the tables and the four
sections lie inside the file. The length of a file is an `off_t`, and section 0 is empty. -/
structure IsExecutable : Prop where
  elf : IsElf64 image
  header_le : ehdrSize ≤ image.length
  length_lt : image.length < 2 ^ 63
  shentsize : (header image).shnum ≠ 0 → (header image).shentsize.toNat = shdrSize
  sectionTable_le : (header image).shoff.toNat +
    (header image).shentsize.toNat * (header image).shnum.toNat ≤ image.length
  phentsize : (header image).phnum ≠ 0 → (header image).phentsize.toNat = phdrSize
  programTable_le : (header image).phoff.toNat +
    (header image).phentsize.toNat * (header image).phnum.toNat ≤ image.length
  first : (header image).shnum ≠ 0 → (sectionHeader image 0).size = 0
  namesInside : HasNames image → NamesInside image

end

/-! ### Reads -/

theorem toLong_nonneg_iff {x : UInt64} : 0 ≤ toLong x ↔ x.toNat < 2 ^ 63 := by
  have hlt : x.toBitVec.toNat < 2 ^ 64 := x.toBitVec.isLt
  rw [toLong, BitVec.toInt_eq_toNat_cond, show x.toNat = x.toBitVec.toNat from rfl]
  split <;> omega

section
variable {image : List UInt8} {position : ℕ} (path : String)

/-- What is read at an offset is a slice of the image. -/
theorem accepts_readAt {β : Type} {offset : UInt64} {size count : ℕ} {f : List UInt8 → Parse β}
    {D : Prop}
    (hf : Readable image offset size count →
      ∀ position', Accepts image position' (f (slice image offset.toNat (size * count))) D) :
    Accepts image position
      (do
        seekTo (sysError path) (toLong offset)
        let data ← readItems (sysError path) size count
        f data)
      (Readable image offset size count ∧ D) := by
  refine ((accepts_seekTo _ _).bind (yields_seekTo _ _) (D := (count = 0 ∨
    0 < size ∧ offset.toNat + size * count ≤ image.length) ∧ D) ?_).congr and_assoc.symm
  rintro hseek _ _ ⟨-, rfl⟩
  rw [← toNat_toLong hseek]
  refine (accepts_readItems _ _ _).bind (yields_readItems _ _ _) ?_
  rintro hread _ position' ⟨rfl, -, -⟩
  rw [toNat_toLong hseek] at hread ⊢
  exact hf ⟨hseek, hread⟩ position'

/-- A table. -/
theorem accepts_readTable (offset : UInt64) (entrySize count : UInt16) :
    Accepts image position (readTable path offset entrySize count)
      (entrySize.toNat * count.toNat < 2 ^ 31 ∧
        Readable image offset entrySize.toNat count.toNat) := by
  refine ((Accepts.lift _).bind (Φ := fun _ _ => True) (Yields.lift fun _ _ => trivial)
    (D := Readable image offset entrySize.toNat count.toNat) ?_).congr (and_congr_left' ?_)
  · rintro - _ position' -
    have hread := @accepts_readAt image position' path _ offset entrySize.toNat count.toNat pure _
      fun _ _ => Accepts.pure _
    simp only [bind_pure] at hread
    exact hread.congr (and_iff_left trivial)
  · unfold tableSize
    split
    · exact iff_of_true ⟨_, rfl⟩ ‹_›
    · exact iff_of_false (by rintro ⟨_, ⟨⟩⟩) ‹_›

/-- The header. -/
theorem accepts_readHeader :
    Accepts image 0 (readHeader path) (IsElf64 image ∧ ehdrSize ≤ image.length) := by
  refine ((accepts_readItems _ _ _).bind (yields_readItems _ _ _)
    (D := slice image 0 elfMag.length = elfMag ∧ image[eiClass]? = some elfClass64 ∧
      image[eiData]? = some elfData2Lsb ∧ ehdrSize ≤ image.length ∧
      (header image).machine = emX86_64) ?_).congr ?_
  · rintro - _ _ ⟨rfl, -, rfl⟩
    refine ((accepts_require _ _).congr ?_).bind (yields_require _ _) ?_
    · rw [slice_slice image 0 (by decide)]
    rintro - _ _ ⟨-, rfl⟩
    refine ((accepts_require _ _).congr ?_).bind (yields_require _ _) ?_
    · rw [getElem?_slice image 0 (by decide), Nat.zero_add]
    rintro - _ _ ⟨-, rfl⟩
    refine ((accepts_require _ _).congr ?_).bind (yields_require _ _) ?_
    · rw [getElem?_slice image 0 (by decide), Nat.zero_add]
    rintro - _ _ ⟨-, rfl⟩
    refine ((accepts_readItems _ _ _).congr ?_).bind (yields_readItems _ _ _) ?_
    · unfold eiNident ehdrSize
      omega
    rintro - _ _ ⟨rfl, -, rfl⟩
    refine ((accepts_require _ _).bind (yields_require _ _) fun _ _ _ _ => .pure _).congr ?_
    rw [and_iff_left trivial, slice_append, ← ehdrAt_slice]
    rfl
  · unfold eiNident ehdrSize
    constructor
    · rintro ⟨-, hmagic, hclass, hdata, hle, hmachine⟩
      exact ⟨⟨hmagic, hclass, hdata, hmachine⟩, hle⟩
    · rintro ⟨helf, hle⟩
      exact ⟨by omega, helf.magic, helf.elfClass, helf.littleEndian, hle, helf.machine⟩

/-- The contents of a section. -/
theorem accepts_readBuffer (sectionHeader : Elf64Shdr) :
    Accepts image position (readBuffer path sectionHeader)
      (Readable image sectionHeader.offset sectionHeader.size.toNat 1) := by
  have hread : Accepts image position (readBuffer path sectionHeader)
      (Readable image sectionHeader.offset sectionHeader.size.toNat 1 ∧ True) :=
    accepts_readAt path fun _ _ => .pure _
  exact hread.congr (and_iff_left trivial)

/-- An entry of the section table, as far as it has been read. -/
theorem accepts_sectionHeaderAt (i : ℕ) :
    Accepts image position (liftM (sectionHeaderAt (sectionTable image) i) : Parse Elf64Shdr)
      (shdrSize * i + shdrSize ≤ (sectionTable image).length) := by
  refine (Accepts.lift _).congr ?_
  rw [sectionHeaderAt_table]
  split
  · exact iff_of_true ⟨_, rfl⟩ ‹_›
  · exact iff_of_false (by rintro ⟨_, ⟨⟩⟩) ‹_›

/-! ### The loops -/

/-- One section. -/
theorem accepts_readSection {i : ℕ} (sections : ProgramSections) (hi : SectionIndexed image i) :
    Accepts image position (readSection path (sectionTable image) (sectionNames image) i sections)
      (SectionReadable image i) := by
  refine ((accepts_sectionHeaderAt i).bind (Φ := fun current _ => current = sectionHeader image i)
    (Yields.lift fun _ h => sectionHeaderAt_eq_ok h) ?_).congr (and_iff_right hi.1)
  rintro - _ _ rfl
  obtain ⟨current, hrun, hcurrent⟩ := exists_currentSection_names hi.2
  rw [hrun]
  refine ((Accepts.pure current).bind (Φ := fun current' _ => current = current') (.pure rfl)
    ?_).congr (and_iff_right trivial)
  rintro - _ position' rfl
  rcases current with _ | kind
  · refine (Accepts.pure _).congr (iff_of_true trivial ?_)
    intro kind hkind
    cases (hcurrent kind).mpr hkind
  · have hkind := (hcurrent kind).mp rfl
    refine ((accepts_readBuffer path _).bind (yields_readBuffer path _)
      fun _ _ _ _ => .pure _).congr ?_
    rw [and_iff_left trivial]
    exact ⟨fun h _ _ => h, fun h => h kind hkind⟩

/-- The sections from section `i` on; a section counts where those before it can be read. -/
theorem accepts_readSections {n : ℕ} : ∀ {position i : ℕ} {sections : ProgramSections},
    AllReached (SectionIndexed image) (SectionReadable image) i n → Scanned image i sections →
      Accepts image position
        (readSections path (sectionTable image) (sectionNames image) n i sections)
        (∀ j, i ≤ j → j < i + n → SectionReadable image j) := by
  induction n with
  | zero =>
    intro _ i sections _ _
    exact (Accepts.pure _).congr (iff_of_true trivial fun j hi hj => absurd hj (by omega))
  | succ n ih =>
    intro _ i sections hindexed hs
    obtain ⟨hi, hrest⟩ := allReached_succ.mp hindexed
    refine ((accepts_readSection path sections hi).bind (yields_readSection path hi.2 hs)
      (D := ∀ j, i + 1 ≤ j → j < i + 1 + n → SectionReadable image j) ?_).congr ?_
    · intro hfirst _ _ hs'
      exact ih (hrest hfirst) hs'
    · constructor
      · rintro ⟨hfirst, hrest⟩ j hij hj
        rcases Nat.eq_or_lt_of_le hij with rfl | hlt
        · exact hfirst
        · exact hrest j hlt (by omega)
      · intro h
        exact ⟨h i le_rfl (by omega), fun j hij hj => h j (by omega) (by omega)⟩

/-- The loop over the program headers, which all lie in the table. -/
theorem exists_findLoadAddress {n : ℕ} : ∀ {i : ℕ},
    (∀ j < i + n, phdrSize * j + phdrSize ≤ (programTable image).length) →
      ∃ address, findLoadAddress (programTable image) n i = .ok address := by
  induction n with
  | zero =>
    intro i _
    exact ⟨0, rfl⟩
  | succ n ih =>
    intro i hentries
    rw [findLoadAddress, programHeaderAt_table, if_pos (hentries i (by omega))]
    dsimp only [bind, Except.bind]
    split
    · exact ⟨_, rfl⟩
    · exact ih fun j hj => hentries j (by omega)

end

/-! ### Well-formed executables -/

/-- Inside the file, a read succeeds if it is of no items, or of items that are not empty. -/
theorem readable_iff {image : List UInt8} {offset : UInt64} {size count : ℕ}
    (hlen : image.length < 2 ^ 63) (hle : offset.toNat + size * count ≤ image.length) :
    Readable image offset size count ↔ count = 0 ∨ 0 < size := by
  rw [Readable, toLong_nonneg_iff, and_iff_right (by omega), and_iff_left hle]

/-- An entry of a table ends inside of it. -/
theorem entry_le_iff {entrySize count : UInt16} {structSize i : ℕ}
    (hsize : count ≠ 0 → entrySize.toNat = structSize) (hpos : 0 < structSize) :
    structSize * i + structSize ≤ entrySize.toNat * count.toNat ↔ i < count.toNat := by
  by_cases hzero : count = 0
  · subst hzero
    rw [UInt16.toNat_zero]
    omega
  · rw [hsize hzero, ← Nat.mul_succ, Nat.mul_le_mul_left_iff hpos, Nat.succ_le_iff]

/-- A table inside the file can be read. -/
theorem table_readable {image : List UInt8} {offset : UInt64} {entrySize count : UInt16}
    {structSize : ℕ} (hlen : image.length < 2 ^ 63)
    (hle : offset.toNat + entrySize.toNat * count.toNat ≤ image.length)
    (hsize : count ≠ 0 → entrySize.toNat = structSize) (hpos : 0 < structSize)
    (hsmall : structSize ≤ shdrSize) :
    entrySize.toNat * count.toNat < 2 ^ 31 ∧
      Readable image offset entrySize.toNat count.toNat := by
  rw [readable_iff hlen hle]
  have hcount : count.toNat < 2 ^ 16 := count.toNat_lt
  by_cases hzero : count = 0
  · subst hzero
    exact ⟨by simp, .inl rfl⟩
  · rw [hsize hzero]
    unfold shdrSize at hsmall
    have hmul := Nat.mul_le_mul hsmall hcount.le
    exact ⟨by omega, .inr hpos⟩

section
variable {image : List UInt8} (hw : IsExecutable image)
include hw

theorem IsExecutable.sectionEntry_le_iff {i : ℕ} :
    shdrSize * i + shdrSize ≤ (sectionTable image).length ↔ i < (header image).shnum.toNat := by
  rw [sectionTable, length_slice hw.sectionTable_le]
  exact entry_le_iff hw.shentsize (by decide)

theorem IsExecutable.programEntry_le_iff {i : ℕ} :
    phdrSize * i + phdrSize ≤ (programTable image).length ↔ i < (header image).phnum.toNat := by
  rw [programTable, length_slice hw.programTable_le]
  exact entry_le_iff hw.phentsize (by decide)

/-- The header of the section-name table can be found and its contents can be read, if there is
one. -/
theorem IsExecutable.hasNames_iff :
    (shdrSize * (header image).shstrndx.toNat + shdrSize ≤ (sectionTable image).length ∧
      Readable image (sectionHeader image (header image).shstrndx.toNat).offset
        (sectionHeader image (header image).shstrndx.toNat).size.toNat 1) ↔ HasNames image := by
  rw [hw.sectionEntry_le_iff, ← UInt16.lt_iff_toNat_lt]
  constructor
  · rintro ⟨hlt, -, hread⟩
    refine ⟨fun hzero => ?_, hlt⟩
    have hfirst := hw.first fun hnum => by simp [hnum] at hlt
    rw [hzero, show (0 : UInt16).toNat = 0 from rfl, hfirst] at hread
    simp at hread
  · intro hnames
    have hinside := hw.namesInside hnames
    refine ⟨hnames.2, ?_⟩
    have htable := hinside.table
    unfold Inside at htable
    rw [readable_iff hw.length_lt (by omega)]
    right
    -- a table without bytes has no string, not even that of section 0
    by_contra hzero
    refine hinside.names 0 ?_ ?_
    · have hlt := hnames.2
      rw [UInt16.lt_iff_toNat_lt] at hlt
      omega
    · rw [Nat.not_lt, Nat.le_zero] at hzero
      simp [sectionName, sectionNames, contents, hzero, slice, cstringAt]

/-- The contents of a section can be read, if they are not empty. -/
theorem IsExecutable.sectionReadable_iff (hnames : HasNames image) {i : ℕ}
    (hi : i < (header image).shnum.toNat) : SectionReadable image i ↔
      ∀ kind : SectionKind, sectionName image i = some kind.name → (sectionHeader image i).size ≠ 0 := by
  refine forall_congr' fun kind => imp_congr_right fun hkind => ?_
  have hinside := (hw.namesInside hnames).sections kind i hi hkind
  unfold Inside at hinside
  rw [readable_iff hw.length_lt (by omega), or_iff_right (by decide), Nat.pos_iff_ne_zero, ne_eq, ne_eq,
    ← UInt64.toNat_inj]
  rfl

/-- Where the parser returns. -/
theorem accepts_parseElf (path : String) :
    Accepts image 0 (parseElf path) (HasNames image ∧
      ∀ i < (header image).shnum.toNat, ∀ kind : SectionKind,
        sectionName image i = some kind.name → (sectionHeader image i).size ≠ 0) := by
  refine ((accepts_readHeader path).bind (yields_readHeader path) ?_).congr
    (and_iff_right ⟨hw.elf, hw.header_le⟩)
  rintro - _ _ ⟨rfl, -⟩
  refine ((accepts_readTable path _ _ _).bind (Φ := fun table _ => table = sectionTable image)
    (yields_readTable path _ _ _) ?_).congr (and_iff_right
      (table_readable hw.length_lt hw.sectionTable_le hw.shentsize (by decide) le_rfl))
  rintro - _ _ rfl
  rw [← hw.hasNames_iff, and_assoc]
  refine (accepts_sectionHeaderAt _).bind
    (Φ := fun current _ => current = sectionHeader image (header image).shstrndx.toNat)
    (Yields.lift fun _ h => sectionHeaderAt_eq_ok h) ?_
  rintro hentry _ _ rfl
  refine accepts_readAt path ?_
  intro hread _
  rw [Nat.mul_one]
  have hnames : HasNames image := hw.hasNames_iff.mp ⟨hentry, hread⟩
  have hinside := hw.namesInside hnames
  have hindexed : ∀ j < 0 + (header image).shnum.toNat, SectionIndexed image j := by
    intro j hj
    rw [Nat.zero_add] at hj
    exact ⟨hw.sectionEntry_le_iff.mpr hj, hinside.names j hj⟩
  refine ((accepts_readSections path (fun j _ hj _ => hindexed j hj) scanned_zero).bind
    (yields_readSections path (fun j _ hj => (hindexed j hj).2) scanned_zero) (D := True) ?_).congr ?_
  · rintro - sections _ -
    refine ((accepts_readTable path _ _ _).bind (Φ := fun table _ => table = programTable image)
      (yields_readTable path _ _ _) ?_).congr (and_iff_right
        (table_readable hw.length_lt hw.programTable_le hw.phentsize (by decide) (by decide)))
    rintro - _ _ rfl
    refine ((Accepts.lift _).bind (Φ := fun _ _ => True) (Yields.lift fun _ _ => trivial)
      fun _ _ _ _ => .pure _).congr (iff_of_true ⟨exists_findLoadAddress ?_, trivial⟩ trivial)
    intro j hj
    rw [Nat.zero_add] at hj
    exact hw.programEntry_le_iff.mpr hj
  · rw [and_iff_left trivial]
    constructor
    · intro h i hi
      exact (hw.sectionReadable_iff hnames hi).mp (h i (Nat.zero_le i) (by omega))
    · intro h j _ hj
      rw [Nat.zero_add] at hj
      exact (hw.sectionReadable_iff hnames hj).mpr (h j hj)

end

/-- **A well-formed executable is accepted** if and only if it has a section-name table and none of its
sections with the four names is empty. -/
theorem parseElfFile_accepts_iff {path : String} {image : List UInt8} (hw : IsExecutable image) :
    (∃ data, parseElfFile path (some image) = .ok data) ↔
      HasNames image ∧ ∀ i < (header image).shnum.toNat, ∀ kind : SectionKind,
        sectionName image i = some kind.name → (sectionHeader image i).size ≠ 0 := by
  refine Iff.trans ?_ (accepts_parseElf hw path)
  unfold parseElfFile Except.map
  dsimp only
  constructor
  · rintro ⟨data, h⟩
    split at h
    · cases h
    · exact ⟨_, ‹_›⟩
  · rintro ⟨r, hr⟩
    rw [hr]
    exact ⟨_, rfl⟩

/-- An image with a section `.debug_str` of this size. -/
def strImage (size : ℕ) : List UInt8 :=
  -- the file header; the sections are at 64, and there are no program headers
  elfMag ++ [elfClass64, elfData2Lsb] ++ toLe 10 1 ++ toLe 2 2 ++ toLe 2 62 ++ toLe 4 1 ++
  toLe 8 0x401000 ++ toLe 8 0 ++ toLe 8 64 ++ toLe 4 0 ++ toLe 2 64 ++ toLe 2 56 ++ toLe 2 0 ++
  toLe 2 64 ++ toLe 2 3 ++ toLe 2 2 ++
  -- section 0; `.debug_str`; the section of the names, whose own name is empty
  toLe 64 0 ++
  toLe 4 1 ++ toLe 20 1 ++ toLe 8 268 ++ toLe 8 size ++ toLe 24 0 ++
  toLe 4 0 ++ toLe 20 3 ++ toLe 8 256 ++ toLe 8 12 ++ toLe 24 0 ++
  [0] ++ SectionKind.debugStr.name ++ [0] ++ List.replicate size 97

instance (image : List UInt8) (sectionHeader : Elf64Shdr) : Decidable (Inside image sectionHeader) :=
  inferInstanceAs (Decidable (_ ≤ _))

theorem strImage_isExecutable : ∀ size < 2, IsExecutable (strImage size) := by
  intro size hsize
  have hsections : ∀ kind : SectionKind, ∀ size < 2, ∀ i < (header (strImage size)).shnum.toNat,
      sectionName (strImage size) i = some kind.name →
        Inside (strImage size) (sectionHeader (strImage size) i) := by
    intro kind
    cases kind <;> decide +kernel
  interval_cases size <;> exact {
    elf := {
      magic := by decide +kernel
      elfClass := by decide +kernel
      littleEndian := by decide +kernel
      machine := by decide +kernel }
    header_le := by decide +kernel
    length_lt := by decide +kernel
    shentsize := by decide +kernel
    sectionTable_le := by decide +kernel
    phentsize := by decide +kernel
    programTable_le := by decide +kernel
    first := by decide +kernel
    namesInside := fun _ => {
      table := by decide +kernel
      names := by decide +kernel
      sections := fun kind => hsections kind _ (by decide) } }

/-- One with a byte in its `.debug_str` is accepted. -/
theorem strImage_accepted : ∃ data, parseElfFile "a.out" (some (strImage 1)) = .ok data := by
  refine (parseElfFile_accepts_iff (strImage_isExecutable 1 (by decide))).mpr ⟨?_, ?_⟩
  · exact ⟨by decide +kernel, by decide +kernel⟩
  · intro i hi kind
    revert i hi
    cases kind <;> decide +kernel

/-- A well-formed executable with an empty `.debug_str` is not accepted. -/
theorem strImage_rejected : IsExecutable (strImage 0) ∧
    parseElfFile "a.out" (some (strImage 0)) = .error (sysError "a.out") :=
  ⟨strImage_isExecutable 0 (by decide), by decide +kernel⟩

end Dabugger.Elf.Acceptance
