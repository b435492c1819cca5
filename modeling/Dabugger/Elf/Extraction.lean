import Dabugger.Elf.File
import Dabugger.Lib.Runs
import Dabugger.Lib.Searches

/-! # What `parse_elf_file` extracts

The headers, names and sections of an image, at the offsets of the image, and what the parser returns of
them: the buffers of the last sections with the four names, the entry point, and the address of the
first segment that is loaded (`parseElfFile_extracted`). The loop over the sections keeps the invariant
`Scanned`. -/

namespace Dabugger.Elf.Extraction

open Dabugger.Base (cstringAt)
open Dabugger.Lib.Bytes Dabugger.Lib.Runs Dabugger.Lib.Streams Dabugger.Lib.Searches
open Dabugger.Dwarf.Types Dabugger.Debug.Session Dabugger.Elf.File

/-! ### The image -/

section
variable (image : List UInt8)

/-- The file header. -/
def header : Elf64Ehdr := ehdrAt image 0

/-- The section header `i`. -/
def sectionHeader (i : ℕ) : Elf64Shdr :=
  shdrAt image ((header image).shoff.toNat + shdrSize * i)

/-- The contents of a section. -/
def contents (sectionHeader : Elf64Shdr) : List UInt8 :=
  slice image sectionHeader.offset.toNat sectionHeader.size.toNat

/-- The section-name table. -/
def sectionNames : List UInt8 :=
  contents image (sectionHeader image (header image).shstrndx.toNat)

/-- The name of the section `i`; `none` if it is not terminated in the table. -/
def sectionName (i : ℕ) : Option (List UInt8) :=
  cstringAt (sectionNames image) (sectionHeader image i).name.toNat

/-- The section headers. -/
def sectionTable : List UInt8 :=
  slice image (header image).shoff.toNat
    ((header image).shentsize.toNat * (header image).shnum.toNat)

/-- The program headers. -/
def programTable : List UInt8 :=
  slice image (header image).phoff.toNat
    ((header image).phentsize.toNat * (header image).phnum.toNat)

/-- The program header `i`. -/
def programHeader (i : ℕ) : Elf64Phdr :=
  phdrAt image ((header image).phoff.toNat + phdrSize * i)

/-- The image is a little-endian x86-64 ELF64. -/
structure IsElf64 : Prop where
  magic : slice image 0 elfMag.length = elfMag
  elfClass : image[eiClass]? = some elfClass64
  littleEndian : image[eiData]? = some elfData2Lsb
  machine : (header image).machine = emX86_64

/-- The tables have entries of the usual size, and the names of the sections are strings. -/
structure WellFormed : Prop where
  shentsize : (header image).shentsize.toNat = shdrSize
  phentsize : (header image).phentsize.toNat = phdrSize
  shstrndx_lt : (header image).shstrndx < (header image).shnum
  names : ∀ i < (header image).shnum.toNat, sectionName image i ≠ none

/-- The buffer is the section with this header. -/
structure IsBuffer (sectionHeader : Elf64Shdr) (buffer : SectionBuffer) : Prop where
  address : buffer.address = sectionHeader.addr
  size : buffer.size = sectionHeader.size.toNat
  data : buffer.data = contents image sectionHeader

/-- The buffer is the last section of this name before section `n`, or all zero if there is none. -/
def IsSection (kind : SectionKind) (n : ℕ) (buffer : SectionBuffer) : Prop :=
  OfLast (fun i => sectionName image i = some kind.name)
    (fun i => IsBuffer image (sectionHeader image i)) .empty n buffer

/-- **The program data is that of the image.** -/
structure Extracted (data : ProgramData) : Prop where
  elf : IsElf64 image
  sections : ∀ kind : SectionKind,
    IsSection image kind (header image).shnum.toNat (kind.get data.sections)
  entryPoint : data.entryPoint = (header image).entry
  loadAddress : OfFirst (fun i => (programHeader image i).type = ptLoad)
    (fun i address => address = (programHeader image i).vaddr) 0 (header image).phnum.toNat
    data.loadAddress

end

/-! ### Headers in slices -/

section
variable (image : List UInt8) (base : ℕ) {offset n : ℕ}

theorem uint_slice {k : ℕ} (h : offset + k ≤ n) :
    uint (slice image base n) offset k = uint image (base + offset) k := by
  rw [uint, uint, slice_slice image base h]

theorem shdrAt_slice (h : offset + shdrSize ≤ n) :
    shdrAt (slice image base n) offset = shdrAt image (base + offset) := by
  unfold shdrSize at h
  unfold shdrAt
  simp only [Nat.add_assoc, uint_slice image base (show offset + 4 ≤ n by omega),
    uint_slice image base (show offset + 16 + 8 ≤ n by omega),
    uint_slice image base (show offset + 24 + 8 ≤ n by omega),
    uint_slice image base (show offset + 32 + 8 ≤ n by omega)]

theorem phdrAt_slice (h : offset + phdrSize ≤ n) :
    phdrAt (slice image base n) offset = phdrAt image (base + offset) := by
  unfold phdrSize at h
  unfold phdrAt
  simp only [Nat.add_assoc, uint_slice image base (show offset + 4 ≤ n by omega),
    uint_slice image base (show offset + 16 + 8 ≤ n by omega)]

theorem ehdrAt_slice : ehdrAt (slice image 0 ehdrSize) 0 = header image := by
  have huint : ∀ offset n, offset + n ≤ ehdrSize →
      uint (slice image 0 ehdrSize) (0 + offset) n = uint image (0 + offset) n := by
    intro offset n h
    rw [Nat.zero_add, uint_slice image 0 h, Nat.zero_add]
  unfold ehdrSize at huint
  unfold header ehdrAt ehdrSize
  congr 2 <;> exact huint _ _ (by decide)

end

/-! ### Reads at the offsets of the image -/

/-- An offset that `fseek` takes is a position of the file. -/
theorem toNat_toLong {x : UInt64} (h : 0 ≤ toLong x) : (toLong x).toNat = x.toNat := by
  unfold toLong at h ⊢
  rw [BitVec.toInt_eq_toNat_cond] at h ⊢
  have hlt : x.toBitVec.toNat < 2 ^ 64 := x.toBitVec.isLt
  rw [show x.toNat = x.toBitVec.toNat from rfl]
  split at h
  · rw [if_pos ‹_›, Int.toNat_natCast]
  · omega

section
variable {image : List UInt8} {position : ℕ} (path : String)

/-- The header that is read is that of the image. -/
theorem yields_readHeader :
    Yields image 0 (readHeader path) fun elfHeader _ =>
      elfHeader = header image ∧ IsElf64 image := by
  refine (yields_readItems _ _ _).bind ?_
  rintro ident _ ⟨hident, -, rfl⟩
  refine (yields_require _ _).bind ?_
  rintro _ _ ⟨hmagic, rfl⟩
  refine (yields_require _ _).bind ?_
  rintro _ _ ⟨hclass, rfl⟩
  refine (yields_require _ _).bind ?_
  rintro _ _ ⟨hdata, rfl⟩
  refine (yields_readItems _ _ _).bind ?_
  rintro rest _ ⟨hrest, -, rfl⟩
  have hheader : ehdrAt (ident ++ rest) 0 = header image := by
    rw [hident, hrest, slice_append, ← ehdrAt_slice]
    rfl
  refine (yields_require _ _).bind ?_
  rintro _ _ ⟨hmachine, rfl⟩
  refine .pure ⟨hheader, ?_⟩
  rw [hident] at hmagic hclass hdata
  rw [slice_slice image 0 (by decide)] at hmagic
  rw [getElem?_slice image 0 (by decide)] at hclass hdata
  rw [hheader] at hmachine
  exact { magic := hmagic, elfClass := hclass, littleEndian := hdata, machine := hmachine }

/-- A table is a slice of the image. -/
theorem yields_readTable (offset : UInt64) (entrySize count : UInt16) :
    Yields image position (readTable path offset entrySize count) fun table _ =>
      table = slice image offset.toNat (entrySize.toNat * count.toNat) := by
  refine (Yields.lift fun _ _ => trivial).bind (Φ := fun _ _ => True) ?_
  rintro _ _ -
  refine (yields_seekTo _ _).bind ?_
  rintro _ _ ⟨hoffset, rfl⟩
  refine (yields_readItems _ _ _).mono ?_
  rintro table _ ⟨htable, -, -⟩
  rw [htable, toNat_toLong hoffset]

/-- The contents of a section, read at its offset. -/
theorem yields_readContents {β : Type} {sectionHeader : Elf64Shdr} {f : List UInt8 → Parse β}
    {Ψ : β → ℕ → Prop}
    (hf : ∀ position' data, data = contents image sectionHeader →
      data.length = sectionHeader.size.toNat → Yields image position' (f data) Ψ) :
    Yields image position
      (do
        seekTo (sysError path) (toLong sectionHeader.offset)
        let data ← readItems (sysError path) sectionHeader.size.toNat 1
        f data) Ψ := by
  refine (yields_seekTo _ _).bind ?_
  rintro _ _ ⟨hoffset, rfl⟩
  refine (yields_readItems _ _ _).bind ?_
  rintro data position' ⟨hdata, hlen, -⟩
  rw [Nat.mul_one] at hdata hlen
  exact hf _ _ (by rw [hdata, toNat_toLong hoffset, contents]) hlen

theorem yields_readBuffer (sectionHeader : Elf64Shdr) :
    Yields image position (readBuffer path sectionHeader) fun buffer _ =>
      IsBuffer image sectionHeader buffer := by
  refine yields_readContents path ?_
  intro position' data hdata hlen
  have htake : data.take sectionHeader.size.toNat = data := List.take_of_length_le hlen.le
  refine .pure { address := rfl, size := ?_, data := ?_ }
  · exact (congrArg List.length htake).trans hlen
  · exact htake.trans hdata

end

/-! ### Names -/

/-- `strcmp` on a terminated string, against a literal without a zero. -/
theorem strcmp_eq {s : List UInt8} (hs : 0 ∈ s) :
    ∀ {literal : List UInt8}, 0 ∉ literal →
      strcmp s literal = .ok (decide (s.takeWhile (· ≠ 0) = literal)) := by
  induction s with
  | nil => cases hs
  | cons c cs ih =>
    intro literal hliteral
    cases literal with
    | nil =>
      rw [strcmp, List.takeWhile_cons]
      by_cases hc : c = 0 <;> simp [hc]
    | cons d ds =>
      rw [List.mem_cons, not_or] at hliteral
      rw [strcmp]
      by_cases hcd : c = d
      · subst hcd
        have hcs : 0 ∈ cs := by
          rcases List.mem_cons.mp hs with h | h
          · exact absurd h hliteral.1
          · exact h
        have hc : c ≠ 0 := Ne.symm hliteral.1
        rw [if_pos rfl, ih hcs hliteral.2, List.takeWhile_cons_of_pos (by simpa using hc)]
        simp
      · rw [if_neg hcd, List.takeWhile_cons]
        by_cases hc : c = 0 <;> simp [hc, hcd]

theorem SectionKind.zero_notMem_name (kind : SectionKind) : 0 ∉ kind.name := by
  cases kind <;> decide

theorem SectionKind.name_inj {kind kind' : SectionKind} (h : kind.name = kind'.name) :
    kind = kind' := by
  revert h
  cases kind <;> cases kind' <;> decide

/-- A terminated name selects the section of this name. -/
theorem exists_currentSection {s : List UInt8} (hs : 0 ∈ s) :
    ∃ current, currentSection s = .ok current ∧
      ∀ kind : SectionKind, current = some kind ↔ s.takeWhile (· ≠ 0) = kind.name := by
  have hfound : ∀ kind' : SectionKind, s.takeWhile (· ≠ 0) = kind'.name →
      ∀ kind : SectionKind, some kind' = some kind ↔ s.takeWhile (· ≠ 0) = kind.name := by
    intro kind' hkind' kind
    rw [Option.some_inj, hkind']
    exact ⟨fun hkind => hkind ▸ rfl, SectionKind.name_inj⟩
  unfold currentSection
  simp only [strcmp_eq hs (SectionKind.zero_notMem_name _), decide_eq_true_eq, bind, Except.bind]
  split
  · exact ⟨_, rfl, hfound _ ‹_›⟩
  split
  · exact ⟨_, rfl, hfound _ ‹_›⟩
  split
  · exact ⟨_, rfl, hfound _ ‹_›⟩
  split
  · exact ⟨_, rfl, hfound _ ‹_›⟩
  · refine ⟨none, rfl, fun kind => ⟨nofun, fun hkind => ?_⟩⟩
    cases kind <;> contradiction

/-- A section whose name is terminated is selected by its name. -/
theorem exists_currentSection_names {image : List UInt8} {i : ℕ} (hname : sectionName image i ≠ none) :
    ∃ current,
      currentSection ((sectionNames image).drop (sectionHeader image i).name.toNat) = .ok current ∧
        ∀ kind : SectionKind, current = some kind ↔ sectionName image i = some kind.name := by
  unfold sectionName cstringAt at hname ⊢
  dsimp only at hname ⊢
  split at hname
  · rw [if_pos ‹_›]
    simp only [Option.some_inj]
    exact exists_currentSection ‹_›
  · exact absurd rfl hname

/-! ### The loop over the sections -/

section
variable {image : List UInt8} {position : ℕ} (path : String)

/-- What the loop keeps: before section `i`, each buffer is the last section of its name so far. -/
def Scanned (image : List UInt8) (i : ℕ) (sections : ProgramSections) : Prop :=
  ∀ kind : SectionKind, IsSection image kind i (kind.get sections)

@[simp] theorem SectionKind.get_set_self (kind : SectionKind) (sections : ProgramSections)
    (buffer : SectionBuffer) : kind.get (kind.set sections buffer) = buffer := by
  cases kind <;> rfl

theorem SectionKind.get_set_of_ne {kind kind' : SectionKind} (h : kind ≠ kind')
    (sections : ProgramSections) (buffer : SectionBuffer) :
    kind.get (kind'.set sections buffer) = kind.get sections := by
  cases kind <;> cases kind' <;> first | rfl | exact absurd rfl h

theorem scanned_zero : Scanned image 0 {} := by
  intro kind
  cases kind <;> exact .zero

/-- A section that is not looked for keeps the invariant. -/
theorem Scanned.skip {i : ℕ} {sections : ProgramSections} (hs : Scanned image i sections)
    (hname : ∀ kind : SectionKind, sectionName image i ≠ some kind.name) :
    Scanned image (i + 1) sections :=
  fun kind => (hs kind).of_neg (hname kind)

/-- So does one whose buffer is read. -/
theorem Scanned.set {i : ℕ} {sections : ProgramSections} {kind : SectionKind}
    {buffer : SectionBuffer} (hs : Scanned image i sections)
    (hname : sectionName image i = some kind.name)
    (hbuffer : IsBuffer image (sectionHeader image i) buffer) :
    Scanned image (i + 1) (kind.set sections buffer) := by
  intro kind'
  by_cases hkind : kind' = kind
  · subst hkind
    rw [SectionKind.get_set_self]
    exact .of_pos hname hbuffer
  · rw [SectionKind.get_set_of_ne hkind]
    refine (hs kind').of_neg fun hname' => hkind ?_
    exact SectionKind.name_inj (Option.some_inj.mp (hname'.symm.trans hname))

/-- An entry of the section table, as far as it has been read, is a section header of the image. -/
theorem sectionHeaderAt_table (image : List UInt8) (i : ℕ) :
    sectionHeaderAt (sectionTable image) i =
      if shdrSize * i + shdrSize ≤ (sectionTable image).length then .ok (sectionHeader image i)
      else .error .undefined := by
  unfold sectionHeaderAt
  split
  · rename_i hle
    rw [sectionTable, shdrAt_slice image _ (hle.trans (length_slice_le _ _ _)), sectionHeader]
  · rfl

theorem sectionHeaderAt_eq_ok {current : Elf64Shdr} {i : ℕ}
    (h : sectionHeaderAt (sectionTable image) i = .ok current) : current = sectionHeader image i := by
  rw [sectionHeaderAt_table] at h
  split at h
  · cases h
    rfl
  · cases h

/-- One section, whose name is terminated. -/
theorem yields_readSection {i : ℕ} {sections : ProgramSections}
    (hname : sectionName image i ≠ none) (hs : Scanned image i sections) :
    Yields image position
      (readSection path (sectionTable image) (sectionNames image) i sections)
      fun sections' _ => Scanned image (i + 1) sections' := by
  refine (Yields.lift fun _ h => sectionHeaderAt_eq_ok h).bind
    (Φ := fun current _ => current = sectionHeader image i) ?_
  rintro _ _ rfl
  obtain ⟨current, hrun, hcurrent⟩ := exists_currentSection_names hname
  refine Yields.bind (Φ := fun current' _ => current = current')
    (.lift fun _ h => Except.ok.inj (hrun.symm.trans h)) ?_
  rintro (_ | kind) position' rfl
  · refine .pure (hs.skip fun kind hkind => ?_)
    cases (hcurrent kind).mpr hkind
  · refine (yields_readBuffer path _).bind ?_
    rintro buffer _ hbuffer
    exact .pure (hs.set ((hcurrent kind).mp rfl) hbuffer)

/-- The sections from section `i` on. -/
theorem yields_readSections {n : ℕ} : ∀ {position i : ℕ} {sections : ProgramSections},
    (∀ j, i ≤ j → j < i + n → sectionName image j ≠ none) → Scanned image i sections →
      Yields image position
        (readSections path (sectionTable image) (sectionNames image) n i sections)
        fun sections' _ => Scanned image (i + n) sections' := by
  induction n with
  | zero =>
    intro _ i sections _ hs
    exact .pure hs
  | succ n ih =>
    intro _ i sections hnames hs
    refine (yields_readSection path (hnames i le_rfl (by omega)) hs).bind ?_
    rintro sections' _ hs'
    rw [Nat.add_left_comm i n 1, Nat.add_comm n] at hnames ⊢
    exact ih (fun j hij hj => hnames j (by omega) hj) hs'

/-! ### The loop over the program headers -/

theorem programHeaderAt_table (image : List UInt8) (i : ℕ) :
    programHeaderAt (programTable image) i =
      if phdrSize * i + phdrSize ≤ (programTable image).length then .ok (programHeader image i)
      else .error .undefined := by
  unfold programHeaderAt
  split
  · rename_i hle
    rw [programTable, phdrAt_slice image _ (hle.trans (length_slice_le _ _ _)), programHeader]
  · rfl

theorem programHeaderAt_eq_ok {current : Elf64Phdr} {i : ℕ}
    (h : programHeaderAt (programTable image) i = .ok current) : current = programHeader image i := by
  rw [programHeaderAt_table] at h
  split at h
  · cases h
    rfl
  · cases h

/-- From header `i` on, where no header before it is loaded. -/
theorem findLoadAddress_eq_ok {address : UInt64} {n : ℕ} : ∀ {i : ℕ},
    i + n = (header image).phnum.toNat → (∀ j < i, (programHeader image j).type ≠ ptLoad) →
      findLoadAddress (programTable image) n i = .ok address →
        OfFirst (fun i => (programHeader image i).type = ptLoad)
          (fun i address => address = (programHeader image i).vaddr) 0 (header image).phnum.toNat
          address := by
  induction n with
  | zero =>
    intro i hn hbefore h
    cases h
    rw [Nat.add_zero] at hn
    exact .of_none (hn ▸ hbefore)
  | succ n ih =>
    intro i hn hbefore h
    rw [findLoadAddress] at h
    obtain ⟨current, hcurrent, h⟩ := except_bind_ok h
    obtain rfl := programHeaderAt_eq_ok hcurrent
    split at h
    · cases h
      exact .of_pos (by omega) hbefore ‹_› rfl
    · refine ih (by omega) ?_ h
      intro j hj
      rcases Nat.lt_succ_iff_lt_or_eq.mp hj with hlt | rfl
      · exact hbefore j hlt
      · exact ‹¬ _›

end

/-! ### The file -/

section
variable {image : List UInt8} (path : String) (hw : WellFormed image)
include hw

theorem yields_parseElf :
    Yields image 0 (parseElf path) fun data _ => Extracted image data := by
  refine (yields_readHeader path).bind ?_
  rintro _ _ ⟨rfl, helf⟩
  refine (yields_readTable path _ _ _).bind (Φ := fun table _ => table = sectionTable image) ?_
  rintro _ _ rfl
  refine (Yields.lift fun _ h => sectionHeaderAt_eq_ok h).bind
    (Φ := fun current _ => current = sectionHeader image (header image).shstrndx.toNat) ?_
  rintro _ _ rfl
  refine yields_readContents path ?_
  rintro _ _ rfl -
  refine (yields_readSections path (n := (header image).shnum.toNat) (i := 0) ?_ scanned_zero).bind ?_
  · intro j _ hj
    rw [Nat.zero_add] at hj
    exact hw.names j hj
  rintro sections _ hs
  rw [Nat.zero_add] at hs
  refine (yields_readTable path _ _ _).bind (Φ := fun table _ => table = programTable image) ?_
  rintro _ _ rfl
  refine (Yields.lift fun _ h => findLoadAddress_eq_ok (Nat.zero_add _) nofun h).bind
    (Φ := fun address _ => OfFirst (fun i => (programHeader image i).type = ptLoad)
      (fun i address => address = (programHeader image i).vaddr) 0 (header image).phnum.toNat
      address) ?_
  rintro address _ haddress
  exact .pure { elf := helf, sections := hs, entryPoint := rfl, loadAddress := haddress }

end

/-- **The program data that the parser returns** is that of the image. -/
theorem parseElfFile_extracted {path : String} {image : List UInt8} {data : ProgramData}
    (hw : WellFormed image) (h : parseElfFile path (some image) = .ok data) :
    Extracted image data := by
  unfold parseElfFile Except.map at h
  dsimp only at h
  split at h
  · cases h
  · rename_i hrun
    cases h
    exact (yields_parseElf path hw _ _ hrun).2

deriving instance DecidableEq for SectionBuffer, ProgramSections, ProgramData

/-- An image with the code `nop; ret`. -/
def sampleImage : List UInt8 :=
  -- the file header; the sections are at 64, the segment is at 192
  elfMag ++ [elfClass64, elfData2Lsb] ++ toLe 10 0 ++ toLe 2 2 ++ toLe 2 62 ++ toLe 4 1 ++
  toLe 8 0x401000 ++ toLe 8 192 ++ toLe 8 64 ++ toLe 4 0 ++ toLe 2 64 ++ toLe 2 56 ++ toLe 2 1 ++
  toLe 2 64 ++ toLe 2 2 ++ toLe 2 1 ++
  -- `.text`
  toLe 16 0 ++ toLe 8 0x401000 ++ toLe 8 254 ++ toLe 8 2 ++ toLe 24 0 ++
  -- the section of the names; its own name is empty
  toLe 16 5 ++ toLe 8 0 ++ toLe 8 248 ++ toLe 8 6 ++ toLe 24 0 ++
  -- the segment
  toLe 16 1 ++ toLe 8 0x400000 ++ toLe 32 0 ++
  SectionKind.text.name ++ [0] ++ [0x90, 0xc3]

def sampleData : ProgramData where
  sections := { text := ⟨0x401000, [0x90, 0xc3], by decide⟩ }
  entryPoint := 0x401000
  loadAddress := 0x400000

theorem sampleImage_wellFormed : WellFormed sampleImage where
  shentsize := by decide +kernel
  phentsize := by decide +kernel
  shstrndx_lt := by decide +kernel
  names := by decide +kernel

/-- The sample, as it is parsed. -/
theorem parseElfFile_sampleImage : parseElfFile "a.out" (some sampleImage) = .ok sampleData := by
  decide +kernel

theorem parseElfFile_extracted_sample : Extracted sampleImage sampleData :=
  parseElfFile_extracted sampleImage_wellFormed parseElfFile_sampleImage

end Dabugger.Elf.Extraction
