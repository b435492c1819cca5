import Dabugger.Dwarf.HeaderEncoding

/-! # The header parser undoes the encoding

Every parser of a part of the header takes exactly the encoding of the part: one field of an entry
(`reads_field`), an entry (`reads_fields`), the entries (`reads_entries`), the formats
(`reads_formats`), and the fixed fields. -/

namespace Dabugger.Dwarf.HeaderRoundTrip

open Dabugger.Lib.Bytes Dabugger.Lib.Exact Dabugger.Base Dabugger.Base.BinaryReader
open Dabugger.Reader Dabugger.Dwarf.Types Dabugger.Dwarf.Header Dabugger.Dwarf.HeaderEncoding

variable (host : Host) {debugLineStr : List UInt8} {isDwarf64 : Bool}

/-! ### One field of an entry -/

/-- The entry `e` has the fields of `v`, but for those of the contents still to come. -/
structure Agrees (debugLineStr : List UInt8) (v : EntryValue) (todo : List Content)
    (e : DwarfLineNumContentEntry) : Prop where
  path : .path ∉ todo → e.path.string debugLineStr = v.path
  directoryIndex : .directoryIndex ∉ todo → e.directoryIndex = v.directoryIndex
  timestamp : .timestamp ∉ todo → e.timestamp = v.timestamp
  size : .size ∉ todo → e.size = v.size
  md5 : .md5 ∉ todo → e.md5 = v.md5

theorem agrees_zero {v : EntryValue} {formats : List EntryFormat} (h : v.OnlyHas formats) :
    Agrees debugLineStr v (formats.map EntryFormat.content) {} where
  path hp := (h.path hp).symm
  directoryIndex hp := (h.directoryIndex hp).symm
  timestamp hp := (h.timestamp hp).symm
  size hp := (h.size hp).symm
  md5 hp := (h.md5 hp).symm

theorem Agrees.decodes {v : EntryValue} {e : DwarfLineNumContentEntry}
    (h : Agrees debugLineStr v [] e) : v.Decodes debugLineStr e where
  path := h.path (by simp)
  directoryIndex := h.directoryIndex (by simp)
  timestamp := h.timestamp (by simp)
  size := h.size (by simp)
  md5 := h.md5 (by simp)

section
variable {v : EntryValue} {todo : List Content} {e : DwarfLineNumContentEntry}

theorem Agrees.setPath {p : CStr} (ha : Agrees debugLineStr v (.path :: todo) e)
    (h : p.string debugLineStr = v.path) : Agrees debugLineStr v todo { e with path := p } where
  path _ := h
  directoryIndex ht := ha.directoryIndex (by simpa using ht)
  timestamp ht := ha.timestamp (by simpa using ht)
  size ht := ha.size (by simpa using ht)
  md5 ht := ha.md5 (by simpa using ht)

theorem Agrees.setDirectoryIndex (ha : Agrees debugLineStr v (.directoryIndex :: todo) e) :
    Agrees debugLineStr v todo { e with directoryIndex := v.directoryIndex } where
  path ht := ha.path (by simpa using ht)
  directoryIndex _ := rfl
  timestamp ht := ha.timestamp (by simpa using ht)
  size ht := ha.size (by simpa using ht)
  md5 ht := ha.md5 (by simpa using ht)

theorem Agrees.setTimestamp (ha : Agrees debugLineStr v (.timestamp :: todo) e) :
    Agrees debugLineStr v todo { e with timestamp := v.timestamp } where
  path ht := ha.path (by simpa using ht)
  directoryIndex ht := ha.directoryIndex (by simpa using ht)
  timestamp _ := rfl
  size ht := ha.size (by simpa using ht)
  md5 ht := ha.md5 (by simpa using ht)

theorem Agrees.setSize (ha : Agrees debugLineStr v (.size :: todo) e) :
    Agrees debugLineStr v todo { e with size := v.size } where
  path ht := ha.path (by simpa using ht)
  directoryIndex ht := ha.directoryIndex (by simpa using ht)
  timestamp ht := ha.timestamp (by simpa using ht)
  size _ := rfl
  md5 ht := ha.md5 (by simpa using ht)

theorem Agrees.setMd5 (ha : Agrees debugLineStr v (.md5 :: todo) e) :
    Agrees debugLineStr v todo { e with md5 := v.md5 } where
  path ht := ha.path (by simpa using ht)
  directoryIndex ht := ha.directoryIndex (by simpa using ht)
  timestamp ht := ha.timestamp (by simpa using ht)
  size ht := ha.size (by simpa using ht)
  md5 _ := rfl

end

/-- A number of `n` bytes read into a `uint64_t` that holds zero. -/
theorem reads_uint64_zero {n : ℕ} {x : UInt64} (hn : n ≤ 8) (hx : x.toNat < 256 ^ n) :
    Reads ofBytes (readInt 8 0 n) (toLe n x.toNat) (⟨n, .ok⟩, x.toNat) :=
  reads_readInt_zero hn hx

/-- A number of eight bytes read into any `uint64_t`. -/
theorem reads_uint64_full (old : ℕ) {x : UInt64} :
    Reads ofBytes (readInt 8 old 8) (toLe 8 x.toNat) (⟨8, .ok⟩, x.toNat) :=
  reads_readInt old (by simpa using x.toNat_lt)

/-- The end of a `read_lnct_*` function whose read went well. -/
theorem reads_stored {e : DwarfLineNumContentEntry} {status : ReadStatus}
    {e' : DwarfLineNumContentEntry} (h : status = .ok) :
    Reads ofBytes (if status = .ok then pure e' else pure e : Parse DwarfLineNumContentEntry) []
      e' := by
  rw [if_pos h]
  exact .pure _

variable {v : EntryValue} {todo : List Content} {e : DwarfLineNumContentEntry} {b : List UInt8}

theorem reads_pathString (h : EntryFormat.pathString.Encodes debugLineStr isDwarf64 v b)
    (ha : Agrees debugLineStr v (.path :: todo) e) :
    ∃ e', (∀ locals, Reads ofBytes (readLnctPath host locals Form.string e isDwarf64) b e') ∧
      Agrees debugLineStr v todo e' := by
  obtain ⟨s, hs, h0, rfl⟩ := h
  refine ⟨_, fun locals => ?_, ha.setPath (p := .heap s) hs.symm⟩
  simp only [readLnctPath, ↓reduceIte, ne_eq, ite_not, pure_bind]
  exact (reads_readCstring _ h0).bind_pure (reads_stored rfl)

theorem reads_pathLineStrp (h : EntryFormat.pathLineStrp.Encodes debugLineStr isDwarf64 v b)
    (ha : Agrees debugLineStr v (.path :: todo) e) :
    ∃ e', (∀ locals, Reads ofBytes (readLnctPath host locals Form.lineStrp e isDwarf64) b e') ∧
      Agrees debugLineStr v todo e' := by
  obtain ⟨s, offset, hs, hat, hlt, rfl⟩ := h
  have h8 : offsetSize isDwarf64 ≤ 8 := by unfold offsetSize; split <;> simp
  have h64 : offset < 2 ^ 64 :=
    hlt.trans_le (by simpa using Nat.pow_le_pow_right (show 0 < 256 by simp) h8)
  have hp : (CStr.debugLineStr (UInt64.ofNat offset)).string debugLineStr = v.path := by
    rw [hs, ← hat, CStr.string, UInt64.toNat_ofNat_of_lt' h64]
  refine ⟨_, fun locals => ?_, ha.setPath hp⟩
  have hne : Form.lineStrp ≠ Form.string := by decide
  simp only [readLnctPath, if_neg hne, true_or, ↓reduceIte, ne_eq, ite_not, pure_bind]
  exact (reads_readInt_zero h8 hlt).bind_pure (reads_stored rfl)

theorem reads_directoryIndex {f : EntryFormat} (hc : f.content = .directoryIndex)
    (h : f.Encodes debugLineStr isDwarf64 v b)
    (ha : Agrees debugLineStr v (.directoryIndex :: todo) e) :
    ∃ e', (∀ locals, Reads ofBytes (readLnctDirectoryIndex locals f.desc.formCode e) b e') ∧
      Agrees debugLineStr v todo e' := by
  refine ⟨_, fun locals => ?_, ha.setDirectoryIndex⟩
  have h21 : Form.data2 ≠ Form.data1 := by decide
  have hu1 : Form.udata ≠ Form.data1 := by decide
  have hu2 : Form.udata ≠ Form.data2 := by decide
  cases f with
  | directoryIndexData1 =>
    obtain ⟨hlt, rfl⟩ := h
    simp only [readLnctDirectoryIndex, EntryFormat.desc, ↓reduceIte, ne_eq, ite_not, pure_bind]
    refine (reads_uint64_zero (by simp) (by simpa using hlt)).bind_pure ?_
    rw [UInt64.ofNat_toNat]
    exact reads_stored rfl
  | directoryIndexData2 =>
    obtain ⟨hlt, rfl⟩ := h
    simp only [readLnctDirectoryIndex, EntryFormat.desc, if_neg h21, ↓reduceIte, ne_eq, ite_not,
      pure_bind]
    refine (reads_uint64_zero (by simp) (by simpa using hlt)).bind_pure ?_
    rw [UInt64.ofNat_toNat]
    exact reads_stored rfl
  | directoryIndexUdata =>
    simp only [readLnctDirectoryIndex, EntryFormat.desc, if_neg hu1, if_neg hu2, ↓reduceIte, ne_eq,
      ite_not, pure_bind]
    refine (reads_readUleb128 h).bind_pure ?_
    rw [UInt64.ofNat_toNat]
    exact reads_stored rfl
  | _ => cases hc

theorem reads_timestamp {f : EntryFormat} (hc : f.content = .timestamp)
    (h : f.Encodes debugLineStr isDwarf64 v b)
    (ha : Agrees debugLineStr v (.timestamp :: todo) e) :
    ∃ e', (∀ locals, Reads ofBytes (readLnctTimestamp locals f.desc.formCode e) b e') ∧
      Agrees debugLineStr v todo e' := by
  refine ⟨_, fun locals => ?_, ha.setTimestamp⟩
  have hu : Form.data8 ≠ Form.udata := by decide
  have h4 : Form.data8 ≠ Form.data4 := by decide
  cases f with
  | timestampUdata =>
    simp only [readLnctTimestamp, EntryFormat.desc, ↓reduceIte, ne_eq, ite_not, pure_bind]
    refine (reads_readUleb128 h).bind_pure ?_
    rw [UInt64.ofNat_toNat]
    exact reads_stored rfl
  | timestampData8 =>
    obtain rfl := h
    simp only [readLnctTimestamp, EntryFormat.desc, if_neg hu, if_neg h4, ↓reduceIte, ne_eq,
      ite_not, pure_bind]
    refine (reads_uint64_full _).bind_pure ?_
    rw [UInt64.ofNat_toNat]
    exact reads_stored rfl
  | _ => cases hc

theorem reads_size {f : EntryFormat} (hc : f.content = .size)
    (h : f.Encodes debugLineStr isDwarf64 v b) (ha : Agrees debugLineStr v (.size :: todo) e) :
    ∃ e', (∀ locals, Reads ofBytes (readLnctSize locals f.desc.formCode e) b e') ∧
      Agrees debugLineStr v todo e' := by
  refine ⟨_, fun locals => ?_, ha.setSize⟩
  have hu : Form.data8 ≠ Form.udata := by decide
  have h1 : Form.data8 ≠ Form.data1 := by decide
  have h2 : Form.data8 ≠ Form.data2 := by decide
  have h4 : Form.data8 ≠ Form.data4 := by decide
  cases f with
  | sizeUdata =>
    simp only [readLnctSize, EntryFormat.desc, ↓reduceIte, ne_eq, ite_not, pure_bind]
    refine (reads_readUleb128 h).bind_pure ?_
    rw [UInt64.ofNat_toNat]
    exact reads_stored rfl
  | sizeData8 =>
    obtain rfl := h
    simp only [readLnctSize, EntryFormat.desc, if_neg hu, if_neg h1, if_neg h2, if_neg h4,
      ↓reduceIte, ne_eq, ite_not, pure_bind]
    refine (reads_uint64_full _).bind_pure ?_
    rw [UInt64.ofNat_toNat]
    exact reads_stored rfl
  | _ => cases hc

theorem reads_md5 (h : EntryFormat.md5Data16.Encodes debugLineStr isDwarf64 v b)
    (ha : Agrees debugLineStr v (.md5 :: todo) e) :
    ∃ e', (∀ locals, Reads ofBytes (readLnctMd5 locals Form.data16 e) b e') ∧
      Agrees debugLineStr v todo e' := by
  obtain ⟨hl, rfl⟩ := h
  refine ⟨_, fun locals => ?_, ha.setMd5⟩
  have hr := reads_readBytes locals.md5.toList v.md5 (by simp [hl])
  rw [hl, List.drop_of_length_le (by simp), List.append_nil] at hr
  simp only [readLnctMd5, ↓reduceIte, ne_eq, ite_not, pure_bind]
  exact hr.bind_pure (reads_stored rfl)

/-- **One field.** Reading the field of a format stores the field of the entry. -/
theorem reads_field {f : EntryFormat} (i j : ℕ) (h : f.Encodes debugLineStr isDwarf64 v b)
    (ha : Agrees debugLineStr v (f.content :: todo) e) :
    ∃ e', Reads ofBytes (readLnctField host isDwarf64 i j f.desc e) b e' ∧
      Agrees debugLineStr v todo e' := by
  cases f with
  | pathString =>
    obtain ⟨e', hr, ha'⟩ := reads_pathString host h ha
    exact ⟨e', .get_bind fun r => hr (host.locals r i j), ha'⟩
  | pathLineStrp =>
    obtain ⟨e', hr, ha'⟩ := reads_pathLineStrp host h ha
    exact ⟨e', .get_bind fun r => hr (host.locals r i j), ha'⟩
  | directoryIndexData1 | directoryIndexData2 | directoryIndexUdata =>
    obtain ⟨e', hr, ha'⟩ := reads_directoryIndex rfl h ha
    exact ⟨e', .get_bind fun r => hr (host.locals r i j), ha'⟩
  | timestampUdata | timestampData8 =>
    obtain ⟨e', hr, ha'⟩ := reads_timestamp rfl h ha
    exact ⟨e', .get_bind fun r => hr (host.locals r i j), ha'⟩
  | sizeUdata | sizeData8 =>
    obtain ⟨e', hr, ha'⟩ := reads_size rfl h ha
    exact ⟨e', .get_bind fun r => hr (host.locals r i j), ha'⟩
  | md5Data16 =>
    obtain ⟨e', hr, ha'⟩ := reads_md5 h ha
    exact ⟨e', .get_bind fun r => hr (host.locals r i j), ha'⟩

/-! ### Entries and formats -/

/-- The fields of an entry, one after another. -/
theorem reads_fields (i : ℕ) : ∀ {formats : List EntryFormat} {bs : List UInt8} (j : ℕ)
    {e : DwarfLineNumContentEntry}, Tiles (EntryFormat.Encodes debugLineStr isDwarf64 v) formats bs →
      Agrees debugLineStr v (formats.map EntryFormat.content) e →
      ∃ e', Reads ofBytes (readLnctFields host isDwarf64 i j (formats.map EntryFormat.desc) e) bs e' ∧
        v.Decodes debugLineStr e'
  | [], _, _, e, .nil, ha => ⟨e, .pure e, ha.decodes⟩
  | _ :: _, _, j, _, .cons h t, ha => by
    obtain ⟨e1, hr1, ha1⟩ := reads_field host i j h ha
    obtain ⟨e2, hr2, hd⟩ := reads_fields i (j + 1) t ha1
    exact ⟨e2, hr1.bind hr2, hd⟩

/-- **The entries**, one after another. -/
theorem reads_entries {formats : List EntryFormat} : ∀ {entries : List EntryValue} {bs : List UInt8}
    (i : ℕ), Tiles (EntryValue.Encodes debugLineStr isDwarf64 formats) entries bs →
      ∃ es, Reads ofBytes
          (readLnctEntries host (formats.map EntryFormat.desc) isDwarf64 i entries.length) bs es ∧
        List.Forall₂ (EntryValue.Decodes debugLineStr) entries es
  | [], _, _, .nil => ⟨[], .pure _, .nil⟩
  | _ :: _, _, i, .cons h t => by
    obtain ⟨e, hr, hd⟩ := reads_fields host i 0 h.2 (agrees_zero h.1)
    obtain ⟨es, hrs, hds⟩ := reads_entries (i + 1) t
    exact ⟨e :: es, hr.bind (hrs.bind_pure (.pure _)), .cons hd hds⟩

theorem desc_toUInt32 (f : EntryFormat) :
    (⟨(UInt64.ofNat f.desc.contentType.toNat).toUInt32,
      (UInt64.ofNat f.desc.formCode.toNat).toUInt32⟩ : DwarfLineNumFormatDesc) = f.desc := by
  cases f <;> rfl

theorem reads_formats : ∀ {formats : List EntryFormat} {bs : List UInt8},
    Tiles EntryFormat.EncodesDesc formats bs →
      Reads ofBytes (readFormats formats.length) bs (formats.map EntryFormat.desc)
  | [], _, .nil => .pure _
  | f :: formats, _, .cons ⟨c, d, hc, hd, hb⟩ t => by
    subst hb
    rw [List.append_assoc]
    refine (reads_readUleb128 hc).bind ((reads_readUleb128 hd).bind
      ((reads_formats t).bind_pure ?_))
    rw [desc_toUInt32]
    exact .pure _

/-! ### The header -/

theorem reads_uint8 (x : UInt8) : Reads ofBytes readUInt8 (toLe 1 x.toNat) x := by
  refine (reads_readInt 0 (w := 1) (by simpa using x.toNat_lt)).bind_pure ?_
  dsimp only
  rw [UInt8.ofNat_toNat]
  exact .pure _

theorem reads_uint16 (x : UInt16) : Reads ofBytes readUInt16 (toLe 2 x.toNat) x := by
  refine (reads_readInt 0 (w := 2) (by simpa using x.toNat_lt)).bind_pure ?_
  dsimp only
  rw [UInt16.ofNat_toNat]
  exact .pure _

theorem reads_uint64 {n : ℕ} {x : UInt64} (hn : n ≤ 8) (hx : x.toNat < 256 ^ n) :
    Reads ofBytes (readUInt64 n) (toLe n x.toNat) x := by
  refine (reads_readInt_zero hn hx).bind_pure ?_
  dsimp only
  rw [UInt64.ofNat_toNat]
  exact .pure _

theorem reads_unitLength {u : UInt64} (hu : isDwarf64 = false → u.toNat < 0xfffffff0) :
    Reads ofBytes (readUnitLength host) (lengthBytes isDwarf64 u.toNat) (isDwarf64, u) := by
  have h32 : ∀ n, n < 2 ^ 32 → Reads ofBytes readUInt32 (toLe 4 n) (UInt32.ofNat n) :=
    fun n hn => (reads_readInt 0 (w := 4) (by simpa using hn)).bind_pure (.pure _)
  cases isDwarf64 with
  | false =>
    have hlt := hu rfl
    refine (h32 u.toNat (by omega)).bind_pure ?_
    have hn : (UInt32.ofNat u.toNat).toNat = u.toNat := UInt32.toNat_ofNat_of_lt' (by
      rw [UInt32.size]; omega)
    rw [if_pos (by rw [UInt32.lt_iff_toNat_lt, hn]; exact hlt)]
    have hu64 : (UInt32.ofNat u.toNat).toUInt64 = u := by
      apply UInt64.toNat_inj.mp
      rw [UInt32.toNat_toUInt64, hn]
    rw [hu64]
    exact .pure _
  | true =>
    refine (h32 0xffffffff (by simp)).bind ?_
    rw [if_neg (by decide), if_pos (by decide)]
    exact (reads_uint64 (by simp) (by simpa using u.toNat_lt)).bind_pure (.pure _)

/-- The parsed header, with the parsed entries. -/
def parsedHeader (h : HeaderValue) (directories fileNames : List DwarfLineNumContentEntry) :
    LineNumProgHeader where
  isDwarf64 := h.isDwarf64
  unitLength := h.unitLength
  version := h.version
  addressSize := h.addressSize
  segmentSelectorSize := h.segmentSelectorSize
  headerLength := h.headerLength
  minimumInstructionLength := h.minimumInstructionLength
  maximumOperationsPerInstruction := h.maximumOperationsPerInstruction
  defaultIsStmt := h.defaultIsStmt
  lineBase := h.lineBase
  lineRange := h.lineRange
  opcodeBase := h.opcodeBase
  standardOpcodeLengths := h.standardOpcodeLengths
  directoryEntryFormatCount := UInt8.ofNat h.directoryEntryFormat.length
  directoryEntryFormat := h.directoryEntryFormat.map EntryFormat.desc
  directoriesCount := UInt64.ofNat h.directories.length
  directories := directories
  fileNameEntryFormatCount := UInt8.ofNat h.fileNameEntryFormat.length
  fileNameEntryFormat := h.fileNameEntryFormat.map EntryFormat.desc
  fileNamesCount := UInt64.ofNat h.fileNames.length
  fileNames := fileNames

/-- **The header parser takes exactly the encoding of a header, and returns this header.** -/
theorem reads_parseLineHeader {h : HeaderValue} {bs : List UInt8} (he : h.Encodes debugLineStr bs) :
    ∃ header, Reads ofBytes (parseLineHeader host) bs header ∧ h.Decodes debugLineStr header := by
  obtain ⟨hw, _, ⟨_, _, ⟨fs1, n1, es1, hf1, hn1, he1, rfl⟩, ⟨fs2, n2, es2, hf2, hn2, he2, rfl⟩,
    rfl⟩, rfl⟩ := he
  obtain ⟨directories, hr1, hd1⟩ := reads_entries host 0 he1
  obtain ⟨fileNames, hr2, hd2⟩ := reads_entries host 0 he2
  have hc1 : (UInt8.ofNat h.directoryEntryFormat.length).toNat = h.directoryEntryFormat.length :=
    UInt8.toNat_ofNat_of_lt' hw.directoryFormats
  have hc2 : (UInt8.ofNat h.fileNameEntryFormat.length).toNat = h.fileNameEntryFormat.length :=
    UInt8.toNat_ofNat_of_lt' hw.fileNameFormats
  have hm1 : (UInt64.ofNat h.directories.length).toNat = h.directories.length :=
    UInt64.toNat_ofNat_of_lt' hw.directories
  have hm2 : (UInt64.ofNat h.fileNames.length).toNat = h.fileNames.length :=
    UInt64.toNat_ofNat_of_lt' hw.fileNames
  have hlen : (h.opcodeBase.toNat + (2 ^ 64 - 1)) % 2 ^ 64 = h.standardOpcodeLengths.length := by
    have := hw.standardOpcodeLengths
    have := h.opcodeBase.toNat_lt
    omega
  have hstd : Reads ofBytes (readBytes (List.replicate (h.opcodeBase.toNat - 1) 0)
      h.standardOpcodeLengths.length) h.standardOpcodeLengths
      (⟨h.standardOpcodeLengths.length, .ok⟩, h.standardOpcodeLengths) := by
    have hl : h.opcodeBase.toNat - 1 = h.standardOpcodeLengths.length := by
      have := hw.standardOpcodeLengths; omega
    rw [hl]
    simpa using reads_readBytes (List.replicate h.standardOpcodeLengths.length 0)
      h.standardOpcodeLengths (by simp)
  have h8 : offsetSize h.isDwarf64 ≤ 8 := by unfold offsetSize; split <;> simp
  have hcount1 := reads_uint8 (UInt8.ofNat h.directoryEntryFormat.length)
  have hcount2 := reads_uint8 (UInt8.ofNat h.fileNameEntryFormat.length)
  rw [hc1] at hcount1
  rw [hc2] at hcount2
  refine ⟨parsedHeader h directories fileNames, ?_, ?_⟩
  · simp only [HeaderValue.prelude, List.append_assoc]
    refine (reads_unitLength host hw.unitLength).bind ?_
    refine (reads_uint16 _).bind ((reads_uint8 _).bind ((reads_uint8 _).bind ?_))
    refine (reads_uint64 h8 hw.headerLength).bind ?_
    refine (reads_uint8 _).bind ((reads_uint8 _).bind ((reads_uint8 _).bind ?_))
    refine (reads_uint8 _).bind ((reads_uint8 _).bind ((reads_uint8 _).bind ?_))
    rw [hlen]
    refine hstd.bind (hcount1.bind ?_)
    rw [hc1]
    refine (reads_formats hf1).bind ((reads_readUleb128 hn1).bind ?_)
    dsimp only
    rw [hm1]
    refine hr1.bind (hcount2.bind ?_)
    rw [hc2]
    refine (reads_formats hf2).bind ((reads_readUleb128 hn2).bind ?_)
    dsimp only
    rw [hm2]
    refine hr2.bind_pure ?_
    rw [Int8.toInt8_toUInt8]
    exact .pure _
  · exact {
      isDwarf64 := rfl, unitLength := rfl, version := rfl, addressSize := rfl
      segmentSelectorSize := rfl, headerLength := rfl, minimumInstructionLength := rfl
      maximumOperationsPerInstruction := rfl, defaultIsStmt := rfl, lineBase := rfl
      lineRange := rfl, opcodeBase := rfl, standardOpcodeLengths := rfl
      directoryEntryFormatCount := hc1, directoryEntryFormat := rfl
      directoriesCount := hm1, directories := hd1
      fileNameEntryFormatCount := hc2, fileNameEntryFormat := rfl
      fileNamesCount := hm2, fileNames := hd2 }

/-- **Decoding undoes encoding.** On an encoding of a header, whatever follows it, the header parser
returns this header and stops right after it. -/
theorem parseLineHeader_encoding {h : HeaderValue} {bs : List UInt8}
    (he : h.Encodes debugLineStr bs) (rest : List UInt8) :
    ∃ header, parseLineHeader host (ofBytes (bs ++ rest)) = .ok (header, ofBytes rest) ∧
      h.Decodes debugLineStr header := by
  obtain ⟨header, hr, hd⟩ := reads_parseLineHeader host he
  exact ⟨header, hr rest, hd⟩

/-- A header with a directory and a file, before a program of 15 bytes. -/
def sampleHeader : HeaderValue where
  isDwarf64 := false
  unitLength := 76
  version := 5
  addressSize := 8
  segmentSelectorSize := 0
  headerLength := 53
  minimumInstructionLength := 1
  maximumOperationsPerInstruction := 1
  defaultIsStmt := 1
  lineBase := -5
  lineRange := 14
  opcodeBase := 13
  standardOpcodeLengths := [0, 1, 1, 1, 1, 0, 0, 0, 1, 0, 0, 1]
  directoryEntryFormat := [.pathLineStrp]
  directories := [{ path := some [47] }]
  fileNameEntryFormat := [.pathString, .directoryIndexUdata, .md5Data16]
  fileNames := [{ path := some [97], md5 := List.replicate 16 7 }]

/-- The fields of `sampleHeader` after `header_length`. -/
def sampleBody : List UInt8 :=
  [1, 1, 1, 251, 14, 13, 0, 1, 1, 1, 1, 0, 0, 0, 1, 0, 0, 1] ++
    [1, 1, 31, 1, 0, 0, 0, 0] ++ [3, 1, 8, 2, 15, 5, 30, 1, 97, 0, 0] ++ List.replicate 16 7

theorem sampleHeader_wellFormed : sampleHeader.WellFormed := by
  constructor <;> decide

theorem sampleHeader_encodesBody : sampleHeader.EncodesBody [47, 0] sampleBody := by
  refine ⟨[1, 1, 31, 1, 0, 0, 0, 0], [3, 1, 8, 2, 15, 5, 30, 1, 97, 0, 0] ++ List.replicate 16 7,
    ⟨[1, 31], [1], [0, 0, 0, 0], ?_, by decide, ?_, by decide⟩,
    ⟨[1, 8, 2, 15, 5, 30], [1], [97, 0, 0] ++ List.replicate 16 7, ?_, by decide, ?_, by decide⟩,
    by decide⟩
  · exact .single ⟨[1], [31], by decide, by decide, rfl⟩
  · refine .single ⟨⟨by decide, by decide, by decide, by decide, by decide⟩, .single ?_⟩
    exact ⟨[47], 0, rfl, by decide, by decide, by decide⟩
  · refine Tiles.cons (b := [1, 8]) ⟨[1], [8], by decide, by decide, rfl⟩ ?_
    refine Tiles.cons (b := [2, 15]) ⟨[2], [15], by decide, by decide, rfl⟩ (.single ?_)
    exact ⟨[5], [30], by decide, by decide, rfl⟩
  · refine .single ⟨⟨by decide, by decide, by decide, by decide, by decide⟩, ?_⟩
    refine Tiles.cons (b := [97, 0]) ⟨[97], rfl, by decide, rfl⟩ ?_
    refine Tiles.cons (b := [0]) (show IsUleb 0 [0] by decide) (.single ?_)
    exact ⟨rfl, rfl⟩

/-- One byte follows the header. -/
theorem parseLineHeader_encoding_sample :
    ∃ header, parseLineHeader (.zeroed true)
        (ofBytes (sampleHeader.prelude ++ sampleBody ++ [0])) = .ok (header, ofBytes [0]) ∧
      sampleHeader.Decodes [47, 0] header :=
  parseLineHeader_encoding _
    ⟨sampleHeader_wellFormed, sampleBody, sampleHeader_encodesBody, rfl⟩ [0]

end Dabugger.Dwarf.HeaderRoundTrip
