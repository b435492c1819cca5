import Dabugger.Debug.Session
import Dabugger.Dwarf.Reached
import Dabugger.Dwarf.Residue
import Dabugger.Lib.Log
import Dabugger.Lib.Runs

/-! # References of a header

`get_file_path` indexes the tables of a header with numbers of the file, and follows pointers that were
made of offsets of the file. `Resolves` says that its lookups for the first file are inside the tables,
and that the offsets are those of terminated strings. Neither the header parser nor `get_file_path`
checks that; `resolves_iff` says for which encoded tables it is so. -/

namespace Dabugger.Debug.FilePaths

open Dabugger.Lib.Bytes Dabugger.Lib.Exact Dabugger.Lib.Log Dabugger.Lib.Runs Dabugger.Base
open Dabugger.Base.BinaryReader Dabugger.Reader Dabugger.Dwarf.Types Dabugger.Dwarf.Header
open Dabugger.Dwarf.Program Dabugger.Dwarf.Widths Dabugger.Dwarf.Residue Dabugger.Dwarf.Reached
open Dabugger.Debug.Session

/-! ### Lookups -/

/-- An index that `get_file_path` uses. -/
inductive Lookup where
  | fileNames (i : ℕ)
  | directories (i : ℕ)
  deriving DecidableEq

/-- The index is below the count of its table. -/
def Lookup.Within (header : LineNumProgHeader) : Lookup → Prop
  | .fileNames i => i < header.fileNamesCount.toNat
  | .directories i => i < header.directoriesCount.toNat

instance (header : LineNumProgHeader) (lookup : Lookup) : Decidable (lookup.Within header) := by
  cases lookup <;> exact inferInstanceAs (Decidable (_ < _))

/-- `get_file_path`, with a log of the lookups. -/
def getFilePathLog (debugLineStr : List UInt8) (lineProgHeader : LineNumProgHeader)
    (fileIndex : ℕ) : Logged Lookup Fault (Option (List UInt8)) := do
  emit (.fileNames fileIndex)
  let fileEntry ← index lineProgHeader.fileNames fileIndex
  if fileEntry.path = .null then return none
  let fileName ← deref debugLineStr fileEntry.path
  if fileName.head? = some slash then return some fileName
  emit (.directories fileEntry.directoryIndex.toNat)
  let directory ← index lineProgHeader.directories fileEntry.directoryIndex.toNat
  if directory.path = .null then return none
  let directory ← deref debugLineStr directory.path
  if directory.head? = some slash then return some (directory ++ slash :: fileName)
  emit (.directories 0)
  let compilationDir ← index lineProgHeader.directories 0
  if compilationDir.path = .null then return none
  let compilationDir ← deref debugLineStr compilationDir.path
  return some (compilationDir ++ slash :: (directory ++ slash :: fileName))

/-- Without the log, it is `get_file_path`. -/
theorem result_getFilePathLog (debugLineStr : List UInt8) (header : LineNumProgHeader)
    (fileIndex : ℕ) :
    (getFilePathLog debugLineStr header fileIndex).result =
      getFilePath debugLineStr header fileIndex := by
  simp only [getFilePathLog, getFilePath, result_emit_bind, result_lift_bind, result_ite]
  rfl

/-- A path that is read is a string. -/
theorem deref_eq_ok_iff {debugLineStr : List UInt8} {path : CStr} {name : List UInt8} :
    deref debugLineStr path = .ok name ↔ path.string debugLineStr = some name := by
  unfold deref
  cases path.string debugLineStr <;> simp

/-- The lists of a header are as long as its counts say. -/
structure Counted (header : LineNumProgHeader) : Prop where
  directories : header.directories.length = header.directoriesCount.toNat
  fileNames : header.fileNames.length = header.fileNamesCount.toNat

/-- **The lookups for the first file**: there is a first file, and where its path is a string that does
not begin with a slash, its directory is in the table. -/
theorem emits_getFilePathLog_iff {header : LineNumProgHeader} (hc : Counted header)
    (debugLineStr : List UInt8) :
    Emits (Lookup.Within header) (getFilePathLog debugLineStr header 0) ↔
      header.fileNames ≠ [] ∧ ∀ file, header.fileNames.head? = some file →
        ∀ name, file.path.string debugLineStr = some name → name.head? ≠ some slash →
          file.directoryIndex.toNat < header.directories.length := by
  unfold getFilePathLog
  rw [emits_emit_bind_iff, Lookup.Within, ← hc.fileNames]
  cases hfiles : header.fileNames with
  | nil => exact iff_of_false (fun h => absurd h.1 (Nat.lt_irrefl 0)) fun h => h.1 rfl
  | cons file files =>
    have hindex : index (file :: files) 0 = .ok file := rfl
    have hne : file :: files ≠ [] := List.cons_ne_nil _ _
    rw [and_iff_right (List.length_pos_of_ne_nil hne), and_iff_right hne, List.head?_cons,
      lift_bind_of_ok hindex]
    have hfile : (∀ file', some file = some file' → ∀ name, file'.path.string debugLineStr = some name →
        name.head? ≠ some slash → file'.directoryIndex.toNat < header.directories.length) ↔
        ∀ name, file.path.string debugLineStr = some name → name.head? ≠ some slash →
          file.directoryIndex.toNat < header.directories.length := by simp
    rw [hfile]
    by_cases hpath : file.path = .null
    · rw [if_pos hpath, hpath]
      exact iff_of_true (.pure _) nofun
    rw [if_neg hpath, emits_bind_iff, and_iff_right (Emits.lift _)]
    refine forall_congr' fun name => imp_congr deref_eq_ok_iff ?_
    by_cases hname : name.head? = some slash
    · rw [if_pos hname]
      exact iff_of_true (.pure _) fun h => absurd hname h
    rw [if_neg hname, emits_emit_bind_iff, Lookup.Within, ← hc.directories]
    refine ⟨fun h _ => h.1, fun h => ⟨h hname, ?_⟩⟩
    -- where the directory is in the table, there is a first one
    have hfirst : Lookup.Within header (.directories 0) := by
      have hlt := h hname
      rw [Lookup.Within, ← hc.directories]
      omega
    refine .bind (.lift _) fun directory _ => ?_
    split
    · exact .pure _
    refine .bind (.lift _) fun directoryName _ => ?_
    split
    · exact .pure _
    refine emits_emit_bind_iff.mpr ⟨hfirst, .bind (.lift _) fun compilationDir _ => ?_⟩
    split
    · exact .pure _
    · exact .bind (.lift _) fun _ _ => .pure _

/-! ### What resolves -/

/-- There is a NUL in the section, at the offset or behind it. -/
def Terminated (debugLineStr : List UInt8) (offset : UInt64) : Prop :=
  0 ∈ debugLineStr.drop offset.toNat

instance (debugLineStr : List UInt8) (offset : UInt64) :
    Decidable (Terminated debugLineStr offset) := inferInstanceAs (Decidable (_ ∈ _))

/-- **The references of a header resolve**: the lookups for the first file are inside the tables, and
every path in `.debug_line_str` is a string there. -/
structure Resolves (debugLineStr : List UInt8) (header : LineNumProgHeader) : Prop where
  lookups : Emits (Lookup.Within header) (getFilePathLog debugLineStr header 0)
  strings : ∀ entry ∈ header.directories ++ header.fileNames, ∀ offset,
    entry.path = .debugLineStr offset → Terminated debugLineStr offset

/-- What an entry refers to: a path and a directory. -/
structure Reference where
  path : CStr := .null
  directoryIndex : UInt64 := 0

/-- The reference of an entry. -/
def reference (entry : DwarfLineNumContentEntry) : Reference := ⟨entry.path, entry.directoryIndex⟩

/-- **Encoded tables with these references resolve.** -/
structure Resolvable (debugLineStr : List UInt8) (directories files : List Reference) : Prop where
  file : files ≠ []
  directory : ∀ file, files.head? = some file →
    ∀ name, file.path.string debugLineStr = some name → name.head? ≠ some slash →
      file.directoryIndex.toNat < directories.length
  strings : ∀ ref ∈ directories ++ files, ∀ offset, ref.path = .debugLineStr offset →
    Terminated debugLineStr offset

theorem resolves_iff_resolvable {header : LineNumProgHeader} (hc : Counted header)
    (debugLineStr : List UInt8) :
    Resolves debugLineStr header ↔ Resolvable debugLineStr (header.directories.map reference)
      (header.fileNames.map reference) := by
  have hlookups := emits_getFilePathLog_iff hc debugLineStr
  have hhead : ∀ P : Reference → Prop,
      (∀ ref, (header.fileNames.map reference).head? = some ref → P ref) ↔
        ∀ file, header.fileNames.head? = some file → P (reference file) := by
    intro P
    cases header.fileNames <;> simp
  have hstrings : (∀ ref ∈ header.directories.map reference ++ header.fileNames.map reference,
      ∀ offset, ref.path = .debugLineStr offset → Terminated debugLineStr offset) ↔
      ∀ entry ∈ header.directories ++ header.fileNames, ∀ offset,
        entry.path = .debugLineStr offset → Terminated debugLineStr offset := by
    rw [← List.map_append, List.forall_mem_map]
    rfl
  constructor
  · intro h
    obtain ⟨hne, hdir⟩ := hlookups.mp h.lookups
    refine ⟨mt List.map_eq_nil_iff.mp hne, (hhead _).mpr ?_, hstrings.mpr h.strings⟩
    rw [List.length_map]
    exact hdir
  · intro h
    have hdir := (hhead _).mp h.directory
    rw [List.length_map] at hdir
    exact ⟨hlookups.mpr ⟨mt List.map_eq_nil_iff.mpr h.file, hdir⟩, hstrings.mp h.strings⟩

/-! ### What the fields of an entry leave -/

/-- The path after `read_lnct_path`: that of the field, the local, or the one that was there. -/
def pathAfter (locals : Locals) (isDwarf64 : Bool) (form : DwarfFormCode) (old : CStr)
    (bs : List UInt8) : CStr :=
  let n := if isDwarf64 then 8 else 4
  if form = Form.string then if 0 ∈ bs then .heap (bs.takeWhile (· ≠ 0)) else old
  else if form = Form.lineStrp ∨ form = Form.strp ∨ form = Form.strpSup then
    if n ≤ bs.length then
      if form = Form.lineStrp then .debugLineStr (UInt64.ofNat (uintAt n bs)) else locals.path
    else old
  else if locals.result = .ok then locals.path else old

/-- The index after `read_lnct_directory_index`. -/
def directoryIndexAfter (locals : Locals) (form : DwarfFormCode) (old : UInt64) (bs : List UInt8) :
    UInt64 :=
  if form = Form.data1 then if 1 ≤ bs.length then UInt64.ofNat (uintAt 1 bs) else old
  else if form = Form.data2 then if 2 ≤ bs.length then UInt64.ofNat (uintAt 2 bs) else old
  else if form = Form.udata then
    if lebStatus .lebU64Overflow 10 bs = .ok then lebAt bs else old
  else if locals.result = .ok then 0 else old

/-- The reference after the field `j` of the entry `i`. -/
def Reference.after (host : Host) (isDwarf64 : Bool) (i j : ℕ) (ref : Reference)
    (field : DwarfLineNumFormatDesc × List UInt8) : Reference :=
  let (fmt, bs) := field
  let locals := host.locals (ofBytes bs) i j
  if fmt.contentType = Lnct.path then
    { ref with path := pathAfter locals isDwarf64 fmt.formCode ref.path bs }
  else if fmt.contentType = Lnct.directoryIndex then
    { ref with directoryIndex := directoryIndexAfter locals fmt.formCode ref.directoryIndex bs }
  else ref

/-- The reference after the fields of the entry `i`, from the field `j` on. -/
def fieldsReference (host : Host) (isDwarf64 : Bool) (i : ℕ) :
    ℕ → List (DwarfLineNumFormatDesc × List UInt8) → Reference → Reference
  | _, [], ref => ref
  | j, field :: fields, ref =>
    fieldsReference host isDwarf64 i (j + 1) fields (ref.after host isDwarf64 i j field)

/-- The references of the entries, from the entry `i` on. -/
def entriesReferences (host : Host) (isDwarf64 : Bool) :
    ℕ → List (List (DwarfLineNumFormatDesc × List UInt8)) → List Reference
  | _, [] => []
  | i, fields :: entries => fieldsReference host isDwarf64 i 0 fields {} ::
    entriesReferences host isDwarf64 (i + 1) entries

/-- **The references of a table**, with its formats before it. -/
def tableReferences (host : Host) (isDwarf64 : Bool) (bs : List UInt8) : List Reference :=
  let behind := takeFormats (bs.headD 0).toNat (bs.drop 1)
  entriesReferences host isDwarf64 0
    (entriesAt host isDwarf64 behind.1 (tableCount bs).toNat (skipLeb behind.2))

/-- The references of the table behind a table. -/
def behindReferences (host : Host) (isDwarf64 : Bool) (bs : List UInt8) : List Reference :=
  (skipTable host isDwarf64 bs).elim [] (tableReferences host isDwarf64)

/-! ### The readers -/

section
variable {α : Type} (set : α → DwarfLineNumContentEntry)

/-- The end of a `read_lnct_*` function: the local is stored if the read was not an error. -/
theorem leaves_set {entry : DwarfLineNumContentEntry} {status : ReadStatus} {new old a : α}
    (hset : set old = entry) (h : (if status = .ok then new else old) = a) (bs : List UInt8) :
    Leaves ofBytes (if status = .ok then pure (set new) else pure entry :
      Parse DwarfLineNumContentEntry) bs (some bs) (· = set a) := by
  by_cases hok : status = .ok
  · rw [if_pos hok] at h ⊢
    exact .pure (congrArg set h)
  · rw [if_neg hok] at h ⊢
    exact .pure (by rw [← hset, h])

/-- One form of several. -/
theorem leaves_ite_set {c : Prop} [Decidable c] {p p' : Parse DwarfLineNumContentEntry}
    {o o' : Option (List UInt8)} {a a' : α} {bs : List UInt8}
    (h : c → Leaves ofBytes p bs o (· = set a)) (h' : ¬ c → Leaves ofBytes p' bs o' (· = set a')) :
    Leaves ofBytes (if c then p else p') bs (if c then o else o')
      (· = set (if c then a else a')) :=
  Leaves.ite_value (Φ := fun a e => e = set a) h h'

end

section
variable (host : Host) (locals : Locals) (form : DwarfFormCode) (entry : DwarfLineNumContentEntry)
  (bs : List UInt8)

theorem leaves_path_after (isDwarf64 : Bool) :
    Leaves ofBytes (readLnctPath host locals form entry isDwarf64) bs
      (skipPath host isDwarf64 form bs)
      (· = { entry with path := pathAfter locals isDwarf64 form entry.path bs }) := by
  simp only [readLnctPath, ne_eq, ite_not]
  let set : CStr → DwarfLineNumContentEntry := fun p => { entry with path := p }
  refine leaves_ite_set set (fun _ => ?_) fun _ => leaves_ite_set set (fun _ => ?_) fun _ => ?_
  · refine (leaves_cstring _ bs).bind_some fun x hx => leaves_set set rfl ?_ _
    rw [hx]
    by_cases h0 : 0 ∈ bs
    · rw [if_pos h0, if_pos h0]
      rfl
    · rw [if_neg h0, if_neg h0]
      rfl
  · refine (leaves_readInt_zero (by split <;> simp) bs).bind_some ?_
    rintro x ⟨hstatus, hx⟩
    rw [hx]
    -- what is stored, or left
    have hstored : ∀ new, (if x.1.status = .ok then new else entry.path) =
        if (if isDwarf64 then 8 else 4) ≤ bs.length then new else entry.path :=
      fun new => if_congr hstatus rfl rfl
    by_cases hline : form = Form.lineStrp
    · have hstrp : form ≠ Form.strp := by
        rw [hline]
        decide
      rw [if_pos hline, if_neg hstrp]
      refine leaves_set set rfl ?_ _
      rw [hstored, if_pos hline]
    · rw [if_neg hline]
      have hpath : (if x.1.status = .ok then locals.path else entry.path) =
          if (if isDwarf64 then 8 else 4) ≤ bs.length then
            if form = Form.lineStrp then
              .debugLineStr (UInt64.ofNat (uintAt (if isDwarf64 then 8 else 4) bs))
            else locals.path
          else entry.path := by rw [hstored, if_neg hline]
      refine .ite (fun _ => ?_) fun _ => leaves_set set rfl hpath _
      exact (leaves_cAssert host _).bind_end fun _ _ _ => leaves_set set rfl hpath _
  · exact leaves_set set rfl rfl _

theorem leaves_directoryIndex_after :
    Leaves ofBytes (readLnctDirectoryIndex locals form entry) bs (skipDirectoryIndex form bs)
      (· = { entry with
        directoryIndex := directoryIndexAfter locals form entry.directoryIndex bs }) := by
  simp only [readLnctDirectoryIndex, ne_eq, ite_not]
  let set : UInt64 → DwarfLineNumContentEntry := fun d => { entry with directoryIndex := d }
  have hint (n : ℕ) (hn : n ≤ 8) : Leaves ofBytes (readInt 8 0 n >>= fun x =>
      if x.1.status = .ok then pure (set (UInt64.ofNat x.2)) else pure entry) bs
      (some (skipBytes n bs)) (· = set (if n ≤ bs.length then UInt64.ofNat (uintAt n bs)
        else entry.directoryIndex)) := by
    refine (leaves_readInt_zero hn bs).bind_some fun x hread => leaves_set set rfl ?_ _
    obtain ⟨hstatus, hx⟩ := hread
    rw [hx]
    exact if_congr hstatus rfl rfl
  refine leaves_ite_set set (fun _ => hint 1 (by decide)) fun _ =>
    leaves_ite_set set (fun _ => hint 2 (by decide)) fun _ =>
    leaves_ite_set set (fun _ => ?_) fun _ => leaves_set set rfl rfl _
  refine .bind_some ⟨_, readUleb128_ofBytes bs, rfl⟩ ?_
  rintro _ rfl
  exact leaves_set set rfl rfl _

end

/-! ### The tables -/

section
variable (host : Host) (isDwarf64 : Bool)

theorem leaves_field_after (i j : ℕ) (fmt : DwarfLineNumFormatDesc)
    (entry : DwarfLineNumContentEntry) (bs : List UInt8) :
    Leaves ofBytes (readLnctField host isDwarf64 i j fmt entry) bs (skipField host isDwarf64 bs fmt)
      (reference · = (reference entry).after host isDwarf64 i j (fmt, bs)) := by
  refine .get_bind ?_
  let locals := host.locals (ofBytes bs) i j
  have hany := shownAny_by locals
  refine .ite_value (Φ := fun ref e => reference e = ref) (fun _ => ?_) fun _ =>
    .ite_value (Φ := fun ref e => reference e = ref) (fun _ => ?_) fun _ =>
    .ite (fun _ => ?_) fun _ => .ite (fun _ => ?_) fun _ => .ite (fun _ => ?_) fun _ =>
    .ite (fun _ => ?_) fun _ => .pure rfl
  · refine (leaves_path_after host locals fmt.formCode entry bs isDwarf64).mono ?_
    rintro _ rfl
    rfl
  · refine (leaves_directoryIndex_after locals fmt.formCode entry bs).mono ?_
    rintro _ rfl
    rfl
  · have h : Is shownAny.timestamp none entry.timestamp := trivial
    refine (leaves_timestamp_known hany fmt.formCode bs h).mono ?_
    rintro _ ⟨t, rfl, -⟩
    rfl
  · have h : Is shownAny.size none entry.size := trivial
    refine (leaves_size_known hany fmt.formCode bs h).mono ?_
    rintro _ ⟨n, rfl, -⟩
    rfl
  · have h : Is shownAny.md5 none entry.md5 := trivial
    refine (leaves_md5_known hany fmt.formCode bs h).mono ?_
    rintro _ ⟨m, rfl, -⟩
    rfl
  · exact (leaves_cAssert host bs).bind_end fun _ _ _ => .pure rfl

theorem leaves_fields_after (i : ℕ) : ∀ (j : ℕ) (formats : List DwarfLineNumFormatDesc)
    (entry : DwarfLineNumContentEntry) (bs : List UInt8),
    Leaves ofBytes (readLnctFields host isDwarf64 i j formats entry) bs
      (formats.foldlM (skipField host isDwarf64) bs)
      (reference · = fieldsReference host isDwarf64 i j (fieldsAt host isDwarf64 formats bs)
        (reference entry))
  | _, [], _, _ => .pure rfl
  | j, fmt :: formats, entry, bs => by
    rw [List.foldlM_cons, fieldsAt, fieldsReference]
    refine (leaves_field_after host isDwarf64 i j fmt entry bs).bind_of_eq ?_
    intro cs hcs entry' he
    rw [hcs, ← he]
    exact leaves_fields_after i (j + 1) formats entry' cs

theorem leaves_entries_after (formats : List DwarfLineNumFormatDesc) : ∀ (i n : ℕ)
    (bs : List UInt8),
    Leaves ofBytes (readLnctEntries host formats isDwarf64 i n) bs
      (skipEntries host isDwarf64 formats n bs) fun entries => entries.length = n ∧
        entries.map reference =
          entriesReferences host isDwarf64 i (entriesAt host isDwarf64 formats n bs)
  | _, 0, _ => .pure ⟨rfl, rfl⟩
  | i, n + 1, bs => by
    refine (leaves_fields_after host isDwarf64 i 0 formats {} bs).bind_of_eq ?_
    intro cs hcs entry he
    rw [entriesAt, hcs]
    refine (leaves_entries_after formats (i + 1) n cs).bind_end ?_
    rintro entries _ ⟨hlen, hmap⟩
    refine .pure ⟨by rw [List.length_cons, hlen], ?_⟩
    rw [List.map_cons, he, hmap]
    rfl

/-- The entries of a table are as many as its count says, and have its references. -/
theorem tableLeaves_references : TableLeaves host isDwarf64 fun bs entries =>
    entries.length = (tableCount bs).toNat ∧
      entries.map reference = tableReferences host isDwarf64 bs :=
  fun _ => leaves_entries_after host isDwarf64 _ _ _ _

end

/-- **A header that is parsed** resolves exactly if the encoded tables do. -/
theorem parseLineHeader_resolves_iff {host : Host} {bs : List UInt8} {header : LineNumProgHeader}
    {r : BinaryReader} (h : parseLineHeader host (ofBytes bs) = .ok (header, r))
    (debugLineStr : List UInt8) :
    ∃ ds, tablesAt host bs = some ds ∧ (Resolves debugLineStr header ↔
      Resolvable debugLineStr (tableReferences host (isDwarf64At bs) ds)
        (behindReferences host (isDwarf64At bs) ds)) := by
  obtain ⟨_, -, -, -, ds, hds, htables⟩ :=
    (leaves_parseLineHeader_tables host bs (tableLeaves_references host (isDwarf64At bs))).of_run h
  obtain ⟨hdlen, hdirs⟩ := htables.directories
  obtain ⟨es, hes, hcount, hflen, hfiles⟩ := htables.files
  have hc : Counted header :=
    ⟨by rw [hdlen, htables.directoriesCount], by rw [hflen, hcount]⟩
  refine ⟨ds, hds, ?_⟩
  rw [resolves_iff_resolvable hc, hdirs, hfiles, behindReferences, hes]
  rfl

/-! ### The units of a section -/

/-- The tables of the unit at `bs` resolve. -/
def UnitResolvable (host : Host) (debugLineStr : List UInt8) (bs : List UInt8) : Prop :=
  ∀ ds, tablesAt host bs = some ds →
    Resolvable debugLineStr (tableReferences host (isDwarf64At bs) ds)
      (behindReferences host (isDwarf64At bs) ds)

/-- **The references of all units resolve** exactly if, of every unit that the parser comes to, the
encoded tables do. -/
theorem resolves_iff {host : Host} {sections : ProgramSections} {lineInfo : LineInfo}
    {r : BinaryReader} (h : parseDebugLineSection host sections = .ok (lineInfo, r)) :
    (∀ compUnit ∈ lineInfo.compUnits,
        Resolves sections.debugLineStr.data compUnit.header) ↔
      ∀ bs, UnitAt host sections bs → UnitResolvable host sections.debugLineStr.data bs := by
  constructor
  · intro hall bs hunit ds hds
    obtain ⟨header, r', hparse⟩ : ∃ header r', parseLineHeader host (ofBytes bs) = .ok (header, r') := by
      cases hp : parseLineHeader host (ofBytes bs) with
      | error e =>
        have hfail := parseDebugLineSection_error_iff.mpr (.inl ⟨bs, hunit, hp⟩)
        rw [h] at hfail
        cases hfail
      | ok x => exact ⟨x.1, x.2, rfl⟩
    obtain ⟨program, rfl⟩ := parseLineHeader_ofBytes hparse
    obtain ⟨compUnit, hmem, rfl⟩ := (exists_compUnit_iff h).mpr ⟨program, bs, hunit, hparse⟩
    obtain ⟨ds', hds', hiff⟩ := parseLineHeader_resolves_iff hparse sections.debugLineStr.data
    cases hds.symm.trans hds'
    exact hiff.mp (hall compUnit hmem)
  · intro hall compUnit hmem
    obtain ⟨program, bs, hunit, hparse⟩ := (exists_compUnit_iff h).mp ⟨compUnit, hmem, rfl⟩
    obtain ⟨ds, hds, hiff⟩ := parseLineHeader_resolves_iff hparse sections.debugLineStr.data
    exact hiff.mpr (hall bs hunit ds hds)

/-- A unit with the directory `/` of `.debug_line_str` and the file `a` in it. -/
def resolvedSections : ProgramSections where
  debugLine := ⟨0, [43, 0, 0, 0, 5, 0, 8, 0, 35, 0, 0, 0] ++
    ([1, 1, 1, 0xfb, 14, 13, 0, 1, 1, 1, 1, 0, 0, 0, 1, 0, 0, 1] ++
      ([1, 1, 0x1f, 1, 0, 0, 0, 0] ++ [2, 1, 0x08, 2, 0x0b, 1, 97, 0, 0])), by decide +kernel⟩
  debugLineStr := ⟨0, [47, 100, 0], by decide⟩

/-- What it is parsed to. -/
def resolvedInfo : LineInfo where
  compUnits := [{
    header := { sampleFiles with
      unitLength := 43
      headerLength := 35
      directoryEntryFormat := [⟨Lnct.path, Form.lineStrp⟩]
      directories := [{ path := .debugLineStr 0 }]
      fileNameEntryFormatCount := 2
      fileNameEntryFormat := [⟨Lnct.path, Form.string⟩, ⟨Lnct.directoryIndex, Form.data1⟩]
      fileNamesCount := 1
      fileNames := [{ path := .heap [97] }] }
    table := { sequences := [] } }]

theorem resolves_iff_sample : UnitResolvable (.zeroed true) resolvedSections.debugLineStr.data
    resolvedSections.debugLine.data := by
  have hparse : parseDebugLineSection (.zeroed true) resolvedSections =
      .ok (resolvedInfo, ofBytes []) := by decide +kernel
  have hunit : UnitAt (.zeroed true) resolvedSections resolvedSections.debugLine.data :=
    ⟨[], .refl _, by decide +kernel⟩
  refine (resolves_iff hparse).mp ?_ _ hunit
  intro compUnit hmem
  obtain rfl := List.mem_singleton.mp hmem
  constructor
  · unfold Emits
    decide
  · intro entry hentry offset hpath
    rcases List.mem_cons.mp hentry with rfl | hentry
    · cases hpath
      decide
    · obtain rfl := List.mem_singleton.mp hentry
      cases hpath

/-! ### A header without files -/

/-- A unit without directories and files. -/
def emptyTableSections : ProgramSections where
  debugLine := ⟨0, [30, 0, 0, 0, 5, 0, 8, 0, 22, 0, 0, 0] ++
    ([1, 1, 1, 0xfb, 14, 13, 0, 1, 1, 1, 1, 0, 0, 0, 1, 0, 0, 1] ++ [0, 0, 0, 0]),
    by decide +kernel⟩

/-- What it is parsed to. -/
def emptyTableInfo : LineInfo where
  compUnits := [{
    header := { sampleFiles with
      unitLength := 30
      headerLength := 22
      directoryEntryFormatCount := 0
      directoryEntryFormat := []
      directoriesCount := 0
      directories := []
      fileNameEntryFormatCount := 0
      fileNameEntryFormat := []
      fileNamesCount := 0
      fileNames := [] }
    table := { sequences := [] } }]

/-- There is no first file. -/
theorem not_resolves_emptyTable : ¬ ∀ (host : Host) (sections : ProgramSections)
    (lineInfo : LineInfo) (r : BinaryReader),
      parseDebugLineSection host sections = .ok (lineInfo, r) →
      ∀ compUnit ∈ lineInfo.compUnits,
        Resolves sections.debugLineStr.data compUnit.header := by
  intro h
  have hparse : parseDebugLineSection (.zeroed true) emptyTableSections =
      .ok (emptyTableInfo, ofBytes []) := by decide +kernel
  have hresolves := h _ _ _ _ hparse _ (List.mem_singleton_self _)
  exact absurd (hresolves.lookups (.fileNames 0) (List.mem_cons_self ..)) (by decide)

end Dabugger.Debug.FilePaths
