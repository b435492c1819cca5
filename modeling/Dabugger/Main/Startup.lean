import Dabugger.Debug.StoreExact
import Dabugger.Dwarf.Section
import Dabugger.Elf.Extraction
import Dabugger.Main.Screen

/-! # From the file to the breakpoints

`start` is the beginning of `main`: `init_debug_session` with its two parsers, and the lines of the
picker. `HasUnits` says of a file, by its own headers, what its line number information is. In every run
from such a file the breakpoints of lines are where the matrices of its units put them, and keep the
bytes that the file has there (`run_lines`). -/

namespace Dabugger.Main.Startup

open Dabugger.Lib.Bytes Dabugger.Lib.Runs Dabugger.Lib.Searches Dabugger.Lib.Exact Dabugger.Base Dabugger.Base.BinaryReader
open Dabugger.Dwarf.Types Dabugger.Dwarf.Program Dabugger.Dwarf.HeaderEncoding
  Dabugger.Dwarf.HeaderRoundTrip Dabugger.Dwarf.Refinement Dabugger.Dwarf.Section
open Dabugger.LineProgram.Machine Dabugger.Elf.File Dabugger.Elf.Extraction
open Dabugger.Debug.Session Dabugger.Debug.Store Dabugger.Debug.StoreExact Dabugger.Debug.Events
  Dabugger.Debug.Buffers
open Dabugger.Tui.Types Dabugger.Tui.Update Dabugger.Main.Loop Dabugger.Main.Screen

/-! ### The start -/

/-- How the start ends without a state. -/
inductive StartStop where
  /-- in `parse_elf_file` -/
  | elf (stop : Stop)
  /-- in `parse_debug_line_section` or `get_file_picker_buffer` -/
  | fault (fault : Fault)

/-- `init_debug_session`, with the contents of the file. -/
def openDebugSession (host : Host) (inferiorPath : String) (file : Option (List UInt8)) :
    Except StartStop DebugSession := do
  let programData ← (parseElfFile inferiorPath file).mapError .elf
  let (lineInfo, _) ← (parseDebugLineSection host programData.sections).mapError .fault
  return initDebugSession programData lineInfo

/-- `main`, up to its loop. -/
def start (host : Host) (inferiorPath : String) (file : Option (List UInt8)) :
    Except StartStop MainState := do
  let session ← openDebugSession host inferiorPath file
  let picker ← (getFilePickerBuffer session).mapError .fault
  return { world := ⟨session, none⟩, model := initialModel picker }

theorem mapError_ok {ε ε' α : Type} {f : ε → ε'} {x : Except ε α} {a : α}
    (h : x.mapError f = .ok a) : x = .ok a := by
  cases x with
  | error e => cases h
  | ok b => cases h; rfl

theorem mapError_of_ok {ε ε' α : Type} {f : ε → ε'} {x : Except ε α} {a : α} (h : x = .ok a) :
    x.mapError f = .ok a := by
  rw [h]
  rfl

section
variable {host : Host} {inferiorPath : String} {file : Option (List UInt8)}

theorem openDebugSession_ok {session : DebugSession}
    (h : openDebugSession host inferiorPath file = .ok session) : ∃ programData lineInfo r,
      parseElfFile inferiorPath file = .ok programData ∧
        parseDebugLineSection host programData.sections = .ok (lineInfo, r) ∧
          session = initDebugSession programData lineInfo := by
  obtain ⟨programData, helf, h⟩ := except_bind_ok h
  obtain ⟨⟨lineInfo, r⟩, hline, h⟩ := except_bind_ok h
  cases h
  exact ⟨programData, lineInfo, r, mapError_ok helf, mapError_ok hline, rfl⟩

/-- The state at the start of the loop is one that its runs begin with. -/
theorem start_ok {s : MainState} (h : start host inferiorPath file = .ok s) :
    openDebugSession host inferiorPath file = .ok s.world.session ∧ Loop.Initial s := by
  obtain ⟨session, hopen, h⟩ := except_bind_ok h
  obtain ⟨picker, hpicker, h⟩ := except_bind_ok h
  cases h
  obtain ⟨programData, lineInfo, -, -, -, rfl⟩ := openDebugSession_ok hopen
  exact ⟨hopen, _, picker, ⟨programData, lineInfo, rfl⟩, mapError_ok hpicker, rfl⟩

end

/-! ### What the file says -/

section
variable (image : List UInt8)

/-- The last section with this name. -/
def lastSection (kind : SectionKind) : Option Elf64Shdr :=
  (findLast (fun i => sectionName image i = some kind.name) (header image).shnum.toNat).map
    (sectionHeader image)

/-- Its contents, at the offsets of the file. -/
def sectionContents (kind : SectionKind) : List UInt8 :=
  (lastSection image kind).elim [] (contents image)

/-- Its address. -/
def sectionAddress (kind : SectionKind) : UInt64 :=
  (lastSection image kind).elim 0 Elf64Shdr.addr

/-- The byte of the code at an address. -/
def codeByte (address : UInt64) : Option UInt8 :=
  (sectionContents image .text)[(address - sectionAddress image .text).toNat]?

/-- The header of a unit, for the machine. -/
def lineParams (u : UnitValue) : Params where
  minimumInstructionLength := u.header.minimumInstructionLength.toNat
  maximumOperationsPerInstruction := u.header.maximumOperationsPerInstruction.toNat
  defaultIsStmt := u.header.defaultIsStmt ≠ 0
  lineBase := u.header.lineBase.toInt
  lineRange := u.header.lineRange.toNat
  opcodeBase := u.header.opcodeBase.toNat

/-- **The units of the file**: its line number information is a sequence of their encodings, and the
operands of their programs fit. -/
structure HasUnits (units : List UnitValue) : Prop where
  encodes : ∃ chunks, sectionContents image .debugLine = chunks.flatten ∧
    List.Forall₂ (UnitValue.Encodes (sectionContents image .debugLineStr)) units chunks
  fits : ∀ u ∈ units, Fits (lineParams u) (initial (lineParams u)) u.program

/-- The address of a line: that of the first row of the matrix for it, that is a statement and no end of
a sequence. -/
def stmtAddress (units : List UnitValue) (compUnitIndex lineNum : ℕ) : Option UInt64 :=
  (units[compUnitIndex]?.bind fun u => (matrix (lineParams u) u.program).find? fun row =>
    !row.endSequence && decide (row.line % 2 ^ 32 = (lineNum : ℤ)) && row.isStmt).map
      fun row => UInt64.ofNat row.address

end

/-! ### What is made of it -/

section
variable {image : List UInt8} {programData : ProgramData}

/-- The buffers of the program data are the sections of the file. -/
theorem extracted_section (h : Extracted image programData) (kind : SectionKind) :
    (kind.get programData.sections).data = sectionContents image kind ∧
      (kind.get programData.sections).address = sectionAddress image kind := by
  have hsection := h.sections kind
  rw [sectionContents, sectionAddress, lastSection, Option.elim_map, Option.elim_map]
  exact ⟨hsection.map_findLast _ fun _ hb => hb.data, hsection.map_findLast _ fun _ hb => hb.address⟩

end

/-- The table shows the matrix of the unit. -/
def ShowsUnit (u : UnitValue) (compUnit : LineInfoCompUnit) : Prop :=
  List.Forall₂ Shows (matrix (lineParams u) u.program) compUnit.table.rows

theorem params_of_decodes {u : UnitValue} {debugLineStr : List UInt8} {header : LineNumProgHeader}
    (hd : u.header.Decodes debugLineStr header) : params header = lineParams u := by
  rw [params, lineParams, hd.minimumInstructionLength, hd.maximumOperationsPerInstruction,
    hd.defaultIsStmt, hd.lineBase, hd.lineRange, hd.opcodeBase]

/-- The unit parser takes the encoding of a unit, and its table shows the matrix. -/
theorem reads_shown (host : Host) {debugLineStr : List UInt8} {u : UnitValue} {bs : List UInt8}
    (he : u.Encodes debugLineStr bs) (hf : Fits (lineParams u) (initial (lineParams u)) u.program) :
    ∃ compUnit, ReadsUnit host compUnit bs ∧ ShowsUnit u compUnit := by
  obtain ⟨-, ⟨hne, -⟩, -⟩ := reads_parseCompUnit host he
  obtain ⟨body, program, hw, hl, hm, hbody, hprog, ht, rfl⟩ := he
  obtain ⟨header, hr, hd⟩ := reads_parseLineHeader host (h := u.header) ⟨hw, body, hbody, rfl⟩
  obtain ⟨table, hrt, hshow⟩ := reads_decodeLineNumProg host
    (steppable_of_decodes hd hw hl hm) (hd.opcodeBase.symm ▸ hprog) (programLength_of_decodes hd ht)
  rw [params_of_decodes hd] at hshow
  exact ⟨⟨header, table⟩, ⟨hne, fun compUnits => hr.bind (hrt.bind_pure (.pure _))⟩, hshow hf⟩

/-- **The line information** of a file shows the matrices of its units. -/
theorem lineInfo_shows {host : Host} {image : List UInt8} {units : List UnitValue}
    (hu : HasUnits image units) {sections : ProgramSections} {lineInfo : LineInfo} {r : BinaryReader}
    (hline : sections.debugLine.data = sectionContents image .debugLine)
    (h : parseDebugLineSection host sections = .ok (lineInfo, r)) :
    List.Forall₂ ShowsUnit units lineInfo.compUnits := by
  obtain ⟨chunks, hchunks, he⟩ := hu.encodes
  have hread : ∃ compUnits, List.Forall₂ (ReadsUnit host) compUnits chunks ∧
      List.Forall₂ ShowsUnit units compUnits := by
    have hfits := hu.fits
    clear hchunks hu
    induction he with
    | nil => exact ⟨[], .nil, .nil⟩
    | @cons u _ _ _ hunit _ ih =>
      obtain ⟨compUnit, h1, h2⟩ := reads_shown host hunit (hfits u List.mem_cons_self)
      obtain ⟨compUnits, hs1, hs2⟩ := ih fun v hv => hfits v (List.mem_cons_of_mem u hv)
      exact ⟨compUnit :: compUnits, .cons h1 hs1, .cons h2 hs2⟩
  obtain ⟨compUnits, hreads, hshows⟩ := hread
  have hparse : parseDebugLineSection host sections = _ :=
    parse_of_readsUnit (hline ▸ hchunks ▸ tiles_flatten hreads)
  rw [h] at hparse
  cases hparse
  exact hshows

/-- The session at the start. -/
structure Opened (image : List UInt8) (units : List UnitValue) (session : DebugSession) : Prop where
  units : List.Forall₂ ShowsUnit units session.lineInfo.compUnits
  text : ∀ address, textByte session address = codeByte image address

/-- Its program data is that of the file. -/
theorem openDebugSession_extracted {host : Host} {inferiorPath : String} {image : List UInt8}
    {session : DebugSession} (hw : Elf.Extraction.WellFormed image)
    (h : openDebugSession host inferiorPath (some image) = .ok session) :
    Extracted image session.programData := by
  obtain ⟨programData, lineInfo, r, helf, -, rfl⟩ := openDebugSession_ok h
  unfold parseElfFile Except.map at helf
  dsimp only at helf
  split at helf
  · cases helf
  · rename_i hrun
    cases helf
    exact (yields_parseElf inferiorPath hw _ _ hrun).2

theorem textByte_eq_codeByte {image : List UInt8} {session : DebugSession}
    (h : Extracted image session.programData) (address : UInt64) :
    textByte session address = codeByte image address := by
  obtain ⟨hdata, haddress⟩ := extracted_section h .text
  rw [codeByte, ← hdata, ← haddress]
  rfl

theorem openDebugSession_opened {host : Host} {inferiorPath : String} {image : List UInt8}
    {units : List UnitValue} {session : DebugSession} (hw : Elf.Extraction.WellFormed image)
    (hu : HasUnits image units)
    (h : openDebugSession host inferiorPath (some image) = .ok session) :
    Opened image units session := by
  have hextracted := openDebugSession_extracted hw h
  obtain ⟨programData, lineInfo, r, -, hline, rfl⟩ := openDebugSession_ok h
  exact ⟨lineInfo_shows hu (extracted_section hextracted .debugLine).1 hline,
    textByte_eq_codeByte hextracted⟩

/-- The line has this address in the session too. -/
theorem Opened.stmtAddress {image : List UInt8} {units : List UnitValue} {session : DebugSession}
    (h : Opened image units session) (compUnitIndex lineNum : ℕ) :
    (firstStmtRow session compUnitIndex lineNum).map LineInfoEntry.address =
      stmtAddress units compUnitIndex lineNum := by
  refine (map_eq_of_rel (fun row entry hrow => ?_) (bind_rel (fun u compUnit hrows =>
    find?_rel (fun row entry hrow => ?_) hrows) (getElem?_rel h.units compUnitIndex))).symm
  · rw [← UInt64.toNat_inj, hrow.address, UInt64.toNat_ofNat']
  · have hline := hrow.line
    rw [hrow.endSequence, hrow.isStmt, ← hline]
    norm_cast

/-! ### Runs -/

section
variable {m : Machine} {image : List UInt8} {units : List UnitValue} {inferiorPath : String}
  {s₀ s : MainState} {logs : List (List Effect)}

/-- The program of a run is that of the file. -/
theorem run_opened (hw : Elf.Extraction.WellFormed image) (hu : HasUnits image units)
    (h₀ : start m.host inferiorPath (some image) = .ok s₀) (r : Run (Loop.Step m) s₀ logs s) :
    StoreInv s.world.session ∧ Opened image units s.world.session := by
  obtain ⟨hopen, world, picker, hworld, -, rfl⟩ := start_ok h₀
  obtain ⟨es, re⟩ := run_events r
  have hprogram := run_sameProgram re hworld.inv
  have hopened := openDebugSession_opened hw hu hopen
  refine ⟨hprogram.inv, ?_, fun address => ?_⟩
  · rw [hprogram.lineInfo]
    exact hopened.units
  · rw [textByte, hprogram.programData]
    exact hopened.text address

/-- **A line that is not listed is toggled.** -/
theorem toggle_lists_iff {host : Host} {session session' : DebugSession} {compUnitIndex lineNum : ℕ}
    (h : toggleSourceBreakpoint host session compUnitIndex lineNum = .ok session')
    (hline : ∀ sb ∈ session.srcBreakpoints, lineKey sb ≠ (compUnitIndex, lineNum)) :
    (∃ sb ∈ session'.srcBreakpoints, lineKey sb = (compUnitIndex, lineNum)) ↔
      ∃ address, (firstStmtRow session compUnitIndex lineNum).map LineInfoEntry.address =
        some address ∧ ∀ bp ∈ session.breakpoints, bp.address ≠ address := by
  have hany : ¬ (session.srcBreakpoints.any fun sb =>
      decide (sb.compUnitIndex = compUnitIndex ∧ sb.lineNum = lineNum)) = true := by
    rw [List.any_eq_true]
    rintro ⟨sb, hsb, he⟩
    exact hline sb hsb (by simpa [lineKey] using he)
  rw [toggleSourceBreakpoint, if_neg hany] at h
  obtain ⟨⟨_, isSet⟩, hset, h⟩ := except_bind_ok h
  cases h
  rcases setSourceBreakpoint_ok hset with ⟨rfl, rfl⟩ | ⟨rfl, -, row, byte, hrow, hnew, -, rfl⟩
  · refine iff_of_false ?_ ?_
    · rintro ⟨sb, hsb, he⟩
      exact hline sb hsb he
    · rintro ⟨address, haddress, hnew⟩
      obtain ⟨row, hrow, rfl⟩ := Option.map_eq_some_iff.mp haddress
      exact absurd (CanSet.isSet ⟨hline, row, hrow, hnew⟩ hset) Bool.false_ne_true
  · refine iff_of_true ⟨_, List.mem_append_right _ List.mem_cons_self, rfl⟩ ?_
    exact ⟨row.address, by rw [hrow]; rfl, hnew⟩

/-- **From the file to the breakpoints.** In every run from a file with these units: the breakpoint of a
line is at the address of the line; every breakpoint keeps the byte of the code in the file; and if a
line that is not listed is toggled, then it is listed if and only if it has an address and no breakpoint
is there. -/
theorem run_lines (m : Machine) {image : List UInt8} {units : List UnitValue} {inferiorPath : String}
    {s₀ s : MainState} {logs : List (List Effect)} (hw : Elf.Extraction.WellFormed image)
    (hu : HasUnits image units) (h₀ : start m.host inferiorPath (some image) = .ok s₀)
    (r : Run (Loop.Step m) s₀ logs s) :
    (∀ sb ∈ s.world.session.srcBreakpoints,
      stmtAddress units sb.compUnitIndex sb.lineNum = some sb.address) ∧
    (∀ bp ∈ s.world.session.breakpoints, codeByte image bp.address = some bp.originalByte) ∧
    ∀ compUnitIndex lineNum session,
      toggleSourceBreakpoint m.host s.world.session compUnitIndex lineNum = .ok session →
      (∀ sb ∈ s.world.session.srcBreakpoints, lineKey sb ≠ (compUnitIndex, lineNum)) →
      ((∃ sb ∈ session.srcBreakpoints, lineKey sb = (compUnitIndex, lineNum)) ↔
        ∃ address, stmtAddress units compUnitIndex lineNum = some address ∧
          ∀ bp ∈ s.world.session.breakpoints, bp.address ≠ address) := by
  obtain ⟨hi, hopened⟩ := run_opened hw hu h₀ r
  refine ⟨fun sb hsb => ?_, fun bp hbp => ?_, fun compUnitIndex lineNum session h hline => ?_⟩
  · rw [← hopened.stmtAddress]
    exact hi.src_row sb hsb
  · rw [← hopened.text]
    exact hi.originalByte bp hbp
  · rw [← hopened.stmtAddress]
    exact toggle_lists_iff h hline

end

/-! ### A small file -/

/-- A unit with a row for line 2, at `0x19e`. -/
def smallUnit : UnitValue := ⟨sampleHeader, [.setAddress 0x19a, .special 75, .endSequence]⟩

/-- The program of `smallUnit`. -/
def smallProgram : List UInt8 := [0, 9, 2, 0x9a, 1, 0, 0, 0, 0, 0, 0] ++ ([75] ++ [0, 1, 1])

theorem smallUnit_encodes :
    smallUnit.Encodes [47, 0] (sampleHeader.prelude ++ sampleBody ++ smallProgram) := by
  refine ⟨sampleBody, smallProgram, sampleHeader_wellFormed, by decide, by decide,
    sampleHeader_encodesBody, ?_, ⟨by decide, by decide⟩, rfl⟩
  refine .cons ⟨8, by decide, by decide, by decide, [9], by decide, by decide⟩
    (.cons ⟨by decide, rfl⟩ (.single ⟨[1], by decide, rfl⟩))

/-- An image with eight `nop` at `0x19a`, and the unit. -/
def smallImage : List UInt8 :=
  -- the file header; the sections are at 64, the segment is at 320
  elfMag ++ [elfClass64, elfData2Lsb] ++ toLe 10 0 ++ toLe 2 3 ++ toLe 2 62 ++ toLe 4 1 ++
  toLe 8 0x19a ++ toLe 8 320 ++ toLe 8 64 ++ toLe 4 0 ++ toLe 2 64 ++ toLe 2 56 ++ toLe 2 1 ++
  toLe 2 64 ++ toLe 2 4 ++ toLe 2 3 ++
  -- `.text`, `.debug_line`, `.debug_line_str`, and the section of the names
  toLe 16 0 ++ toLe 8 0x19a ++ toLe 8 410 ++ toLe 8 8 ++ toLe 24 0 ++
  toLe 16 6 ++ toLe 8 0 ++ toLe 8 418 ++ toLe 8 80 ++ toLe 24 0 ++
  toLe 16 18 ++ toLe 8 0 ++ toLe 8 498 ++ toLe 8 2 ++ toLe 24 0 ++
  toLe 16 5 ++ toLe 8 0 ++ toLe 8 376 ++ toLe 8 34 ++ toLe 24 0 ++
  -- the segment, which is the whole file
  toLe 16 1 ++ toLe 16 0 ++ toLe 8 500 ++ toLe 16 0 ++
  SectionKind.text.name ++ [0] ++ SectionKind.debugLine.name ++ [0] ++
  SectionKind.debugLineStr.name ++ [0] ++ List.replicate 8 0x90 ++
  (sampleHeader.prelude ++ sampleBody ++ smallProgram) ++ [47, 0]

theorem smallImage_wellFormed : Elf.Extraction.WellFormed smallImage where
  shentsize := by decide +kernel
  phentsize := by decide +kernel
  shstrndx_lt := by decide +kernel
  names := by decide +kernel

theorem smallImage_hasUnits : HasUnits smallImage [smallUnit] where
  encodes := by
    have hline : sectionContents smallImage .debugLine =
        sampleHeader.prelude ++ sampleBody ++ smallProgram := by decide +kernel
    have hstr : sectionContents smallImage .debugLineStr = [47, 0] := by decide +kernel
    refine ⟨[sampleHeader.prelude ++ sampleBody ++ smallProgram], ?_, ?_⟩
    · rw [hline, List.flatten_singleton]
    · rw [hstr]
      exact .cons smallUnit_encodes .nil
  fits := by decide

/-- The sections of the image, as they are read. -/
def smallData : ProgramData where
  sections :=
    { text := ⟨0x19a, List.replicate 8 0x90, by decide⟩
      debugLine := ⟨0, sampleHeader.prelude ++ sampleBody ++ smallProgram, by decide +kernel⟩
      debugLineStr := sampleLineStr }
  entryPoint := 0x19a

/-- The unit, as it is read. -/
def smallInfo : LineInfo where
  compUnits := [
    { header := parsedHeader sampleHeader [{ path := .debugLineStr 0 }]
        [{ path := .heap [97], md5 := List.replicate 16 7 }]
      table := ⟨[⟨[sampleRow 0x19e 1 2, { sampleRow 0x19e 1 2 with endSequence := true }]⟩, ⟨[]⟩]⟩ }]

/-- The state that the loop begins with. -/
def smallStart : MainState where
  world := ⟨initDebugSession smallData smallInfo, none⟩
  model := initialModel { lineCount := 1, lines := [some [47, 47, 97]] }

/-- The file of the unit has two lines. -/
def smallMachine : Machine where
  host := Host.zeroed true
  zydis := Phases.sampleMachine.zydis
  files := fun _ => some [97, 10, 98, 10]

theorem start_smallImage :
    start smallMachine.host "a.out" (some smallImage) = .ok smallStart := by
  have helf : parseElfFile "a.out" (some smallImage) = .ok smallData := by decide +kernel
  have hline : (parseDebugLineSection smallMachine.host smallData.sections).map Prod.fst =
      .ok smallInfo := by decide +kernel
  obtain ⟨⟨_, r⟩, hline, rfl⟩ := except_map_ok hline
  have hopen : openDebugSession smallMachine.host "a.out" (some smallImage) =
      .ok (initDebugSession smallData smallInfo) := by
    rw [openDebugSession, except_bind_of_ok (mapError_of_ok helf),
      except_bind_of_ok (mapError_of_ok hline)]
    rfl
  have hpicker : getFilePickerBuffer (initDebugSession smallData smallInfo) =
      .ok { lineCount := 1, lines := [some [47, 47, 97]] } := rfl
  rw [start, except_bind_of_ok hopen, except_bind_of_ok (mapError_of_ok hpicker)]
  rfl

/-- The unit is confirmed, line 2 is selected, and its breakpoint is set. -/
theorem run_lines_sample : ∃ s₀ logs s,
    start smallMachine.host "a.out" (some smallImage) = .ok s₀ ∧
      Run (Loop.Step smallMachine) s₀ logs s ∧
      ∃ sb ∈ s.world.session.srcBreakpoints, sb.lineNum = 2 ∧
        stmtAddress [smallUnit] sb.compUnitIndex sb.lineNum = some sb.address := by
  have r : Run (Loop.Step smallMachine) smallStart _ _ :=
    .step (.turn (Phases.key 10) nofun rfl) (.step (.turn {} nofun rfl)
      (.step (.turn {} nofun rfl) (.step (.turn {} nofun rfl)
        (.step (.turn {} nofun rfl) (.step (.turn (Phases.key 106) nofun rfl)
          (.step (.turn {} nofun rfl) (.step (.turn (Phases.key 32) nofun rfl)
            (.single (.turn {} nofun rfl)))))))))
  have hlines := run_lines smallMachine smallImage_wellFormed smallImage_hasUnits start_smallImage r
  exact ⟨_, _, _, start_smallImage, r, _, List.mem_cons_self, rfl, hlines.1 _ List.mem_cons_self⟩

end Dabugger.Main.Startup
