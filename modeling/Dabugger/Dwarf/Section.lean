import Dabugger.Dwarf.Refinement

/-! # Sections are parsed unit by unit

`UnitValue` is a header and a program, with their encodings and truthful lengths. The body of the
loop over the units takes exactly the encoding of one unit, whatever follows it, so the units of a
section are parsed as each would be alone. -/

namespace Dabugger.Dwarf.Section

open Dabugger.Lib.Exact Dabugger.Lib.Loop Dabugger.Base Dabugger.Base.BinaryReader
open Dabugger.Dwarf.Types Dabugger.Dwarf.Header Dabugger.Dwarf.HeaderEncoding
open Dabugger.Dwarf.HeaderRoundTrip Dabugger.Dwarf.Program Dabugger.Dwarf.Refinement
open Dabugger.LineProgram.Machine

/-- A unit of `.debug_line`. -/
structure UnitValue where
  header : HeaderValue
  program : List Instruction

/-- `header_length` and `unit_length` say how long the header and the unit are. -/
structure Truthful (h : HeaderValue) (body program : List UInt8) : Prop where
  headerLength : h.headerLength.toNat = body.length
  unitLength : h.unitLength.toNat =
    2 + 1 + 1 + offsetSize h.isDwarf64 + body.length + program.length

/-- **The encodings of a unit.** -/
def UnitValue.Encodes (debugLineStr : List UInt8) (u : UnitValue) (bs : List UInt8) : Prop :=
  ∃ body program, u.header.WellFormed ∧ 1 ≤ u.header.lineRange.toNat ∧
    1 ≤ u.header.maximumOperationsPerInstruction.toNat ∧
    u.header.EncodesBody debugLineStr body ∧
    Tiles (LineProgram.Encoding.Encodes u.header.opcodeBase.toNat) u.program program ∧
    Truthful u.header body program ∧ bs = u.header.prelude ++ body ++ program

section
variable {h : HeaderValue} {debugLineStr : List UInt8} {header : LineNumProgHeader}

theorem steppable_of_decodes (hd : h.Decodes debugLineStr header) (hw : h.WellFormed)
    (hl : 1 ≤ h.lineRange.toNat) (hm : 1 ≤ h.maximumOperationsPerInstruction.toNat) :
    Steppable header where
  opcodeBase_pos := hd.opcodeBase ▸ hw.opcodeBase_pos
  lineRange_pos := hd.lineRange ▸ hl
  maximumOperations_pos := hd.maximumOperationsPerInstruction ▸ hm

theorem programLength_of_decodes {body program : List UInt8} (hd : h.Decodes debugLineStr header)
    (ht : Truthful h body program) : ProgramLength header program.length := by
  unfold ProgramLength
  rw [hd.unitLength, hd.isDwarf64, hd.headerLength, ht.unitLength, ht.headerLength]
  rfl

end

/-- The unit parser takes the encoding, and makes this unit of it. -/
def ReadsUnit (host : Host) (compUnit : LineInfoCompUnit) (bs : List UInt8) : Prop :=
  bs ≠ [] ∧ ∀ compUnits,
    Reads ofBytes (parseCompUnit host compUnits) bs (.next (compUnits ++ [compUnit]))

/-- **The unit parser takes exactly the encoding of a unit.** -/
theorem reads_parseCompUnit (host : Host) {debugLineStr : List UInt8} {u : UnitValue}
    {bs : List UInt8} (he : u.Encodes debugLineStr bs) :
    ∃ compUnit, ReadsUnit host compUnit bs ∧ u.header.Decodes debugLineStr compUnit.header := by
  obtain ⟨body, program, hw, hl, hm, hbody, hprog, ht, rfl⟩ := he
  obtain ⟨header, hr, hd⟩ := reads_parseLineHeader host (h := u.header) ⟨hw, body, hbody, rfl⟩
  obtain ⟨table, hrt, -⟩ := reads_decodeLineNumProg host
    (steppable_of_decodes hd hw hl hm) (hd.opcodeBase.symm ▸ hprog) (programLength_of_decodes hd ht)
  refine ⟨⟨header, table⟩, ⟨?_, fun compUnits => ?_⟩, hd⟩
  · have : u.header.prelude ≠ [] := by
      intro h0
      have := congrArg List.length h0
      simp [HeaderValue.prelude] at this
    simp [this]
  · exact hr.bind (hrt.bind_pure (.pure _))

/-- A section made of readable units is parsed into these units, to its end. -/
theorem parse_of_readsUnit {host : Host} {sections : ProgramSections}
    {compUnits : List LineInfoCompUnit}
    (t : Tiles (ReadsUnit host) compUnits sections.debugLine.data) :
    parseDebugLineSection host sections = .ok (⟨compUnits⟩, ofBytes []) := by
  have hbody : ∀ done compUnit todo b, done ++ compUnit :: todo = compUnits →
      ReadsUnit host compUnit b → ∃ done', Reads ofBytes (parseCompUnit host done) b (.next done') ∧
        done' ++ todo = compUnits := fun done compUnit todo b hI h =>
    ⟨done ++ [compUnit], h.2 done, by simpa using hI⟩
  obtain ⟨done, hdone, hloop⟩ := whileLoop_tiles
    (I := fun done todo => done ++ todo = compUnits) (fun _ _ h => h.1) hbody t
    (List.nil_append compUnits)
  rw [List.append_nil] at hdone
  subst hdone
  have hcond : ∀ a cs, cs <:+ sections.debugLine.data →
      sectionCond a (ofBytes (cs ++ [])) = !cs.isEmpty := by
    intro a cs _
    cases cs <;> simp [sectionCond]
  have hw := hloop sectionCond [] sections.debugLine.size hcond (t.length_le fun _ _ h => h.1)
  rw [List.append_nil] at hw
  rw [parseDebugLineSection_of_some hw]
  rfl

/-- **Section parsing is compositional.** The concatenation of well-formed units is parsed to its
end, into the units that parsing each of them alone produces. -/
theorem parseDebugLineSection_units (host : Host) {sections : ProgramSections}
    {units : List UnitValue} {chunks : List (List UInt8)}
    (he : List.Forall₂ (UnitValue.Encodes sections.debugLineStr.data) units chunks)
    (hdata : sections.debugLine.data = chunks.flatten) :
    ∃ compUnits, parseDebugLineSection host sections = .ok (⟨compUnits⟩, ofBytes []) ∧
      List.Forall₂ (fun u compUnit =>
        u.header.Decodes sections.debugLineStr.data compUnit.header) units compUnits ∧
      List.Forall₂ (fun chunk compUnit => ∀ alone : ProgramSections,
        alone.debugLine.data = chunk →
          parseDebugLineSection host alone = .ok (⟨[compUnit]⟩, ofBytes [])) chunks compUnits := by
  have hread : ∃ compUnits, List.Forall₂ (ReadsUnit host) compUnits chunks ∧
      List.Forall₂ (fun u compUnit =>
        u.header.Decodes sections.debugLineStr.data compUnit.header) units compUnits := by
    clear hdata
    induction he with
    | nil => exact ⟨[], .nil, .nil⟩
    | cons h _ ih =>
      obtain ⟨compUnit, h1, h2⟩ := reads_parseCompUnit host h
      obtain ⟨compUnits, hs1, hs2⟩ := ih
      exact ⟨compUnit :: compUnits, .cons h1 hs1, .cons h2 hs2⟩
  obtain ⟨compUnits, hs, hd⟩ := hread
  refine ⟨compUnits, parse_of_readsUnit (hdata ▸ tiles_flatten hs), hd, ?_⟩
  refine hs.flip.imp fun chunk compUnit h alone halone => ?_
  refine parse_of_readsUnit ?_
  rw [halone]
  exact .single h

theorem sampleUnit_encodes : UnitValue.Encodes [47, 0] ⟨sampleHeader, sampleProgram⟩
    (sampleHeader.prelude ++ sampleBody ++ sampleProgramBytes) :=
  ⟨sampleBody, sampleProgramBytes, sampleHeader_wellFormed, by decide, by decide,
    sampleHeader_encodesBody, sampleProgram_encodes, ⟨by decide, by decide⟩, rfl⟩

/-- The `.debug_line_str` of the samples, with the string `/`. -/
def sampleLineStr : SectionBuffer := ⟨0, [47, 0], by decide⟩

/-- A section of two units. -/
def sampleSections : ProgramSections where
  debugLine := ⟨0, [sampleHeader.prelude ++ sampleBody ++ sampleProgramBytes,
    sampleHeader.prelude ++ sampleBody ++ sampleProgramBytes].flatten, by decide +kernel⟩
  debugLineStr := sampleLineStr

theorem parseDebugLineSection_units_sample :
    ∃ compUnits, parseDebugLineSection (.zeroed true) sampleSections =
        .ok (⟨compUnits⟩, ofBytes []) ∧
      List.Forall₂ (fun (u : UnitValue) compUnit => u.header.Decodes [47, 0] compUnit.header)
        [⟨sampleHeader, sampleProgram⟩, ⟨sampleHeader, sampleProgram⟩] compUnits ∧
      List.Forall₂ (fun chunk compUnit => ∀ alone : ProgramSections,
        alone.debugLine.data = chunk →
          parseDebugLineSection (.zeroed true) alone = .ok (⟨[compUnit]⟩, ofBytes []))
        [sampleHeader.prelude ++ sampleBody ++ sampleProgramBytes,
          sampleHeader.prelude ++ sampleBody ++ sampleProgramBytes] compUnits :=
  have he : List.Forall₂ (UnitValue.Encodes sampleSections.debugLineStr.data) _ _ :=
    .cons sampleUnit_encodes (.cons sampleUnit_encodes .nil)
  parseDebugLineSection_units _ he rfl

end Dabugger.Dwarf.Section
