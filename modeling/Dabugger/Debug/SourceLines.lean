import Dabugger.Debug.Store

/-! # Source lines and the file that is shown

`get_source_buffer` shows file 0 of a unit. `get_instructions_for_line` goes by the line register
alone, so it also returns the rows that other files have for a line of this number.
`matchesShownFile_iff` says when it returns none of these. -/

namespace Dabugger.Debug.SourceLines

open Dabugger.Base Dabugger.Dwarf.Types Dabugger.Debug.Session
  Dabugger.Debug.Store

/-- The file register of a row resolves to the path of file 0. -/
def ofShownFile (session : DebugSession) (compUnit : LineInfoCompUnit) (row : LineInfoEntry) :
    Bool :=
  let path := getFilePath session.programData.sections.debugLineStr.data compUnit.header
  match path row.file.toNat, path 0 with
  | .ok (some rowPath), .ok (some shownPath) => rowPath = shownPath
  | _, _ => false

/-- A line number of a unit matches rows of the shown file only, and a source breakpoint is placed
on code of such a row. -/
structure MatchesShownFile (host : Host) (session : DebugSession) (compUnitIndex lineNum : ℕ)
    (compUnit : LineInfoCompUnit) : Prop where
  entries : ∀ rows, getInstructionsForLine host session compUnitIndex lineNum = .ok rows →
    ∀ entry ∈ rows, ofShownFile session compUnit entry
  placed : ∀ session', setSourceBreakpoint host session compUnitIndex lineNum =
      .ok (session', true) →
    ∃ row ∈ lineRows compUnit lineNum, ofShownFile session compUnit row ∧
      session'.srcBreakpoints = session.srcBreakpoints ++ [⟨row.address, compUnitIndex, lineNum⟩]

theorem mem_lineRows_of_firstStmtRow {session : DebugSession} {compUnitIndex lineNum : ℕ}
    {compUnit : LineInfoCompUnit} {row : LineInfoEntry}
    (hu : session.lineInfo.compUnits[compUnitIndex]? = some compUnit)
    (h : firstStmtRow session compUnitIndex lineNum = some row) :
    row ∈ lineRows compUnit lineNum := by
  rw [firstStmtRow, hu, Option.bind_some] at h
  have hmem := List.mem_of_find?_eq_some h
  have hprop := List.find?_some h
  simp only [Bool.and_eq_true, Bool.not_eq_eq_eq_not, Bool.not_true, decide_eq_true_eq] at hprop
  exact mem_lineRows.mpr ⟨hmem, hprop.1⟩

/-- **Lines of the shown file.** A line number matches the shown file only exactly if no row of the
unit at this line is of another file. -/
theorem matchesShownFile_iff (host : Host) {session : DebugSession} {compUnitIndex lineNum : ℕ}
    {compUnit : LineInfoCompUnit} (hn : 1 ≤ lineNum)
    (hu : session.lineInfo.compUnits[compUnitIndex]? = some compUnit) :
    MatchesShownFile host session compUnitIndex lineNum compUnit ↔
      ∀ row ∈ compUnit.table.rows, row.line.toNat = lineNum → row.endSequence = false →
        ofShownFile session compUnit row := by
  have heq := getInstructionsForLine_eq host (Nat.one_le_iff_ne_zero.mp hn) hu
  constructor
  · intro h row hrow hline hend
    exact h.entries _ heq row (mem_lineRows.mpr ⟨hrow, hend, hline⟩)
  · intro h
    have hrows : ∀ row ∈ lineRows compUnit lineNum, ofShownFile session compUnit row := by
      intro row hrow
      obtain ⟨hmem, hend, hline⟩ := mem_lineRows.mp hrow
      exact h row hmem hline hend
    refine ⟨fun rows hr => ?_, fun session' hset => ?_⟩
    · rw [heq] at hr
      cases hr
      exact hrows
    · rcases setSourceBreakpoint_ok hset with ⟨⟨⟩, -⟩ | ⟨-, -, row, _, hrow, -, -, rfl⟩
      have hmem := mem_lineRows_of_firstStmtRow hu hrow
      exact ⟨row, hmem, hrows row hmem, rfl⟩

/-- A unit whose rows are of `a.c` at the line. -/
theorem matchesShownFile_iff_sample :
    MatchesShownFile (Host.zeroed true)
      (sampleSession [sampleRow 0x1000 0 7, sampleRow 0x1004 1 8]) 0 7
      ⟨sampleFiles, ⟨[⟨[sampleRow 0x1000 0 7, sampleRow 0x1004 1 8]⟩]⟩⟩ :=
  (matchesShownFile_iff _ (by decide) rfl).mpr (by decide)

/-- Line 7 of `b.h` is taken for line 7 of `a.c`, and gets the breakpoint. -/
theorem not_matchesShownFile_header :
    ¬ MatchesShownFile (Host.zeroed true) (sampleSession [sampleRow 0x1000 1 7]) 0 7
      ⟨sampleFiles, ⟨[⟨[sampleRow 0x1000 1 7]⟩]⟩⟩ := by
  intro h
  obtain ⟨row, hrow, hshown, -⟩ := h.placed { sampleSession [sampleRow 0x1000 1 7] with
    breakpoints := [⟨0x1000, 0x90⟩], srcBreakpoints := [⟨0x1000, 0, 7⟩] } rfl
  obtain ⟨hmem, -⟩ := mem_lineRows.mp hrow
  obtain rfl : row = sampleRow 0x1000 1 7 := by simpa [LineInfoTable.rows] using hmem
  exact absurd hshown (by decide)

end Dabugger.Debug.SourceLines
