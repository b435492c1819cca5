import Dabugger.Debug.Store
import Dabugger.Dwarf.Section

/-! # The order of the rows of a line

The rows that `get_instructions_for_line` returns are to be in the order of their addresses, and
`set_source_breakpoint` takes the first statement among them. They are collected sequence after
sequence, and the sequences are in the order of the line number program, which need not be that of
their addresses. `orderedByAddress_iff` says when the rows of a line are in order. -/

namespace Dabugger.Debug.LineOrder

open Dabugger.Base Dabugger.Base.BinaryReader Dabugger.Dwarf.Types Dabugger.Dwarf.Program
open Dabugger.Debug.Session Dabugger.Debug.Store

/-- The entries of every sequence of the unit are in the order of their addresses. -/
def SortedSequences (compUnit : LineInfoCompUnit) : Prop :=
  ∀ sequence ∈ compUnit.table.sequences, sequence.entries.Pairwise (·.address ≤ ·.address)

/-- **The rows of a line are in the order of their addresses**, and the first statement is the lowest
one. -/
structure OrderedByAddress (host : Host) (session : DebugSession) (compUnitIndex lineNum : ℕ) :
    Prop where
  sorted : ∀ rows, getInstructionsForLine host session compUnitIndex lineNum = .ok rows →
    rows.Pairwise (·.address ≤ ·.address)
  first : ∀ rows, getInstructionsForLine host session compUnitIndex lineNum = .ok rows →
    ∀ first, rows.find? (·.isStmt) = some first →
      ∀ row ∈ rows, row.isStmt = true → first.address ≤ row.address

/-- The rows of the line in one sequence are not above those in the other. -/
def LineBefore (lineNum : ℕ) (sequence sequence' : LineInfoSequence) : Prop :=
  ∀ row ∈ sequence.entries, ∀ row' ∈ sequence'.entries,
    row.endSequence = false → row.line.toNat = lineNum →
    row'.endSequence = false → row'.line.toNat = lineNum → row.address ≤ row'.address

theorem sorted_lineRows_iff {compUnit : LineInfoCompUnit} (h : SortedSequences compUnit)
    (lineNum : ℕ) : (lineRows compUnit lineNum).Pairwise (·.address ≤ ·.address) ↔
      compUnit.table.sequences.Pairwise (LineBefore lineNum) := by
  have hwithin : ∀ sequence ∈ compUnit.table.sequences, (sequence.entries.filter fun row =>
      !row.endSequence && decide (row.line.toNat = lineNum)).Pairwise (·.address ≤ ·.address) :=
    fun sequence hs => (h sequence hs).filter _
  rw [lineRows, LineInfoTable.rows, List.filter_flatMap, List.pairwise_flatMap,
    and_iff_right hwithin]
  refine List.Pairwise.iff fun sequence sequence' => ?_
  constructor
  · intro hle row hrow row' hrow' hend hline hend' hline'
    refine hle row (List.mem_filter.mpr ⟨hrow, ?_⟩) row' (List.mem_filter.mpr ⟨hrow', ?_⟩)
    · simp [hend, hline]
    · simp [hend', hline']
  · intro hle row hrow row' hrow'
    obtain ⟨hrow, hprop⟩ := List.mem_filter.mp hrow
    obtain ⟨hrow', hprop'⟩ := List.mem_filter.mp hrow'
    simp only [Bool.and_eq_true, Bool.not_eq_eq_eq_not, Bool.not_true, decide_eq_true_eq]
      at hprop hprop'
    exact hle row hrow row' hrow' hprop.1 hprop.2 hprop'.1 hprop'.2

/-- The first of a list that is in order is the lowest. -/
theorem find?_le {rows : List LineInfoEntry} (h : rows.Pairwise (·.address ≤ ·.address))
    {p : LineInfoEntry → Bool} {first : LineInfoEntry} (hfirst : rows.find? p = some first)
    {row : LineInfoEntry} (hrow : row ∈ rows) (hp : p row = true) : first.address ≤ row.address := by
  obtain ⟨-, before, behind, rfl, hbefore⟩ := List.find?_eq_some_iff_append.mp hfirst
  rcases List.mem_append.mp hrow with hrow | hrow
  · have hnot := hbefore row hrow
    rw [hp] at hnot
    cases hnot
  · rcases List.mem_cons.mp hrow with rfl | hrow
    · exact UInt64.le_refl _
    · exact List.rel_of_pairwise_cons (List.pairwise_append.mp h).2.1 hrow

/-- **The order of the rows of a line.** They are in the order of their addresses exactly if, of any two
sequences of the unit, the rows of the line in the first are not above those in the second. -/
theorem orderedByAddress_iff (host : Host) {session : DebugSession} {compUnitIndex lineNum : ℕ}
    {compUnit : LineInfoCompUnit} (hn : 1 ≤ lineNum)
    (hu : session.lineInfo.compUnits[compUnitIndex]? = some compUnit)
    (hsorted : SortedSequences compUnit) :
    OrderedByAddress host session compUnitIndex lineNum ↔
      compUnit.table.sequences.Pairwise (LineBefore lineNum) := by
  have hrows := getInstructionsForLine_eq host (Nat.one_le_iff_ne_zero.mp hn) hu
  rw [← sorted_lineRows_iff hsorted]
  constructor
  · exact fun h => h.sorted _ hrows
  · intro h
    constructor
    · intro rows heq
      rw [hrows] at heq
      cases heq
      exact h
    · intro rows heq first hfirst row hrow hstmt
      rw [hrows] at heq
      cases heq
      exact find?_le h hfirst hrow hstmt

/-- Two rows of a line in one sequence. -/
theorem orderedByAddress_iff_sample : OrderedByAddress (.zeroed true)
    (sampleSession [sampleRow 0x1000 0 7, sampleRow 0x1004 0 7]) 0 7 := by
  refine (orderedByAddress_iff _ (by decide) rfl ?_).mpr (List.pairwise_singleton _ _)
  intro sequence hs
  rw [List.mem_singleton.mp hs]
  exact .cons (by simp [sampleRow]) (List.pairwise_singleton _ _)

/-! ### Two functions in the other order -/

/-- A sequence at `0x2000` and one at `0x1000`, each with a row for line 1. -/
def descendingProgram : List UInt8 :=
  [0, 3, 2, 0, 0x20, 1, 0, 1, 1] ++ [0, 3, 2, 0, 0x10, 1, 0, 1, 1]

/-- A unit with this program, and no directories and files. -/
def descendingSections : ProgramSections where
  debugLine := ⟨0, [48, 0, 0, 0, 5, 0, 8, 0, 22, 0, 0, 0] ++
    ([1, 1, 1, 0xfb, 14, 13, 0, 1, 1, 1, 1, 0, 0, 0, 1, 0, 0, 1, 0, 0, 0, 0] ++ descendingProgram),
    by decide +kernel⟩

/-- What it is parsed to. -/
def descendingInfo : LineInfo where
  compUnits := [{
    header := { sampleFiles with
      unitLength := 48
      headerLength := 22
      directoryEntryFormatCount := 0
      directoryEntryFormat := []
      directoriesCount := 0
      directories := []
      fileNameEntryFormatCount := 0
      fileNameEntryFormat := []
      fileNamesCount := 0
      fileNames := [] }
    table := { sequences := [
      { entries := [sampleRow 0x2000 1 1, { sampleRow 0x2000 1 1 with endSequence := true }] },
      { entries := [sampleRow 0x1000 1 1, { sampleRow 0x1000 1 1 with endSequence := true }] },
      { entries := [] }] } }]

/-- The rows of line 1 descend. -/
theorem not_orderedByAddress_descending : ¬ ∀ (host : Host) (sections : ProgramSections)
    (session : DebugSession) (r : BinaryReader),
      parseDebugLineSection host sections = .ok (session.lineInfo, r) →
      ∀ compUnitIndex compUnit, session.lineInfo.compUnits[compUnitIndex]? = some compUnit →
        SortedSequences compUnit → ∀ lineNum, 1 ≤ lineNum →
          OrderedByAddress host session compUnitIndex lineNum := by
  intro h
  have hparse : parseDebugLineSection (.zeroed true) descendingSections =
      .ok (descendingInfo, ofBytes []) := by decide +kernel
  have hsorted : ∀ compUnit, descendingInfo.compUnits[0]? = some compUnit →
      SortedSequences compUnit := by
    intro compUnit hu
    cases hu
    intro sequence hs
    rcases List.mem_cons.mp hs with rfl | hs
    · exact .cons (by simp [sampleRow]) (List.pairwise_singleton _ _)
    rcases List.mem_cons.mp hs with rfl | hs
    · exact .cons (by simp [sampleRow]) (List.pairwise_singleton _ _)
    · rw [List.mem_singleton.mp hs]
      exact .nil
  have hordered := h (.zeroed true) descendingSections
    (initDebugSession { sections := descendingSections } descendingInfo) _ hparse 0 _ rfl
    (hsorted _ rfl) 1 (Nat.le_refl 1)
  have hrows := hordered.sorted _ rfl
  exact absurd (List.rel_of_pairwise_cons hrows (List.mem_cons_self ..)) (by decide)

end Dabugger.Debug.LineOrder
