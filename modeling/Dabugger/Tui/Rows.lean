import Dabugger.Debug.Store
import Dabugger.Tui.Panes

/-! # The rows of a pane

What a view writes in a pane, row by row, and nothing besides: the two markers of the gutter, and the
line with its attributes (`Displays`). The markers of the source are those of the source breakpoints of
its unit, the markers of the assembly those of the breakpoints (`displays_source`,
`displays_assembly`). -/

namespace Dabugger.Tui.Rows

open Dabugger.Lib.Log Dabugger.Base Dabugger.Dwarf.Types Dabugger.Debug.Session
  Dabugger.Debug.Store Dabugger.Debug.Buffers Dabugger.Tui.Types Dabugger.Tui.Update
  Dabugger.Tui.View Dabugger.Tui.Drawn Dabugger.Tui.Panes

/-- A row of a pane on the screen. -/
structure ShownRow where
  y : Int32
  isBreakpoint : Bool
  isCurrentInstruction : Bool
  attrs : Attr
  text : List UInt8
  deriving DecidableEq

/-- What is written for it: the markers, with the attributes of the number of the line, and the line. -/
def ShownRow.items (row : ShownRow) : List (Int32 × Attr × Item) :=
  let numAttrs := if row.isBreakpoint then breakpointAttrs else row.attrs
  [(row.y, numAttrs, .marker (if row.isBreakpoint then breakpointGutterMarker else ' ')),
    (row.y, numAttrs,
      .marker (if row.isCurrentInstruction then ipGutterMarker else verticalLineChar)),
    (row.y, row.attrs, .line row.text)]

/-- **The rows of a pane** after these calls: of all markers and lines they write these, in this order. -/
def Displays (win : TuiWindow) (calls : List Call) (rows : List ShownRow) : Prop :=
  shown win {} calls = rows.flatMap ShownRow.items

theorem displays_of_rows {win : TuiWindow} {calls : List Call} {is : List UInt64}
    {row : UInt64 → Row} {shownRow : UInt64 → ShownRow}
    (h : shown win {} calls = is.flatMap fun i => rowItems i (row i))
    (hrows : ∀ i, rowItems i (row i) = (shownRow i).items) :
    Displays win calls (is.map shownRow) := by
  rw [Displays, h, List.flatMap_map]
  exact List.flatMap_congr fun i _ => hrows i

theorem Displays.congr {win : TuiWindow} {calls : List Call} {is : List UInt64}
    {shownRow shownRow' : UInt64 → ShownRow} (h : Displays win calls (is.map shownRow))
    (hrows : ∀ i, shownRow i = shownRow' i) : Displays win calls (is.map shownRow') :=
  funext hrows ▸ h

/-! ### Markers -/

/-- The instruction pointer is at the first statement of a line. -/
def AtLine (session : DebugSession) (compUnitIndex lineNum : ℕ) : Prop :=
  (firstStmtRow session compUnitIndex lineNum).map LineInfoEntry.address =
    some (getInstructionPointerVma session)

instance (session : DebugSession) (compUnitIndex lineNum : ℕ) :
    Decidable (AtLine session compUnitIndex lineNum) :=
  inferInstanceAs (Decidable (_ = _))

section
variable {session : DebugSession} {model : TuiModel} {windows windows' : Windows}
  {terminal : Terminal} {isprint : UInt8 → Bool}

/-- The address of a source breakpoint is that of its line. -/
theorem firstStmtRow_of_listed (hi : StoreInv session) {sb : SourceBreakpoint}
    {compUnitIndex lineNum : ℕ} (hsb : sb ∈ session.srcBreakpoints)
    (hkey : lineKey sb = (compUnitIndex, lineNum)) :
    (firstStmtRow session compUnitIndex lineNum).map LineInfoEntry.address = some sb.address := by
  obtain ⟨rfl, rfl⟩ := Prod.mk.inj hkey
  exact hi.src_row sb hsb

/-- The markers of a line of the source. -/
theorem sourceRow_markers (hi : StoreInv session) (model : TuiModel) (cols : UInt32) (n : UInt64)
    (line : List UInt8) :
    let row := sourceRow session model cols n line
    row.isBreakpoint =
        decide (LineListed session model.selectedCompUnitIndex.toNat (n + 1).toNat) ∧
      row.isCurrentInstruction =
        decide (LineListed session model.selectedCompUnitIndex.toNat (n + 1).toNat ∧
          AtLine session model.selectedCompUnitIndex.toNat (n + 1).toNat) := by
  by_cases hlisted : LineListed session model.selectedCompUnitIndex.toNat (n + 1).toNat
  · obtain ⟨sb, hsb, hkey⟩ := hlisted
    have hfind := hi.lines.find?_eq_some hsb
    have hrow := firstStmtRow_of_listed hi hsb hkey
    have hfind' : session.srcBreakpoints.find? (fun srcBreakpoint =>
        decide (srcBreakpoint.compUnitIndex = model.selectedCompUnitIndex.toNat ∧
          srcBreakpoint.lineNum = (n + 1).toNat)) = some sb := by
      rw [← hfind]
      congr 1
      funext sb'
      rw [hkey, lineKey, decide_eq_decide, Prod.mk.injEq]
    have hlisted : LineListed session model.selectedCompUnitIndex.toNat (n + 1).toNat :=
      ⟨sb, hsb, hkey⟩
    unfold sourceRow
    dsimp only
    rw [hfind']
    refine ⟨(decide_eq_true hlisted).symm, ?_⟩
    rw [Option.any_some, decide_eq_decide, AtLine, hrow, Option.some.injEq]
    exact (and_iff_right hlisted).symm
  · have hfind : session.srcBreakpoints.find? (fun srcBreakpoint =>
        decide (srcBreakpoint.compUnitIndex = model.selectedCompUnitIndex.toNat ∧
          srcBreakpoint.lineNum = (n + 1).toNat)) = none := by
      refine List.find?_eq_none.mpr fun sb hsb hkey => hlisted ⟨sb, hsb, ?_⟩
      obtain ⟨hcu, hline⟩ := of_decide_eq_true hkey
      rw [lineKey, hcu, hline]
    unfold sourceRow
    dsimp only
    rw [hfind]
    exact ⟨(decide_eq_false hlisted).symm, (decide_eq_false fun h => hlisted h.1).symm⟩

/-- The number of a line with a breakpoint has attributes of its own. -/
theorem sourceRow_lineNumAttrs (session : DebugSession) (model : TuiModel) (cols : UInt32)
    (n : UInt64) (line : List UInt8) :
    let row := sourceRow session model cols n line
    row.lineNumAttrs = if row.isBreakpoint then breakpointAttrs else row.lineAttrs := rfl

/-- The attributes of a line of the source. -/
def sourceAttrs (model : TuiModel) (n : UInt64) : Attr :=
  if n = model.source.selectedLine then selectedAttrs model .source else {}

/-- A tab is shown as a blank. -/
def untabbed (line : List UInt8) : List UInt8 := line.map fun c => if c = 9 then 32 else c

/-- What is shown of a line of the source. -/
def sourceShown (session : DebugSession) (model : TuiModel) (terminal : Terminal)
    (text : UInt64 → List UInt8) (i : UInt64) : ShownRow :=
  let n := model.source.linePos + i
  let compUnitIndex := model.selectedCompUnitIndex.toNat
  { y := screenRow i
    isBreakpoint := decide (LineListed session compUnitIndex (n + 1).toNat)
    isCurrentInstruction := decide (LineListed session compUnitIndex (n + 1).toNat ∧
      AtLine session compUnitIndex (n + 1).toNat)
    attrs := sourceAttrs model n
    text := 32 :: truncated (terminal.cols / 2 - 8) (untabbed (text n)) }

/-- **The rows of the source.** -/
theorem displays_source (hi : StoreInv session) (hv : Viewable model) (hbig : ¬ TooSmall terminal)
    (h : (viewTui isprint terminal session model windows).result = .ok windows') :
    Displays .source (viewTui isprint terminal session model windows).log
      ((inView (paneRows (placed terminal) .source) model.source.toTuiBuffer).map
        (sourceShown session model terminal (sourceText model))) := by
  refine displays_of_rows (viewTui_shown hv hbig h).2.1 fun i => ?_
  obtain ⟨hbreakpoint, hinstruction⟩ := sourceRow_markers hi model
    (getmaxx (placed terminal) .source - 8) (model.source.linePos + i)
    (sourceText model (model.source.linePos + i))
  rw [rowItems, sourcePaneRow, hinstruction, sourceRow_lineNumAttrs, hbreakpoint]
  rfl

/-- The attributes of an instruction of the assembly. -/
def assemblyAttrs (model : TuiModel) (n : UInt64) : Attr :=
  if n = model.assembly.selectedLine then selectedAttrs model .assembly
  else
    match model.selectedLineInstructions.bind fun instructions =>
      instructions.find? (·.address = assemblyAddress model n) with
    | some lineEntry => { underline := lineEntry.isStmt, colorPair := secondaryColor }
    | none => {}

/-- What is shown of an instruction of the assembly. -/
def assemblyShown (session : DebugSession) (model : TuiModel) (terminal : Terminal) (i : UInt64) :
    ShownRow :=
  let n := model.assembly.linePos + i
  { y := screenRow i
    isBreakpoint := decide (∃ bp ∈ session.breakpoints, bp.address = assemblyAddress model n)
    isCurrentInstruction := decide (getInstructionPointerVma session = assemblyAddress model n)
    attrs := assemblyAttrs model n
    text := 32 :: truncated (terminal.cols / 2 - 12) (assemblyText model n) }

/-- **The rows of the assembly.** -/
theorem displays_assembly (hv : Viewable model) (hbig : ¬ TooSmall terminal)
    (h : (viewTui isprint terminal session model windows).result = .ok windows') :
    Displays .assembly (viewTui isprint terminal session model windows).log
      ((inView (paneRows (placed terminal) .assembly) model.assembly.toTuiBuffer).map
        (assemblyShown session model terminal)) := by
  refine displays_of_rows (viewTui_shown hv hbig h).2.2 fun i => ?_
  have hbreakpoint : (session.breakpoints.any fun bp =>
      decide (bp.address = assemblyAddress model (model.assembly.linePos + i))) =
      decide (∃ bp ∈ session.breakpoints,
        bp.address = assemblyAddress model (model.assembly.linePos + i)) := by
    rw [Bool.eq_iff_iff]
    simp
  rw [ShownRow.items, assemblyShown, ← hbreakpoint]
  rfl

end

end Dabugger.Tui.Rows
