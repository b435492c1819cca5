import Dabugger.Lib.Scanf
import Dabugger.Tui.OutputPane
import Dabugger.Tui.Update

/-! # `view_tui`

The screen is drawn from the model and the session: the curses calls of `view_tui` and of the functions
for its panes are logged, with the texts that `printf` makes. Curses is ideal as far as its windows go:
a window has the size that it was given last.

`viewLines` is the loop that the source and the assembly share; what they draw for a line is a `Row`. -/

namespace Dabugger.Tui.View

open Dabugger.Lib.Log Dabugger.Lib.Scanf Dabugger.Base Dabugger.Dwarf.Types Dabugger.Debug.Session
  Dabugger.Debug.Buffers Dabugger.Tui.Types Dabugger.Tui.Update Dabugger.Tui.OutputPane

/-! ### Attributes -/

/-- `attr_t`: what is set of `A_STANDOUT`, `A_BOLD` and `A_UNDERLINE`, and a `COLOR_PAIR`. -/
structure Attr where
  standout : Bool := false
  bold : Bool := false
  underline : Bool := false
  colorPair : ℕ := 0
  deriving DecidableEq

/-- `DEFAULT_COLOR`. -/
def defaultColor : ℕ := 0

/-- `ACTIVE_COLOR`. -/
def activeColor : ℕ := 1

/-- `INACTIVE_COLOR`. -/
def inactiveColor : ℕ := 2

/-- `SECONDARY_COLOR`. -/
def secondaryColor : ℕ := 3

/-- `BREAKPOINT_COLOR`. -/
def breakpointColor : ℕ := 4

/-! ### Windows -/

/-- What `getmaxyx` says of `stdscr`; curses keeps sizes in a `short`. -/
structure Terminal where
  rows : UInt32
  cols : UInt32
  rows_lt : rows.toNat < 2 ^ 15
  cols_lt : cols.toNat < 2 ^ 15

/-- The size and the place of a window. -/
structure Geometry where
  rows : UInt32
  cols : UInt32
  y : UInt32
  x : UInt32
  deriving DecidableEq

/-- Where `view_tui` puts a window. -/
def geometry (terminal : Terminal) : TuiWindow → Geometry
  | .source => ⟨2 * terminal.rows / 3, terminal.cols / 2, 0, 0⟩
  | .assembly => ⟨2 * terminal.rows / 3, terminal.cols / 2, 0, terminal.cols / 2⟩
  | .output => ⟨terminal.rows / 3, terminal.cols / 2, 2 * terminal.rows / 3, 0⟩
  | .registers =>
    ⟨terminal.rows / 3, terminal.cols / 2, 2 * terminal.rows / 3, terminal.cols / 2⟩
  | .picker => ⟨terminal.rows / 2, terminal.cols / 2, terminal.rows / 4, terminal.cols / 4⟩

/-- The window variables; none is a null pointer. -/
abbrev Windows := TuiWindow → Option Geometry

/-- No window has been created. -/
def noWindows : Windows := fun _ => none

/-- `getmaxy`; `ERR` for a null pointer. -/
def getmaxy (windows : Windows) (win : TuiWindow) : UInt32 :=
  match windows win with
  | some geometry => geometry.rows
  | none => -1

/-- `getmaxx`. -/
def getmaxx (windows : Windows) (win : TuiWindow) : UInt32 :=
  match windows win with
  | some geometry => geometry.cols
  | none => -1

/-- The title of a window. -/
def title : TuiWindow → String
  | .source => "Source"
  | .assembly => "Assembly"
  | .output => "Output"
  | .registers => "Registers"
  | .picker => "Picker"

/-! ### Calls -/

/-- A call of curses. -/
inductive Call where
  | newwin (win : TuiWindow) (geometry : Geometry)
  | newPanel (win : TuiWindow)
  | intrflush (win : TuiWindow)
  | keypad (win : TuiWindow)
  | werase (win : TuiWindow)
  | mvwin (win : TuiWindow) (y x : UInt32)
  | wresize (win : TuiWindow) (rows cols : UInt32)
  /-- the characters of `ls`, `rs`, `ts`, `bs`, `tl`, `tr`, `bl` and `br` -/
  | wborderSet (win : TuiWindow) (attr : Attr) (chars : List Char)
  | wattron (win : TuiWindow) (attr : Attr)
  | wattroff (win : TuiWindow) (attr : Attr)
  | mvwprintw (win : TuiWindow) (y x : Int32) (text : List UInt8)
  | waddwstr (win : TuiWindow) (char : Char)
  | wprintw (win : TuiWindow) (text : List UInt8)
  /-- `wmove` and `waddch` in `output_win` -/
  | output (op : OutputOp)
  | showPanel
  | hidePanel
  | updatePanels
  | doupdate
  deriving DecidableEq

/-- A computation that draws. -/
abbrev Drawing := Logged Call Fault

/-! ### Texts -/

def asBytes (s : String) : List UInt8 := s.toList.map fun c => UInt8.ofNat c.toNat

/-- A text that is filled up with blanks on its left. -/
def padLeft (width : ℕ) (text : List UInt8) : List UInt8 :=
  List.replicate (width - text.length) 32 ++ text

/-- A text that is filled up with blanks on its right. -/
def padRight (width : ℕ) (text : List UInt8) : List UInt8 :=
  text ++ List.replicate (width - text.length) 32

/-- `%4ld`. -/
def format4ld (n : UInt64) : List UInt8 :=
  let n := n.toInt64.toInt
  padLeft 4 (if n < 0 then 45 :: numberText 10 1 n.natAbs else numberText 10 1 n.toNat)

/-- `%16lx`. -/
def format16lx (n : UInt64) : List UInt8 := padLeft 16 (numberText 16 1 n.toNat)

/-- `%016lx`. -/
def format016lx (n : UInt64) : List UInt8 := numberText 16 16 n.toNat

/-- `%.*s`; a negative precision is none. -/
def truncated (precision : UInt32) (text : List UInt8) : List UInt8 :=
  if precision.toInt32 < 0 then text else text.take precision.toNat

/-- `VERTICAL_LINE_CHAR`. -/
def verticalLineChar : Char := '│'

/-- `HORIZONTAL_LINE_CHAR`. -/
def horizontalLineChar : Char := '─'

/-- `BREAKPOINT_GUTTER_MARKER`. -/
def breakpointGutterMarker : Char := '•'

/-- `IP_GUTTER_MARKER`. -/
def ipGutterMarker : Char := '→'

/-- `set_win_border`, with its rounded corners. -/
def setWinBorder (win : TuiWindow) (attr : Attr) (colorPair : ℕ) : Drawing Unit :=
  emit (.wborderSet win { attr with colorPair }
    [verticalLineChar, verticalLineChar, horizontalLineChar, horizontalLineChar,
      '╭', '╮', '╰', '╯'])

/-- `(int)i + 2`. -/
def screenRow (i : UInt64) : Int32 := i.toUInt32.toInt32 + 2

/-! ### Lines with a gutter -/

/-- What is drawn for a line of the source or of the assembly. -/
structure Row where
  lineAttrs : Attr
  lineNumAttrs : Attr
  lineNum : List UInt8
  isBreakpoint : Bool
  isCurrentInstruction : Bool
  line : List UInt8
  deriving DecidableEq

/-- The calls that draw it. -/
def drawRow (win : TuiWindow) (i : UInt64) (row : Row) : List Call :=
  [.wattron win row.lineNumAttrs,
    .mvwprintw win (screenRow i) 1 row.lineNum,
    .waddwstr win (if row.isBreakpoint then breakpointGutterMarker else ' '),
    .waddwstr win (if row.isCurrentInstruction then ipGutterMarker else verticalLineChar),
    .wattroff win row.lineNumAttrs,
    .wattron win row.lineAttrs,
    .wprintw win (32 :: row.line),
    .wattroff win row.lineAttrs]

/-- The loops of `view_source_buffer` and `view_assembly_buffer`, from index `i` on, with so many
iterations to go. -/
def viewLines (win : TuiWindow) (buffer : TuiBuffer) (viewRow : UInt64 → Except Fault Row) :
    ℕ → UInt64 → Drawing Unit
  | 0, _ => pure ()
  | left + 1, i =>
    let zeroIndexedLineNum := buffer.linePos + i
    if zeroIndexedLineNum ≥ buffer.lineCount then pure ()
    else do
      let row ← viewRow zeroIndexedLineNum
      emitAll (drawRow win i row)
      viewLines win buffer viewRow left (i + 1)

/-- `lines[i]` as a string. -/
def lineAt (lines : List (Option (List UInt8))) (i : UInt64) : Except Fault (List UInt8) :=
  match lines[i.toNat]? with
  | some (some line) => .ok line
  | _ => .error .outOfBounds

/-- The pointer `buffer`, where it is followed. -/
def bufferAt {α : Type} (buffer : Option α) : Except Fault α :=
  match buffer with
  | some buffer => .ok buffer
  | none => .error .outOfBounds

/-- The attributes of the selected line of a window. -/
def selectedAttrs (model : TuiModel) (win : TuiWindow) : Attr :=
  { standout := true, colorPair := if model.focusedWin = win then activeColor else inactiveColor }

/-- The attributes of the number of a line with a breakpoint. -/
def breakpointAttrs : Attr := { bold := true, colorPair := breakpointColor }

/-! ### `view_source_buffer` -/

/-- What is drawn for a line of the source. -/
def sourceRow (session : DebugSession) (model : TuiModel) (cols : UInt32)
    (zeroIndexedLineNum : UInt64) (line : List UInt8) : Row :=
  let lineAttrs : Attr :=
    if zeroIndexedLineNum = model.source.selectedLine then selectedAttrs model .source
    else { colorPair := defaultColor }
  let ripAsVma := getInstructionPointerVma session
  let srcBreakpoint := session.srcBreakpoints.find? fun srcBreakpoint =>
    srcBreakpoint.compUnitIndex = model.selectedCompUnitIndex.toNat ∧
      srcBreakpoint.lineNum = (zeroIndexedLineNum + 1).toNat
  { lineAttrs
    lineNumAttrs := if srcBreakpoint.isSome then breakpointAttrs else lineAttrs
    lineNum := format4ld (zeroIndexedLineNum + 1)
    isBreakpoint := srcBreakpoint.isSome
    isCurrentInstruction := srcBreakpoint.any (·.address = ripAsVma)
    line := truncated cols (line.map fun c => if c = 9 then 32 else c) }

/-- The body of the loop, up to the drawing. -/
def readSourceRow (session : DebugSession) (model : TuiModel) (cols : UInt32)
    (zeroIndexedLineNum : UInt64) : Except Fault Row := do
  let buffer ← bufferAt model.source.buffer
  let line ← lineAt buffer.lines zeroIndexedLineNum
  return sourceRow session model cols zeroIndexedLineNum line

/-- `view_source_buffer`. -/
def viewSourceBuffer (session : DebugSession) (model : TuiModel) (windows : Windows) :
    Drawing Unit :=
  let rows := getmaxy windows .source - sectionRowMargin
  let cols := getmaxx windows .source - 8
  viewLines .source model.source.toTuiBuffer (readSourceRow session model cols) rows.toNat 0

/-! ### `view_assembly_buffer` -/

/-- What is drawn for an instruction. -/
def assemblyRow (session : DebugSession) (model : TuiModel) (cols : UInt32)
    (zeroIndexedLineNum : UInt64) (line : List UInt8) (address : UInt64) : Row :=
  let lineEntry := model.selectedLineInstructions.bind fun selectedInstructions =>
    selectedInstructions.find? (·.address = address)
  let lineAttrs : Attr :=
    if zeroIndexedLineNum = model.assembly.selectedLine then selectedAttrs model .assembly
    else
      match lineEntry with
      | some lineEntry => { underline := lineEntry.isStmt, colorPair := secondaryColor }
      | none => { colorPair := defaultColor }
  let isBreakpoint := session.breakpoints.any (·.address = address)
  { lineAttrs
    lineNumAttrs := if isBreakpoint then breakpointAttrs else lineAttrs
    lineNum := format4ld (zeroIndexedLineNum + 1) ++ 32 :: format16lx address
    isBreakpoint
    isCurrentInstruction := getInstructionPointerVma session = address
    line := truncated cols line }

/-- The body of the loop, up to the drawing. -/
def readAssemblyRow (session : DebugSession) (model : TuiModel) (cols : UInt32)
    (zeroIndexedLineNum : UInt64) : Except Fault Row := do
  let buffer ← bufferAt model.assembly.buffer
  let line ← lineAt buffer.textBuffer.lines zeroIndexedLineNum
  let address ← index buffer.addresses zeroIndexedLineNum.toNat
  return assemblyRow session model cols zeroIndexedLineNum line address

/-- `view_assembly_buffer`. -/
def viewAssemblyBuffer (session : DebugSession) (model : TuiModel) (windows : Windows) :
    Drawing Unit :=
  let rows := getmaxy windows .assembly - sectionRowMargin
  let cols := getmaxx windows .assembly - 12
  viewLines .assembly model.assembly.toTuiBuffer (readAssemblyRow session model cols) rows.toNat 0

/-! ### `view_registers_buffer` -/

/-- `reg_table`, with the values. -/
def regTable (registers : UserRegs) : List (String × UInt64) :=
  [("rax", registers.rax), ("rbx", registers.rbx), ("rcx", registers.rcx),
    ("rdx", registers.rdx), ("rsi", registers.rsi), ("rdi", registers.rdi),
    ("rbp", registers.rbp), ("rsp", registers.rsp), ("r8", registers.r8), ("r9", registers.r9),
    ("r10", registers.r10), ("r11", registers.r11), ("r12", registers.r12),
    ("r13", registers.r13), ("r14", registers.r14), ("r15", registers.r15),
    ("rip", registers.rip), ("eflags", registers.eflags)]

/-- The body of the loop. -/
def drawRegister (rows : UInt32) (colHeight : ℕ) (entry : (String × UInt64) × ℕ) : List Call :=
  let ((name, value), i) := entry
  let row := i % colHeight + 2
  let col : Int32 := if i < colHeight then 2 else 30
  if row - 2 ≥ rows.toNat then []
  else
    [.mvwprintw .registers (Int32.ofNat row) col
      (padRight 6 (asBytes name) ++ asBytes " 0x" ++ format016lx value)]

/-- `view_registers_buffer`. -/
def viewRegistersBuffer (session : DebugSession) (windows : Windows) : Drawing Unit :=
  if session.state = .dead then pure ()
  else
    let table := regTable session.inferiorRegisters
    let rows := getmaxy windows .registers - sectionRowMargin
    let colHeight := (table.length + 1) / 2
    emitAll (table.zipIdx.flatMap (drawRegister rows colHeight))

/-! ### The picker -/

/-- The loop over the lines of the picker, from index `i` on, with so many iterations to go. -/
def viewPickerLines (buffer : LinesBuffer) (selectedLine : UInt64) : ℕ → UInt64 → Drawing Unit
  | 0, _ => pure ()
  | left + 1, i => do
    let line ← lineAt buffer.lines i
    let attr : Attr := { bold := true, colorPair := activeColor }
    if i = selectedLine then
      emitAll [.wattron .picker attr, .mvwprintw .picker (screenRow i) 2 line,
        .wattroff .picker attr]
    else emit (.mvwprintw .picker (screenRow i) 2 line)
    viewPickerLines buffer selectedLine left (i + 1)

/-! ### `view_tui` -/

/-- `MIN_TERM_ROWS`. -/
def minTermRows : UInt32 := 20

/-- `MIN_TERM_COLS`. -/
def minTermCols : UInt32 := 20

/-- A window is created, or erased and put where it belongs. -/
def openWindow (terminal : Terminal) (win : TuiWindow) (windows : Windows) : Drawing Windows := do
  let place := geometry terminal win
  match windows win with
  | none => emitAll [.newwin win place, .newPanel win, .intrflush win, .keypad win]
  | some _ => emitAll [.werase win, .mvwin win place.y place.x, .wresize win place.rows place.cols]
  return Function.update windows win (some place)

/-- The title of a window is drawn. -/
def viewTitle (win : TuiWindow) (attr : Attr) : Drawing Unit :=
  emitAll [.wattron win attr, .mvwprintw win 1 2 (asBytes (title win)), .wattroff win attr]

/-- `/* Source */`. -/
def viewSource (terminal : Terminal) (session : DebugSession) (model : TuiModel)
    (windows : Windows) : Drawing Windows := do
  let windows ← openWindow terminal .source windows
  setWinBorder .source {} 0
  viewTitle .source { bold := true }
  viewSourceBuffer session model windows
  return windows

/-- `/* Assembly */`. -/
def viewAssembly (terminal : Terminal) (session : DebugSession) (model : TuiModel)
    (windows : Windows) : Drawing Windows := do
  let windows ← openWindow terminal .assembly windows
  setWinBorder .assembly {} (if session.state = .dead then defaultColor else breakpointColor)
  viewTitle .assembly { bold := true }
  viewAssemblyBuffer session model windows
  return windows

/-- The calls of `view_output_buffer`; `isprint` is that of the locale. -/
def drawOutputBuffer (isprint : UInt8 → Bool) (session : DebugSession) : Drawing Unit := do
  let ops ← (viewOutputBuffer isprint session.output).result
  emitAll (ops.map .output)

/-- `/* Output */`. -/
def viewOutput (isprint : UInt8 → Bool) (terminal : Terminal) (session : DebugSession)
    (windows : Windows) : Drawing Windows := do
  let windows ← openWindow terminal .output windows
  drawOutputBuffer isprint session
  setWinBorder .output {} 0
  viewTitle .output { bold := true }
  return windows

/-- `/* Registers */`. -/
def viewRegisters (terminal : Terminal) (session : DebugSession) (windows : Windows) :
    Drawing Windows := do
  let windows ← openWindow terminal .registers windows
  viewRegistersBuffer session windows
  setWinBorder .registers {} 0
  viewTitle .registers { bold := true }
  return windows

/-- The lines of the picker, and its panel. -/
def viewPickerBuffer (model : TuiModel) : Drawing Unit :=
  if model.isPickerOpen then do
    let buffer ← bufferAt model.picker.buffer
    viewPickerLines buffer model.picker.selectedLine buffer.lineCount.toNat 0
    emit .showPanel
  else emit .hidePanel

/-- `/* Picker */`. -/
def viewPicker (terminal : Terminal) (model : TuiModel) (windows : Windows) :
    Drawing Windows := do
  let windows ← openWindow terminal .picker windows
  setWinBorder .picker {} 0
  viewTitle .picker { bold := true }
  viewPickerBuffer model
  return windows

/-- `/* Focus */`. -/
def viewFocus (model : TuiModel) : Drawing Unit := do
  setWinBorder model.focusedWin { bold := true } activeColor
  viewTitle model.focusedWin { bold := true, colorPair := activeColor }

/-- The terminal is too small for `view_tui`. -/
def TooSmall (terminal : Terminal) : Prop :=
  terminal.rows < minTermRows ∨ terminal.cols < minTermCols

instance (terminal : Terminal) : Decidable (TooSmall terminal) :=
  inferInstanceAs (Decidable (_ ∨ _))

/-- `view_tui`. -/
def viewTui (isprint : UInt8 → Bool) (terminal : Terminal) (session : DebugSession)
    (model : TuiModel) (windows : Windows) : Drawing Windows :=
  if TooSmall terminal then do
    emitAll [.updatePanels, .doupdate]
    return windows
  else do
    let windows ← viewSource terminal session model windows
    let windows ← viewAssembly terminal session model windows
    let windows ← viewOutput isprint terminal session windows
    let windows ← viewRegisters terminal session windows
    let windows ← viewPicker terminal model windows
    viewFocus model
    emitAll [.updatePanels, .doupdate]
    return windows

end Dabugger.Tui.View
