import Dabugger.Debug.Buffers

/-! # The types of `tui.h`

The model of the user interface, its messages and its commands. The session that the model points to
is an argument of the functions; a message is its type with the member of the union that goes with
it. -/

namespace Dabugger.Tui.Types

open Dabugger.Base Dabugger.Dwarf.Types Dabugger.Debug.Session Dabugger.Debug.Buffers

/-! ### Messages and commands -/

/-- `enum Direction`. -/
inductive Direction where
  | up
  | down
  | left
  | right
  deriving DecidableEq

namespace Amount

/-! The relative amounts; other numbers are absolute. -/

def bufferHalf : Int64 := -3
def bufferFull : Int64 := -2
def bufferStart : Int64 := -1
def bufferEnd : Int64 := 0

end Amount

/-- `TuiMotion`; a union that was not written holds zeros. -/
structure TuiMotion where
  direction : Direction := .up
  amount : Int64 := 0
  deriving DecidableEq

/-- `TuiMsg`. -/
inductive TuiMsg where
  | none
  | quit
  | showPicker (isOpen : Bool)
  | confirm
  | bufferMotion (motion : TuiMotion)
  | goToBufferLine (motion : TuiMotion)
  | changeSection (motion : TuiMotion)
  | setSourceBuffer (newSourceBuffer : Option LinesBuffer)
  | setAssemblyBuffer (newAssemblyBuffer : Option AssemblyBuffer)
  | toggleBreakpoint
  | outputUpdate
  | runDebuggee
  | stepInstruction
  | stepOver
  deriving DecidableEq

/-- `TuiCmd`. -/
inductive TuiCmd where
  | none
  | selectCompUnit (compUnitIndex : UInt64)
  | toggleBreakpoint (breakpointAddress : UInt64)
  | toggleSourceBreakpoint (compUnitIndex lineNum : UInt64)
  | runDebuggee
  deriving DecidableEq

/-! ### The model -/

/-- `TuiWindow`. -/
inductive TuiWindow where
  | source
  | assembly
  | output
  | registers
  | picker
  deriving DecidableEq

/-- The number of a window. -/
def TuiWindow.number : TuiWindow → ℕ
  | .source => 0
  | .assembly => 1
  | .output => 2
  | .registers => 3
  | .picker => 4

/-- The window of a number. -/
def TuiWindow.ofNumber : ℕ → TuiWindow
  | 0 => .source
  | 1 => .assembly
  | 2 => .output
  | 3 => .registers
  | _ => .picker

/-- `TuiBuffer`: what the buffers of the model have in common. -/
structure TuiBuffer where
  selectedLine : UInt64 := 0
  lineCount : UInt64 := 0
  linePos : UInt64 := 0
  deriving DecidableEq

/-- `TuiLinesBuffer`. -/
structure TuiLinesBuffer extends TuiBuffer where
  buffer : Option LinesBuffer := none
  deriving DecidableEq

/-- `TuiAssemblyBuffer`. -/
structure TuiAssemblyBuffer extends TuiBuffer where
  buffer : Option AssemblyBuffer := none
  deriving DecidableEq

/-- `TuiModel`. -/
structure TuiModel where
  source : TuiLinesBuffer := {}
  assembly : TuiAssemblyBuffer := {}
  picker : TuiLinesBuffer := {}
  selectedLineInstructions : Option (List LineInfoEntry) := none
  selectedCompUnitIndex : UInt64 := 0
  focusedWin : TuiWindow := .source
  isPickerOpen : Bool := false
  deriving DecidableEq

/-- The model of `main` at the start, with the lines of the picker. -/
def initialModel (picker : LinesBuffer) : TuiModel :=
  { picker := { buffer := some picker, lineCount := picker.lineCount } }

end Dabugger.Tui.Types
