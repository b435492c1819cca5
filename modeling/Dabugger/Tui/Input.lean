import Dabugger.Tui.Types

/-! # Keys

The functions that turn the keys of the terminal into messages: `get_input_key`,
`clear_input_buffer` and `on_motion_input` of `tui.c`, and `on_stdin_input` of `dabugger.c`. -/

namespace Dabugger.Tui.Input

open Dabugger.Base Dabugger.Tui.Types

/-! ### Keys -/

namespace Key

/-- `CTRL(c)`. -/
def ctrl (c : UInt8) : UInt8 := c &&& 0x1f

def quit : UInt8 := 113
def motionUp : UInt8 := 107
def motionDown : UInt8 := 106
def motionLeft : UInt8 := 104
def motionRight : UInt8 := 108
def motionStartOfFile : UInt8 := 103
def motionLineSelector : UInt8 := 71
def chordHalfUp : UInt8 := ctrl 117
def chordHalfDown : UInt8 := ctrl 100
def chordSwitchWin : UInt8 := ctrl 119
def chordFilePicker : UInt8 := ctrl 112
def confirm : UInt8 := 10
def toggleBreakpoint : UInt8 := 32
def runProg : UInt8 := 82
def stopProg : UInt8 := 70
def stepInstruction : UInt8 := 115
def stepOver : UInt8 := 83

end Key

/-- `MAX_INPUT_BUFFER`. -/
def maxInputBuffer : ℕ := 10

/-- `InputBuffer`. -/
structure InputBuffer where
  buffer : List UInt8 := List.replicate maxInputBuffer 0
  key : UInt8 := 0
  count : ℕ := 0
  deriving DecidableEq

/-- `clear_input_buffer`. -/
def clearInputBuffer : InputBuffer := {}

/-- `get_input_key`, when `getch` returns `ch`; a `char` takes its lowest byte. -/
def getInputKey (input : InputBuffer) (ch : ℤ) : InputBuffer :=
  let key := UInt8.ofInt ch
  let input := { input with count := input.count + 1 }
  let input := if input.count = maxInputBuffer then { clearInputBuffer with count := 1 } else input
  { input with buffer := input.buffer.set (input.count - 1) key, key }

/-! ### Numbers -/

/-- `isdigit`. -/
def isdigit (c : UInt8) : Bool := decide (48 ≤ c) && decide (c ≤ 57)

/-- The number that digits are. -/
def decimal (digits : List UInt8) : ℕ :=
  digits.foldl (fun n c => 10 * n + (c.toNat - 48)) 0

/-- `strtoul(..., NULL, 10)` of a text that begins with a digit. -/
def strtoul (text : List UInt8) : UInt64 :=
  UInt64.ofNat (min (decimal (text.takeWhile isdigit)) (2 ^ 64 - 1))

/-- The loop of `on_motion_input` that looks for the first digit, from the byte before index `i`
down. -/
def numBegin (buffer : List UInt8) : ℕ → Option ℕ → Option ℕ
  | 0, begin => begin
  | i + 1, begin => if isdigit (buffer.getD i 0) then numBegin buffer i (some i) else begin

/-! ### Messages -/

/-- The direction that `on_motion_input` sets. -/
def motionDirection (key : UInt8) : Direction :=
  if key = Key.motionUp then .up
  else if key = Key.motionDown then .down
  else if key = Key.motionLeft then .left
  else if key = Key.motionRight then .right
  else .up

/-- The key before the last one. -/
def previousKey (input : InputBuffer) : UInt8 := input.buffer.getD (input.count - 2) 0

/-- `abs_amount`: the number before the last key, or else what it was before. -/
def absAmount (input : InputBuffer) (initial : UInt64) : UInt64 :=
  match numBegin input.buffer (input.count - 1) none with
  | some begin => strtoul (input.buffer.drop begin)
  | none => initial

/-- The message of `on_motion_input` for `j`, `k`, `h`, `l` and `G`. -/
def countedMotion (input : InputBuffer) (direction : Direction) : TuiMsg :=
  if input.key = Key.motionLineSelector then
    let amount := absAmount input 0
    if amount = 0 then .goToBufferLine { direction, amount := Amount.bufferEnd }
    else .goToBufferLine { direction, amount := amount.toInt64 }
  else .bufferMotion { direction, amount := (absAmount input 1).toInt64 }

/-- The message of `on_motion_input`. -/
def motionMsg (input : InputBuffer) : TuiMsg :=
  let direction := motionDirection input.key
  if input.count > 1 ∧ previousKey input = Key.chordSwitchWin then
    .changeSection { direction, amount := 1 }
  else if input.key = Key.chordHalfUp then
    .bufferMotion { direction := .up, amount := Amount.bufferHalf }
  else if input.key = Key.chordHalfDown then
    .bufferMotion { direction := .down, amount := Amount.bufferHalf }
  else if input.key = Key.motionStartOfFile then
    if input.count > 1 ∧ previousKey input = input.key then
      .goToBufferLine { direction, amount := Amount.bufferStart }
    else .none
  else countedMotion input direction

/-- `on_motion_input`: the message, and the keys that are left. -/
def onMotionInput (input : InputBuffer) : TuiMsg × InputBuffer :=
  let msg := motionMsg input
  (msg, if msg = .none then input else clearInputBuffer)

/-- The keys of `on_motion_input`. -/
def isMotionKey (key : UInt8) : Bool :=
  key ∈ [Key.motionUp, Key.motionDown, Key.motionLeft, Key.motionRight, Key.motionStartOfFile,
    Key.motionLineSelector, Key.chordHalfUp, Key.chordHalfDown]

/-- `on_stdin_input`, when `getch` returns `ch`: the message, and the keys that are left. -/
def onStdinInput (model : TuiModel) (input : InputBuffer) (ch : ℤ) : TuiMsg × InputBuffer :=
  let input := getInputKey input ch
  if input.key = Key.quit then (.quit, input)
  else if input.key = Key.chordFilePicker then (.showPicker !model.isPickerOpen, input)
  else if input.key = Key.confirm then (.confirm, input)
  else if input.key = Key.toggleBreakpoint then (.toggleBreakpoint, input)
  else if input.key = Key.runProg then (.runDebuggee, input)
  else if isMotionKey input.key then onMotionInput input
  -- the other keys of the `switch` do nothing yet
  else (.none, input)

end Dabugger.Tui.Input
