import Dabugger.Lib.Log
import Dabugger.Tui.Types

/-! # `update_tui`

A message is handled: the model changes, and a command comes back. What is logged on the way are the
calls that may fail, each with the model at the call; `Effect` has the effects of the main loop too.
The height of a window is a parameter. -/

namespace Dabugger.Tui.Update

open Dabugger.Lib.Log Dabugger.Base Dabugger.Dwarf.Types Dabugger.Debug.Session
  Dabugger.Debug.Buffers Dabugger.Tui.Types

/-! ### Effects -/

/-- What `update_tui` and main's loop do; `poll` with the number of messages in the queue. -/
inductive Effect where
  | poll (model : TuiModel) (queued : ℕ)
  | enqueueMsg (msg : TuiMsg)
  | updateTui (model : TuiModel) (msg : TuiMsg)
  | getInstructionsForLine (model : TuiModel) (compUnitIndex lineNum : UInt64)
  | readAddress (model : TuiModel)
  | setSourceBreakpoint (compUnitIndex lineNum : UInt64)

/-- A call of a function of `debug.c`, or a read. -/
def Effect.IsCall : Effect → Prop
  | .getInstructionsForLine _ _ _ | .readAddress _ | .setSourceBreakpoint _ _ => True
  | .poll _ _ | .enqueueMsg _ | .updateTui _ _ => False

/-- A computation with these effects. -/
abbrev Effectful := Logged Effect Fault

/-! ### The selection -/

/-- `tui_buffer`; null in the other windows. -/
def tuiBuffer (model : TuiModel) : Option TuiBuffer :=
  match model.focusedWin with
  | .source => some model.source.toTuiBuffer
  | .assembly => some model.assembly.toTuiBuffer
  | .picker => some model.picker.toTuiBuffer
  | .output | .registers => none

/-- Write to `*tui_buffer`. -/
def setTuiBuffer (model : TuiModel) (buffer : TuiBuffer) : TuiModel :=
  match model.focusedWin with
  | .source => { model with source := { model.source with toTuiBuffer := buffer } }
  | .assembly => { model with assembly := { model.assembly with toTuiBuffer := buffer } }
  | .picker => { model with picker := { model.picker with toTuiBuffer := buffer } }
  | .output | .registers => model

theorem tuiBuffer_setTuiBuffer {model : TuiModel} {buffer : TuiBuffer}
    (h : tuiBuffer model = some buffer) (buffer' : TuiBuffer) :
    tuiBuffer (setTuiBuffer model buffer') = some buffer' := by
  obtain ⟨source, assembly, picker, instructions, index, focusedWin, isPickerOpen⟩ := model
  cases focusedWin with
  | source | assembly | picker => rfl
  | output | registers => cases h

/-- `SECTION_ROW_MARGIN`. -/
def sectionRowMargin : UInt32 := 3

/-- `line_distance`. -/
def lineDistance (rows : UInt32) (amount : Int64) : UInt64 :=
  if amount = Amount.bufferHalf then (rows / 2).toUInt64
  else if amount = Amount.bufferFull then rows.toUInt64
  else amount.toUInt64

/-- The selection after `MSG_BUFFER_MOTION`. -/
def motionLine (direction : Direction) (distance : UInt64) (buffer : TuiBuffer) : UInt64 :=
  match direction with
  | .down =>
    let remainingLines := buffer.lineCount - 1 - buffer.selectedLine
    if remainingLines ≥ distance then buffer.selectedLine + distance else buffer.lineCount - 1
  | .up => if buffer.selectedLine ≥ distance then buffer.selectedLine - distance else 0
  | .left | .right => buffer.selectedLine

/-- The selection after `MSG_GO_TO_BUFFER_LINE`. -/
def goToLine (amount : Int64) (buffer : TuiBuffer) : UInt64 :=
  if amount = Amount.bufferEnd then buffer.lineCount - 1
  else if amount = Amount.bufferStart then 0
  else
    let zeroIndexedLine := amount.toUInt64 - 1
    if zeroIndexedLine < buffer.lineCount - 1 then zeroIndexedLine else buffer.lineCount - 1

/-- Select a line, and scroll to it. -/
def selectLine (rows : UInt32) (line : UInt64) (buffer : TuiBuffer) : TuiBuffer :=
  let linePos :=
    if line < buffer.linePos then line
    else if line + 1 > rows.toUInt64 ∧ line + 1 > buffer.linePos + rows.toUInt64 then
      line + 1 - rows.toUInt64
    else buffer.linePos
  { buffer with selectedLine := line, linePos }

/-- The model with a line of `*tui_buffer` selected. -/
def moved (rows : UInt32) (line : UInt64) (buffer : TuiBuffer) (model : TuiModel) : TuiModel :=
  setTuiBuffer model (selectLine rows line buffer)

/-- What is common to the two motions: select the line, and get its instructions if it is another one
of the source. -/
def changeLine (host : Host) (session : DebugSession) (rows : UInt32) (line : UInt64)
    (buffer : TuiBuffer) (model : TuiModel) : Effectful TuiModel :=
  let model' := moved rows line buffer model
  if model.focusedWin = .source ∧ buffer.selectedLine ≠ line then do
    emit (.getInstructionsForLine model' model.selectedCompUnitIndex (line + 1))
    let instructions ← getInstructionsForLine host session model.selectedCompUnitIndex.toNat
      (line + 1).toNat
    return { model' with selectedLineInstructions := some instructions }
  else return model'

/-! ### Windows -/

/-- `SECTION_COLS`. -/
def sectionCols : ℕ := 2

/-- `SECTION_COUNT`. -/
def sectionCount : ℕ := 4

/-- The window that gets the focus at `MSG_CHANGE_SECTION`. -/
def changeSection (direction : Direction) (focused : TuiWindow) : TuiWindow :=
  let n := focused.number
  if focused = .picker then focused
  else if direction = .up ∧ n ≥ sectionCols then .ofNumber (n - sectionCols)
  else if direction = .down ∧ n < sectionCount - sectionCols then .ofNumber (n + sectionCols)
  else if direction = .left ∧ n > 0 then .ofNumber (n - 1)
  else if direction = .right ∧ n < sectionCount - 1 then .ofNumber (n + 1)
  else focused

/-- The window that gets the focus at `MSG_SHOW_PICKER`. -/
def showPicker (isOpen : Bool) (focused : TuiWindow) : TuiWindow :=
  if isOpen then .picker else if focused = .picker then .source else focused

/-! ### Messages -/

/-- `update_tui`. -/
def updateTui (host : Host) (session : DebugSession) (getmaxy : TuiWindow → UInt32) (msg : TuiMsg)
    (model : TuiModel) : Effectful (TuiModel × TuiCmd) :=
  let rows := getmaxy model.focusedWin - sectionRowMargin
  match msg with
  | .bufferMotion motion =>
    match tuiBuffer model with
    | none => return (model, .none)
    | some buffer =>
      if buffer.lineCount = 0 then return (model, .none)
      else do
        cAssert host (motion.amount ≠ Amount.bufferStart)
        if motion.amount = Amount.bufferEnd then return (model, .none)
        let line := motionLine motion.direction (lineDistance rows motion.amount) buffer
        let model ← changeLine host session rows line buffer model
        return (model, .none)
  | .goToBufferLine motion =>
    match tuiBuffer model with
    | none => return (model, .none)
    | some buffer => do
      let model ← changeLine host session rows (goToLine motion.amount buffer) buffer model
      return (model, .none)
  | .changeSection motion =>
    return ({ model with focusedWin := changeSection motion.direction model.focusedWin }, .none)
  | .confirm =>
    let index := model.picker.selectedLine
    return ({ model with selectedCompUnitIndex := index }, .selectCompUnit index)
  | .showPicker isOpen =>
    return ({ model with isPickerOpen := isOpen, focusedWin := showPicker isOpen model.focusedWin },
      .none)
  | .setSourceBuffer newSourceBuffer =>
    match newSourceBuffer with
    | none => fail .outOfBounds
    | some buffer =>
      return ({ model with source :=
        { linePos := 0, selectedLine := 0, buffer := newSourceBuffer,
          lineCount := buffer.lineCount } }, .none)
  | .setAssemblyBuffer newAssemblyBuffer =>
    match newAssemblyBuffer with
    | none => fail .outOfBounds
    | some buffer =>
      return ({ model with assembly :=
        { linePos := 0, selectedLine := 0, buffer := newAssemblyBuffer,
          lineCount := buffer.textBuffer.lineCount } }, .none)
  | .toggleBreakpoint =>
    match model.focusedWin with
    | .source =>
      return (model, .toggleSourceBreakpoint model.selectedCompUnitIndex
        (model.source.selectedLine + 1))
    | .assembly => do
      emit (.readAddress model)
      match model.assembly.buffer with
      | none => fail .outOfBounds
      | some buffer => do
        let address ← index buffer.addresses model.assembly.selectedLine.toNat
        return (model, .toggleBreakpoint address)
    | _ => return (model, .none)
  | .runDebuggee => return (model, .runDebuggee)
  | .outputUpdate | .quit | .none | .stepInstruction | .stepOver => return (model, .none)

/-! ### What the motions do -/

section
variable {host : Host} {session : DebugSession} {getmaxy : TuiWindow → UInt32} {model : TuiModel}

theorem cAssert_cases (host : Host) (p : Bool) :
    cAssert host p = .ok () ∨ cAssert host p = .error .assertFailed := by
  unfold cAssert
  split
  · exact .inr rfl
  · exact .inl rfl

/-- **A motion** does nothing, fails, or changes the line in a buffer that is not empty. -/
theorem updateTui_bufferMotion (host : Host) (session : DebugSession)
    (getmaxy : TuiWindow → UInt32) (model : TuiModel) (motion : TuiMotion) :
    updateTui host session getmaxy (.bufferMotion motion) model = pure (model, .none) ∨
    updateTui host session getmaxy (.bufferMotion motion) model = fail .assertFailed ∨
    ∃ buffer distance, tuiBuffer model = some buffer ∧ buffer.lineCount ≠ 0 ∧
      updateTui host session getmaxy (.bufferMotion motion) model =
        changeLine host session (getmaxy model.focusedWin - sectionRowMargin)
          (motionLine motion.direction distance buffer) buffer model >>=
            fun model => pure (model, .none) := by
  unfold updateTui
  cases htui : tuiBuffer model with
  | none => exact .inl rfl
  | some buffer =>
    dsimp only
    by_cases hcount : buffer.lineCount = 0
    · rw [if_pos hcount]
      exact .inl rfl
    · rw [if_neg hcount]
      rcases cAssert_cases host (motion.amount ≠ Amount.bufferStart) with hassert | hassert
      · rw [hassert]
        by_cases hend : motion.amount = Amount.bufferEnd
        · left
          rw [if_pos hend]
          rfl
        · right; right
          rw [if_neg hend]
          exact ⟨buffer, _, rfl, hcount, rfl⟩
      · right; left
        rw [hassert]
        rfl

/-- **A go-to** does nothing, or changes the line in whatever buffer there is. -/
theorem updateTui_goToBufferLine (motion : TuiMotion) {buffer : TuiBuffer}
    (h : tuiBuffer model = some buffer) :
    updateTui host session getmaxy (.goToBufferLine motion) model =
      changeLine host session (getmaxy model.focusedWin - sectionRowMargin)
        (goToLine motion.amount buffer) buffer model >>= fun model => pure (model, .none) := by
  rw [updateTui, h]

theorem updateTui_goToBufferLine_none (motion : TuiMotion) (h : tuiBuffer model = none) :
    updateTui host session getmaxy (.goToBufferLine motion) model = pure (model, .none) := by
  rw [updateTui, h]

variable {rows : UInt32} {line : UInt64} {buffer : TuiBuffer}

/-- **The line is changed**: the call that is made for it. -/
theorem changeLine_log {e : Effect} (h : e ∈ (changeLine host session rows line buffer model).log) :
    (model.focusedWin = .source ∧ buffer.selectedLine ≠ line) ∧
      e = .getInstructionsForLine (moved rows line buffer model) model.selectedCompUnitIndex
        (line + 1) := by
  unfold changeLine at h
  dsimp only at h
  split at h
  · next hchanged =>
    rw [emit_bind] at h
    refine ⟨hchanged, (List.mem_cons.mp h).resolve_right ?_⟩
    cases hget : getInstructionsForLine host session model.selectedCompUnitIndex.toNat
      (line + 1).toNat with
    | error f => exact nofun
    | ok instructions => exact nofun
  · cases h

theorem changeLine_call (host : Host) (session : DebugSession) (rows : UInt32)
    (hfocus : model.focusedWin = .source) (hline : buffer.selectedLine ≠ line) :
    .getInstructionsForLine (moved rows line buffer model) model.selectedCompUnitIndex (line + 1) ∈
      (changeLine host session rows line buffer model).log := by
  rw [changeLine, if_pos ⟨hfocus, hline⟩, emit_bind]
  exact List.mem_cons_self

/-- A line that is changed elsewhere than in the source is a change of the model alone. -/
theorem changeLine_pure (h : ¬ (model.focusedWin = .source ∧ buffer.selectedLine ≠ line)) :
    changeLine host session rows line buffer model = pure (moved rows line buffer model) :=
  if_neg h

/-- **The line is changed**: the model. -/
theorem changeLine_ok {model' : TuiModel}
    (h : (changeLine host session rows line buffer model).result = .ok model') :
    (¬ (model.focusedWin = .source ∧ buffer.selectedLine ≠ line) ∧
      model' = moved rows line buffer model) ∨
    (model.focusedWin = .source ∧ buffer.selectedLine ≠ line) ∧
      ∃ instructions, getInstructionsForLine host session model.selectedCompUnitIndex.toNat
          (line + 1).toNat = .ok instructions ∧
        model' = { moved rows line buffer model with
          selectedLineInstructions := some instructions } := by
  unfold changeLine at h
  dsimp only at h
  split at h
  · next hchanged =>
    right
    rw [emit_bind] at h
    obtain ⟨instructions, hget, h, -⟩ := bind_ok h
    cases h
    exact ⟨hchanged, instructions, hget, rfl⟩
  · next hsame =>
    cases h
    exact .inl ⟨hsame, rfl⟩

/-! ### What a toggle does -/

/-- The only call of a toggle is made for the assembly. -/
theorem updateTui_toggleBreakpoint_log {e : Effect} :
    e ∈ (updateTui host session getmaxy .toggleBreakpoint model).log ↔
      model.focusedWin = .assembly ∧ e = .readAddress model := by
  obtain ⟨source, assembly, picker, instructions, compUnitIndex, focusedWin, isPickerOpen⟩ := model
  cases focusedWin with
  | source | output | registers | picker => exact iff_of_false nofun nofun
  | assembly =>
    unfold updateTui
    dsimp only
    rw [emit_bind, List.mem_cons, and_iff_right rfl]
    refine or_iff_left ?_
    cases assembly.buffer with
    | none => exact nofun
    | some buffer =>
      dsimp only
      cases index buffer.addresses assembly.selectedLine.toNat <;> exact nofun

/-- The command of a toggle in the assembly. -/
theorem updateTui_toggleBreakpoint_assembly {model' : TuiModel} {cmd : TuiCmd}
    (hfocus : model.focusedWin = .assembly)
    (h : (updateTui host session getmaxy .toggleBreakpoint model).result = .ok (model', cmd)) :
    model' = model ∧ ∃ address, cmd = .toggleBreakpoint address := by
  unfold updateTui at h
  dsimp only at h
  rw [hfocus] at h
  dsimp only at h
  rw [emit_bind] at h
  cases hb : model.assembly.buffer with
  | none => rw [hb] at h; cases h
  | some buffer =>
    rw [hb] at h
    obtain ⟨address, -, h, -⟩ := bind_ok h
    cases h
    exact ⟨rfl, address, rfl⟩

/-- A toggle leaves the model alone, and selects no unit. -/
theorem updateTui_toggleBreakpoint_ok {model' : TuiModel} {cmd : TuiCmd}
    (h : (updateTui host session getmaxy .toggleBreakpoint model).result = .ok (model', cmd)) :
    model' = model ∧ ∀ index, cmd ≠ .selectCompUnit index := by
  cases hfocus : model.focusedWin with
  | assembly =>
    obtain ⟨rfl, address, rfl⟩ := updateTui_toggleBreakpoint_assembly hfocus h
    exact ⟨rfl, nofun⟩
  | source | output | registers | picker =>
    rw [updateTui, hfocus] at h
    cases h
    exact ⟨rfl, nofun⟩

/-! ### Any message -/

theorem changeLine_calls : Emits Effect.IsCall (changeLine host session rows line buffer model) := by
  intro e he
  obtain ⟨-, rfl⟩ := changeLine_log he
  trivial

/-- **`update_tui` only makes calls.** -/
theorem updateTui_calls (host : Host) (session : DebugSession) (getmaxy : TuiWindow → UInt32)
    (msg : TuiMsg) (model : TuiModel) :
    Emits Effect.IsCall (updateTui host session getmaxy msg model) := by
  cases msg with
  | bufferMotion motion =>
    rcases updateTui_bufferMotion host session getmaxy model motion with
      hd | hd | ⟨buffer, distance, -, -, hd⟩
    · rw [hd]; exact .pure _
    · rw [hd]; exact .fail _
    · rw [hd]; exact changeLine_calls.bind fun _ _ => .pure _
  | goToBufferLine motion =>
    cases hb : tuiBuffer model with
    | none => rw [updateTui_goToBufferLine_none motion hb]; exact .pure _
    | some buffer =>
      rw [updateTui_goToBufferLine motion hb]
      exact changeLine_calls.bind fun _ _ => .pure _
  | toggleBreakpoint =>
    intro e he
    obtain ⟨-, rfl⟩ := updateTui_toggleBreakpoint_log.mp he
    trivial
  | setSourceBuffer newSourceBuffer =>
    cases newSourceBuffer with
    | none => exact .fail _
    | some => exact .pure _
  | setAssemblyBuffer newAssemblyBuffer =>
    cases newAssemblyBuffer with
    | none => exact .fail _
    | some => exact .pure _
  | changeSection | confirm | showPicker | runDebuggee | outputUpdate | quit | none
    | stepInstruction | stepOver => exact .pure _

end

end Dabugger.Tui.Update
