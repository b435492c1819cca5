import Dabugger.Tui.Selection

/-! # What a message leaves as it is

`Updated` says what a message that is handled does to the model (`updateTui_updated`). The buffers
that are shown, their numbers of lines and the selected unit change with `MSG_CONFIRM` and the messages
that it causes only (`updateTui_kept`); the line of the source changes with its instructions
(`updateTui_lineKept`). In a buffer that is not empty the selection is always one of its lines
(`updateTui_inLines`). The picker has the focus exactly while it is open (`updateTui_pickerFocused`). -/

namespace Dabugger.Tui.Frame

open Dabugger.Lib.Log Dabugger.Base Dabugger.Dwarf.Types Dabugger.Debug.Session
  Dabugger.Debug.Buffers Dabugger.Tui.Types Dabugger.Tui.Update Dabugger.Tui.Selection

variable {host : Host} {session : DebugSession} {getmaxy : TuiWindow → UInt32}
  {model model' : TuiModel} {msg : TuiMsg} {cmd : TuiCmd}

/-! ### The motions -/

/-- In a buffer with lines, one of them is selected. -/
def InLines (buffer : TuiBuffer) : Prop :=
  buffer.lineCount ≠ 0 → buffer.selectedLine < buffer.lineCount

/-- The motions. -/
def IsMotion : TuiMsg → Prop
  | .bufferMotion _ | .goToBufferLine _ => True
  | _ => False

/-- **A motion** that returns does nothing, or changes the line. -/
theorem updateTui_motion_ok (hm : IsMotion msg)
    (hr : (updateTui host session getmaxy msg model).result = .ok (model', cmd)) :
    cmd = .none ∧ (model' = model ∨ ∃ buffer rows line, tuiBuffer model = some buffer ∧
      (InLines buffer → InLines (selectLine rows line buffer)) ∧
      (changeLine host session rows line buffer model).result = .ok model') := by
  cases msg with
  | bufferMotion motion =>
    rcases updateTui_bufferMotion host session getmaxy model motion with
      hd | hd | ⟨buffer, distance, hb, -, hd⟩
    · rw [hd] at hr
      cases hr
      exact ⟨rfl, .inl rfl⟩
    · rw [hd] at hr
      cases hr
    · rw [hd] at hr
      obtain ⟨m, hm, hr, -⟩ := bind_ok hr
      cases hr
      exact ⟨rfl, .inr ⟨buffer, _, _, hb,
        fun h hc => motionLine_lt motion.direction distance (h hc), hm⟩⟩
  | goToBufferLine motion =>
    cases hb : tuiBuffer model with
    | none =>
      rw [updateTui_goToBufferLine_none motion hb] at hr
      cases hr
      exact ⟨rfl, .inl rfl⟩
    | some buffer =>
      rw [updateTui_goToBufferLine motion hb] at hr
      obtain ⟨m, hm, hr, -⟩ := bind_ok hr
      cases hr
      exact ⟨rfl, .inr ⟨buffer, _, _, rfl, fun _ hc => goToLine_lt motion.amount hc, hm⟩⟩
  | _ => cases hm

/-! ### Any message -/

/-- What a message that is handled does to the model, and its command. -/
inductive Updated (host : Host) (session : DebugSession) (model : TuiModel) :
    TuiMsg → TuiModel → TuiCmd → Prop
  | same {msg : TuiMsg} {cmd : TuiCmd} (hcmd : ∀ index, cmd ≠ .selectCompUnit index) :
      Updated host session model msg model cmd
  | line {msg : TuiMsg} {model' : TuiModel} {buffer : TuiBuffer} {rows : UInt32} {line : UInt64}
      (hb : tuiBuffer model = some buffer)
      (hline : InLines buffer → InLines (selectLine rows line buffer))
      (hc : (changeLine host session rows line buffer model).result = .ok model') :
      Updated host session model msg model' .none
  | changeSection (motion : TuiMotion) :
      Updated host session model (.changeSection motion)
        { model with focusedWin := Update.changeSection motion.direction model.focusedWin } .none
  | showPicker (isOpen : Bool) :
      Updated host session model (.showPicker isOpen)
        { model with
          isPickerOpen := isOpen, focusedWin := Update.showPicker isOpen model.focusedWin } .none
  | confirm :
      Updated host session model .confirm
        { model with selectedCompUnitIndex := model.picker.selectedLine }
        (.selectCompUnit model.picker.selectedLine)
  | source (buffer : LinesBuffer) :
      Updated host session model (.setSourceBuffer (some buffer))
        { model with source := { buffer := some buffer, lineCount := buffer.lineCount } } .none
  | assembly (buffer : AssemblyBuffer) :
      Updated host session model (.setAssemblyBuffer (some buffer))
        { model with assembly :=
          { buffer := some buffer, lineCount := buffer.textBuffer.lineCount } } .none

/-- **What a message does**, where it returns. -/
theorem updateTui_updated
    (hr : (updateTui host session getmaxy msg model).result = .ok (model', cmd)) :
    Updated host session model msg model' cmd := by
  have hmotion : IsMotion msg → Updated host session model msg model' cmd := by
    intro hm
    obtain ⟨rfl, rfl | ⟨buffer, rows, line, hb, hline, hc⟩⟩ := updateTui_motion_ok hm hr
    · exact .same nofun
    · exact .line hb hline hc
  cases msg with
  | bufferMotion | goToBufferLine => exact hmotion trivial
  | changeSection motion => cases hr; exact .changeSection motion
  | showPicker isOpen => cases hr; exact .showPicker isOpen
  | confirm => cases hr; exact .confirm
  | setSourceBuffer newSourceBuffer =>
    cases newSourceBuffer with
    | none => cases hr
    | some buffer => cases hr; exact .source buffer
  | setAssemblyBuffer newAssemblyBuffer =>
    cases newAssemblyBuffer with
    | none => cases hr
    | some buffer => cases hr; exact .assembly buffer
  | toggleBreakpoint =>
    obtain ⟨rfl, hcmd⟩ := updateTui_toggleBreakpoint_ok hr
    exact .same hcmd
  | runDebuggee | outputUpdate | quit | none | stepInstruction | stepOver =>
    cases hr
    exact .same nofun

/-! ### The buffers and the unit -/

/-- The same buffers are shown, of the same unit. -/
structure Kept (model model' : TuiModel) : Prop where
  sourceBuffer : model'.source.buffer = model.source.buffer
  sourceCount : model'.source.lineCount = model.source.lineCount
  assemblyBuffer : model'.assembly.buffer = model.assembly.buffer
  assemblyCount : model'.assembly.lineCount = model.assembly.lineCount
  pickerCount : model'.picker.lineCount = model.picker.lineCount
  compUnitIndex : model'.selectedCompUnitIndex = model.selectedCompUnitIndex

theorem Kept.refl (model : TuiModel) : Kept model model := ⟨rfl, rfl, rfl, rfl, rfl, rfl⟩

theorem kept_moved {buffer : TuiBuffer} (hb : tuiBuffer model = some buffer) (rows : UInt32)
    (line : UInt64) : Kept model (moved rows line buffer model) := by
  obtain ⟨source, assembly, picker, instructions, index, focusedWin, isPickerOpen⟩ := model
  cases focusedWin with
  | source | assembly | picker => cases hb; exact ⟨rfl, rfl, rfl, rfl, rfl, rfl⟩
  | output | registers => cases hb

/-- The line is changed. -/
theorem changeLine_kept {buffer : TuiBuffer} (hb : tuiBuffer model = some buffer) {rows : UInt32}
    {line : UInt64} (hr : (changeLine host session rows line buffer model).result = .ok model') :
    Kept model model' := by
  have hk := kept_moved hb rows line
  rcases changeLine_ok hr with ⟨-, rfl⟩ | ⟨-, _, -, rfl⟩
  · exact hk
  · exact ⟨hk.sourceBuffer, hk.sourceCount, hk.assemblyBuffer, hk.assemblyCount, hk.pickerCount,
      hk.compUnitIndex⟩

/-- The messages that a `MSG_CONFIRM` causes, with a new buffer. -/
def IsReply : TuiMsg → Prop
  | .setSourceBuffer _ | .setAssemblyBuffer _ => True
  | _ => False

/-- **The buffers and the unit** are kept by the other messages, and no unit is to be selected. -/
theorem updateTui_kept (hreply : ¬ IsReply msg) (hconfirm : msg ≠ .confirm)
    (hr : (updateTui host session getmaxy msg model).result = .ok (model', cmd)) :
    Kept model model' ∧ ∀ index, cmd ≠ .selectCompUnit index := by
  cases updateTui_updated hr with
  | same hcmd => exact ⟨.refl _, hcmd⟩
  | line hb _ hc => exact ⟨changeLine_kept hb hc, nofun⟩
  | changeSection | showPicker => exact ⟨⟨rfl, rfl, rfl, rfl, rfl, rfl⟩, nofun⟩
  | confirm => exact absurd rfl hconfirm
  | source | assembly => exact absurd trivial hreply

/-! ### The line of the source -/

/-- The source has the same line and the same instructions, or the instructions of its line have been
computed. -/
def LineKept (host : Host) (session : DebugSession) (model model' : TuiModel) : Prop :=
  (model'.source.selectedLine = model.source.selectedLine ∧
    model'.selectedLineInstructions = model.selectedLineInstructions) ∨
  ∃ instructions, getInstructionsForLine host session model.selectedCompUnitIndex.toNat
      (model'.source.selectedLine + 1).toNat = .ok instructions ∧
    model'.selectedLineInstructions = some instructions

/-- The line is changed. -/
theorem changeLine_lineKept {buffer : TuiBuffer} (hb : tuiBuffer model = some buffer)
    {rows : UInt32} {line : UInt64}
    (hr : (changeLine host session rows line buffer model).result = .ok model') :
    LineKept host session model model' := by
  have hchange := changeLine_ok hr
  obtain ⟨source, assembly, picker, cached, compUnitIndex, focusedWin, isPickerOpen⟩ := model
  cases focusedWin with
  | source =>
    cases hb
    rcases hchange with ⟨hsame, rfl⟩ | ⟨-, instructions, hget, rfl⟩
    · have hline : source.selectedLine = line := not_not.mp fun hne => hsame ⟨rfl, hne⟩
      exact .inl ⟨hline.symm, rfl⟩
    · exact .inr ⟨instructions, hget, rfl⟩
  | assembly | picker =>
    cases hb
    rcases hchange with ⟨-, rfl⟩ | ⟨⟨hfocus, -⟩, -⟩
    · exact .inl ⟨rfl, rfl⟩
    · cases hfocus
  | output | registers => cases hb

/-- **The line of the source** changes only along with its instructions, unless the buffer is a new
one. -/
theorem updateTui_lineKept (hreply : ¬ IsReply msg)
    (hr : (updateTui host session getmaxy msg model).result = .ok (model', cmd)) :
    LineKept host session model model' := by
  cases updateTui_updated hr with
  | line hb _ hc => exact changeLine_lineKept hb hc
  | same | changeSection | showPicker | confirm => exact .inl ⟨rfl, rfl⟩
  | source | assembly => exact absurd trivial hreply

/-! ### The selections -/

/-- **The selections** are lines of their buffers, as long as these have lines. -/
theorem updateTui_inLines (h : Buffers InLines model)
    (hr : (updateTui host session getmaxy msg model).result = .ok (model', cmd)) :
    Buffers InLines model' := by
  have hnew : ∀ lineCount, InLines { lineCount } := fun lineCount hc =>
    show (0 : UInt64) < lineCount by grind
  cases updateTui_updated hr with
  | same => exact h
  | line hb hline hc =>
    have hmoved := (buffers_moved_iff h hb _ _).mpr (hline (h.tuiBuffer hb))
    rcases changeLine_ok hc with ⟨-, rfl⟩ | ⟨-, _, -, rfl⟩
    · exact hmoved
    · exact ⟨hmoved.source, hmoved.assembly, hmoved.picker⟩
  | changeSection | showPicker | confirm => exact ⟨h.source, h.assembly, h.picker⟩
  | source => exact ⟨hnew _, h.assembly, h.picker⟩
  | assembly => exact ⟨h.source, hnew _, h.picker⟩

/-! ### The picker -/

/-- The picker has the focus exactly while it is open. -/
def PickerFocused (model : TuiModel) : Prop :=
  model.isPickerOpen = true ↔ model.focusedWin = .picker

theorem changeSection_eq_picker_iff (direction : Direction) (focused : TuiWindow) :
    changeSection direction focused = .picker ↔ focused = .picker := by
  cases direction <;> cases focused <;> decide

theorem showPicker_eq_picker_iff (isOpen : Bool) (focused : TuiWindow) :
    showPicker isOpen focused = .picker ↔ isOpen = true := by
  cases isOpen <;> cases focused <;> decide

theorem setTuiBuffer_focusedWin (model : TuiModel) (buffer : TuiBuffer) :
    (setTuiBuffer model buffer).focusedWin = model.focusedWin ∧
      (setTuiBuffer model buffer).isPickerOpen = model.isPickerOpen := by
  unfold setTuiBuffer
  split <;> exact ⟨rfl, rfl⟩

/-- **The picker** keeps the focus while it is open. -/
theorem updateTui_pickerFocused (h : PickerFocused model)
    (hr : (updateTui host session getmaxy msg model).result = .ok (model', cmd)) :
    PickerFocused model' := by
  cases updateTui_updated hr with
  | same | confirm | source | assembly => exact h
  | line _ _ hc =>
    have hmoved : ∀ rows line buffer, PickerFocused (moved rows line buffer model) := by
      intro rows line buffer
      obtain ⟨hfocus, hopen⟩ := setTuiBuffer_focusedWin model (selectLine rows line buffer)
      rw [PickerFocused, moved, hfocus, hopen]
      exact h
    rcases changeLine_ok hc with ⟨-, rfl⟩ | ⟨-, _, -, rfl⟩ <;> exact hmoved _ _ _
  | changeSection motion => exact h.trans (changeSection_eq_picker_iff _ _).symm
  | showPicker isOpen => exact (showPicker_eq_picker_iff isOpen model.focusedWin).symm

end Dabugger.Tui.Frame
