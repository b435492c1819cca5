import Dabugger.Tui.Frame

/-! # Units and buffers that are there

The model names a unit by its index, and it has the assembly of a unit or none. `Known` says what it
has in every state: the index is that of a unit if there are any, and without units there is no source.
`updateTui_safe_iff` says which messages reach for something that is not there. -/

namespace Dabugger.Tui.Bounds

open Dabugger.Lib.Runs Dabugger.Lib.Log Dabugger.Base Dabugger.Dwarf.Types Dabugger.Debug.Session
  Dabugger.Debug.Buffers Dabugger.Tui.Types Dabugger.Tui.Update Dabugger.Tui.Selection
  Dabugger.Tui.Frame

/-! ### What is reached for -/

/-- The unit, the instruction or the buffer is there. -/
def Safe (session : DebugSession) : Effect → Prop
  | .getInstructionsForLine _ compUnitIndex _ | .setSourceBreakpoint compUnitIndex _ =>
    compUnitIndex.toNat < session.lineInfo.compUnits.length
  | .readAddress model =>
    model.assembly.buffer ≠ none ∧ model.assembly.selectedLine < model.assembly.lineCount
  | .updateTui _ (.setSourceBuffer buffer) => buffer ≠ none
  | .updateTui _ (.setAssemblyBuffer buffer) => buffer ≠ none
  | _ => True

/-- What a message needs. -/
def Available (session : DebugSession) (model : TuiModel) : TuiMsg → Prop
  | .setSourceBuffer _ | .setAssemblyBuffer _ => session.lineInfo.compUnits ≠ []
  | .goToBufferLine motion => model.focusedWin = .source →
    motion.amount = Amount.bufferStart ∨ motion.amount = 1 ∨ session.lineInfo.compUnits ≠ []
  | .toggleBreakpoint =>
    (model.focusedWin = .source → session.lineInfo.compUnits ≠ []) ∧
      (model.focusedWin = .assembly → model.assembly.lineCount ≠ 0)
  | _ => True

/-- The units are those of the program. -/
theorem safe_congr {session session' : DebugSession} (hs : session'.lineInfo = session.lineInfo)
    (e : Effect) : Safe session' e = Safe session e := by
  unfold Safe
  rw [hs]

theorem available_congr {session session' : DebugSession}
    (hs : session'.lineInfo = session.lineInfo) (model : TuiModel) (msg : TuiMsg) :
    Available session' model msg = Available session model msg := by
  unfold Available
  rw [hs]

/-! ### What the model has -/

/-- What the model has of a session. -/
structure Known (session : DebugSession) (model : TuiModel) : Prop where
  lines : Buffers InLines model
  picker : model.picker.lineCount = UInt64.ofNat session.lineInfo.compUnits.length
  compUnitIndex : session.lineInfo.compUnits ≠ [] →
    model.selectedCompUnitIndex.toNat < session.lineInfo.compUnits.length
  source : session.lineInfo.compUnits = [] →
    model.source.lineCount = 0 ∧ model.source.selectedLine = 0
  assembly : model.assembly.lineCount ≠ 0 → model.assembly.buffer ≠ none

section
variable {host : Host} {session session' : DebugSession} {getmaxy : TuiWindow → UInt32}
  {model model' : TuiModel} {msg : TuiMsg} {cmd : TuiCmd}

theorem Known.congr (h : Known session model) (hs : session'.lineInfo = session.lineInfo) :
    Known session' model := by
  refine ⟨h.lines, ?_, ?_, ?_, h.assembly⟩ <;> rw [hs]
  · exact h.picker
  · exact h.compUnitIndex
  · exact h.source

/-- The picker at the start has a line for each unit. -/
theorem known_initialModel {picker : LinesBuffer} (h : getFilePickerBuffer session = .ok picker) :
    Known session (initialModel picker) := by
  unfold getFilePickerBuffer at h
  obtain ⟨lines, -, h⟩ := except_bind_ok h
  cases h
  have hstart : ∀ lineCount, InLines { lineCount } := fun lineCount hc =>
    show (0 : UInt64) < lineCount by grind
  exact
    { lines := ⟨hstart _, hstart _, hstart _⟩
      picker := rfl
      compUnitIndex := List.length_pos_of_ne_nil
      source := fun _ => ⟨rfl, rfl⟩
      assembly := fun hcount => absurd rfl hcount }

/-- The line that is selected in the picker is that of a unit. -/
theorem Known.picker_lt (h : Known session model) (hne : session.lineInfo.compUnits ≠ []) :
    model.picker.selectedLine.toNat < session.lineInfo.compUnits.length := by
  have hpos := List.length_pos_of_ne_nil hne
  have hlt := h.lines.picker
  rw [InLines, h.picker] at hlt
  have hmax := model.picker.selectedLine.toNat_lt
  by_cases hcount : session.lineInfo.compUnits.length < 2 ^ 64
  · have htoNat : (UInt64.ofNat session.lineInfo.compUnits.length).toNat =
        session.lineInfo.compUnits.length := UInt64.toNat_ofNat_of_lt' hcount
    have hlt := UInt64.lt_iff_toNat_lt.mp (hlt fun hzero => by
      rw [hzero] at htoNat
      exact hpos.ne htoNat)
    rwa [htoNat] at hlt
  · omega

/-- Without units there are no instructions of a line. -/
theorem getInstructionsForLine_ne_ok (hnone : session.lineInfo.compUnits = []) (index lineNum : ℕ)
    {instructions : List LineInfoEntry} :
    getInstructionsForLine host session index lineNum ≠ .ok instructions := by
  intro h
  obtain ⟨-, -, h⟩ := except_bind_ok h
  obtain ⟨compUnit, hunit, -⟩ := except_bind_ok h
  rw [hnone] at hunit
  cases hunit

/-- **A message** keeps what the model has. -/
theorem updateTui_known (h : Known session model)
    (hreply : IsReply msg → session.lineInfo.compUnits ≠ [])
    (hr : (updateTui host session getmaxy msg model).result = .ok (model', cmd)) :
    Known session model' := by
  have hlines := updateTui_inLines h.lines hr
  have hother : Kept model model' → LineKept host session model model' →
      Known session model' := by
    intro hk hline
    refine ⟨hlines, hk.pickerCount.trans h.picker, ?_, fun hnone => ?_, ?_⟩
    · rw [hk.compUnitIndex]
      exact h.compUnitIndex
    · obtain ⟨hcount, hzero⟩ := h.source hnone
      refine ⟨hk.sourceCount.trans hcount, ?_⟩
      rcases hline with ⟨hsame, -⟩ | ⟨_, hget, -⟩
      · exact hsame.trans hzero
      · exact absurd hget (getInstructionsForLine_ne_ok hnone _ _)
    · rw [hk.assemblyCount, hk.assemblyBuffer]
      exact h.assembly
  cases updateTui_updated hr with
  | same => exact h
  | line hb _ hc => exact hother (changeLine_kept hb hc) (changeLine_lineKept hb hc)
  | changeSection | showPicker =>
    exact ⟨hlines, h.picker, h.compUnitIndex, h.source, h.assembly⟩
  | confirm => exact ⟨hlines, h.picker, h.picker_lt, h.source, h.assembly⟩
  | source =>
    exact ⟨hlines, h.picker, h.compUnitIndex, fun hnone => absurd hnone (hreply trivial),
      h.assembly⟩
  | assembly => exact ⟨hlines, h.picker, h.compUnitIndex, h.source, nofun⟩

end

/-! ### Messages -/

/-- A message, its calls and its command reach for what is there only. -/
structure SafeMsg (host : Host) (session : DebugSession) (getmaxy : TuiWindow → UInt32)
    (model : TuiModel) (msg : TuiMsg) : Prop where
  passed : Safe session (.updateTui model msg)
  calls : Emits (Safe session) (updateTui host session getmaxy msg model)
  cmd : ∀ model' compUnitIndex lineNum, (updateTui host session getmaxy msg model).result =
    .ok (model', .toggleSourceBreakpoint compUnitIndex lineNum) →
      compUnitIndex.toNat < session.lineInfo.compUnits.length

section
variable {host : Host} {session : DebugSession} {getmaxy : TuiWindow → UInt32} {model : TuiModel}
  {msg : TuiMsg}

/-- The line is changed: the call for it is safe if there is the unit. -/
theorem changeLine_safe_iff {rows : UInt32} {line : UInt64} {buffer : TuiBuffer} :
    Emits (Safe session) (changeLine host session rows line buffer model) ↔
      (model.focusedWin = .source → buffer.selectedLine ≠ line →
        model.selectedCompUnitIndex.toNat < session.lineInfo.compUnits.length) := by
  constructor
  · intro hsafe hfocus hline
    exact hsafe _ (changeLine_call host session rows hfocus hline)
  · intro hlt e he
    obtain ⟨⟨hfocus, hline⟩, rfl⟩ := changeLine_log he
    exact hlt hfocus hline

/-- A null pointer in a message is read. -/
theorem safe_passed_of_ok {model' : TuiModel} {cmd : TuiCmd}
    (hr : (updateTui host session getmaxy msg model).result = .ok (model', cmd)) :
    Safe session (.updateTui model msg) := by
  cases msg with
  | setSourceBuffer buffer =>
    cases buffer with
    | none => cases hr
    | some => nofun
  | setAssemblyBuffer buffer =>
    cases buffer with
    | none => cases hr
    | some => nofun
  | _ => trivial

/-- A motion is safe if its calls are. -/
theorem safeMsg_motion_iff (hm : IsMotion msg) :
    SafeMsg host session getmaxy model msg ↔
      Emits (Safe session) (updateTui host session getmaxy msg model) := by
  refine ⟨SafeMsg.calls, fun hcalls => ⟨?_, hcalls, fun model' _ _ hr => ?_⟩⟩
  · cases msg with
    | bufferMotion | goToBufferLine => trivial
    | _ => cases hm
  · cases (updateTui_motion_ok hm hr).1

/-- A message that does nothing but change the model. -/
theorem safeMsg_of_pure {model' : TuiModel} {cmd : TuiCmd}
    (hpassed : Safe session (.updateTui model msg))
    (hd : updateTui host session getmaxy msg model = pure (model', cmd))
    (hcmd : ∀ compUnitIndex lineNum, cmd = .toggleSourceBreakpoint compUnitIndex lineNum →
      compUnitIndex.toNat < session.lineInfo.compUnits.length) :
    SafeMsg host session getmaxy model msg where
  passed := hpassed
  calls := by rw [hd]; exact .pure _
  cmd := by
    rw [hd]
    rintro _ _ _ ⟨⟩
    exact hcmd _ _ rfl

/-- A go-to in the source calls for the instructions of a unit that is there, or for none. -/
theorem goTo_lt_iff (h : Known session model) (motion : TuiMotion) :
    (model.source.selectedLine ≠ goToLine motion.amount model.source.toTuiBuffer →
        model.selectedCompUnitIndex.toNat < session.lineInfo.compUnits.length) ↔
      motion.amount = Amount.bufferStart ∨ motion.amount = 1 ∨
        session.lineInfo.compUnits ≠ [] := by
  by_cases hnone : session.lineInfo.compUnits = []
  · obtain ⟨hcount, hline⟩ := h.source hnone
    rw [← or_assoc, or_iff_left (not_not_intro hnone), ← goToLine_eq_zero_iff hcount, hline, hnone]
    exact ⟨fun hlt => not_not.mp fun hne => Nat.not_lt_zero _ (hlt (Ne.symm hne)),
      fun heq hne => absurd heq.symm hne⟩
  · exact iff_of_true (fun _ => h.compUnitIndex hnone) (.inr (.inr hnone))

theorem safeMsg_goTo_iff (h : Known session model) (motion : TuiMotion) :
    SafeMsg host session getmaxy model (.goToBufferLine motion) ↔
      Available session model (.goToBufferLine motion) := by
  have hm : IsMotion (.goToBufferLine motion) := trivial
  rw [safeMsg_motion_iff hm]
  cases hb : tuiBuffer model with
  | none =>
    rw [updateTui_goToBufferLine_none motion hb]
    refine iff_of_true (.pure _) fun hfocus => ?_
    rw [tuiBuffer, hfocus] at hb
    cases hb
  | some buffer =>
    rw [updateTui_goToBufferLine motion hb, Emits, log_bind_pure]
    refine changeLine_safe_iff.trans (forall_congr' fun hfocus => ?_)
    rw [tuiBuffer, hfocus] at hb
    cases hb
    exact goTo_lt_iff h motion

theorem safeMsg_toggleBreakpoint_iff (h : Known session model) :
    SafeMsg host session getmaxy model .toggleBreakpoint ↔
      Available session model .toggleBreakpoint := by
  cases hfocus : model.focusedWin with
  | source =>
    have hd : updateTui host session getmaxy .toggleBreakpoint model =
        pure (model, .toggleSourceBreakpoint model.selectedCompUnitIndex
          (model.source.selectedLine + 1)) := by
      rw [updateTui, hfocus]
    constructor
    · intro hsafe
      refine ⟨fun _ => List.ne_nil_of_length_pos ?_, fun hassembly => ?_⟩
      · exact (Nat.zero_le _).trans_lt (hsafe.cmd _ _ _ (by rw [hd]; rfl))
      · cases hfocus.symm.trans hassembly
    · intro havailable
      refine safeMsg_of_pure trivial hd ?_
      rintro _ _ ⟨⟩
      exact h.compUnitIndex (havailable.1 hfocus)
  | assembly =>
    constructor
    · intro hsafe
      refine ⟨fun hsource => ?_, fun _ hcount => ?_⟩
      · cases hfocus.symm.trans hsource
      · have hread := (hsafe.calls _ (updateTui_toggleBreakpoint_log.mpr ⟨hfocus, rfl⟩)).2
        rw [hcount] at hread
        exact absurd hread (by grind)
    · intro havailable
      have hcount := havailable.2 hfocus
      refine ⟨trivial, fun e he => ?_, fun _ _ _ hr => ?_⟩
      · obtain ⟨-, rfl⟩ := updateTui_toggleBreakpoint_log.mp he
        exact ⟨h.assembly hcount, h.lines.assembly hcount⟩
      · obtain ⟨-, _, hcmd⟩ := updateTui_toggleBreakpoint_assembly hfocus hr
        cases hcmd
  | output | registers | picker =>
    have hd : updateTui host session getmaxy .toggleBreakpoint model = pure (model, .none) := by
      rw [updateTui, hfocus]
    rw [Available, hfocus]
    exact iff_of_true (safeMsg_of_pure trivial hd (by rintro _ _ ⟨⟩))
      ⟨by rintro ⟨⟩, by rintro ⟨⟩⟩

/-- **One message** is safe exactly if what it needs is there. -/
theorem safeMsg_iff (h : Known session model)
    (hpassed : Safe session (.updateTui model msg) ↔
      (IsReply msg → session.lineInfo.compUnits ≠ [])) :
    SafeMsg host session getmaxy model msg ↔ Available session model msg := by
  cases msg with
  | bufferMotion motion =>
    have hm : IsMotion (.bufferMotion motion) := trivial
    rw [safeMsg_motion_iff hm]
    refine iff_of_true ?_ trivial
    rcases updateTui_bufferMotion host session getmaxy model motion with
      hd | hd | ⟨buffer, distance, hb, hcount, hd⟩
    · rw [hd]; exact .pure _
    · rw [hd]; exact .fail _
    · rw [hd]
      refine Emits.bind (changeLine_safe_iff.mpr fun hfocus _ => ?_) fun _ _ => .pure _
      refine h.compUnitIndex fun hnone => hcount ?_
      rw [tuiBuffer, hfocus] at hb
      cases hb
      exact (h.source hnone).1
  | goToBufferLine motion => exact safeMsg_goTo_iff h motion
  | toggleBreakpoint => exact safeMsg_toggleBreakpoint_iff h
  | setSourceBuffer buffer | setAssemblyBuffer buffer =>
    refine ⟨fun hsafe => hpassed.mp hsafe.passed trivial, fun hne => ?_⟩
    have hsafe := hpassed.mpr fun _ => hne
    cases buffer with
    | none => exact absurd rfl hsafe
    | some => exact safeMsg_of_pure hsafe rfl (by nofun)
  | changeSection | confirm | showPicker | runDebuggee | outputUpdate | quit | none
    | stepInstruction | stepOver =>
    exact iff_of_true (safeMsg_of_pure trivial rfl (by nofun)) trivial

end

end Dabugger.Tui.Bounds
