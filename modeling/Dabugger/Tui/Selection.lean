import Dabugger.Lib.Runs
import Dabugger.Tui.Input
import Dabugger.Tui.Update

/-! # The selection stays in its buffer

`MSG_BUFFER_MOTION` leaves an empty buffer alone. `MSG_GO_TO_BUFFER_LINE` does not: it takes
`line_count - 1` for the last line of whatever buffer has the focus. Hence a selection leaves its buffer
exactly where a go-to, other than to the start or to line 1, is handled with an empty buffer
(`selection_iff`). In a buffer that is not empty the selection is always one of its lines
(`Bounded.step`). -/

namespace Dabugger.Tui.Selection

open Dabugger.Lib.Runs Dabugger.Lib.Log Dabugger.Base Dabugger.Dwarf.Types Dabugger.Debug.Session
  Dabugger.Debug.Buffers Dabugger.Tui.Types Dabugger.Tui.Input Dabugger.Tui.Update

/-! ### One buffer -/

/-- The selection is a line of the buffer, or the first line of an empty one. -/
def Within (buffer : TuiBuffer) : Prop :=
  buffer.lineCount = 0 ∧ buffer.selectedLine = 0 ∨ buffer.selectedLine < buffer.lineCount

theorem motionLine_lt (direction : Direction) (distance : UInt64) {buffer : TuiBuffer}
    (h : buffer.selectedLine < buffer.lineCount) :
    motionLine direction distance buffer < buffer.lineCount := by
  unfold motionLine
  cases direction with
  | down | up =>
    dsimp only
    split <;> grind
  | left | right => exact h

theorem goToLine_lt (amount : Int64) {buffer : TuiBuffer} (h : buffer.lineCount ≠ 0) :
    goToLine amount buffer < buffer.lineCount := by
  unfold goToLine
  dsimp only
  split_ifs <;> grind

/-- The line of a go-to in an empty buffer. -/
theorem goToLine_eq_zero_iff {amount : Int64} {buffer : TuiBuffer} (h : buffer.lineCount = 0) :
    goToLine amount buffer = 0 ↔ amount = Amount.bufferStart ∨ amount = 1 := by
  have hone : amount.toUInt64 - 1 = 0 ↔ amount = 1 := by
    have hinj : amount.toUInt64 = 1 ↔ amount = 1 := by
      rw [← Int64.toInt64_toUInt64 amount]
      exact ⟨congrArg UInt64.toInt64, congrArg Int64.toUInt64⟩
    rw [← hinj]
    grind
  unfold goToLine
  rw [h]
  dsimp only
  split_ifs with hend hstart hlt
  · rw [hend]
    decide
  · exact iff_of_true rfl (.inl hstart)
  · rw [hone]
    exact (or_iff_right hstart).symm
  · refine iff_of_false (by decide) ?_
    rintro (hs | hs)
    · exact hstart hs
    · rw [hs] at hlt
      exact hlt (by decide)

theorem Within.lt {buffer : TuiBuffer} (h : Within buffer) (hc : buffer.lineCount ≠ 0) :
    buffer.selectedLine < buffer.lineCount := h.resolve_left fun h => hc h.1

/-- The number of the selected line, counted from 1. -/
theorem Within.succ_ne_zero {buffer : TuiBuffer} (h : Within buffer) :
    buffer.selectedLine + 1 ≠ 0 := by
  rcases h with ⟨-, hzero⟩ | hlt
  · rw [hzero]
    decide
  · grind

theorem within_selectLine {buffer : TuiBuffer} {line : UInt64} (h : line < buffer.lineCount)
    (rows : UInt32) : Within (selectLine rows line buffer) := .inr h

theorem within_goTo_iff (rows : UInt32) (amount : Int64) (buffer : TuiBuffer) :
    Within (selectLine rows (goToLine amount buffer) buffer) ↔
      amount = Amount.bufferStart ∨ amount = 1 ∨ buffer.lineCount ≠ 0 := by
  rw [← or_assoc]
  by_cases hcount : buffer.lineCount = 0
  · rw [or_iff_left (not_not_intro hcount), ← goToLine_eq_zero_iff hcount, Within]
    change buffer.lineCount = 0 ∧ _ ∨ goToLine amount buffer < buffer.lineCount ↔ _
    rw [hcount, or_iff_left (by grind)]
    exact and_iff_right rfl
  · exact iff_of_true (.inr (goToLine_lt amount hcount)) (.inr hcount)

/-- A new buffer, of any number of lines. -/
theorem within_start (lineCount : UInt64) : Within { lineCount } := by
  by_cases h : lineCount = 0
  · exact .inl ⟨h, rfl⟩
  · exact .inr (show (0 : UInt64) < lineCount by grind)

/-! ### The buffers of the model -/

/-- What holds of the three buffers that have a selection. -/
structure Buffers (P : TuiBuffer → Prop) (model : TuiModel) : Prop where
  source : P model.source.toTuiBuffer
  assembly : P model.assembly.toTuiBuffer
  picker : P model.picker.toTuiBuffer

section
variable {P : TuiBuffer → Prop} {model : TuiModel} {buffer buffer' : TuiBuffer}

theorem Buffers.tuiBuffer (h : Buffers P model) (hb : tuiBuffer model = some buffer) :
    P buffer := by
  unfold Update.tuiBuffer at hb
  split at hb
  · cases hb; exact h.source
  · cases hb; exact h.assembly
  · cases hb; exact h.picker
  · cases hb
  · cases hb

theorem Buffers.setTuiBuffer (h : Buffers P model) (hb : P buffer) :
    Buffers P (setTuiBuffer model buffer) := by
  unfold Update.setTuiBuffer
  split
  · exact ⟨hb, h.assembly, h.picker⟩
  · exact ⟨h.source, hb, h.picker⟩
  · exact ⟨h.source, h.assembly, hb⟩
  · exact h
  · exact h

/-- A line that is selected in the buffer that has the focus. -/
theorem buffers_moved_iff (h : Buffers P model) (hb : Update.tuiBuffer model = some buffer)
    (rows : UInt32) (line : UInt64) :
    Buffers P (moved rows line buffer model) ↔ P (selectLine rows line buffer) :=
  ⟨fun hm => hm.tuiBuffer (tuiBuffer_setTuiBuffer hb _), h.setTuiBuffer⟩

end

/-! ### Messages -/

/-- A message, and what it is handled with. -/
structure Delivery where
  session : DebugSession
  getmaxy : TuiWindow → UInt32
  model : TuiModel
  msg : TuiMsg

/-- The message is handled. -/
def Delivery.updateTui (host : Host) (d : Delivery) : Effectful (TuiModel × TuiCmd) :=
  Update.updateTui host d.session d.getmaxy d.msg d.model

/-- One message, and the model that it leaves. -/
def Delivered (host : Host) (model : TuiModel) (d : Delivery) (model' : TuiModel) : Prop :=
  d.model = model ∧ ∃ cmd, (d.updateTui host).result = .ok (model', cmd)

/-- The selections are within their buffers when a call is made, and none asks for line 0. -/
def CallWithin : Effect → Prop
  | .getInstructionsForLine model _ lineNum => Buffers Within model ∧ lineNum ≠ 0
  | _ => True

/-- The selections stay within their buffers. -/
structure KeepsSelection (host : Host) (d : Delivery) : Prop where
  calls : Emits CallWithin (d.updateTui host)
  returns : ∀ model' cmd, (d.updateTui host).result = .ok (model', cmd) → Buffers Within model'

/-- A go-to is to the start, to line 1, or in a buffer that is not empty. -/
def Guarded (d : Delivery) : Prop :=
  ∀ motion, d.msg = .goToBufferLine motion → motion.amount = Amount.bufferStart ∨
    motion.amount = 1 ∨ ∀ buffer, tuiBuffer d.model = some buffer → buffer.lineCount ≠ 0

section
variable {host : Host} {d : Delivery}

/-- The line is changed in a buffer. -/
theorem keepsSelection_changeLine_iff (h : Buffers Within d.model) {buffer : TuiBuffer}
    (hb : tuiBuffer d.model = some buffer) {rows : UInt32} {line : UInt64}
    (hd : d.updateTui host = changeLine host d.session rows line buffer d.model >>=
      fun model => pure (model, .none)) :
    KeepsSelection host d ↔ Within (selectLine rows line buffer) := by
  have hmoved := buffers_moved_iff h hb rows line
  have hlog := log_bind_pure (changeLine host d.session rows line buffer d.model)
    (fun model => (model, TuiCmd.none))
  rw [← hd] at hlog
  constructor
  · intro hk
    by_cases hchanged : d.model.focusedWin = .source ∧ buffer.selectedLine ≠ line
    · have hcall := changeLine_call host d.session rows hchanged.1 hchanged.2
      rw [← hlog] at hcall
      exact hmoved.mp (hk.calls _ hcall).1
    · rw [changeLine_pure hchanged] at hd
      exact hmoved.mp (hk.returns _ _ (by rw [hd]; rfl))
  · intro hw
    refine ⟨fun e he => ?_, fun model' cmd hr => ?_⟩
    · rw [hlog] at he
      obtain ⟨-, rfl⟩ := changeLine_log he
      exact ⟨hmoved.mpr hw, hw.succ_ne_zero⟩
    · rw [hd] at hr
      obtain ⟨m, hm, hr, -⟩ := bind_ok hr
      cases hr
      have hmoved := hmoved.mpr hw
      rcases changeLine_ok hm with ⟨-, rfl⟩ | ⟨-, _, -, rfl⟩
      · exact hmoved
      · exact ⟨hmoved.source, hmoved.assembly, hmoved.picker⟩

/-- A message that changes no buffer. -/
theorem keepsSelection_of_ok {model' : TuiModel} {cmd : TuiCmd}
    (hd : d.updateTui host = pure (model', cmd)) (h : Buffers Within model') :
    KeepsSelection host d where
  calls := by rw [hd]; exact .pure _
  returns := by
    rw [hd]
    rintro _ _ ⟨⟩
    exact h

theorem keepsSelection_of_fail {f : Fault} (hd : d.updateTui host = fail f) :
    KeepsSelection host d where
  calls := by
    rw [hd]
    rintro e ⟨⟩
  returns := by
    rw [hd]
    rintro _ _ ⟨⟩

theorem guarded_goTo_iff {session : DebugSession} {getmaxy : TuiWindow → UInt32} {model : TuiModel}
    {motion : TuiMotion} {buffer : TuiBuffer} (hb : tuiBuffer model = some buffer) :
    Guarded ⟨session, getmaxy, model, .goToBufferLine motion⟩ ↔
      motion.amount = Amount.bufferStart ∨ motion.amount = 1 ∨ buffer.lineCount ≠ 0 := by
  constructor
  · intro hg
    exact (hg motion rfl).imp_right (Or.imp_right fun hc => hc buffer hb)
  · rintro hg _ ⟨⟩
    refine hg.imp_right (Or.imp_right fun hc buffer' hb' => ?_)
    cases hb.symm.trans hb'
    exact hc

/-- **One message.** -/
theorem keepsSelection_iff (h : Buffers Within d.model) : KeepsSelection host d ↔ Guarded d := by
  obtain ⟨session, getmaxy, model, msg⟩ := d
  cases msg with
  | goToBufferLine motion =>
    cases hb : tuiBuffer model with
    | none =>
      exact iff_of_true (keepsSelection_of_ok (updateTui_goToBufferLine_none motion hb) h)
        fun _ _ => .inr (.inr fun buffer hbuffer => by rw [hb] at hbuffer; cases hbuffer)
    | some buffer =>
      rw [keepsSelection_changeLine_iff h hb (updateTui_goToBufferLine motion hb)]
      exact (within_goTo_iff _ _ _).trans (guarded_goTo_iff hb).symm
  | bufferMotion motion =>
    refine iff_of_true ?_ nofun
    rcases updateTui_bufferMotion host session getmaxy model motion with
      hd | hd | ⟨buffer, distance, hb, hcount, hd⟩
    · exact keepsSelection_of_ok hd h
    · exact keepsSelection_of_fail hd
    · exact (keepsSelection_changeLine_iff h hb hd).mpr
        (within_selectLine (motionLine_lt motion.direction distance ((h.tuiBuffer hb).lt hcount)) _)
  | changeSection | confirm | showPicker | runDebuggee | outputUpdate | quit | none
    | stepInstruction | stepOver =>
    exact iff_of_true (keepsSelection_of_ok rfl ⟨h.source, h.assembly, h.picker⟩) nofun
  | setSourceBuffer newSourceBuffer =>
    refine iff_of_true ?_ nofun
    cases newSourceBuffer with
    | none => exact keepsSelection_of_fail rfl
    | some => exact keepsSelection_of_ok rfl ⟨within_start _, h.assembly, h.picker⟩
  | setAssemblyBuffer newAssemblyBuffer =>
    refine iff_of_true ?_ nofun
    cases newAssemblyBuffer with
    | none => exact keepsSelection_of_fail rfl
    | some => exact keepsSelection_of_ok rfl ⟨h.source, within_start _, h.picker⟩
  | toggleBreakpoint =>
    refine iff_of_true ⟨fun e he => ?_, fun model' cmd hr => ?_⟩ nofun
    · obtain ⟨-, rfl⟩ := updateTui_toggleBreakpoint_log.mp he
      trivial
    · rw [(updateTui_toggleBreakpoint_ok hr).1]
      exact h

end

/-! ### Runs -/

theorem initialModel_within (picker : LinesBuffer) : Buffers Within (initialModel picker) :=
  ⟨within_start 0, within_start 0, within_start picker.lineCount⟩

/-- **The selections.** In every sequence of messages to the initial model, whether the last one
returns or not, the selections stay within their buffers and no line 0 is asked for, exactly if every
go-to is to the start, to line 1, or in a buffer that is not empty. -/
theorem selection_iff (host : Host) (picker : LinesBuffer) {ds : List Delivery} {model : TuiModel}
    (r : Run (Delivered host) (initialModel picker) ds model) (d : Delivery) (hd : d.model = model) :
    (∀ e ∈ ds ++ [d], KeepsSelection host e) ↔ ∀ e ∈ ds ++ [d], Guarded e := by
  have h := initialModel_within picker
  generalize initialModel picker = model₀ at r h
  induction r with
  | refl _ =>
    subst hd
    rw [List.nil_append, List.forall_mem_singleton, List.forall_mem_singleton, keepsSelection_iff h]
  | step hs _ ih =>
    obtain ⟨rfl, cmd, hr⟩ := hs
    rw [List.cons_append, List.forall_mem_cons, List.forall_mem_cons]
    constructor
    · rintro ⟨hk, hrest⟩
      exact ⟨(keepsSelection_iff h).mp hk, (ih hd (hk.returns _ _ hr)).mp hrest⟩
    · rintro ⟨hg, hrest⟩
      have hk : KeepsSelection host _ := (keepsSelection_iff h).mpr hg
      exact ⟨hk, (ih hd (hk.returns _ _ hr)).mpr hrest⟩

/-- A picker with a line. -/
def samplePicker : LinesBuffer := { lineCount := 1, lines := [none] }

/-- The picker is opened, and `j` is typed. -/
theorem selection_iff_sample : ∃ ds d,
    Run (Delivered (Host.zeroed true)) (initialModel samplePicker) ds d.model ∧
      d.msg = .bufferMotion ⟨.down, 1⟩ ∧
      ∀ e ∈ ds ++ [d], KeepsSelection (Host.zeroed true) e := by
  have r : Run (Delivered (Host.zeroed true)) (initialModel samplePicker)
      [⟨sampleSession [], fun _ => 10, _, .showPicker true⟩] _ :=
    .single ⟨rfl, .none, rfl⟩
  refine ⟨_, ⟨sampleSession [], fun _ => 10, _, .bufferMotion ⟨.down, 1⟩⟩, r, rfl, ?_⟩
  refine (selection_iff (Host.zeroed true) samplePicker r _ rfl).mpr ?_
  rintro _ (_ | ⟨_, _ | ⟨_, ⟨⟩⟩⟩) <;> exact nofun

/-- `G` is typed at the start: the selection is the last line of no lines. -/
theorem not_selection_goTo :
    ¬ ∀ (session : DebugSession) (getmaxy : TuiWindow → UInt32) (picker : LinesBuffer) (ch : ℤ),
      KeepsSelection (Host.zeroed true) ⟨session, getmaxy, initialModel picker,
        (onStdinInput (initialModel picker) {} ch).1⟩ := by
  intro h
  have hcall := (h (sampleSession []) (fun _ => 10) samplePicker 71).calls
    (.getInstructionsForLine (moved 7 (0 - 1) {} (initialModel samplePicker)) 0 0) (by
      exact List.mem_cons_self)
  exact hcall.2 rfl

end Dabugger.Tui.Selection
