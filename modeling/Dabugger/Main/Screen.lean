import Dabugger.Main.Instructions
import Dabugger.Main.Safety
import Dabugger.Tui.Inside
import Dabugger.Tui.Panes

/-! # The loop with its screen

Each turn of main's loop begins with `view_tui`, on the terminal as it is then; the windows that it
leaves are those that `update_tui` asks for their height. In every run the buffers of the model can be
shown, so that the view fails only at a full output buffer and at a picker with a line that is null
(`run_view_succeeds_iff`), and the texts begin between the borders of their windows but for three panes
that do not follow the size of the terminal (`run_inside_iff`); and as long as no window with lines gets
lower, the selected lines are on the screen (`run_highlighted`). -/

namespace Dabugger.Main.Screen

open Dabugger.Lib.Runs Dabugger.Lib.Log Dabugger.Base Dabugger.Dwarf.Types Dabugger.Debug.Session
  Dabugger.Debug.Store Dabugger.Debug.Inferior Dabugger.Debug.Events Dabugger.Debug.Buffers
  Dabugger.Debug.BufferLines Dabugger.Tui.Types Dabugger.Tui.Update Dabugger.Tui.Frame
  Dabugger.Tui.Selection Dabugger.Tui.Bounds Dabugger.Tui.OutputPane Dabugger.Tui.View Dabugger.Tui.Drawn
  Dabugger.Tui.Panes Dabugger.Tui.Inside Dabugger.Main.Queue Dabugger.Main.Loop Dabugger.Main.Phases
  Dabugger.Main.Instructions

/-! ### State -/

/-- The variables of `main`, and the windows of `view_tui`. -/
structure ScreenState where
  main : MainState
  windows : Windows

/-- The state at the start of the loop. -/
def Initial (s : ScreenState) : Prop := Loop.Initial s.main ∧ s.windows = noWindows

/-- One iteration: the view and the turn; or a step of the debuggee. A view that fails ends the run, so
that there is no step behind an output buffer that is full. -/
inductive Step (m : Machine) (isprint : UInt8 → Bool) (s : ScreenState) :
    List Call × List Effect → ScreenState → Prop
  | turn (terminal : Terminal) (around : Surroundings) {windows : Windows} {main : MainState}
      (hgo : s.main.currentMsg ≠ .quit)
      (hview : (viewTui isprint terminal s.main.world.session s.main.model s.windows).result =
        .ok windows)
      (h : (Loop.turn m { around with getmaxy := getmaxy windows } s.main).result = .ok main) :
      Step m isprint s
        ((viewTui isprint terminal s.main.world.session s.main.model s.windows).log,
          (Loop.turn m { around with getmaxy := getmaxy windows } s.main).log) ⟨main, windows⟩
  | debuggee {e : Event} {world : World} (he : OfDebuggee e)
      (h : Debug.Events.Step m.host s.main.world e world) :
      Step m isprint s ([], []) ⟨{ s.main with world }, s.windows⟩

section
variable {m : Machine} {isprint : UInt8 → Bool} {s t : ScreenState}
  {label : List Call × List Effect} {labels : List (List Call × List Effect)}

/-- **A step with the screen** is one of the loop. -/
theorem Step.main (h : Step m isprint s label t) : Loop.Step m s.main label.2 t.main := by
  cases h with
  | turn _ around hgo _ h => exact .turn _ hgo h
  | debuggee he h => exact .debuggee he h

theorem run_main (r : Run (Step m isprint) s labels t) :
    Run (Loop.Step m) s.main (labels.map Prod.snd) t.main := by
  induction r with
  | refl s => exact .refl _
  | step h _ ih => exact .step h.main ih

end

/-! ### The output -/

section
variable {m : Machine} {s t : MainState} {logs : List (List Effect)}

/-- The events of a run, with what has been received. -/
theorem run_watched {host : Host} {w w' : World} {es : List Event}
    (r : Run (Debug.Events.Step host) w es w') (received : List UInt8) :
    ∃ received', Run (WatchedStep host) (w, received) es (w', received') := by
  induction r generalizing received with
  | refl w => exact ⟨received, .refl _⟩
  | @step w w₁ w' e es h _ ih =>
    obtain ⟨received', r'⟩ := ih (receivedSince w e w₁ received)
    have hstep : WatchedStep host (w, received) e (w₁, receivedSince w e w₁ received) := ⟨h, rfl⟩
    exact ⟨received', .step hstep r'⟩

/-- The output buffer has its size in every state. -/
theorem run_output (h₀ : Loop.Initial s) (r : Run (Loop.Step m) s logs t) :
    t.world.session.output.buffer.length = maxOutputSize := by
  obtain ⟨es, re⟩ := run_events r
  obtain ⟨received, rw⟩ := run_watched re []
  obtain ⟨world, picker, hworld, -, rfl⟩ := h₀
  exact (run_pane hworld rw).length

end

/-! ### The buffers -/

/-- What the screen needs of a state. -/
structure Displayed (m : Machine) (s : MainState) : Prop where
  loaded : Safety.Loaded m s
  viewable : Viewable s.model
  picker : ∃ picker, s.model.picker.buffer = some picker ∧
    getFilePickerBuffer s.world.session = .ok picker

section
variable {m : Machine} {around : Surroundings} {s t : MainState} {log : List Effect}
  {model model' : TuiModel}

/-- The same buffers can be shown. -/
theorem viewable_kept (h : Viewable model) (hk : Kept model model') : Viewable model' := by
  constructor
  · rw [SourceViewable, hk.sourceBuffer, hk.sourceCount]
    exact h.source
  · rw [AssemblyViewable, hk.assemblyBuffer, hk.assemblyCount]
    exact h.assembly

/-- The buffer of the picker is never changed. -/
theorem updateTui_pickerBuffer {host : Host} {session : DebugSession}
    {getmaxy : TuiWindow → UInt32} {msg : TuiMsg} {cmd : TuiCmd}
    (hr : (updateTui host session getmaxy msg model).result = .ok (model', cmd)) :
    model'.picker.buffer = model.picker.buffer := by
  cases updateTui_updated hr with
  | same | changeSection | showPicker | confirm | source | assembly => rfl
  | line hb _ hc =>
    have hmoved : ∀ rows line buffer,
        (moved rows line buffer model).picker.buffer = model.picker.buffer := by
      intro rows line buffer
      obtain ⟨source, assembly, picker, instructions, index, focusedWin, isPickerOpen⟩ := model
      cases focusedWin <;> rfl
    rcases changeLine_ok hc with ⟨-, rfl⟩ | ⟨-, _, -, rfl⟩ <;> exact hmoved _ _ _

/-- **The buffers after a turn** can be shown. -/
theorem advanced_viewable {confirmed : Prop} (ha : Advanced m around s log t)
    (hphase : Phase m confirmed s.world.session s.model (significant s))
    (hv : Viewable s.model) : Viewable t.model ∧
      t.model.picker.buffer = s.model.picker.buffer := by
  cases ha with
  | waits _ hmodel | arrives _ _ hmodel =>
    rw [hmodel]
    exact ⟨hv, rfl⟩
  | key _ _ hreply hconfirm hu =>
    exact ⟨viewable_kept hv (updateTui_kept hreply hconfirm hu).1, updateTui_pickerBuffer hu⟩
  | confirm _ _ hmodel =>
    rw [hmodel]
    exact ⟨⟨hv.source, hv.assembly⟩, rfl⟩
  | source _ hs hmodel =>
    rw [hs] at hphase
    rw [hmodel]
    cases hphase with
    | typed hreply => exact absurd trivial hreply
    | source hsource =>
      exact ⟨⟨fun _ => ⟨_, rfl, getSourceBuffer_filled hsource, rfl⟩, hv.assembly⟩, rfl⟩
  | assembly _ hs hmodel =>
    rw [hs] at hphase
    rw [hmodel]
    cases hphase with
    | typed hreply => exact absurd trivial hreply
    | assembly _ hassembly =>
      exact ⟨⟨hv.source, fun _ => ⟨_, rfl, getAssemblyBuffer_filled hassembly, rfl⟩⟩, rfl⟩

/-- **One step.** -/
theorem Displayed.step (h : Displayed m s) (hs : Loop.Step m s log t) : Displayed m t := by
  obtain ⟨confirmed, hd⟩ := h.loaded.delivered
  obtain ⟨es, r⟩ := hs.events
  have hprogram := run_sameProgram r hd.inv
  obtain ⟨picker, hpicker, hget⟩ := h.picker
  have hget' : getFilePickerBuffer t.world.session = .ok picker := by
    rw [← hget, getFilePickerBuffer, getFilePickerBuffer, hprogram.lineInfo,
      hprogram.programData]
  have hmodel : Viewable t.model ∧ t.model.picker.buffer = s.model.picker.buffer := by
    cases hs with
    | turn _ _ hr =>
      exact advanced_viewable (turned_advanced (turn_turned hr)) hd.phase h.viewable
    | debuggee _ _ => exact ⟨h.viewable, rfl⟩
  exact ⟨h.loaded.step hs, hmodel.1, picker, hmodel.2.trans hpicker, hget'⟩

theorem Displayed.of_initial (h : Loop.Initial s) : Displayed m s := by
  have hloaded := Safety.Loaded.of_initial (m := m) h
  obtain ⟨world, picker, -, hpicker, rfl⟩ := h
  exact ⟨hloaded, ⟨fun hc => absurd rfl hc, fun hc => absurd rfl hc⟩, picker, rfl, hpicker⟩

/-- **In every state of a run** the buffers can be shown. -/
theorem run_displayed {logs : List (List Effect)} (h₀ : Loop.Initial s)
    (r : Run (Loop.Step m) s logs t) : Displayed m t :=
  r.invariant (fun _ _ _ hs h => h.step hs) (.of_initial h₀)

end

/-! ### When the view fails -/

section
variable {session : DebugSession} {picker : LinesBuffer}

/-- The lines of the picker, one for each unit. -/
theorem getFilePickerBuffer_ok (h : getFilePickerBuffer session = .ok picker) :
    picker.lineCount = UInt64.ofNat session.lineInfo.compUnits.length ∧
      List.Forall₂ (fun compUnit line =>
        getFilePath session.programData.sections.debugLineStr.data compUnit.header 0 = .ok line)
        session.lineInfo.compUnits picker.lines := by
  unfold getFilePickerBuffer at h
  obtain ⟨lines, hlines, h⟩ := except_bind_ok h
  cases h
  exact ⟨rfl, except_mapM_ok hlines⟩

/-- A line of the picker is null if the path of its unit is. -/
theorem none_mem_picker_iff (h : getFilePickerBuffer session = .ok picker) :
    none ∈ picker.lines ↔ ∃ compUnit ∈ session.lineInfo.compUnits,
      getFilePath session.programData.sections.debugLineStr.data compUnit.header 0 = .ok none := by
  have hall := (getFilePickerBuffer_ok h).2
  generalize session.lineInfo.compUnits = compUnits at hall ⊢
  generalize picker.lines = lines at hall ⊢
  induction hall with
  | nil => exact iff_of_false List.not_mem_nil fun ⟨_, hmem, _⟩ => List.not_mem_nil hmem
  | cons hline _ ih =>
    rw [List.mem_cons, List.exists_mem_cons_iff, hline, Except.ok.injEq, eq_comm]
    exact or_congr_right ih

end

/-- **When the view succeeds.** In every state of a run, on every terminal that is large enough: if
there is a byte at the cursor of the output, and, while the picker is open, every unit has a path. -/
theorem run_view_succeeds_iff (m : Machine) (isprint : UInt8 → Bool) {s₀ s : ScreenState}
    {labels : List (List Call × List Effect)} (h₀ : Initial s₀)
    (r : Run (Step m isprint) s₀ labels s)
    (hunits : s.main.world.session.lineInfo.compUnits.length < 2 ^ 64) (terminal : Terminal) :
    Succeeds (viewTui isprint terminal s.main.world.session s.main.model s.windows) ↔
      (¬ TooSmall terminal →
        s.main.world.session.output.cursor < maxOutputSize ∧
        (s.main.model.isPickerOpen = true →
          ∀ compUnit ∈ s.main.world.session.lineInfo.compUnits,
            getFilePath s.main.world.session.programData.sections.debugLineStr.data
              compUnit.header 0 ≠ .ok none)) := by
  have rm := run_main r
  have hdisplayed := run_displayed h₀.1 rm
  obtain ⟨picker, hpicker, hget⟩ := hdisplayed.picker
  obtain ⟨hcount, hlines⟩ := getFilePickerBuffer_ok hget
  have hlength : picker.lines.length = picker.lineCount.toNat := by
    rw [hcount, UInt64.toNat_ofNat_of_lt' hunits, hlines.length_eq]
  have hnone : none ∉ picker.lines ↔ ∀ compUnit ∈ s.main.world.session.lineInfo.compUnits,
      getFilePath s.main.world.session.programData.sections.debugLineStr.data
        compUnit.header 0 ≠ .ok none := by
    rw [none_mem_picker_iff hget]
    exact ⟨fun h compUnit hmem hnull => h ⟨compUnit, hmem, hnull⟩,
      fun h ⟨compUnit, hmem, hnull⟩ => h compUnit hmem hnull⟩
  rw [viewTui_succeeds_iff_of_viewable hdisplayed.viewable hpicker hlength, run_output h₀.1 rm,
    hnone]

/-- A terminal. -/
def sampleTerminal : Terminal := ⟨24, 80, by decide, by decide⟩

/-- The picker of a unit with a path is shown. -/
theorem run_view_succeeds_iff_sample : ∃ labels s,
    Run (Step sampleMachine fun _ => true) ⟨sampleStart [], noWindows⟩ labels s ∧
      s.main.model.isPickerOpen = true ∧
      Succeeds (viewTui (fun _ => true) sampleTerminal s.main.world.session s.main.model
        s.windows) := by
  have r : Run (Step sampleMachine fun _ => true) ⟨sampleStart [], noWindows⟩ _ _ :=
    .step (.turn sampleTerminal (key 16) nofun rfl rfl)
      (.single (.turn sampleTerminal {} nofun rfl rfl))
  refine ⟨_, _, r, rfl, ?_⟩
  refine (run_view_succeeds_iff _ _ ⟨sampleStart_initial [], rfl⟩ r ?_ _).mpr fun _ => ⟨?_, ?_⟩
  · decide
  · decide
  · exact fun _ => List.forall_mem_singleton.mpr nofun

/-! ### Where the texts begin -/

/-- **Where the texts begin.** In every state of a run, on every terminal that is large enough, a view
that succeeds begins each text, and each line of the output, between the borders of its window if and
only if the terminal has in a third of its rows room for the lines of the output, 64 columns while there
are registers to show, and in half its rows room for one line of each unit while the picker is open. -/
theorem run_inside_iff (m : Machine) (isprint : UInt8 → Bool) {s₀ s : ScreenState}
    {labels : List (List Call × List Effect)} (h₀ : Initial s₀)
    (r : Run (Step m isprint) s₀ labels s)
    (hunits : s.main.world.session.lineInfo.compUnits.length < 2 ^ 64) {terminal : Terminal}
    (hbig : ¬ TooSmall terminal)
    (h : Succeeds (viewTui isprint terminal s.main.world.session s.main.model s.windows)) :
    Emits (BeginsInside terminal)
        (viewTui isprint terminal s.main.world.session s.main.model s.windows) ↔
      newlines s.main.world.session.output + 3 < terminal.rows.toNat / 3 ∧
      (s.main.world.session.state ≠ .dead → 64 ≤ terminal.cols.toNat) ∧
      (s.main.model.isPickerOpen = true →
        s.main.world.session.lineInfo.compUnits.length + 3 ≤ terminal.rows.toNat / 2) := by
  obtain ⟨picker, hpicker, hget⟩ := (run_displayed h₀.1 (run_main r)).picker
  have hcount : picker.lineCount.toNat = s.main.world.session.lineInfo.compUnits.length := by
    rw [(getFilePickerBuffer_ok hget).1, UInt64.toNat_ofNat_of_lt' hunits]
  rw [viewTui_inside_iff hbig h, ← hcount]
  refine and_congr_right fun _ => and_congr_right fun _ => imp_congr_right fun _ =>
    ⟨fun h => h picker hpicker, ?_⟩
  intro hfits buffer hbuffer
  obtain rfl : picker = buffer := Option.some.inj (hpicker.symm.trans hbuffer)
  exact hfits

/-- The picker of one unit has room in 24 rows. -/
theorem run_inside_iff_sample : ∃ labels s,
    Run (Step sampleMachine fun _ => true) ⟨sampleStart [], noWindows⟩ labels s ∧
      s.main.model.isPickerOpen = true ∧
      Emits (BeginsInside sampleTerminal) (viewTui (fun _ => true) sampleTerminal
        s.main.world.session s.main.model s.windows) := by
  have r : Run (Step sampleMachine fun _ => true) ⟨sampleStart [], noWindows⟩ _ _ :=
    .step (.turn sampleTerminal (key 16) nofun rfl rfl)
      (.single (.turn sampleTerminal {} nofun rfl rfl))
  refine ⟨_, _, r, rfl, ?_⟩
  refine (run_inside_iff _ _ ⟨sampleStart_initial [], rfl⟩ r ?_ ?_ ⟨_, rfl⟩).mpr
    ⟨?_, ?_, fun _ => ?_⟩
  · decide
  · decide
  · decide
  · exact fun hlive => absurd rfl hlive
  · decide

/-! ### The windows -/

/-- The windows: there are none, or they are those of a terminal that is large enough. -/
def Opened (windows : Windows) : Prop :=
  windows = noWindows ∨ ∃ terminal, ¬ TooSmall terminal ∧ windows = placed terminal

section
variable {terminal : Terminal} {isprint : UInt8 → Bool} {session : DebugSession}
  {model : TuiModel} {windows windows' : Windows} {win : TuiWindow}

theorem viewTui_opened (h : Opened windows)
    (hr : (viewTui isprint terminal session model windows).result = .ok windows') :
    Opened windows' := by
  by_cases hsmall : TooSmall terminal
  · rw [viewTui, if_pos hsmall] at hr
    cases hr
    exact h
  · exact .inr ⟨terminal, hsmall, (viewTui_ok hsmall hr).1⟩

/-- The windows after a view that succeeds. -/
theorem viewTui_placed (hbig : ¬ TooSmall terminal)
    (h : Succeeds (viewTui isprint terminal session model windows)) :
    (viewTui isprint terminal session model windows).result = .ok (placed terminal) := by
  obtain ⟨windows', hr⟩ := h
  rw [hr, (viewTui_ok hbig hr).1]

/-- There is room for a line. -/
theorem Opened.rows (h : Opened windows) (win : TuiWindow) :
    1 ≤ (getmaxy windows win - sectionRowMargin).toNat := by
  rcases h with rfl | ⟨terminal, hbig, rfl⟩
  · change 1 ≤ (-1 - sectionRowMargin : UInt32).toNat
    decide
  · have hge := (geometry_rows hbig win).1
    rw [toNat_paneRows hbig]
    omega

/-- A window that does not get lower has as many rows for lines. -/
theorem Opened.mono (h : Opened windows) (h' : Opened windows')
    (hle : getmaxy windows win ≤ getmaxy windows' win) :
    (getmaxy windows win - sectionRowMargin).toNat ≤
      (getmaxy windows' win - sectionRowMargin).toNat := by
  have hmargin : ∀ {windows : Windows}, Opened windows →
      sectionRowMargin ≤ getmaxy windows win := by
    rintro _ (rfl | ⟨terminal, hbig, rfl⟩)
    · change sectionRowMargin ≤ -1
      decide
    · exact UInt32.le_iff_toNat_le.mpr
        ((show 3 ≤ 6 by omega).trans (geometry_rows hbig win).1)
  rw [UInt32.toNat_sub_of_le _ _ (hmargin h), UInt32.toNat_sub_of_le _ _ (hmargin h')]
  exact Nat.sub_le_sub_right (UInt32.le_iff_toNat_le.mp hle) _

end

/-! ### The selected lines -/

/-- No window that has lines gets lower. -/
structure Grows (model : TuiModel) (windows windows' : Windows) : Prop where
  source : model.source.lineCount ≠ 0 → getmaxy windows .source ≤ getmaxy windows' .source
  assembly : model.assembly.lineCount ≠ 0 →
    getmaxy windows .assembly ≤ getmaxy windows' .assembly

/-- A step in which no window that has lines gets lower. -/
def GrowingStep (m : Machine) (isprint : UInt8 → Bool) (s : ScreenState)
    (label : List Call × List Effect) (t : ScreenState) : Prop :=
  Step m isprint s label t ∧ Grows s.main.model s.windows t.windows

/-- What holds in every state of a run of such steps. -/
structure Tracked (m : Machine) (s : ScreenState) : Prop where
  displayed : Displayed m s.main
  opened : Opened s.windows
  sight : InSight (getmaxy s.windows) s.main.model

section
variable {m : Machine} {isprint : UInt8 → Bool} {s t : ScreenState}
  {label : List Call × List Effect} {model : TuiModel} {windows windows' : Windows}

/-- The selected lines stay in view. -/
theorem Grows.inSight (hg : Grows model windows windows') (h : Opened windows)
    (h' : Opened windows') (hs : InSight (getmaxy windows) model) :
    InSight (getmaxy windows') model :=
  ⟨fun hcount => hs.source.mono (h.mono h' (hg.source hcount)) hcount,
    fun hcount => hs.assembly.mono (h.mono h' (hg.assembly hcount)) hcount⟩

/-- **The selected lines** after a turn. -/
theorem advanced_inSight {around : Surroundings} {log : List Effect} {s t : MainState}
    (ha : Advanced m around s log t) (hrows : ∀ win, 1 ≤ (around.getmaxy win - sectionRowMargin).toNat)
    (hc : Countable s.model) (hlines : Buffers InLines s.model)
    (h : InSight around.getmaxy s.model) : InSight around.getmaxy t.model := by
  cases ha with
  | waits _ hmodel | arrives _ _ hmodel =>
    rw [hmodel]
    exact h
  | key _ _ _ _ hu => exact updateTui_inSight hrows hc hlines h hu
  | confirm _ _ hmodel =>
    rw [hmodel]
    exact ⟨h.source, h.assembly⟩
  | source _ _ hmodel =>
    rw [hmodel]
    exact ⟨start_inSight (hrows .source) _, h.assembly⟩
  | assembly _ _ hmodel =>
    rw [hmodel]
    exact ⟨h.source, start_inSight (hrows .assembly) _⟩

/-- **One step.** -/
theorem Tracked.step (h : Tracked m s) (hs : GrowingStep m isprint s label t) : Tracked m t := by
  obtain ⟨hs, hgrows⟩ := hs
  have hdisplayed := h.displayed.step hs.main
  cases hs with
  | turn terminal around _ hview hr =>
    have hopened := viewTui_opened h.opened hview
    have hsight := hgrows.inSight h.opened hopened h.sight
    exact ⟨hdisplayed, hopened, advanced_inSight (turned_advanced (turn_turned hr))
      hopened.rows h.displayed.viewable.countable h.displayed.loaded.known.lines hsight⟩
  | debuggee _ _ => exact ⟨hdisplayed, h.opened, h.sight⟩

theorem Tracked.of_initial (h : Initial s) : Tracked m s := by
  obtain ⟨main, windows⟩ := s
  obtain ⟨hmain, rfl⟩ := h
  have hdisplayed := Displayed.of_initial (m := m) hmain
  obtain ⟨world, picker, -, -, rfl⟩ := hmain
  exact ⟨hdisplayed, .inl rfl, fun hcount => absurd rfl hcount, fun hcount => absurd rfl hcount⟩

end

/-- The selected line stands out in a window, and no other; it is between the borders. Without lines
nothing stands out. -/
def StandsOut (terminal : Terminal) (model : TuiModel) (win : TuiWindow) (buffer : TuiBuffer)
    (text : UInt64 → List UInt8) (calls : List Call) : Prop :=
  if buffer.lineCount = 0 then highlighted win calls = []
  else ∃ row : Int32, highlighted win calls =
      [(row, selectedAttrs model win, 32 :: text buffer.selectedLine)] ∧
    2 ≤ row.toInt ∧ row.toInt + 1 < (geometry terminal win).rows.toNat

theorem StandsOut.of_highlighted {terminal : Terminal} {model : TuiModel} {win : TuiWindow}
    {buffer : TuiBuffer} {text : UInt64 → List UInt8} {calls : List Call}
    (hbig : ¬ TooSmall terminal) (hlines : InLines buffer)
    (hsight : LineInSight (getmaxy (placed terminal) win - sectionRowMargin) buffer)
    (h : highlighted win calls = selection model win buffer text) :
    StandsOut terminal model win buffer text calls := by
  unfold StandsOut
  unfold selection at h
  split
  · rename_i hcount
    rw [h, if_pos hcount]
  · rename_i hcount
    rw [if_neg hcount] at h
    obtain ⟨hmem, -, -⟩ := mem_inView_selected hsight hlines hcount
    have hlt := mem_inView.mp hmem
    rw [viewCount, toNat_paneRows hbig] at hlt
    obtain ⟨hge, hmax⟩ := geometry_rows hbig win
    have hrow : (buffer.selectedLine - buffer.linePos).toNat < 2 ^ 15 := by omega
    refine ⟨_, h, ?_, ?_⟩ <;> rw [toInt_screenRow hrow] <;> omega

/-- **The selected lines are on the screen.** In a run in which no window that has lines gets lower, on
every terminal that is large enough and does not make one lower: whenever a view succeeds, the lines of
the source and of the assembly that stand out are the selected ones, one in each that has lines, inside
of its window. -/
theorem run_highlighted (m : Machine) (isprint : UInt8 → Bool) {s₀ s : ScreenState}
    {labels : List (List Call × List Effect)} (h₀ : Initial s₀)
    (r : Run (GrowingStep m isprint) s₀ labels s) {terminal : Terminal}
    (hbig : ¬ TooSmall terminal) (hgrows : Grows s.main.model s.windows (placed terminal))
    {windows : Windows}
    (h : (viewTui isprint terminal s.main.world.session s.main.model s.windows).result =
      .ok windows) :
    let calls := (viewTui isprint terminal s.main.world.session s.main.model s.windows).log
    StandsOut terminal s.main.model .source s.main.model.source.toTuiBuffer
        (fun n => truncated (terminal.cols / 2 - 8)
          ((sourceText s.main.model n).map fun c => if c = 9 then 32 else c)) calls ∧
      StandsOut terminal s.main.model .assembly s.main.model.assembly.toTuiBuffer
        (fun n => truncated (terminal.cols / 2 - 12) (assemblyText s.main.model n)) calls := by
  have ht : Tracked m s := r.invariant (fun _ _ _ hs ht => ht.step hs) (.of_initial h₀)
  have hlines := ht.displayed.loaded.known.lines
  have hsight := hgrows.inSight ht.opened (.inr ⟨terminal, hbig, rfl⟩) ht.sight
  obtain ⟨hsource, hassembly⟩ := viewTui_highlighted ht.displayed.viewable hlines hsight hbig h
  exact ⟨.of_highlighted hbig hlines.source hsight.source hsource,
    .of_highlighted hbig hlines.assembly hsight.assembly hassembly⟩

/-- A turn on the terminal. -/
theorem sample_turn {m : Machine} {s : ScreenState} {main : MainState} (around : Surroundings)
    (hgo : s.main.currentMsg ≠ .quit)
    (hview : Succeeds (viewTui (fun _ => true) sampleTerminal s.main.world.session s.main.model
      s.windows))
    (h : (turn m { around with getmaxy := getmaxy (placed sampleTerminal) } s.main).result =
      .ok main) :
    Step m (fun _ => true) s
      ((viewTui (fun _ => true) sampleTerminal s.main.world.session s.main.model s.windows).log,
        (turn m { around with getmaxy := getmaxy (placed sampleTerminal) } s.main).log)
      ⟨main, placed sampleTerminal⟩ :=
  .turn sampleTerminal around hgo (viewTui_placed (by decide) hview) h

/-- The unit is confirmed, and its second line is selected. -/
theorem sample_selected : ∃ labels s,
    Run (GrowingStep twoLines fun _ => true) ⟨sampleStart [secondLine], noWindows⟩ labels s ∧
      .confirm ∈ Delivery.passed (labels.map Prod.snd).flatten ∧ s.main.msgQueue.pending = [] ∧
      s.windows = placed sampleTerminal ∧ s.main.world = (sampleStart [secondLine]).world ∧
      s.main.model =
        { source :=
            { selectedLine := 1, lineCount := 2, buffer := some ⟨2, [some [97], some [98]]⟩ }
          assembly := { buffer := some {} }
          picker := { lineCount := 1, buffer := some ⟨1, [some [47, 115, 47, 97, 46, 99]]⟩ }
          selectedLineInstructions := some [secondLine] } := by
  have hstart : ∀ windows, Grows (sampleStart [secondLine]).model noWindows windows := fun _ =>
    ⟨fun hcount => absurd rfl hcount, fun hcount => absurd rfl hcount⟩
  have hsame : ∀ model windows, Grows model windows windows := fun _ _ =>
    ⟨fun _ => UInt32.le_refl _, fun _ => UInt32.le_refl _⟩
  have r : Run (GrowingStep twoLines fun _ => true) ⟨sampleStart [secondLine], noWindows⟩ _ _ :=
    .step ⟨sample_turn (key 10) nofun ⟨_, rfl⟩ rfl, hstart _⟩
      (.step ⟨sample_turn {} nofun ⟨_, rfl⟩ rfl, hsame _ _⟩
        (.step ⟨sample_turn {} nofun ⟨_, rfl⟩ rfl, hsame _ _⟩
          (.step ⟨sample_turn {} nofun ⟨_, rfl⟩ rfl, hsame _ _⟩
            (.step ⟨sample_turn {} nofun ⟨_, rfl⟩ rfl, hsame _ _⟩
              (.step ⟨sample_turn (key 106) nofun ⟨_, rfl⟩ rfl, hsame _ _⟩
                (.single ⟨sample_turn {} nofun ⟨_, rfl⟩ rfl, hsame _ _⟩))))))
  exact ⟨_, _, r, List.mem_cons_self, rfl, rfl, rfl, rfl⟩

/-- The second line is selected. -/
theorem run_highlighted_sample : ∃ labels s row,
    Run (GrowingStep twoLines fun _ => true) ⟨sampleStart [secondLine], noWindows⟩ labels s ∧
      highlighted .source
        (viewTui (fun _ => true) sampleTerminal s.main.world.session s.main.model s.windows).log =
          [(row, { standout := true, colorPair := activeColor }, [32, 98])] := by
  obtain ⟨labels, s, r, -, -, hwindows, hworld, hmodel⟩ := sample_selected
  have hgrows : Grows s.main.model s.windows (placed sampleTerminal) := by
    rw [hwindows]
    exact ⟨fun _ => UInt32.le_refl _, fun _ => UInt32.le_refl _⟩
  have hbig : ¬ TooSmall sampleTerminal := by decide
  have hview : Succeeds (viewTui (fun _ => true) sampleTerminal s.main.world.session s.main.model
      s.windows) := by
    rw [hworld, hmodel, hwindows]
    exact ⟨_, rfl⟩
  obtain ⟨hsource, -⟩ := run_highlighted twoLines _ ⟨sampleStart_initial _, rfl⟩ r hbig hgrows
    (viewTui_placed hbig hview)
  rw [hmodel] at hsource
  obtain ⟨row, hrow, -⟩ := hsource
  refine ⟨labels, s, row, r, ?_⟩
  rw [hmodel]
  exact hrow

end Dabugger.Main.Screen
