import Dabugger.Debug.BufferLines
import Dabugger.Tui.Drawn
import Dabugger.Tui.Frame

/-! # The panes

Where the buffers of the model are filled (`Viewable`), the source and the assembly have one row for
each line that is in view, and `view_tui` fails in two cases only: the byte behind a full output buffer
is read, or the picker is open and has a line that is null (`viewTui_succeeds_iff_of_viewable`).
`InSight` says that the selected line is in view; messages keep it so (`updateTui_inSight`). -/

namespace Dabugger.Tui.Panes

open Dabugger.Lib.Log Dabugger.Lib.Runs Dabugger.Base Dabugger.Debug.Session
  Dabugger.Debug.Buffers Dabugger.Debug.BufferLines Dabugger.Tui.Types Dabugger.Tui.Update
  Dabugger.Tui.Frame Dabugger.Tui.Scroll Dabugger.Tui.Selection Dabugger.Tui.OutputPane
  Dabugger.Tui.View Dabugger.Tui.Drawn

/-! ### Buffers that can be shown -/

/-- The source has the lines of its buffer, if it has lines. -/
def SourceViewable (source : TuiLinesBuffer) : Prop :=
  source.lineCount ≠ 0 → ∃ buffer, source.buffer = some buffer ∧ LinesFilled buffer ∧
    buffer.lineCount = source.lineCount

/-- The assembly has the instructions of its buffer, if it has any. -/
def AssemblyViewable (assembly : TuiAssemblyBuffer) : Prop :=
  assembly.lineCount ≠ 0 → ∃ buffer, assembly.buffer = some buffer ∧ AssemblyFilled buffer ∧
    buffer.textBuffer.lineCount = assembly.lineCount

/-- **The buffers can be shown.** -/
structure Viewable (model : TuiModel) : Prop where
  source : SourceViewable model.source
  assembly : AssemblyViewable model.assembly

/-- A line of the source. -/
def sourceText (model : TuiModel) (zeroIndexedLineNum : UInt64) : List UInt8 :=
  ((model.source.buffer.bind fun buffer => buffer.lines[zeroIndexedLineNum.toNat]?).getD
    none).getD []

/-- An instruction of the assembly. -/
def assemblyText (model : TuiModel) (zeroIndexedLineNum : UInt64) : List UInt8 :=
  ((model.assembly.buffer.bind fun buffer =>
    buffer.textBuffer.lines[zeroIndexedLineNum.toNat]?).getD none).getD []

/-- The address of an instruction of the assembly. -/
def assemblyAddress (model : TuiModel) (zeroIndexedLineNum : UInt64) : UInt64 :=
  (model.assembly.buffer.bind fun buffer => buffer.addresses[zeroIndexedLineNum.toNat]?).getD 0

section
variable {session : DebugSession} {model : TuiModel} {cols : UInt32} {n : UInt64}

/-- A line that is there. -/
theorem lineAt_of_filled {buffer : LinesBuffer} (hf : LinesFilled buffer)
    (hn : n.toNat < buffer.lineCount.toNat) :
    ∃ line, buffer.lines[n.toNat]? = some (some line) ∧ lineAt buffer.lines n = .ok line := by
  rw [← hf.length] at hn
  cases hline : buffer.lines[n.toNat] with
  | none => exact absurd (hline ▸ List.getElem_mem hn) hf.lines
  | some line =>
    have hget : buffer.lines[n.toNat]? = some (some line) := by
      rw [List.getElem?_eq_getElem hn, hline]
    refine ⟨line, hget, ?_⟩
    rw [lineAt, hget]

theorem readSourceRow_ok (hv : SourceViewable model.source)
    (hn : n.toNat < model.source.lineCount.toNat) :
    readSourceRow session model cols n =
      .ok (sourceRow session model cols n (sourceText model n)) := by
  have hcount : model.source.lineCount ≠ 0 := by
    rintro h0
    rw [h0] at hn
    exact Nat.not_lt_zero _ hn
  obtain ⟨buffer, hbuffer, hf, hcount'⟩ := hv hcount
  rw [← hcount'] at hn
  obtain ⟨line, hget, hline⟩ := lineAt_of_filled hf hn
  have htext : sourceText model n = line := by
    rw [sourceText, hbuffer, Option.bind_some, hget]
    rfl
  rw [readSourceRow, hbuffer, htext]
  change (lineAt buffer.lines n >>= fun line => _) = _
  rw [except_bind_of_ok hline]
  rfl

theorem readAssemblyRow_ok (hv : AssemblyViewable model.assembly)
    (hn : n.toNat < model.assembly.lineCount.toNat) :
    readAssemblyRow session model cols n =
      .ok (assemblyRow session model cols n (assemblyText model n) (assemblyAddress model n)) := by
  have hcount : model.assembly.lineCount ≠ 0 := by
    rintro h0
    rw [h0] at hn
    exact Nat.not_lt_zero _ hn
  obtain ⟨buffer, hbuffer, hf, hcount'⟩ := hv hcount
  rw [← hcount'] at hn
  obtain ⟨line, hget, hline⟩ := lineAt_of_filled hf.text hn
  rw [← hf.addresses] at hn
  have haddress := List.getElem?_eq_getElem hn
  have htext : assemblyText model n = line := by
    rw [assemblyText, hbuffer, Option.bind_some, hget]
    rfl
  have hat : assemblyAddress model n = buffer.addresses[n.toNat] := by
    rw [assemblyAddress, hbuffer, Option.bind_some, haddress]
    rfl
  rw [readAssemblyRow, hbuffer, htext, hat]
  change (lineAt buffer.textBuffer.lines n >>= fun line => _) = _
  rw [except_bind_of_ok hline]
  rw [index, haddress]
  rfl

end

/-! ### The rows -/

/-- The rows that a window has for lines. -/
def paneRows (windows : Windows) (win : TuiWindow) : UInt32 :=
  getmaxy windows win - sectionRowMargin

section
variable {session : DebugSession} {model : TuiModel} {windows : Windows}

/-- The row of the source with this index. -/
def sourcePaneRow (session : DebugSession) (model : TuiModel) (windows : Windows)
    (i : UInt64) : Row :=
  sourceRow session model (getmaxx windows .source - 8) (model.source.linePos + i)
    (sourceText model (model.source.linePos + i))

/-- The row of the assembly with this index. -/
def assemblyPaneRow (session : DebugSession) (model : TuiModel) (windows : Windows)
    (i : UInt64) : Row :=
  assemblyRow session model (getmaxx windows .assembly - 12) (model.assembly.linePos + i)
    (assemblyText model (model.assembly.linePos + i))
    (assemblyAddress model (model.assembly.linePos + i))

/-- A line behind the first one in view. -/
theorem toNat_linePos_add_lt {buffer : TuiBuffer} {j : ℕ}
    (hj : buffer.linePos.toNat + j < buffer.lineCount.toNat) :
    (buffer.linePos + UInt64.ofNat j).toNat < buffer.lineCount.toNat := by
  rw [toNat_linePos_add (by omega)]
  exact hj

/-- **The source pane.** -/
theorem viewSourceBuffer_eq (hv : SourceViewable model.source) :
    viewSourceBuffer session model windows =
      ⟨(inView (paneRows windows .source) model.source.toTuiBuffer).flatMap fun i =>
        drawRow .source i (sourcePaneRow session model windows i), .ok ()⟩ :=
  viewLines_ok fun _ hj => readSourceRow_ok hv (toNat_linePos_add_lt hj)

/-- **The assembly pane.** -/
theorem viewAssemblyBuffer_eq (hv : AssemblyViewable model.assembly) :
    viewAssemblyBuffer session model windows =
      ⟨(inView (paneRows windows .assembly) model.assembly.toTuiBuffer).flatMap fun i =>
        drawRow .assembly i (assemblyPaneRow session model windows i), .ok ()⟩ :=
  viewLines_ok fun _ hj => readAssemblyRow_ok hv (toNat_linePos_add_lt hj)

end

/-! ### What is shown -/

section
variable {session : DebugSession} {model : TuiModel} {windows windows' : Windows}
  {terminal : Terminal} {isprint : UInt8 → Bool}

/-- What a section of a window writes in it and in the others. -/
theorem writes_pane (win w : TuiWindow) (is : List UInt64) (row : UInt64 → Row) :
    Writes win (if w = win then is.flatMap fun i => rowItems i (row i) else [])
      (is.flatMap fun i => drawRow w i (row i)) := by
  have hrows : Writes win (is.flatMap fun i => if w = win then rowItems i (row i) else [])
      (is.flatMap fun i => drawRow w i (row i)) := .flatMap fun i _ => writes_drawRow w i (row i)
  by_cases hw : w = win
  · simpa only [if_pos hw] using hrows
  · rw [if_neg hw]
    simp only [if_neg hw] at hrows
    rwa [List.flatMap_eq_nil_iff.mpr fun _ _ => rfl] at hrows

/-- **What the view shows** in the source and in the assembly. -/
theorem viewTui_shown (hv : Viewable model) (hbig : ¬ TooSmall terminal)
    (h : (viewTui isprint terminal session model windows).result = .ok windows') :
    windows' = placed terminal ∧
      shown .source {} (viewTui isprint terminal session model windows).log =
        (inView (paneRows (placed terminal) .source) model.source.toTuiBuffer).flatMap
          (fun i => rowItems i (sourcePaneRow session model (placed terminal) i)) ∧
      shown .assembly {} (viewTui isprint terminal session model windows).log =
        (inView (paneRows (placed terminal) .assembly) model.assembly.toTuiBuffer).flatMap
          (fun i => rowItems i (assemblyPaneRow session model (placed terminal) i)) := by
  obtain ⟨hwindows, a, b, c, ha, hb, hc, hlog⟩ := viewTui_ok hbig h
  rw [viewSourceBuffer_eq hv.source, viewAssemblyBuffer_eq hv.assembly] at hlog
  rw [hlog]
  refine ⟨hwindows, ?_, ?_⟩
  · have hsource := writes_pane .source .source
      (inView (paneRows (placed terminal) .source) model.source.toTuiBuffer)
      (sourcePaneRow session model (placed terminal))
    have hassembly := writes_pane .source .assembly
      (inView (paneRows (placed terminal) .assembly) model.assembly.toTuiBuffer)
      (assemblyPaneRow session model (placed terminal))
    rw [if_pos rfl] at hsource
    rw [if_neg (by decide)] at hassembly
    refine ((((((ha _).append hsource).append (hb _)).append hassembly).append (hc _)) {}
      rfl).1.trans ?_
    simp only [List.append_nil, List.nil_append]
  · have hsource := writes_pane .assembly .source
      (inView (paneRows (placed terminal) .source) model.source.toTuiBuffer)
      (sourcePaneRow session model (placed terminal))
    have hassembly := writes_pane .assembly .assembly
      (inView (paneRows (placed terminal) .assembly) model.assembly.toTuiBuffer)
      (assemblyPaneRow session model (placed terminal))
    rw [if_neg (by decide)] at hsource
    rw [if_pos rfl] at hassembly
    refine ((((((ha _).append hsource).append (hb _)).append hassembly).append (hc _)) {}
      rfl).1.trans ?_
    simp only [List.append_nil, List.nil_append]

/-! ### When the view fails -/

theorem viewOutputLoop_succeeds_iff (buffer : List UInt8) : ∀ left i row : ℕ,
    Succeeds (viewOutputLoop isprint buffer left i row) ↔ left = 0 ∨ i + left ≤ buffer.length
  | 0, _, _ => iff_of_true ⟨_, rfl⟩ (.inl rfl)
  | left + 1, i, row => by
    rw [viewOutputLoop, emit_bind]
    by_cases hi : i < buffer.length
    · have hread : index buffer i = .ok buffer[i] := by
        rw [index, List.getElem?_eq_getElem hi]
      rw [lift_bind_of_ok hread]
      have ih := viewOutputLoop_succeeds_iff buffer left (i + 1)
        (if buffer[i] = newline then row + 1 else row)
      refine Iff.trans ?_ (ih.trans (by omega))
      refine succeeds_bind_iff.trans ⟨?_, ?_⟩
      · rintro ⟨ops, hok, -⟩
        exact ⟨ops, hok⟩
      · rintro ⟨ops, hok⟩
        exact ⟨ops, hok, _, rfl⟩
    · have hread : index buffer i = .error .outOfBounds := by
        rw [index, List.getElem?_eq_none (by omega)]
      rw [hread]
      refine iff_of_false ?_ (by omega)
      rintro ⟨_, ⟨⟩⟩

/-- The output is drawn if there is a byte at the cursor. -/
theorem drawOutputBuffer_succeeds_iff :
    Succeeds (drawOutputBuffer isprint session) ↔
      session.output.cursor < session.output.buffer.length := by
  have hloop : Succeeds (viewOutputLoop isprint _ _ 0 2) ↔ _ :=
    viewOutputLoop_succeeds_iff session.output.buffer (session.output.cursor + 1) 0 2
  have hview : Succeeds (viewOutputBuffer isprint session.output) ↔
      Succeeds (viewOutputLoop isprint session.output.buffer (session.output.cursor + 1) 0 2) := by
    refine succeeds_bind_iff.trans ⟨?_, ?_⟩
    · rintro ⟨ops, hok, -⟩
      exact ⟨ops, hok⟩
    · rintro ⟨ops, hok⟩
      exact ⟨ops, hok, _, rfl⟩
  refine succeeds_bind_iff.trans (Iff.trans ⟨?_, ?_⟩ (hview.trans (hloop.trans (by omega))))
  · rintro ⟨ops, hok, -⟩
    exact ⟨ops, hok⟩
  · rintro ⟨ops, hok⟩
    exact ⟨ops, hok, _, rfl⟩

theorem lineAt_ok_iff {lines : List (Option (List UInt8))} {i : UInt64} :
    (∃ line, lineAt lines i = .ok line) ↔ ∃ line, lines[i.toNat]? = some (some line) := by
  unfold lineAt
  split
  · rename_i line hline
    exact iff_of_true ⟨line, rfl⟩ ⟨line, hline⟩
  · rename_i hnone
    refine iff_of_false (by rintro ⟨_, ⟨⟩⟩) ?_
    rintro ⟨line, hline⟩
    exact hnone line hline

theorem viewPickerLines_succeeds_iff {buffer : LinesBuffer} {selectedLine : UInt64} :
    ∀ (left : ℕ) {k : ℕ}, k + left < 2 ^ 64 →
      (Succeeds (viewPickerLines buffer selectedLine left (UInt64.ofNat k)) ↔
        ∀ j, k ≤ j → j < k + left → ∃ line, buffer.lines[j]? = some (some line))
  | 0, k, _ => iff_of_true ⟨_, rfl⟩ fun j hle hlt => by omega
  | left + 1, k, hk => by
    have hklt : k < 2 ^ 64 := by omega
    have hsucc : UInt64.ofNat k + 1 = UInt64.ofNat (k + 1) := (UInt64.ofNat_add k 1).symm
    have ih : Succeeds (viewPickerLines buffer selectedLine left (UInt64.ofNat (k + 1))) ↔ _ :=
      viewPickerLines_succeeds_iff left (by omega)
    have hline : (∃ line, lineAt buffer.lines (UInt64.ofNat k) = .ok line) ↔
        ∃ line, buffer.lines[k]? = some (some line) := by
      rw [lineAt_ok_iff, UInt64.toNat_ofNat_of_lt' hklt]
    -- what is drawn for the line succeeds in any case
    have hrest : Succeeds (viewPickerLines buffer selectedLine (left + 1) (UInt64.ofNat k)) ↔
        (∃ line, lineAt buffer.lines (UInt64.ofNat k) = .ok line) ∧
          Succeeds (viewPickerLines buffer selectedLine left (UInt64.ofNat (k + 1))) := by
      rw [viewPickerLines, succeeds_bind_iff, hsucc, exists_and_right.symm]
      refine exists_congr fun line => and_congr Iff.rfl ?_
      split <;> exact Iff.rfl
    rw [hrest, hline, ih]
    constructor
    · rintro ⟨hfirst, hothers⟩ j hle hlt
      rcases Nat.eq_or_lt_of_le hle with rfl | hlt'
      · exact hfirst
      · exact hothers j hlt' (by omega)
    · intro hall
      exact ⟨hall k le_rfl (by omega), fun j hle hlt => hall j (by omega) (by omega)⟩

/-- The picker is drawn if none of its lines is null. -/
theorem viewPickerBuffer_succeeds_iff {buffer : LinesBuffer}
    (hbuffer : model.picker.buffer = some buffer)
    (hlength : buffer.lines.length = buffer.lineCount.toNat) :
    Succeeds (viewPickerBuffer model) ↔ (model.isPickerOpen = true → none ∉ buffer.lines) := by
  unfold viewPickerBuffer
  by_cases hopen : model.isPickerOpen = true
  · rw [if_pos hopen, hbuffer, forall_prop_of_true hopen]
    have hlines : Succeeds (viewPickerLines buffer model.picker.selectedLine
        buffer.lineCount.toNat (UInt64.ofNat 0)) ↔ _ :=
      viewPickerLines_succeeds_iff _ (by rw [Nat.zero_add]; exact buffer.lineCount.toNat_lt)
    have hall : (∀ j, 0 ≤ j → j < 0 + buffer.lineCount.toNat →
        ∃ line, buffer.lines[j]? = some (some line)) ↔ none ∉ buffer.lines := by
      rw [Nat.zero_add, ← hlength]
      constructor
      · intro hsome hnone
        obtain ⟨j, hj, hget⟩ := List.mem_iff_getElem.mp hnone
        obtain ⟨line, hline⟩ := hsome j (Nat.zero_le j) hj
        rw [List.getElem?_eq_getElem hj, hget] at hline
        cases hline
      · intro hnone j _ hj
        cases hget : buffer.lines[j] with
        | none => exact absurd (hget ▸ List.getElem_mem hj) hnone
        | some line => exact ⟨line, by rw [List.getElem?_eq_getElem hj, hget]⟩
    rw [← hall, ← hlines]
    refine Iff.trans succeeds_bind_iff ⟨?_, ?_⟩
    · rintro ⟨_, ⟨⟩, hrest⟩
      obtain ⟨u, hu, -⟩ := succeeds_bind_iff.mp hrest
      exact ⟨u, hu⟩
    · rintro ⟨u, hu⟩
      exact ⟨buffer, rfl, succeeds_bind_iff.mpr ⟨u, hu, _, rfl⟩⟩
  · rw [if_neg hopen]
    exact iff_of_true ⟨_, rfl⟩ fun h => absurd h hopen

/-- **When the view succeeds.** -/
theorem viewTui_succeeds_iff_of_viewable (hv : Viewable model) {buffer : LinesBuffer}
    (hbuffer : model.picker.buffer = some buffer)
    (hlength : buffer.lines.length = buffer.lineCount.toNat) (windows : Windows) :
    Succeeds (viewTui isprint terminal session model windows) ↔
      (¬ TooSmall terminal → session.output.cursor < session.output.buffer.length ∧
        (model.isPickerOpen = true → none ∉ buffer.lines)) := by
  by_cases hsmall : TooSmall terminal
  · rw [viewTui, if_pos hsmall]
    exact iff_of_true ⟨_, rfl⟩ fun h => absurd hsmall h
  · rw [forall_prop_of_true hsmall, viewTui_succeeds_iff hsmall,
      drawOutputBuffer_succeeds_iff, viewPickerBuffer_succeeds_iff hbuffer hlength]
    have hsource : Succeeds (viewSourceBuffer session model (placed terminal)) := by
      rw [viewSourceBuffer_eq hv.source]
      exact ⟨_, rfl⟩
    have hassembly : Succeeds (viewAssemblyBuffer session model (placed terminal)) := by
      rw [viewAssemblyBuffer_eq hv.assembly]
      exact ⟨_, rfl⟩
    exact ⟨fun h => h.2.2, fun h => ⟨hsource, hassembly, h⟩⟩

end

/-! ### The selected line -/

/-- The selected line is in view, if there are lines. -/
def LineInSight (rows : UInt32) (buffer : TuiBuffer) : Prop :=
  buffer.lineCount ≠ 0 → Shows rows.toNat buffer.selectedLine.toNat buffer.linePos.toNat

/-- **The selected lines** of the source and of the assembly are in view. -/
structure InSight (getmaxy : TuiWindow → UInt32) (model : TuiModel) : Prop where
  source : LineInSight (getmaxy .source - sectionRowMargin) model.source.toTuiBuffer
  assembly : LineInSight (getmaxy .assembly - sectionRowMargin) model.assembly.toTuiBuffer

/-- The lines can be numbered by an `unsigned`. -/
structure Countable (model : TuiModel) : Prop where
  source : model.source.lineCount.toNat < 2 ^ 32
  assembly : model.assembly.lineCount.toNat < 2 ^ 32

theorem Viewable.countable {model : TuiModel} (h : Viewable model) : Countable model := by
  constructor
  · by_cases hcount : model.source.lineCount = 0
    · rw [hcount]
      decide
    · obtain ⟨buffer, -, hf, hcount'⟩ := h.source hcount
      exact hcount' ▸ hf.lt
  · by_cases hcount : model.assembly.lineCount = 0
    · rw [hcount]
      decide
    · obtain ⟨buffer, -, hf, hcount'⟩ := h.assembly hcount
      exact hcount' ▸ hf.text.lt

section
variable {host : Host} {session : DebugSession} {getmaxy : TuiWindow → UInt32}
  {model model' : TuiModel} {msg : TuiMsg} {cmd : TuiCmd} {rows rows' : UInt32}
  {buffer : TuiBuffer} {line : UInt64}

/-- It stays in view in a window that is not lower. -/
theorem LineInSight.mono (h : LineInSight rows buffer) (hle : rows.toNat ≤ rows'.toNat) :
    LineInSight rows' buffer := by
  intro hcount
  obtain ⟨hpos, hlt⟩ := h hcount
  exact ⟨hpos, by omega⟩

/-- A line that is selected is in view. -/
theorem selectLine_inSight (hrows : 1 ≤ rows.toNat) (hfits : buffer.lineCount.toNat < 2 ^ 32)
    (hline : InLines (selectLine rows line buffer)) :
    LineInSight rows (selectLine rows line buffer) := by
  intro hcount
  have hlt := UInt64.lt_iff_toNat_lt.mp (hline hcount)
  change line.toNat < buffer.lineCount.toNat at hlt
  have hrows' := rows.toNat_lt
  rw [selectLine_linePos (by omega)]
  exact shows_scrollTo hrows

/-- The first line of a new buffer is in view. -/
theorem start_inSight (hrows : 1 ≤ rows.toNat) (lineCount : UInt64) :
    LineInSight rows { lineCount } := by
  refine fun _ => ⟨le_rfl, ?_⟩
  change 0 < 0 + rows.toNat
  omega

/-- The line of the focused buffer is changed. -/
theorem moved_inSight (h : InSight getmaxy model) (hb : tuiBuffer model = some buffer)
    (hline : model.focusedWin ≠ .picker →
      LineInSight (getmaxy model.focusedWin - sectionRowMargin)
        (selectLine rows line buffer)) : InSight getmaxy (moved rows line buffer model) := by
  obtain ⟨source, assembly, picker, instructions, index, focusedWin, isPickerOpen⟩ := model
  cases focusedWin with
  | source => exact ⟨hline nofun, h.assembly⟩
  | assembly => exact ⟨h.source, hline nofun⟩
  | picker => exact ⟨h.source, h.assembly⟩
  | output | registers => cases hb

/-- What is focused can be counted, apart from the picker. -/
theorem Countable.tuiBuffer (h : Countable model) (hb : tuiBuffer model = some buffer)
    (hpicker : model.focusedWin ≠ .picker) : buffer.lineCount.toNat < 2 ^ 32 := by
  unfold Update.tuiBuffer at hb
  split at hb
  · cases hb; exact h.source
  · cases hb; exact h.assembly
  · rename_i hfocus
    exact absurd hfocus hpicker
  · cases hb
  · cases hb

/-- **A motion** keeps the selected lines in view. -/
theorem changeLine_inSight (hrows : ∀ win, 1 ≤ (getmaxy win - sectionRowMargin).toNat)
    (hc : Countable model) (h : InSight getmaxy model) (hb : tuiBuffer model = some buffer)
    (hline : InLines (selectLine (getmaxy model.focusedWin - sectionRowMargin) line buffer))
    (hr : (changeLine host session (getmaxy model.focusedWin - sectionRowMargin) line buffer
      model).result = .ok model') : InSight getmaxy model' := by
  have hmoved := moved_inSight h hb fun hpicker =>
    selectLine_inSight (hrows model.focusedWin) (hc.tuiBuffer hb hpicker) hline
  rcases changeLine_ok hr with ⟨-, rfl⟩ | ⟨-, _, -, rfl⟩
  · exact hmoved
  · exact ⟨hmoved.source, hmoved.assembly⟩

/-- **A message** keeps the selected lines in view. -/
theorem updateTui_inSight (hrows : ∀ win, 1 ≤ (getmaxy win - sectionRowMargin).toNat)
    (hc : Countable model) (hlines : Buffers InLines model) (h : InSight getmaxy model)
    (hr : (updateTui host session getmaxy msg model).result = .ok (model', cmd)) :
    InSight getmaxy model' := by
  cases msg with
  | bufferMotion motion =>
    rcases updateTui_bufferMotion host session getmaxy model motion with
      hd | hd | ⟨buffer, distance, hb, -, hd⟩
    · rw [hd] at hr
      cases hr
      exact h
    · rw [hd] at hr
      cases hr
    · rw [hd] at hr
      obtain ⟨m, hm, hr, -⟩ := bind_ok hr
      cases hr
      exact changeLine_inSight hrows hc h hb
        (fun hcount => motionLine_lt motion.direction distance (hlines.tuiBuffer hb hcount)) hm
  | goToBufferLine motion =>
    cases hb : tuiBuffer model with
    | none =>
      rw [updateTui_goToBufferLine_none motion hb] at hr
      cases hr
      exact h
    | some buffer =>
      rw [updateTui_goToBufferLine motion hb] at hr
      obtain ⟨m, hm, hr, -⟩ := bind_ok hr
      cases hr
      exact changeLine_inSight hrows hc h hb (fun hcount => goToLine_lt motion.amount hcount) hm
  | setSourceBuffer newSourceBuffer =>
    cases newSourceBuffer with
    | none => cases hr
    | some buffer =>
      cases hr
      exact ⟨start_inSight (hrows .source) _, h.assembly⟩
  | setAssemblyBuffer newAssemblyBuffer =>
    cases newAssemblyBuffer with
    | none => cases hr
    | some buffer =>
      cases hr
      exact ⟨h.source, start_inSight (hrows .assembly) _⟩
  | changeSection | showPicker | confirm =>
    cases hr
    exact ⟨h.source, h.assembly⟩
  | toggleBreakpoint =>
    obtain ⟨rfl, -⟩ := updateTui_toggleBreakpoint_ok hr
    exact h
  | runDebuggee | outputUpdate | quit | none | stepInstruction | stepOver =>
    cases hr
    exact h

end

/-! ### The highlighted line -/

/-- A line that stands out. -/
def standing : Int32 × Attr × Item → Option (Int32 × Attr × List UInt8)
  | (row, attr, .line text) => if attr.standout then some (row, attr, text) else none
  | (_, _, .marker _) => none

/-- The lines that stand out, with their rows and their attributes. -/
def highlighted (win : TuiWindow) (calls : List Call) : List (Int32 × Attr × List UInt8) :=
  (shown win {} calls).filterMap standing

/-- Of a row its line, if it stands out. -/
theorem filterMap_rowItems (i : UInt64) (row : Row) :
    (rowItems i row).filterMap standing =
      if row.lineAttrs.standout then [(screenRow i, row.lineAttrs, 32 :: row.line)] else [] := by
  by_cases h : row.lineAttrs.standout = true <;>
    simp [rowItems, List.filterMap_cons, standing, h]

/-- Of a list without duplicates one element is taken. -/
theorem flatMap_ite_eq {α β : Type} [DecidableEq α] {k : α} : ∀ {xs : List α}, xs.Nodup → k ∈ xs →
    ∀ f : α → β, (xs.flatMap fun x => if x = k then [f x] else []) = [f k]
  | x :: xs, hnodup, hk, f => by
    obtain ⟨hx, hnodup⟩ := List.nodup_cons.mp hnodup
    rw [List.flatMap_cons]
    by_cases hxk : x = k
    · subst hxk
      have hnone : (xs.flatMap fun y => if y = x then [f y] else []) = [] := by
        refine List.flatMap_eq_nil_iff.mpr fun y hy => if_neg ?_
        rintro rfl
        exact hx hy
      rw [if_pos rfl, hnone]
      rfl
    · have hmem := (List.mem_cons.mp hk).resolve_left fun h => hxk h.symm
      rw [if_neg hxk, flatMap_ite_eq hnodup hmem f]
      rfl

section
variable {rows : UInt32} {buffer : TuiBuffer}

theorem nodup_inView : (inView rows buffer).Nodup := by
  refine List.Nodup.map_on ?_ List.nodup_range
  intro i hi j hj heq
  have hcount := buffer.lineCount.toNat_lt
  rw [List.mem_range] at hi hj
  unfold viewCount at hi hj
  have hi' : i < 2 ^ 64 := by omega
  have hj' : j < 2 ^ 64 := by omega
  have htoNat := congrArg UInt64.toNat heq
  rwa [UInt64.toNat_ofNat_of_lt' hi', UInt64.toNat_ofNat_of_lt' hj'] at htoNat

/-- The index of the selected line. -/
theorem mem_inView_selected (h : LineInSight rows buffer) (hlines : InLines buffer)
    (hcount : buffer.lineCount ≠ 0) :
    buffer.selectedLine - buffer.linePos ∈ inView rows buffer ∧
      (buffer.selectedLine - buffer.linePos).toNat =
        buffer.selectedLine.toNat - buffer.linePos.toNat ∧
      ∀ i ∈ inView rows buffer,
        buffer.linePos + i = buffer.selectedLine ↔ i = buffer.selectedLine - buffer.linePos := by
  obtain ⟨hpos, hlt⟩ := h hcount
  have hline := UInt64.lt_iff_toNat_lt.mp (hlines hcount)
  have hsub : (buffer.selectedLine - buffer.linePos).toNat =
      buffer.selectedLine.toNat - buffer.linePos.toNat :=
    UInt64.toNat_sub_of_le _ _ (UInt64.le_iff_toNat_le.mpr hpos)
  refine ⟨mem_inView.mpr ?_, hsub, fun i _ => ⟨?_, ?_⟩⟩
  · rw [hsub, viewCount]
    omega
  · intro heq
    rw [← heq, UInt64.add_comm, UInt64.add_sub_cancel]
  · rintro rfl
    rw [UInt64.add_comm, UInt64.sub_add_cancel]

/-- **One line is highlighted**, the selected one. -/
theorem highlighted_of_shown (h : LineInSight rows buffer) (hlines : InLines buffer)
    {win : TuiWindow} {calls : List Call} {row : UInt64 → Row}
    (hshown : shown win {} calls = (inView rows buffer).flatMap fun i => rowItems i (row i))
    (hstandout : ∀ i,
      (row i).lineAttrs.standout = true ↔ buffer.linePos + i = buffer.selectedLine) :
    highlighted win calls =
      if buffer.lineCount = 0 then []
      else
        let i := buffer.selectedLine - buffer.linePos
        [(screenRow i, (row i).lineAttrs, 32 :: (row i).line)] := by
  rw [highlighted, hshown, List.filterMap_flatMap]
  simp only [filterMap_rowItems]
  split
  · rename_i hcount
    rw [inView, viewCount, hcount]
    simp
  · rename_i hcount
    obtain ⟨hmem, -, hiff⟩ := mem_inView_selected h hlines hcount
    have hif : ∀ i ∈ inView rows buffer,
        (if (row i).lineAttrs.standout = true then
          [(screenRow i, (row i).lineAttrs, 32 :: (row i).line)] else []) =
        if i = buffer.selectedLine - buffer.linePos then
          [(screenRow i, (row i).lineAttrs, 32 :: (row i).line)] else [] := by
      intro i hi
      exact if_congr ((hstandout i).trans (hiff i hi)) rfl rfl
    rw [List.flatMap_congr hif]
    exact flatMap_ite_eq nodup_inView hmem fun i =>
      (screenRow i, (row i).lineAttrs, 32 :: (row i).line)

variable {session : DebugSession} {model : TuiModel} {windows windows' : Windows}
  {terminal : Terminal} {isprint : UInt8 → Bool}

theorem linePos_add_sub (pos line : UInt64) : pos + (line - pos) = line := by
  rw [UInt64.add_comm, UInt64.sub_add_cancel]

theorem sourceRow_standout_iff (cols : UInt32) (n : UInt64) (line : List UInt8) :
    (sourceRow session model cols n line).lineAttrs.standout = true ↔
      n = model.source.selectedLine := by
  unfold sourceRow selectedAttrs
  dsimp only
  split <;> simp_all

theorem assemblyRow_standout_iff (cols : UInt32) (n : UInt64) (line : List UInt8)
    (address : UInt64) :
    (assemblyRow session model cols n line address).lineAttrs.standout = true ↔
      n = model.assembly.selectedLine := by
  unfold assemblyRow selectedAttrs
  dsimp only
  split
  · simp_all
  · split <;> simp_all

/-- What is highlighted in a window: the selected line, if there are lines. -/
def selection (model : TuiModel) (win : TuiWindow) (buffer : TuiBuffer)
    (text : UInt64 → List UInt8) : List (Int32 × Attr × List UInt8) :=
  if buffer.lineCount = 0 then []
  else
    [(screenRow (buffer.selectedLine - buffer.linePos), selectedAttrs model win,
      32 :: text buffer.selectedLine)]

/-- **The highlighted lines** of a view are the selected ones. -/
theorem viewTui_highlighted (hv : Viewable model) (hlines : Buffers InLines model)
    (hsight : InSight (getmaxy (placed terminal)) model) (hbig : ¬ TooSmall terminal)
    (h : (viewTui isprint terminal session model windows).result = .ok windows') :
    highlighted .source (viewTui isprint terminal session model windows).log =
        selection model .source model.source.toTuiBuffer (fun n =>
          truncated (getmaxx (placed terminal) .source - 8)
            ((sourceText model n).map fun c => if c = 9 then 32 else c)) ∧
      highlighted .assembly (viewTui isprint terminal session model windows).log =
        selection model .assembly model.assembly.toTuiBuffer (fun n =>
          truncated (getmaxx (placed terminal) .assembly - 12) (assemblyText model n)) := by
  obtain ⟨-, hsource, hassembly⟩ := viewTui_shown hv hbig h
  constructor
  · refine (highlighted_of_shown hsight.source hlines.source hsource fun i =>
      sourceRow_standout_iff _ _ _).trans (if_congr Iff.rfl rfl ?_)
    simp only [sourcePaneRow, sourceRow, linePos_add_sub, if_true]
  · refine (highlighted_of_shown hsight.assembly hlines.assembly hassembly fun i =>
      assemblyRow_standout_iff _ _ _ _).trans (if_congr Iff.rfl rfl ?_)
    simp only [assemblyPaneRow, assemblyRow, linePos_add_sub, if_true]

end

end Dabugger.Tui.Panes
