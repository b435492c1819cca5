import Dabugger.Tui.Scroll
import Dabugger.Tui.View

/-! # What is drawn

The calls of `view_tui` as what they draw in a window: a `Pen` follows the row and the attributes, and
`shown` has the markers and the lines that are written with it. Of all calls those of `view_source_buffer`
and `view_assembly_buffer` draw any in their windows (`viewTui_shown`), one `Row` for each line that is
in view (`viewLines_ok`). -/

namespace Dabugger.Tui.Drawn

open Dabugger.Lib.Log Dabugger.Lib.Runs Dabugger.Base Dabugger.Debug.Session
  Dabugger.Debug.Buffers Dabugger.Tui.Types Dabugger.Tui.Update Dabugger.Tui.OutputPane
  Dabugger.Tui.View

/-! ### The pen of a window -/

/-- Attributes are turned on; of color pairs the last one counts. -/
def Attr.on (attr attr' : Attr) : Attr where
  standout := attr.standout || attr'.standout
  bold := attr.bold || attr'.bold
  underline := attr.underline || attr'.underline
  colorPair := if attr'.colorPair = 0 then attr.colorPair else attr'.colorPair

/-- Attributes are turned off, with any color pair if they have one. -/
def Attr.off (attr attr' : Attr) : Attr where
  standout := attr.standout && !attr'.standout
  bold := attr.bold && !attr'.bold
  underline := attr.underline && !attr'.underline
  colorPair := if attr'.colorPair = 0 then attr.colorPair else 0

@[simp] theorem Attr.on_empty (attr : Attr) : Attr.on {} attr = attr := by
  obtain ⟨standout, bold, underline, colorPair⟩ := attr
  by_cases h : colorPair = 0 <;> simp [Attr.on, h]

@[simp] theorem Attr.off_self (attr : Attr) : Attr.off attr attr = {} := by
  obtain ⟨standout, bold, underline, colorPair⟩ := attr
  by_cases h : colorPair = 0 <;> simp [Attr.off, h]

/-- The row of the cursor of a window, and its attributes. -/
structure Pen where
  row : Int32 := 0
  attr : Attr := {}

/-- The pen of a window after a call. -/
def Pen.after (win : TuiWindow) (pen : Pen) : Call → Pen
  | .wattron w attr => if w = win then { pen with attr := Attr.on pen.attr attr } else pen
  | .wattroff w attr => if w = win then { pen with attr := Attr.off pen.attr attr } else pen
  | .mvwprintw w y _ _ => if w = win then { pen with row := y } else pen
  | _ => pen

/-- What is written: a marker of the gutter, or a line. -/
inductive Item where
  | marker (char : Char)
  | line (text : List UInt8)
  deriving DecidableEq

/-- What a call writes in a window. -/
def written (win : TuiWindow) (pen : Pen) : Call → List (Int32 × Attr × Item)
  | .waddwstr w char => if w = win then [(pen.row, pen.attr, .marker char)] else []
  | .wprintw w text => if w = win then [(pen.row, pen.attr, .line text)] else []
  | _ => []

/-- **What calls write in a window**, with its row and its attributes. -/
def shown (win : TuiWindow) : Pen → List Call → List (Int32 × Attr × Item)
  | _, [] => []
  | pen, call :: calls => written win pen call ++ shown win (pen.after win call) calls

section
variable {win : TuiWindow} {pen : Pen}

theorem shown_append (calls' : List Call) : ∀ (calls : List Call) (pen : Pen),
    shown win pen (calls ++ calls') =
      shown win pen calls ++ shown win (calls.foldl (Pen.after win) pen) calls'
  | [], _ => rfl
  | call :: calls, pen => by
    rw [List.cons_append, shown, shown, shown_append calls' calls, List.foldl_cons,
      List.append_assoc]

/-- Calls that write these items in a window, wherever its cursor is, and leave no attributes on. -/
def Writes (win : TuiWindow) (items : List (Int32 × Attr × Item)) (calls : List Call) : Prop :=
  ∀ pen : Pen, pen.attr = {} →
    shown win pen calls = items ∧ (calls.foldl (Pen.after win) pen).attr = {}

variable {items items' : List (Int32 × Attr × Item)} {calls calls' : List Call}

theorem Writes.nil : Writes win [] [] := fun _ h => ⟨rfl, h⟩

theorem Writes.append (h : Writes win items calls) (h' : Writes win items' calls') :
    Writes win (items ++ items') (calls ++ calls') := by
  intro pen hpen
  obtain ⟨hshown, hattr⟩ := h pen hpen
  obtain ⟨hshown', hattr'⟩ := h' _ hattr
  rw [shown_append, List.foldl_append, hshown, hshown']
  exact ⟨rfl, hattr'⟩

theorem Writes.flatMap {α : Type} {f : α → List (Int32 × Attr × Item)} {g : α → List Call} :
    ∀ {xs : List α}, (∀ x ∈ xs, Writes win (f x) (g x)) →
      Writes win (xs.flatMap f) (xs.flatMap g)
  | [], _ => .nil
  | _ :: _, h => (h _ List.mem_cons_self).append
    (Writes.flatMap fun x hx => h x (List.mem_cons_of_mem _ hx))

/-- A call that writes nothing and leaves the attributes. -/
def Silent (win : TuiWindow) (call : Call) : Prop :=
  ∀ pen, written win pen call = [] ∧ (pen.after win call).attr = pen.attr

/-- Silent calls write nothing. -/
theorem Writes.of_silent : ∀ {calls : List Call}, (∀ call ∈ calls, Silent win call) →
    Writes win [] calls
  | [], _ => .nil
  | call :: calls, h => by
    intro pen hpen
    obtain ⟨hwritten, hattr⟩ := h call List.mem_cons_self pen
    obtain ⟨hrest, hattr'⟩ := Writes.of_silent
      (fun call' hcall' => h call' (List.mem_cons_of_mem _ hcall')) _ (hattr.trans hpen)
    rw [shown, List.foldl_cons, hwritten, hrest]
    exact ⟨rfl, hattr'⟩

/-- A text with attributes that writes no item. -/
theorem Writes.framed (w : TuiWindow) (attr : Attr) (y x : Int32) (text : List UInt8) :
    Writes win [] [.wattron w attr, .mvwprintw w y x text, .wattroff w attr] := by
  rintro ⟨row, _⟩ rfl
  by_cases hw : w = win <;> simp [shown, written, Pen.after, hw]

/-- The items of a row. -/
def rowItems (i : UInt64) (row : Row) : List (Int32 × Attr × Item) :=
  [(screenRow i, row.lineNumAttrs,
      .marker (if row.isBreakpoint then breakpointGutterMarker else ' ')),
    (screenRow i, row.lineNumAttrs,
      .marker (if row.isCurrentInstruction then ipGutterMarker else verticalLineChar)),
    (screenRow i, row.lineAttrs, .line (32 :: row.line))]

/-- **A row is drawn**, in its window. -/
theorem writes_drawRow (w : TuiWindow) (i : UInt64) (row : Row) :
    Writes win (if w = win then rowItems i row else []) (drawRow w i row) := by
  rintro ⟨y, _⟩ rfl
  by_cases hw : w = win <;> simp [shown, written, Pen.after, drawRow, rowItems, hw]

end

/-! ### The loop over the lines -/

/-- How many lines a window of so many rows has in view. -/
def viewCount (rows : UInt32) (buffer : TuiBuffer) : ℕ :=
  min rows.toNat (buffer.lineCount.toNat - buffer.linePos.toNat)

/-- The indices of the rows that have a line. -/
def inView (rows : UInt32) (buffer : TuiBuffer) : List UInt64 :=
  (List.range (viewCount rows buffer)).map UInt64.ofNat

section
variable {rows : UInt32} {buffer : TuiBuffer} {i : UInt64}

theorem toNat_linePos_add {k : ℕ} (hk : k ≤ buffer.lineCount.toNat - buffer.linePos.toNat) :
    (buffer.linePos + UInt64.ofNat k).toNat = buffer.linePos.toNat + k := by
  have hcount := buffer.lineCount.toNat_lt
  have hpos := buffer.linePos.toNat_lt
  have hlt : k < 2 ^ 64 := by omega
  rw [UInt64.toNat_add, UInt64.toNat_ofNat_of_lt' hlt, Nat.mod_eq_of_lt (by omega)]

theorem mem_inView :
    i ∈ inView rows buffer ↔ i.toNat < viewCount rows buffer := by
  unfold inView
  rw [List.mem_map]
  constructor
  · rintro ⟨k, hk, rfl⟩
    have hlt : k < 2 ^ 64 := by
      have hcount := buffer.lineCount.toNat_lt
      have hk := List.mem_range.mp hk
      unfold viewCount at hk
      omega
    rw [UInt64.toNat_ofNat_of_lt' hlt]
    exact List.mem_range.mp hk
  · intro hi
    exact ⟨i.toNat, List.mem_range.mpr hi, UInt64.ofNat_toNat⟩

/-- The lines of the loop, from one on that is in view or right behind. -/
theorem viewLines_from {win : TuiWindow} {viewRow : UInt64 → Except Fault Row}
    {row : UInt64 → Row} : ∀ (left : ℕ) {k : ℕ},
    k ≤ buffer.lineCount.toNat - buffer.linePos.toNat →
    (∀ j, buffer.linePos.toNat + j < buffer.lineCount.toNat →
      viewRow (buffer.linePos + UInt64.ofNat j) = .ok (row (UInt64.ofNat j))) →
    viewLines win buffer viewRow left (UInt64.ofNat k) =
      ⟨(List.range' k (min left (buffer.lineCount.toNat - buffer.linePos.toNat - k))).flatMap
        fun j => drawRow win (UInt64.ofNat j) (row (UInt64.ofNat j)), .ok ()⟩
  | 0, k, _, _ => by
    rw [Nat.zero_min]
    rfl
  | left + 1, k, hk, hrow => by
    have hadd := toNat_linePos_add hk
    rw [viewLines]
    by_cases hend : buffer.linePos.toNat + k < buffer.lineCount.toNat
    · have hnot : ¬ buffer.linePos + UInt64.ofNat k ≥ buffer.lineCount := by
        rw [ge_iff_le, UInt64.le_iff_toNat_le, hadd]
        omega
      have hsucc : UInt64.ofNat k + 1 = UInt64.ofNat (k + 1) := (UInt64.ofNat_add k 1).symm
      have hmin : min (left + 1) (buffer.lineCount.toNat - buffer.linePos.toNat - k) =
          min left (buffer.lineCount.toNat - buffer.linePos.toNat - (k + 1)) + 1 := by omega
      rw [if_neg hnot, lift_bind_of_ok (hrow k hend), emitAll_bind, hsucc,
        viewLines_from left (by omega) hrow, hmin, List.range'_succ, List.flatMap_cons]
    · have hge : buffer.linePos + UInt64.ofNat k ≥ buffer.lineCount := by
        rw [ge_iff_le, UInt64.le_iff_toNat_le, hadd]
        omega
      have hzero : buffer.lineCount.toNat - buffer.linePos.toNat - k = 0 := by omega
      rw [if_pos hge, hzero, Nat.min_zero]
      rfl

/-- **The loop over the lines** draws one row for each line in view. -/
theorem viewLines_ok {win : TuiWindow} {viewRow : UInt64 → Except Fault Row} {row : UInt64 → Row}
    (hrow : ∀ j, buffer.linePos.toNat + j < buffer.lineCount.toNat →
      viewRow (buffer.linePos + UInt64.ofNat j) = .ok (row (UInt64.ofNat j))) :
    viewLines win buffer viewRow rows.toNat 0 =
      ⟨(inView rows buffer).flatMap fun i => drawRow win i (row i), .ok ()⟩ := by
  have hfrom : viewLines win buffer viewRow rows.toNat (UInt64.ofNat 0) = _ :=
    viewLines_from rows.toNat (Nat.zero_le _) hrow
  rw [Nat.sub_zero, ← List.range_eq_range'] at hfrom
  rw [inView, List.flatMap_map]
  exact hfrom

end

/-! ### Sections -/

/-- Calls that write no marker and no line, in no window. -/
def Blank (calls : List Call) : Prop := ∀ win, Writes win [] calls

theorem Blank.nil : Blank [] := fun _ => .nil

theorem Blank.append {calls calls' : List Call} (h : Blank calls) (h' : Blank calls') :
    Blank (calls ++ calls') := fun win => (h win).append (h' win)

theorem Blank.of_silent {calls : List Call} (h : ∀ win, ∀ call ∈ calls, Silent win call) :
    Blank calls := fun win => .of_silent (h win)

/-- A section of `view_tui` draws its contents and nothing else, and leaves these windows. -/
structure Frames (section_ : Drawing Windows) (content : Drawing Unit) (windows : Windows) : Prop where
  succeeds_iff : Succeeds section_ ↔ Succeeds content
  ok : ∀ windows', section_.result = .ok windows' → windows' = windows ∧
    ∃ before after, Blank before ∧ Blank after ∧ section_.log = before ++ content.log ++ after

section
variable {content : Drawing Unit} {section_ : Drawing Windows} {windows : Windows}

theorem Frames.of_content {after : List Call} (h : Blank after) (content : Drawing Unit)
    (windows : Windows) :
    Frames (content >>= fun _ => emitAll after >>= fun _ => pure windows) content windows where
  succeeds_iff := by
    rw [succeeds_bind_iff]
    constructor
    · rintro ⟨_, hok, -⟩
      exact ⟨_, hok⟩
    · rintro ⟨_, hok⟩
      exact ⟨_, hok, windows, rfl⟩
  ok windows' hok := by
    obtain ⟨_, -, hok, hlog⟩ := bind_ok hok
    cases hok
    refine ⟨rfl, [], after, .nil, h, ?_⟩
    rw [hlog, List.nil_append, emitAll_bind, log_pure, List.append_nil]

theorem Frames.before {calls : List Call} (hcalls : Blank calls)
    (h : Frames section_ content windows) :
    Frames (emitAll calls >>= fun _ => section_) content windows where
  succeeds_iff := by
    rw [← h.succeeds_iff, succeeds_bind_iff]
    exact ⟨fun ⟨_, _, hok⟩ => hok, fun hok => ⟨(), rfl, hok⟩⟩
  ok windows' hok := by
    obtain ⟨_, -, hok, hlog⟩ := bind_ok hok
    obtain ⟨hwindows, before, after, hbefore, hafter, hlog'⟩ := h.ok windows' hok
    refine ⟨hwindows, calls ++ before, after, hcalls.append hbefore, hafter, ?_⟩
    rw [hlog, hlog', emitAll, List.append_assoc, List.append_assoc, List.append_assoc]

theorem silent_simple {win : TuiWindow} {call : Call}
    (h : ∀ pen, written win pen call = [] ∧ pen.after win call = pen) : Silent win call :=
  fun pen => ⟨(h pen).1, congrArg Pen.attr (h pen).2⟩

/-- A window is opened. -/
theorem Frames.openWindow {terminal : Terminal} {win : TuiWindow} {windows₀ : Windows}
    {rest : Windows → Drawing Windows}
    (h : Frames (rest (Function.update windows₀ win (some (geometry terminal win)))) content
      windows) : Frames (openWindow terminal win windows₀ >>= rest) content windows := by
  unfold View.openWindow
  cases windows₀ win with
  | none =>
    have hcreated : Blank [.newwin win (geometry terminal win), .newPanel win, .intrflush win,
        .keypad win] := by
      refine .of_silent fun _ call hcall => ?_
      fin_cases hcall <;> exact silent_simple fun _ => ⟨rfl, rfl⟩
    exact h.before hcreated
  | some place =>
    have hmoved : ∀ place : Geometry,
        Blank [.werase win, .mvwin win place.y place.x, .wresize win place.rows place.cols] := by
      refine fun place => .of_silent fun _ call hcall => ?_
      fin_cases hcall <;> exact silent_simple fun _ => ⟨rfl, rfl⟩
    exact h.before (hmoved (geometry terminal win))

theorem blank_border (win : TuiWindow) (attr : Attr) (chars : List Char) :
    Blank [.wborderSet win attr chars] := by
  refine .of_silent fun _ call hcall => ?_
  rw [List.mem_singleton.mp hcall]
  exact silent_simple fun _ => ⟨rfl, rfl⟩

theorem Frames.bordered {win : TuiWindow} {attr : Attr} {colorPair : ℕ}
    (h : Frames section_ content windows) :
    Frames (setWinBorder win attr colorPair >>= fun _ => section_) content windows :=
  h.before (blank_border win _ _)

theorem blank_title (win : TuiWindow) (attr : Attr) (text : List UInt8) :
    Blank [.wattron win attr, .mvwprintw win 1 2 text, .wattroff win attr] :=
  fun _ => .framed win attr 1 2 text

theorem Frames.titled {win : TuiWindow} {attr : Attr} (h : Frames section_ content windows) :
    Frames (viewTitle win attr >>= fun _ => section_) content windows :=
  h.before (blank_title win attr _)

end

/-! ### The windows -/

/-- The windows of `view_tui`. -/
def placed (terminal : Terminal) : Windows := fun win => some (geometry terminal win)

/-- A row, as curses counts it. -/
theorem toInt_screenRow {i : UInt64} (h : i.toNat < 2 ^ 15) : (screenRow i).toInt = i.toNat + 2 := by
  have hbits : i.toUInt32.toBitVec.toNat = i.toNat := by
    rw [UInt32.toNat_toBitVec, UInt64.toNat_toUInt32, Nat.mod_eq_of_lt (by omega)]
  rw [screenRow, Int32.toInt_add]
  change (BitVec.toInt i.toUInt32.toBitVec + 2).bmod (2 ^ 32) = _
  rw [BitVec.toInt_eq_toNat_of_lt (by omega), hbits]
  exact Int.bmod_eq_of_le (by omega) (by omega)

section
variable {terminal : Terminal}

/-- The height of a window. -/
theorem geometry_rows (hbig : ¬ TooSmall terminal) (win : TuiWindow) :
    6 ≤ (geometry terminal win).rows.toNat ∧ (geometry terminal win).rows.toNat < 2 ^ 15 := by
  have hrows : 20 ≤ terminal.rows.toNat :=
    UInt32.le_iff_toNat_le.mp (UInt32.not_lt.mp fun h => hbig (.inl h))
  have hlt := terminal.rows_lt
  cases win <;> simp only [geometry, UInt32.toNat_div, UInt32.toNat_mul, UInt32.reduceToNat] <;>
    omega

/-- The rows for lines: all but those of the borders and the title. -/
theorem toNat_paneRows (hbig : ¬ TooSmall terminal) (win : TuiWindow) :
    (getmaxy (placed terminal) win - sectionRowMargin).toNat =
      (geometry terminal win).rows.toNat - 3 := by
  obtain ⟨hge, -⟩ := geometry_rows hbig win
  have hmargin : sectionRowMargin.toNat = 3 := rfl
  refine (UInt32.toNat_sub_of_le _ _ (UInt32.le_iff_toNat_le.mpr ?_)).trans ?_
  · rw [hmargin]
    exact (by omega : 3 ≤ 6).trans hge
  · rw [hmargin]
    rfl

/-- The width of a window. -/
theorem geometry_cols (hbig : ¬ TooSmall terminal) (win : TuiWindow) :
    10 ≤ (geometry terminal win).cols.toNat := by
  have hcols : 20 ≤ terminal.cols.toNat :=
    UInt32.le_iff_toNat_le.mp (UInt32.not_lt.mp fun h => hbig (.inr h))
  cases win <;> simp only [geometry, UInt32.toNat_div, UInt32.reduceToNat] <;> omega

end

section
variable {terminal : Terminal} {session : DebugSession} {model : TuiModel}
  {windows windows' : Windows} {isprint : UInt8 → Bool}

/-- The source is drawn in its window. -/
theorem viewSourceBuffer_congr (h : windows .source = windows' .source) :
    viewSourceBuffer session model windows = viewSourceBuffer session model windows' := by
  unfold viewSourceBuffer getmaxy getmaxx
  rw [h]

theorem viewAssemblyBuffer_congr (h : windows .assembly = windows' .assembly) :
    viewAssemblyBuffer session model windows = viewAssemblyBuffer session model windows' := by
  unfold viewAssemblyBuffer getmaxy getmaxx
  rw [h]

theorem viewSource_frames : Frames (viewSource terminal session model windows)
    (viewSourceBuffer session model (placed terminal))
    (Function.update windows .source (placed terminal .source)) := by
  have hwin : placed terminal .source =
      Function.update windows .source (placed terminal .source) .source :=
    (Function.update_self TuiWindow.source (placed terminal .source) windows).symm
  rw [viewSourceBuffer_congr hwin]
  refine .openWindow (.bordered (.titled ?_))
  exact .of_content .nil _ _

theorem viewAssembly_frames : Frames (viewAssembly terminal session model windows)
    (viewAssemblyBuffer session model (placed terminal))
    (Function.update windows .assembly (placed terminal .assembly)) := by
  have hwin : placed terminal .assembly =
      Function.update windows .assembly (placed terminal .assembly) .assembly :=
    (Function.update_self TuiWindow.assembly (placed terminal .assembly) windows).symm
  rw [viewAssemblyBuffer_congr hwin]
  refine .openWindow (.bordered (.titled ?_))
  exact .of_content .nil _ _

theorem blank_borderTitle (win : TuiWindow) (attr attr' : Attr) (chars : List Char)
    (text : List UInt8) :
    Blank [.wborderSet win attr chars, .wattron win attr', .mvwprintw win 1 2 text,
      .wattroff win attr'] :=
  (blank_border win attr chars).append (blank_title win attr' text)

theorem viewOutput_frames : Frames (viewOutput isprint terminal session windows)
    (drawOutputBuffer isprint session)
    (Function.update windows .output (placed terminal .output)) := by
  refine .openWindow ?_
  exact .of_content (blank_borderTitle .output _ _ _ _) _ _

theorem viewRegisters_frames : Frames (viewRegisters terminal session windows)
    (viewRegistersBuffer session (Function.update windows .registers (placed terminal .registers)))
    (Function.update windows .registers (placed terminal .registers)) := by
  refine .openWindow ?_
  exact .of_content (blank_borderTitle .registers _ _ _ _) _ _

theorem viewPicker_frames : Frames (viewPicker terminal model windows) (viewPickerBuffer model)
    (Function.update windows .picker (placed terminal .picker)) := by
  refine .openWindow (.bordered (.titled ?_))
  exact .of_content .nil _ _

/-! ### What the other sections draw -/

theorem drawOutputBuffer_blank {u : Unit} (h : (drawOutputBuffer isprint session).result = .ok u) :
    Blank (drawOutputBuffer isprint session).log := by
  unfold drawOutputBuffer at h ⊢
  obtain ⟨ops, -, -, hlog⟩ := bind_ok h
  rw [hlog]
  refine .of_silent fun win call hcall => ?_
  obtain ⟨op, -, rfl⟩ := List.mem_map.mp hcall
  exact silent_simple fun _ => ⟨rfl, rfl⟩

/-- A text that is printed at a place. -/
theorem silent_mvwprintw (win w : TuiWindow) (y x : Int32) (text : List UInt8) :
    Silent win (.mvwprintw w y x text) := by
  intro pen
  by_cases hw : w = win <;> simp [written, Pen.after, hw]

theorem viewRegistersBuffer_blank (session : DebugSession) (windows : Windows) :
    Blank (viewRegistersBuffer session windows).log ∧
      Succeeds (viewRegistersBuffer session windows) := by
  unfold viewRegistersBuffer
  split
  · exact ⟨.nil, _, rfl⟩
  · refine ⟨.of_silent fun win call hcall => ?_, _, rfl⟩
    obtain ⟨⟨⟨name, value⟩, i⟩, -, hcall⟩ := List.mem_flatMap.mp hcall
    unfold drawRegister at hcall
    dsimp only at hcall
    split at hcall
    · cases hcall
    · rw [List.mem_singleton.mp hcall]
      exact silent_mvwprintw win _ _ _ _

theorem viewPickerLines_blank {buffer : LinesBuffer} {selectedLine : UInt64} :
    ∀ {left : ℕ} {i : UInt64} {u : Unit},
      (viewPickerLines buffer selectedLine left i).result = .ok u →
        Blank (viewPickerLines buffer selectedLine left i).log
  | 0, _, _, _ => .nil
  | left + 1, i, _, h => by
    unfold viewPickerLines at h ⊢
    obtain ⟨line, -, h, hlog⟩ := bind_ok h
    rw [hlog, log_lift, List.nil_append]
    by_cases hselected : i = selectedLine
    · rw [if_pos hselected, emitAll_bind] at h ⊢
      refine Blank.append ?_ (viewPickerLines_blank h)
      exact fun _ => .framed _ _ _ _ _
    · rw [if_neg hselected, emit_bind] at h ⊢
      have hprinted : Blank [.mvwprintw .picker (screenRow i) 2 line] := by
        refine .of_silent fun win call hcall => ?_
        rw [List.mem_singleton.mp hcall]
        exact silent_mvwprintw win _ _ _ _
      exact hprinted.append (viewPickerLines_blank h)

theorem viewPickerBuffer_blank {u : Unit} (h : (viewPickerBuffer model).result = .ok u) :
    Blank (viewPickerBuffer model).log := by
  have hpanel : ∀ call, call = Call.showPanel ∨ call = Call.hidePanel → Blank [call] := by
    intro call hcall
    refine .of_silent fun win call' hcall' => ?_
    rw [List.mem_singleton.mp hcall']
    rcases hcall with rfl | rfl <;> exact silent_simple fun _ => ⟨rfl, rfl⟩
  unfold viewPickerBuffer at h ⊢
  split at h
  · rename_i hopen
    rw [if_pos hopen]
    obtain ⟨buffer, -, h, hlog⟩ := bind_ok h
    obtain ⟨_, hlines, -, hlog'⟩ := bind_ok h
    rw [hlog, hlog']
    exact (viewPickerLines_blank hlines).append (hpanel _ (.inl rfl))
  · rename_i hopen
    rw [if_neg hopen]
    exact hpanel _ (.inr rfl)

/-! ### The whole view -/

/-- Whatever windows there were, these are the ones after it. -/
theorem update_placed (terminal : Terminal) (windows : Windows) :
    Function.update (Function.update (Function.update (Function.update (Function.update windows
      .source (placed terminal .source)) .assembly (placed terminal .assembly))
      .output (placed terminal .output)) .registers (placed terminal .registers))
      .picker (placed terminal .picker) = placed terminal := by
  funext win
  cases win <;> rfl

/-- **The view succeeds** if the four contents that read buffers do. -/
theorem viewTui_succeeds_iff (hbig : ¬ TooSmall terminal) (windows : Windows) :
    Succeeds (viewTui isprint terminal session model windows) ↔
      Succeeds (viewSourceBuffer session model (placed terminal)) ∧
      Succeeds (viewAssemblyBuffer session model (placed terminal)) ∧
      Succeeds (drawOutputBuffer isprint session) ∧ Succeeds (viewPickerBuffer model) := by
  rw [viewTui, if_neg hbig]
  constructor
  · intro h
    obtain ⟨w₁, h₁, h⟩ := succeeds_bind_iff.mp h
    obtain ⟨w₂, h₂, h⟩ := succeeds_bind_iff.mp h
    obtain ⟨w₃, h₃, h⟩ := succeeds_bind_iff.mp h
    obtain ⟨w₄, h₄, h⟩ := succeeds_bind_iff.mp h
    obtain ⟨w₅, h₅, -⟩ := succeeds_bind_iff.mp h
    exact ⟨viewSource_frames.succeeds_iff.mp ⟨w₁, h₁⟩,
      viewAssembly_frames.succeeds_iff.mp ⟨w₂, h₂⟩,
      viewOutput_frames.succeeds_iff.mp ⟨w₃, h₃⟩, viewPicker_frames.succeeds_iff.mp ⟨w₅, h₅⟩⟩
  · rintro ⟨hsource, hassembly, houtput, hpicker⟩
    obtain ⟨w₁, h₁⟩ := viewSource_frames.succeeds_iff.mpr hsource
    obtain ⟨w₂, h₂⟩ := viewAssembly_frames.succeeds_iff.mpr hassembly
    obtain ⟨w₃, h₃⟩ := viewOutput_frames.succeeds_iff.mpr houtput
    obtain ⟨w₄, h₄⟩ := viewRegisters_frames.succeeds_iff.mpr (viewRegistersBuffer_blank _ _).2
    obtain ⟨w₅, h₅⟩ := viewPicker_frames.succeeds_iff.mpr hpicker
    exact succeeds_bind_iff.mpr ⟨w₁, h₁, succeeds_bind_iff.mpr ⟨w₂, h₂, succeeds_bind_iff.mpr
      ⟨w₃, h₃, succeeds_bind_iff.mpr ⟨w₄, h₄, succeeds_bind_iff.mpr ⟨w₅, h₅, _, rfl⟩⟩⟩⟩⟩

/-- What is drawn after the source and the assembly. -/
theorem viewOthers_ok {windows windows' : Windows} {others : Drawing Windows}
    (hothers : others = do
      let windows ← viewOutput isprint terminal session windows
      let windows ← viewRegisters terminal session windows
      let windows ← viewPicker terminal model windows
      viewFocus model
      emitAll [.updatePanels, .doupdate]
      return windows)
    (h : others.result = .ok windows') :
    windows' = Function.update (Function.update (Function.update windows
      .output (placed terminal .output)) .registers (placed terminal .registers))
      .picker (placed terminal .picker) ∧ Blank others.log := by
  subst hothers
  obtain ⟨w₁, h₁, h, hlog₁⟩ := bind_ok h
  obtain ⟨w₂, h₂, h, hlog₂⟩ := bind_ok h
  obtain ⟨w₃, h₃, h, hlog₃⟩ := bind_ok h
  obtain ⟨_, houtput⟩ := viewOutput_frames.succeeds_iff.mp ⟨w₁, h₁⟩
  obtain ⟨_, hpicker⟩ := viewPicker_frames.succeeds_iff.mp ⟨w₃, h₃⟩
  obtain ⟨rfl, a₁, c₁, ha₁, hc₁, hl₁⟩ := viewOutput_frames.ok w₁ h₁
  obtain ⟨rfl, a₂, c₂, ha₂, hc₂, hl₂⟩ := viewRegisters_frames.ok w₂ h₂
  obtain ⟨rfl, a₃, c₃, ha₃, hc₃, hl₃⟩ := viewPicker_frames.ok w₃ h₃
  cases h
  refine ⟨rfl, ?_⟩
  rw [hlog₁, hlog₂, hlog₃, hl₁, hl₂, hl₃]
  refine .append ?_ (.append ?_ (.append ?_ ?_))
  · exact (ha₁.append (drawOutputBuffer_blank houtput)).append hc₁
  · exact (ha₂.append (viewRegistersBuffer_blank _ _).1).append hc₂
  · exact (ha₃.append (viewPickerBuffer_blank hpicker)).append hc₃
  · refine (blank_borderTitle model.focusedWin _ _ _ _).append ?_
    refine .of_silent fun win call hcall => ?_
    fin_cases hcall <;> exact silent_simple fun _ => ⟨rfl, rfl⟩

/-- **What the view draws**: the source and the assembly, and nothing else that is a marker or a line
of them. -/
theorem viewTui_ok (hbig : ¬ TooSmall terminal)
    (h : (viewTui isprint terminal session model windows).result = .ok windows') :
    windows' = placed terminal ∧ ∃ a b c, Blank a ∧ Blank b ∧ Blank c ∧
      (viewTui isprint terminal session model windows).log =
        a ++ (viewSourceBuffer session model (placed terminal)).log ++
          b ++ (viewAssemblyBuffer session model (placed terminal)).log ++ c := by
  rw [viewTui, if_neg hbig] at h ⊢
  obtain ⟨w₁, h₁, h, hlog₁⟩ := bind_ok h
  obtain ⟨w₂, h₂, h, hlog₂⟩ := bind_ok h
  obtain ⟨rfl, a₁, c₁, ha₁, hc₁, hl₁⟩ := viewSource_frames.ok w₁ h₁
  obtain ⟨rfl, a₂, c₂, ha₂, hc₂, hl₂⟩ := viewAssembly_frames.ok w₂ h₂
  obtain ⟨hwindows, hblank⟩ := viewOthers_ok rfl h
  rw [update_placed] at hwindows
  refine ⟨hwindows, a₁, c₁ ++ a₂, _, ha₁, hc₁.append ha₂, hc₂.append hblank, ?_⟩
  rw [hlog₁, hlog₂, hl₁, hl₂]
  simp only [List.append_assoc]

end

end Dabugger.Tui.Drawn
