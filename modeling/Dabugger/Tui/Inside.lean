import Dabugger.Tui.Drawn

/-! # Where the texts begin

`view_tui` moves the cursor of a window for each text that it prints there with `mvwprintw`, and for each
line of the output; what `waddwstr`, `wprintw` and `waddch` write goes on from there. It moves it to a
place between the borders of the window, but in three panes that are as long or as wide whatever the
terminal is: the lines of the picker and of the output, which do not scroll, and the second column of
the registers (`viewTui_inside_iff`). -/

namespace Dabugger.Tui.Inside

open Dabugger.Lib.Log Dabugger.Base Dabugger.Debug.Session Dabugger.Debug.Buffers Dabugger.Tui.Types
  Dabugger.Tui.Update Dabugger.Tui.OutputPane Dabugger.Tui.View Dabugger.Tui.Drawn

/-- A place between the borders of a window. -/
structure IsInside (place : Geometry) (y x : ℤ) : Prop where
  top : 1 ≤ y
  bottom : y + 1 < place.rows.toNat
  left : 1 ≤ x
  right : x + 1 < place.cols.toNat

/-- The call moves no cursor to where a text or a line of the output begins, or it does between the
borders. -/
def BeginsInside (terminal : Terminal) : Call → Prop
  | .mvwprintw win y x _ => IsInside (geometry terminal win) y.toInt x.toInt
  | .output (.wmove y x) => IsInside (geometry terminal .output) y x
  | _ => True

section
variable {terminal : Terminal} {windows : Windows} {win : TuiWindow} {attr : Attr}

/-! ### The frames -/

theorem inside_title (hbig : ¬ TooSmall terminal) (win : TuiWindow) :
    IsInside (geometry terminal win) 1 2 := by
  have hrows := (geometry_rows hbig win).1
  have hcols := geometry_cols hbig win
  constructor <;> omega

theorem emits_openWindow : Emits (BeginsInside terminal) (openWindow terminal win windows) := by
  unfold openWindow
  cases windows win <;>
  · intro call hcall
    fin_cases hcall <;> trivial

/-- A window is in its place once it is opened. -/
theorem openWindow_ok : (openWindow terminal win windows).result =
    .ok (Function.update windows win (placed terminal win)) := by
  unfold openWindow
  cases windows win <;> rfl

theorem emits_openWindow_bind_iff {α : Type} {rest : Windows → Drawing α} :
    Emits (BeginsInside terminal) (openWindow terminal win windows >>= rest) ↔
      Emits (BeginsInside terminal) (rest (Function.update windows win (placed terminal win))) :=
  emits_openWindow.bind_iff openWindow_ok

theorem emits_setWinBorder (colorPair : ℕ) :
    Emits (BeginsInside terminal) (setWinBorder win attr colorPair) := .emit trivial

theorem emits_viewTitle (hbig : ¬ TooSmall terminal) :
    Emits (BeginsInside terminal) (viewTitle win attr) := by
  intro call hcall
  fin_cases hcall
  · trivial
  · exact inside_title hbig win
  · trivial

/-! ### The panes -/

/-- The place of a line. -/
theorem inside_line_iff (hbig : ¬ TooSmall terminal) {i : UInt64} (hi : i.toNat < 2 ^ 15) {x : Int32}
    (hleft : 1 ≤ x.toInt) (hright : x.toInt ≤ 2) :
    IsInside (geometry terminal win) (screenRow i).toInt x.toInt ↔
      i.toNat + 3 < (geometry terminal win).rows.toNat := by
  have hrow := toInt_screenRow hi
  have hcols := geometry_cols hbig win
  constructor
  · intro h
    have hbottom := h.bottom
    omega
  · intro h
    constructor <;> omega

/-- The lines of the source or of the assembly. -/
theorem emits_viewLines (hbig : ¬ TooSmall terminal) {buffer : TuiBuffer}
    {viewRow : UInt64 → Except Fault Row} : ∀ {left : ℕ} {i : UInt64},
      i.toNat + left + 3 ≤ (geometry terminal win).rows.toNat →
        Emits (BeginsInside terminal) (viewLines win buffer viewRow left i)
  | 0, _, _ => .pure _
  | left + 1, i, h => by
    have hmax := (geometry_rows hbig win).2
    have hsucc : (i + 1).toNat = i.toNat + 1 := by
      rw [UInt64.toNat_add, UInt64.toNat_one, Nat.mod_eq_of_lt (by omega)]
    rw [viewLines]
    split
    · exact .pure _
    · refine .bind (.lift _) fun row _ => .bind ?_ fun _ _ => emits_viewLines hbig (by omega)
      intro call hcall
      fin_cases hcall
      · trivial
      · exact (inside_line_iff hbig (by omega) le_rfl (by decide)).mpr (by omega)
      all_goals trivial

theorem emits_viewSource (hbig : ¬ TooSmall terminal) {session : DebugSession} {model : TuiModel} :
    Emits (BeginsInside terminal) (viewSource terminal session model windows) := by
  refine emits_openWindow_bind_iff.mpr ?_
  refine (emits_setWinBorder _).bind fun _ _ => (emits_viewTitle hbig).bind fun _ _ =>
    .bind ?_ fun _ _ => .pure _
  rw [viewSourceBuffer_congr (Function.update_self _ _ _)]
  refine emits_viewLines hbig ?_
  rw [toNat_paneRows hbig]
  have hge := (geometry_rows hbig .source).1
  change 0 + _ + 3 ≤ _
  omega

theorem emits_viewAssembly (hbig : ¬ TooSmall terminal) {session : DebugSession}
    {model : TuiModel} :
    Emits (BeginsInside terminal) (viewAssembly terminal session model windows) := by
  refine emits_openWindow_bind_iff.mpr ?_
  refine (emits_setWinBorder _).bind fun _ _ => (emits_viewTitle hbig).bind fun _ _ =>
    .bind ?_ fun _ _ => .pure _
  rw [viewAssemblyBuffer_congr (Function.update_self _ _ _)]
  refine emits_viewLines hbig ?_
  rw [toNat_paneRows hbig]
  have hge := (geometry_rows hbig .assembly).1
  change 0 + _ + 3 ≤ _
  omega

theorem emits_viewFocus (hbig : ¬ TooSmall terminal) {model : TuiModel} :
    Emits (BeginsInside terminal) (viewFocus model) :=
  (emits_setWinBorder _).bind fun _ _ => emits_viewTitle hbig

/-! ### The output -/

/-- The newlines among the bytes of the output that are drawn. -/
def newlines (output : OutputBuffer) : ℕ := (output.buffer.take (output.cursor + 1)).count newline

theorem drop_of_index {α : Type} {array : List α} {i : ℕ} {a : α} (h : index array i = .ok a) :
    array.drop i = a :: array.drop (i + 1) := by
  unfold index at h
  split at h <;> cases h
  rename_i hget
  obtain ⟨hi, rfl⟩ := List.getElem?_eq_some_iff.mp hget
  exact List.drop_eq_getElem_cons hi

/-- **The lines of the output** begin in rows that follow each other. -/
theorem wmove_mem_viewOutputLoop {isprint : UInt8 → Bool} {buffer : List UInt8} {y x : ℕ} :
    ∀ {left i row : ℕ} {ops : List OutputOp},
      (viewOutputLoop isprint buffer left i row).result = .ok ops →
        (.wmove y x ∈ ops ↔
          x = 2 ∧ row < y ∧ y ≤ row + ((buffer.drop i).take left).count newline)
  | 0, _, _, _, h => by
    cases h
    rw [List.take_zero, List.count_nil]
    exact iff_of_false List.not_mem_nil (by omega)
  | left + 1, i, row, ops, h => by
    rw [viewOutputLoop, emit_bind] at h
    obtain ⟨c, hc, h, -⟩ := bind_ok h
    obtain ⟨ops', hops, h, -⟩ := bind_ok h
    cases h
    have ih := wmove_mem_viewOutputLoop (y := y) (x := x) hops
    have hdrop : buffer.drop i = c :: buffer.drop (i + 1) := drop_of_index hc
    have hshown : .wmove y x ∉ if isprint c then [OutputOp.waddch c] else [] := by
      split <;> simp
    rw [List.mem_append, List.mem_append, or_iff_left hshown, ih, hdrop, List.take_succ_cons,
      List.count_cons]
    by_cases hnewline : c = newline
    · rw [if_pos hnewline, if_pos hnewline, if_pos (by simpa using hnewline), List.mem_singleton,
        OutputOp.wmove.injEq]
      omega
    · rw [if_neg hnewline, if_neg hnewline, if_neg (by simpa using hnewline), Nat.add_zero]
      exact or_iff_right List.not_mem_nil

/-- The output has room for its newlines. -/
theorem emits_drawOutputBuffer_iff (hbig : ¬ TooSmall terminal) {session : DebugSession}
    {isprint : UInt8 → Bool} (h : Succeeds (drawOutputBuffer isprint session)) :
    Emits (BeginsInside terminal) (drawOutputBuffer isprint session) ↔
      newlines session.output + 3 < (geometry terminal .output).rows.toNat := by
  have hrows := (geometry_rows hbig .output).1
  have hcols := geometry_cols hbig .output
  obtain ⟨ops, hops, -⟩ := succeeds_bind_iff.mp h
  replace hops : (viewOutputBuffer isprint session.output).result = .ok ops := hops
  have hdraw : drawOutputBuffer isprint session = emitAll (ops.map .output) := lift_bind_of_ok hops
  obtain ⟨ops, hloop, hpure, -⟩ := bind_ok hops
  cases hpure
  rw [hdraw]
  have hmem (y x : ℕ) := wmove_mem_viewOutputLoop (y := y) (x := x) hloop
  rw [List.drop_zero] at hmem
  unfold newlines
  constructor
  · intro hemits
    have hlast : .wmove (2 + (session.output.buffer.take (session.output.cursor + 1)).count newline) 2 ∈
        OutputOp.wmove 2 2 :: ops := by
      rw [List.mem_cons, OutputOp.wmove.injEq, hmem]
      omega
    have hbottom := (hemits _ (List.mem_map_of_mem hlast)).bottom
    omega
  · intro hfits call hcall
    obtain ⟨op, hop, rfl⟩ := List.mem_map.mp hcall
    cases op with
    | waddch c => trivial
    | wmove y x =>
      rw [List.mem_cons, OutputOp.wmove.injEq, hmem] at hop
      constructor <;> omega

theorem emits_viewOutput_iff (hbig : ¬ TooSmall terminal) {session : DebugSession}
    {isprint : UInt8 → Bool} (h : Succeeds (drawOutputBuffer isprint session)) :
    Emits (BeginsInside terminal) (viewOutput isprint terminal session windows) ↔
      newlines session.output + 3 < (geometry terminal .output).rows.toNat := by
  refine emits_openWindow_bind_iff.trans ((emits_bind_iff_left fun _ => ?_).trans
    (emits_drawOutputBuffer_iff hbig h))
  exact (emits_setWinBorder _).bind fun _ _ => (emits_viewTitle hbig).bind fun _ _ => .pure _

/-! ### The registers -/

theorem toInt_register (r : ℕ) (hr : r < 9) : (Int32.ofNat (r + 2)).toInt = r + 2 := by
  revert r
  decide

/-- The registers need two columns. -/
theorem emits_viewRegistersBuffer_iff (hbig : ¬ TooSmall terminal) {session : DebugSession}
    (hw : windows .registers = placed terminal .registers) :
    Emits (BeginsInside terminal) (viewRegistersBuffer session windows) ↔
      (session.state ≠ .dead → 32 ≤ (geometry terminal .registers).cols.toNat) := by
  have hrows : (getmaxy windows .registers - sectionRowMargin).toNat =
      (geometry terminal .registers).rows.toNat - 3 := by
    rw [getmaxy, hw]
    exact toNat_paneRows hbig .registers
  have hge := (geometry_rows hbig .registers).1
  have htwo : (2 : Int32).toInt = 2 := rfl
  have hthirty : (30 : Int32).toInt = 30 := rfl
  unfold viewRegistersBuffer
  split
  · exact iff_of_true (.pure _) fun hdead => absurd ‹_› hdead
  · have hheight : ((regTable session.inferiorRegisters).length + 1) / 2 = 9 := by simp [regTable]
    dsimp only
    rw [hheight]
    refine ⟨fun h _ => ?_, fun hcols call hcall => ?_⟩
    · -- the first register of the second column
      have hmem : (("r9", session.inferiorRegisters.r9), 9) ∈
          (regTable session.inferiorRegisters).zipIdx := by
        simp [regTable, List.zipIdx]
      have hcall : ∀ call ∈ drawRegister (getmaxy windows .registers - sectionRowMargin) 9
          (("r9", session.inferiorRegisters.r9), 9), BeginsInside terminal call :=
        fun call hcall => h call (List.mem_flatMap.mpr ⟨_, hmem, hcall⟩)
      rw [drawRegister, if_neg (by omega)] at hcall
      have hright : (30 : Int32).toInt + 1 < _ := (hcall _ List.mem_cons_self).right
      omega
    · have hcols := hcols ‹_›
      obtain ⟨⟨⟨name, value⟩, i⟩, -, hcall⟩ := List.mem_flatMap.mp hcall
      rw [drawRegister] at hcall
      split at hcall
      · cases hcall
      · rename_i hrow
        rw [List.mem_singleton.mp hcall]
        change ¬ i % 9 + 2 - 2 ≥ _ at hrow
        change IsInside _ (Int32.ofNat (i % 9 + 2)).toInt (Int32.toInt (if i < 9 then 2 else 30))
        have hlt : i % 9 < 9 := Nat.mod_lt i (by decide)
        have htoInt := toInt_register (i % 9) hlt
        constructor <;> (try split) <;> omega

theorem emits_viewRegisters_iff (hbig : ¬ TooSmall terminal) {session : DebugSession} :
    Emits (BeginsInside terminal) (viewRegisters terminal session windows) ↔
      (session.state ≠ .dead → 32 ≤ (geometry terminal .registers).cols.toNat) := by
  refine emits_openWindow_bind_iff.trans (.trans (emits_bind_iff_left fun _ => ?_) ?_)
  · exact (emits_setWinBorder _).bind fun _ _ => (emits_viewTitle hbig).bind fun _ _ => .pure _
  · exact emits_viewRegistersBuffer_iff hbig (Function.update_self _ _ _)

/-! ### The picker -/

/-- The lines of the picker, if they all fit. -/
theorem emits_viewPickerLines (hbig : ¬ TooSmall terminal) {buffer : LinesBuffer}
    {selectedLine : UInt64} : ∀ {left : ℕ} {i : UInt64},
      i.toNat + left + 3 ≤ (geometry terminal .picker).rows.toNat →
        Emits (BeginsInside terminal) (viewPickerLines buffer selectedLine left i)
  | 0, _, _ => .pure _
  | left + 1, i, h => by
    have hmax := (geometry_rows hbig .picker).2
    have hsucc : (i + 1).toNat = i.toNat + 1 := by
      rw [UInt64.toNat_add, UInt64.toNat_one, Nat.mod_eq_of_lt (by omega)]
    have hinside : IsInside (geometry terminal .picker) (screenRow i).toInt (2 : Int32).toInt :=
      (inside_line_iff hbig (by omega) (by decide) le_rfl).mpr (by omega)
    rw [viewPickerLines]
    refine .bind (.lift _) fun line _ => ?_
    dsimp only
    split
    · refine .bind ?_ fun _ _ => emits_viewPickerLines hbig (by omega)
      intro call hcall
      fin_cases hcall
      · trivial
      · exact hinside
      · trivial
    · exact .bind (.emit hinside) fun _ _ => emits_viewPickerLines hbig (by omega)

/-- A line of the picker is printed. -/
theorem viewPickerLines_succ {buffer : LinesBuffer} {selectedLine i : UInt64} {line : List UInt8}
    (h : lineAt buffer.lines i = .ok line) (left : ℕ) :
    ∃ calls, .mvwprintw .picker (screenRow i) 2 line ∈ calls ∧
      viewPickerLines buffer selectedLine (left + 1) i =
        emitAll calls >>= fun _ => viewPickerLines buffer selectedLine left (i + 1) := by
  rw [viewPickerLines, lift_bind_of_ok h]
  by_cases hselected : i = selectedLine
  · exact ⟨_, List.mem_cons_of_mem _ List.mem_cons_self, if_pos hselected⟩
  · exact ⟨[_], List.mem_cons_self, if_neg hselected⟩

/-- So is each of them. -/
theorem exists_line {buffer : LinesBuffer} {selectedLine j : UInt64} :
    ∀ {left : ℕ} {i : UInt64}, Succeeds (viewPickerLines buffer selectedLine left i) →
      i.toNat ≤ j.toNat → j.toNat < i.toNat + left →
        ∃ text, .mvwprintw .picker (screenRow j) 2 text ∈
          (viewPickerLines buffer selectedLine left i).log
  | 0, _, _, _, _ => by omega
  | left + 1, i, h, hij, hj => by
    obtain ⟨line, hline, -⟩ := succeeds_bind_iff.mp h
    obtain ⟨calls, hcall, hlines⟩ := viewPickerLines_succ hline left
    rw [hlines] at h ⊢
    rcases Nat.eq_or_lt_of_le hij with heq | hlt
    · obtain rfl := UInt64.toNat_inj.mp heq
      exact ⟨line, List.mem_append_left _ hcall⟩
    · have hsucc : (i + 1).toNat = i.toNat + 1 := by
        have hmax := j.toNat_lt
        rw [UInt64.toNat_add, UInt64.toNat_one, Nat.mod_eq_of_lt (by omega)]
      obtain ⟨_, -, h⟩ := succeeds_bind_iff.mp h
      obtain ⟨text, htext⟩ := exists_line (j := j) h (by omega) (by omega)
      exact ⟨text, List.mem_append_right _ htext⟩

/-- The picker does not scroll. -/
theorem emits_viewPickerBuffer_iff (hbig : ¬ TooSmall terminal) {model : TuiModel}
    (h : Succeeds (viewPickerBuffer model)) :
    Emits (BeginsInside terminal) (viewPickerBuffer model) ↔
      (model.isPickerOpen → ∀ buffer, model.picker.buffer = some buffer →
        buffer.lineCount.toNat + 3 ≤ (geometry terminal .picker).rows.toNat) := by
  unfold viewPickerBuffer at h ⊢
  by_cases hopen : model.isPickerOpen
  · rw [if_pos hopen] at h ⊢
    obtain ⟨buffer, hbuffer, h⟩ := succeeds_bind_iff.mp h
    obtain ⟨_, hlines, -⟩ := succeeds_bind_iff.mp h
    replace hbuffer : bufferAt model.picker.buffer = .ok buffer := hbuffer
    have hsome : model.picker.buffer = some buffer := by
      unfold bufferAt at hbuffer
      cases hpicker : model.picker.buffer <;> rw [hpicker] at hbuffer <;> cases hbuffer
      rfl
    rw [lift_bind_of_ok hbuffer, emits_bind_iff_left fun _ => .emit trivial]
    constructor
    · rintro hemits - buffer' hbuffer'
      obtain rfl : buffer = buffer' := Option.some.inj (hsome.symm.trans hbuffer')
      by_contra hlong
      -- the first line that does not fit
      obtain ⟨hge, hlt⟩ := geometry_rows hbig .picker
      obtain ⟨j, hj⟩ : ∃ j : UInt64, j.toNat = (geometry terminal .picker).rows.toNat - 3 :=
        ⟨.ofNat _, UInt64.toNat_ofNat_of_lt' (by change _ < 2 ^ 64; omega)⟩
      have hzero : (0 : UInt64).toNat = 0 := rfl
      obtain ⟨text, htext⟩ := exists_line (j := j) ⟨_, hlines⟩ (by omega) (by omega)
      have hinside := (inside_line_iff hbig (by omega) (by decide) le_rfl).mp (hemits _ htext)
      omega
    · intro hfits
      refine emits_viewPickerLines hbig ?_
      have hfits := hfits hopen buffer hsome
      change 0 + _ + 3 ≤ _
      omega
  · rw [if_neg hopen]
    exact iff_of_true (.emit trivial) fun h => absurd h hopen

theorem emits_viewPicker_iff (hbig : ¬ TooSmall terminal) {model : TuiModel}
    (h : Succeeds (viewPickerBuffer model)) :
    Emits (BeginsInside terminal) (viewPicker terminal model windows) ↔
      (model.isPickerOpen → ∀ buffer, model.picker.buffer = some buffer →
        buffer.lineCount.toNat + 3 ≤ (geometry terminal .picker).rows.toNat) := by
  refine emits_openWindow_bind_iff.trans (((emits_setWinBorder _).bind_iff rfl).trans
    (((emits_viewTitle hbig).bind_iff rfl).trans ?_))
  exact (emits_bind_iff_left fun _ => .pure _).trans (emits_viewPickerBuffer_iff hbig h)

/-- **Where the texts begin**: all of them between the borders of their windows, if and only if the
terminal has 64 columns while there are registers to show, a third of its rows for the lines of the
output, and half of them for all lines of the picker while it is open. -/
theorem viewTui_inside_iff {session : DebugSession} {model : TuiModel} {isprint : UInt8 → Bool}
    (hbig : ¬ TooSmall terminal)
    (h : Succeeds (viewTui isprint terminal session model windows)) :
    Emits (BeginsInside terminal) (viewTui isprint terminal session model windows) ↔
      newlines session.output + 3 < terminal.rows.toNat / 3 ∧
      (session.state ≠ .dead → 64 ≤ terminal.cols.toNat) ∧
      (model.isPickerOpen → ∀ buffer, model.picker.buffer = some buffer →
        buffer.lineCount.toNat + 3 ≤ terminal.rows.toNat / 2) := by
  have hpicker := ((viewTui_succeeds_iff hbig windows).mp h).2.2.2
  rw [viewTui, if_neg hbig] at h ⊢
  obtain ⟨_, hsource, h⟩ := succeeds_bind_iff.mp h
  obtain ⟨_, hassembly, h⟩ := succeeds_bind_iff.mp h
  obtain ⟨windows', houtput, h⟩ := succeeds_bind_iff.mp h
  obtain ⟨windows'', hregisters, -⟩ := succeeds_bind_iff.mp h
  have hdraw : Succeeds (drawOutputBuffer isprint session) := by
    obtain ⟨_, -, houtput, -⟩ := bind_ok houtput
    obtain ⟨_, hdraw, -⟩ := bind_ok houtput
    exact ⟨_, hdraw⟩
  have hcols : (geometry terminal .registers).cols.toNat = terminal.cols.toNat / 2 :=
    UInt32.toNat_div _ _
  have hthird : (geometry terminal .output).rows.toNat = terminal.rows.toNat / 3 :=
    UInt32.toNat_div _ _
  have hhalf : (geometry terminal .picker).rows.toNat = terminal.rows.toNat / 2 :=
    UInt32.toNat_div _ _
  have hrest : ∀ windows : Windows, Emits (BeginsInside terminal) (do
      viewFocus model
      emitAll [.updatePanels, .doupdate]
      return windows) := by
    refine fun windows => (emits_viewFocus hbig).bind fun _ _ => .bind ?_ fun _ _ => .pure _
    intro call hcall
    fin_cases hcall <;> trivial
  rw [(emits_viewSource hbig).bind_iff hsource, (emits_viewAssembly hbig).bind_iff hassembly,
    emits_bind_iff_of_ok houtput, emits_bind_iff_of_ok hregisters, emits_bind_iff_left hrest,
    emits_viewOutput_iff hbig hdraw, emits_viewRegisters_iff hbig, emits_viewPicker_iff hbig hpicker,
    hthird, hcols, hhalf]
  refine and_congr_right fun _ => and_congr_left fun _ => imp_congr_right fun _ => ?_
  omega

end

end Dabugger.Tui.Inside
