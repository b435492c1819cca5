import Dabugger.Debug.Store
import Dabugger.Tui.Update

/-! # Motions clamp, and scroll no further than needed

`target` is the line that a message asks for, an integer. The line that `update_tui` selects is the
target clamped to the lines of the buffer, whatever the unsigned arithmetic on the way
(`motionLine_toNat`, `goToLine_toNat`), and the window moves as little as shows it
(`selectLine_scrolled`). -/

namespace Dabugger.Tui.Scroll

open Dabugger.Lib.Log Dabugger.Base Dabugger.Dwarf.Types Dabugger.Debug.Session
  Dabugger.Debug.Store Dabugger.Debug.Buffers Dabugger.Tui.Types Dabugger.Tui.Update

/-! ### What a motion is for -/

/-- How far a motion goes: half a window, a window, or a number of lines. -/
def distance (rows : UInt32) (amount : Int64) : Option ℕ :=
  if amount = Amount.bufferHalf then some (rows.toNat / 2)
  else if amount = Amount.bufferFull then some rows.toNat
  else if 0 < amount.toInt then some amount.toInt.toNat
  else none

/-- The line that a message asks for, the first one being `0`. -/
def target (rows : UInt32) (buffer : TuiBuffer) : TuiMsg → Option ℤ
  | .bufferMotion ⟨.down, amount⟩ =>
    (distance rows amount).map fun n : ℕ => (buffer.selectedLine.toNat : ℤ) + n
  | .bufferMotion ⟨.up, amount⟩ =>
    (distance rows amount).map fun n : ℕ => (buffer.selectedLine.toNat : ℤ) - n
  | .goToBufferLine ⟨_, amount⟩ =>
    if amount = Amount.bufferEnd then some (buffer.lineCount.toNat - 1)
    else if amount = Amount.bufferStart then some 0
    else if 0 < amount.toInt then some (amount.toInt - 1)
    else none
  | _ => none

/-- A window of so many rows from line `pos` on shows the line. -/
def Shows (rows line pos : ℕ) : Prop := pos ≤ line ∧ line < pos + rows

/-- **What a motion is for**: the target, clamped, is selected; it is shown; and the window is the one
that shows it and is closest to where it was. -/
structure ScrolledTo (rows : ℕ) (target : ℤ) (buffer buffer' : TuiBuffer) : Prop where
  lineCount : buffer'.lineCount = buffer.lineCount
  selected : (buffer'.selectedLine.toNat : ℤ) = max 0 (min target (buffer.lineCount.toNat - 1))
  shown : Shows rows buffer'.selectedLine.toNat buffer'.linePos.toNat
  kept : Shows rows buffer'.selectedLine.toNat buffer.linePos.toNat →
    buffer'.linePos = buffer.linePos
  closest : ∀ pos, Shows rows buffer'.selectedLine.toNat pos → pos ≠ buffer'.linePos.toNat →
    |(buffer'.linePos.toNat : ℤ) - buffer.linePos.toNat| < |(pos : ℤ) - buffer.linePos.toNat|

/-! ### The selection -/

section
variable {rows : UInt32} {buffer : TuiBuffer} {direction : Direction}

theorem toNat_lineCount_sub_one (h : buffer.selectedLine < buffer.lineCount) :
    (buffer.lineCount - 1).toNat = buffer.lineCount.toNat - 1 := by
  rw [UInt64.lt_iff_toNat_lt] at h
  refine UInt64.toNat_sub_of_le _ _ (UInt64.le_iff_toNat_le.mpr ?_)
  have : (1 : UInt64).toNat = 1 := rfl
  omega

/-- A positive amount is the number of lines. -/
theorem toNat_toUInt64 {amount : Int64} (h : 0 < amount.toInt) :
    amount.toUInt64.toNat = amount.toInt.toNat := by
  have hcond := BitVec.toInt_eq_toNat_cond amount.toBitVec
  rw [Int64.toInt_toBitVec, Int64.toNat_toBitVec] at hcond
  have hlt := amount.toUInt64.toNat_lt
  split_ifs at hcond <;> omega

theorem lineDistance_toNat {amount : Int64} {n : ℕ} (h : distance rows amount = some n) :
    (lineDistance rows amount).toNat = n := by
  unfold distance at h
  unfold lineDistance
  split_ifs at h ⊢ with hhalf hfull hpos
  · cases h
    rw [UInt32.toNat_toUInt64, UInt32.toNat_div]
    rfl
  · cases h
    exact UInt32.toNat_toUInt64 rows
  · cases h
    exact toNat_toUInt64 hpos

theorem motionLine_down (h : buffer.selectedLine < buffer.lineCount) (n : UInt64) :
    (motionLine .down n buffer).toNat =
      min (buffer.selectedLine.toNat + n.toNat) (buffer.lineCount.toNat - 1) := by
  have hcount := toNat_lineCount_sub_one h
  have hlt := buffer.lineCount.toNat_lt
  rw [UInt64.lt_iff_toNat_lt] at h
  have hremaining : (buffer.lineCount - 1 - buffer.selectedLine).toNat =
      buffer.lineCount.toNat - 1 - buffer.selectedLine.toNat := by
    rw [UInt64.toNat_sub_of_le _ _ (UInt64.le_iff_toNat_le.mpr (by omega)), hcount]
  unfold motionLine
  dsimp only
  split_ifs with hge
  · rw [ge_iff_le, UInt64.le_iff_toNat_le, hremaining] at hge
    rw [UInt64.toNat_add, Nat.mod_eq_of_lt (by omega)]
    omega
  · rw [ge_iff_le, UInt64.le_iff_toNat_le, hremaining] at hge
    omega

theorem motionLine_up (n : UInt64) :
    (motionLine .up n buffer).toNat = buffer.selectedLine.toNat - n.toNat := by
  unfold motionLine
  dsimp only
  split_ifs with hge
  · exact UInt64.toNat_sub_of_le _ _ hge
  · rw [ge_iff_le, UInt64.le_iff_toNat_le] at hge
    have : (0 : UInt64).toNat = 0 := rfl
    omega

theorem goToLine_toNat {amount : Int64} {t : ℤ} (h : buffer.selectedLine < buffer.lineCount)
    (ht : target rows buffer (.goToBufferLine ⟨direction, amount⟩) = some t) :
    ((goToLine amount buffer).toNat : ℤ) = max 0 (min t (buffer.lineCount.toNat - 1)) := by
  have hcount := toNat_lineCount_sub_one h
  rw [UInt64.lt_iff_toNat_lt] at h
  unfold target at ht
  unfold goToLine
  dsimp only at ht ⊢
  have h0 : (0 : UInt64).toNat = 0 := rfl
  split_ifs at ht ⊢ with hend hstart hlt hpos hpos
  · cases ht
    omega
  · cases ht
    omega
  -- an absolute line is counted from `1`
  all_goals
    cases ht
    have hamount := toNat_toUInt64 hpos
    have hone : (1 : UInt64).toNat = 1 := rfl
    have hline : (amount.toUInt64 - 1).toNat = amount.toInt.toNat - 1 := by
      rw [UInt64.toNat_sub_of_le _ _ (UInt64.le_iff_toNat_le.mpr (by omega)), hamount, hone]
    rw [UInt64.lt_iff_toNat_lt, hline, hcount] at hlt
    omega

/-- A motion goes somewhere, by an amount that is not for a go-to. -/
theorem amount_of_target {motion : TuiMotion} {t : ℤ}
    (ht : target rows buffer (.bufferMotion motion) = some t) :
    motion.amount ≠ Amount.bufferStart ∧ motion.amount ≠ Amount.bufferEnd := by
  obtain ⟨direction, amount⟩ := motion
  have hdistance : ∃ n, distance rows amount = some n := by
    cases direction with
    | down | up =>
      obtain ⟨n, hn, -⟩ := Option.map_eq_some_iff.mp ht
      exact ⟨n, hn⟩
    | left | right => cases ht
  obtain ⟨n, hn⟩ := hdistance
  constructor
  · rintro rfl
    cases hn
  · rintro rfl
    cases hn

/-- **The line that is selected** is the target, clamped. -/
theorem motionLine_toNat {direction : Direction} {amount : Int64} {t : ℤ}
    (h : buffer.selectedLine < buffer.lineCount)
    (ht : target rows buffer (.bufferMotion ⟨direction, amount⟩) = some t) :
    ((motionLine direction (lineDistance rows amount) buffer).toNat : ℤ) =
      max 0 (min t (buffer.lineCount.toNat - 1)) := by
  have hlt := UInt64.lt_iff_toNat_lt.mp h
  cases direction with
  | down =>
    obtain ⟨n, hn, rfl⟩ := Option.map_eq_some_iff.mp ht
    rw [motionLine_down h, lineDistance_toNat hn]
    omega
  | up =>
    obtain ⟨n, hn, rfl⟩ := Option.map_eq_some_iff.mp ht
    rw [motionLine_up, lineDistance_toNat hn]
    omega
  | left | right => cases ht

/-! ### The window -/

/-- The scroll position that shows a line, as `update_tui` computes it. -/
def scrollTo (rows line pos : ℕ) : ℕ :=
  if line < pos then line else if pos + rows < line + 1 then line + 1 - rows else pos

theorem toNat_add_one {line : UInt64} (h : line.toNat + 1 < 2 ^ 64) :
    (line + 1).toNat = line.toNat + 1 := by
  rw [UInt64.toNat_add]
  exact Nat.mod_eq_of_lt h

theorem selectLine_linePos {line : UInt64} (h : line.toNat + 1 + rows.toNat < 2 ^ 64) :
    (selectLine rows line buffer).linePos.toNat =
      scrollTo rows.toNat line.toNat buffer.linePos.toNat := by
  have hrows : rows.toUInt64.toNat = rows.toNat := UInt32.toNat_toUInt64 rows
  have hsucc : (line + 1).toNat = line.toNat + 1 := toNat_add_one (by omega)
  unfold selectLine scrollTo
  dsimp only
  by_cases hbefore : line < buffer.linePos
  · rw [if_pos hbefore, if_pos (UInt64.lt_iff_toNat_lt.mp hbefore)]
  have hle : buffer.linePos.toNat ≤ line.toNat := by
    rwa [UInt64.lt_iff_toNat_lt, not_lt] at hbefore
  -- the end of the window does not wrap: the window starts at the line or before it
  have hend : (buffer.linePos + rows.toUInt64).toNat = buffer.linePos.toNat + rows.toNat := by
    rw [UInt64.toNat_add, hrows, Nat.mod_eq_of_lt (by omega)]
  rw [if_neg hbefore, if_neg (show ¬ line.toNat < _ by omega)]
  have hcond : (line + 1 > rows.toUInt64 ∧ line + 1 > buffer.linePos + rows.toUInt64) ↔
      buffer.linePos.toNat + rows.toNat < line.toNat + 1 := by
    rw [gt_iff_lt, gt_iff_lt, UInt64.lt_iff_toNat_lt, UInt64.lt_iff_toNat_lt, hsucc, hend, hrows]
    omega
  by_cases hbehind : buffer.linePos.toNat + rows.toNat < line.toNat + 1
  · rw [if_pos (hcond.mpr hbehind), if_pos hbehind,
      UInt64.toNat_sub_of_le _ _ (UInt64.le_iff_toNat_le.mpr (by omega)), hsucc, hrows]
  · rw [if_neg fun hc => hbehind (hcond.mp hc), if_neg hbehind]

section
variable {rows line pos : ℕ}

theorem shows_scrollTo (h : 1 ≤ rows) : Shows rows line (scrollTo rows line pos) := by
  unfold Shows scrollTo
  split_ifs <;> omega

theorem scrollTo_of_shows (h : Shows rows line pos) : scrollTo rows line pos = pos := by
  unfold Shows at h
  unfold scrollTo
  split_ifs <;> omega

/-- Every other window that shows the line is further away. -/
theorem scrollTo_closest {pos' : ℕ} (h : Shows rows line pos') (hne : pos' ≠ scrollTo rows line pos) :
    |(scrollTo rows line pos : ℤ) - pos| < |(pos' : ℤ) - pos| := by
  unfold Shows at h
  unfold scrollTo at hne ⊢
  rw [Int.abs_eq_natAbs, Int.abs_eq_natAbs]
  split_ifs at hne ⊢ <;> omega

end

/-- **To select a line** scrolls to it, no further than needed. -/
theorem selectLine_scrolled {line : UInt64} {t : ℤ} (hrows : 1 ≤ rows.toNat)
    (hfits : line.toNat + 1 + rows.toNat < 2 ^ 64)
    (hline : (line.toNat : ℤ) = max 0 (min t (buffer.lineCount.toNat - 1))) :
    ScrolledTo rows.toNat t buffer (selectLine rows line buffer) where
  lineCount := rfl
  selected := hline
  shown := by
    rw [selectLine_linePos hfits]
    exact shows_scrollTo hrows
  kept h := by
    refine UInt64.toNat_inj.mp ?_
    rw [selectLine_linePos hfits]
    exact scrollTo_of_shows h
  closest pos h hne := by
    rw [selectLine_linePos hfits] at hne ⊢
    exact scrollTo_closest h hne

end

/-! ### The messages -/

section
variable {host : Host} {session : DebugSession} {getmaxy : TuiWindow → UInt32} {model : TuiModel}
  {buffer : TuiBuffer} {msg : TuiMsg} {t : ℤ}

/-- What comes of a line that is changed in the source: its instructions are got, in the model that has
been moved. -/
theorem changeLine_of_changed (host : Host) (session : DebugSession) (rows : UInt32) {line : UInt64}
    (h : model.focusedWin = .source ∧ buffer.selectedLine ≠ line) :
    (changeLine host session rows line buffer model).result =
      (getInstructionsForLine host session model.selectedCompUnitIndex.toNat (line + 1).toNat).map
        fun instructions => { moved rows line buffer model with
          selectedLineInstructions := some instructions } := by
  rw [changeLine, if_pos h, emit_bind]
  cases getInstructionsForLine host session model.selectedCompUnitIndex.toNat (line + 1).toNat with
  | error e => rfl
  | ok instructions => rfl

/-- A message that asks for a line changes the line. -/
theorem updateTui_target (host : Host) (session : DebugSession) (hb : tuiBuffer model = some buffer)
    (h : buffer.selectedLine < buffer.lineCount)
    (ht : target (getmaxy model.focusedWin - sectionRowMargin) buffer msg = some t) :
    ∃ line : UInt64, (line.toNat : ℤ) = max 0 (min t (buffer.lineCount.toNat - 1)) ∧
      updateTui host session getmaxy msg model =
        changeLine host session (getmaxy model.focusedWin - sectionRowMargin) line buffer model >>=
          fun model => pure (model, .none) := by
  cases msg with
  | bufferMotion motion =>
    refine ⟨_, motionLine_toNat h ht, ?_⟩
    have hcount : buffer.lineCount ≠ 0 := by
      rintro h0
      rw [h0] at h
      exact absurd h (by simp)
    obtain ⟨hstart, hend⟩ : motion.amount ≠ Amount.bufferStart ∧
        motion.amount ≠ Amount.bufferEnd := amount_of_target ht
    rw [updateTui, hb]
    dsimp only
    rw [if_neg hcount, decide_eq_true hstart, cAssert_true, lift_bind_of_ok rfl, if_neg hend]
  | goToBufferLine motion => exact ⟨_, goToLine_toNat h ht, updateTui_goToBufferLine motion hb⟩
  | none | quit | showPicker | confirm | changeSection | setSourceBuffer | setAssemblyBuffer
    | toggleBreakpoint | outputUpdate | runDebuggee | stepInstruction | stepOver => cases ht

/-- **Motions clamp and keep the cursor visible.** In a buffer that is not empty, a motion or a go-to
selects its target, clamped to the lines of the buffer, and scrolls no further than needed to show it.
What may fail is the call for the instructions of the line that is selected then; the buffer has been
scrolled before. -/
theorem updateTui_scrolls (host : Host) (session : DebugSession)
    (getmaxy : TuiWindow → UInt32) (msg : TuiMsg) (hb : tuiBuffer model = some buffer)
    (h : buffer.selectedLine < buffer.lineCount)
    (hrows : 1 ≤ (getmaxy model.focusedWin - sectionRowMargin).toNat)
    (hfits : buffer.lineCount.toNat + (getmaxy model.focusedWin - sectionRowMargin).toNat < 2 ^ 64)
    (ht : target (getmaxy model.focusedWin - sectionRowMargin) buffer msg = some t) :
    ∃ buffer', ScrolledTo (getmaxy model.focusedWin - sectionRowMargin).toNat t buffer buffer' ∧
      (∀ model' cmd, (updateTui host session getmaxy msg model).result = .ok (model', cmd) →
        tuiBuffer model' = some buffer' ∧ cmd = .none) ∧
      (∀ e, (updateTui host session getmaxy msg model).result = .error e →
        ∃ model', tuiBuffer model' = some buffer' ∧
          .getInstructionsForLine model' model.selectedCompUnitIndex (buffer'.selectedLine + 1) ∈
            (updateTui host session getmaxy msg model).log ∧
          getInstructionsForLine host session model.selectedCompUnitIndex.toNat
            (buffer'.selectedLine + 1).toNat = .error e) ∧
      ((model.focusedWin = .source →
          model.selectedCompUnitIndex.toNat < session.lineInfo.compUnits.length) →
        ∃ model', (updateTui host session getmaxy msg model).result = .ok (model', .none)) := by
  obtain ⟨line, hline, heq⟩ := updateTui_target host session hb h ht
  rw [UInt64.lt_iff_toNat_lt] at h
  have hlt : line.toNat < buffer.lineCount.toNat := by omega
  have hscrolled := selectLine_scrolled hrows (show line.toNat + 1 + _ < 2 ^ 64 by omega) hline
  generalize getmaxy model.focusedWin - sectionRowMargin = rows at *
  have hmoved : tuiBuffer (moved rows line buffer model) = some (selectLine rows line buffer) :=
    tuiBuffer_setTuiBuffer hb _
  refine ⟨selectLine rows line buffer, hscrolled, ?_⟩
  rw [heq]
  by_cases hchanged : model.focusedWin = .source ∧ buffer.selectedLine ≠ line
  -- the instructions of the line are got
  · have hlog := changeLine_call host session rows hchanged.1 hchanged.2
    rw [result_bind_pure, changeLine_of_changed host session rows hchanged, log_bind_pure]
    cases hget : getInstructionsForLine host session model.selectedCompUnitIndex.toNat
        (line + 1).toNat with
    | error e =>
      refine ⟨by rintro _ _ ⟨⟩, ?_, fun hindex => ?_⟩
      · rintro _ ⟨⟩
        exact ⟨_, hmoved, hlog, hget⟩
      · have hsucc : (line + 1).toNat ≠ 0 := by
          have hcount := buffer.lineCount.toNat_lt
          rw [toNat_add_one (by omega)]
          exact Nat.succ_ne_zero _
        rw [getInstructionsForLine_eq host hsucc
          (List.getElem?_eq_getElem (hindex hchanged.1))] at hget
        cases hget
    | ok instructions =>
      refine ⟨?_, by rintro _ ⟨⟩, fun _ => ⟨_, rfl⟩⟩
      rintro _ _ ⟨⟩
      exact ⟨hmoved, rfl⟩
  -- or nothing is called
  · rw [changeLine_pure hchanged]
    refine ⟨?_, ?_, fun _ => ⟨_, rfl⟩⟩
    · rintro _ _ ⟨⟩
      exact ⟨hmoved, rfl⟩
    · rintro _ ⟨⟩

end

/-- The picker, with ten lines in a window of five, moves to its end. -/
theorem updateTui_scrolls_sample : ∃ model' buffer',
    (updateTui (.zeroed true) (sampleSession []) (fun _ => 8) (.goToBufferLine { amount := 0 })
        { picker := { lineCount := 10, linePos := 2 }, focusedWin := .picker }).result =
      .ok (model', .none) ∧ tuiBuffer model' = some buffer' ∧
      (buffer'.selectedLine.toNat : ℤ) = max 0 (min 9 9) ∧
      Shows 5 buffer'.selectedLine.toNat buffer'.linePos.toNat := by
  have h : (⟨0, 10, 2⟩ : TuiBuffer).selectedLine < (⟨0, 10, 2⟩ : TuiBuffer).lineCount := by decide
  have hb : tuiBuffer { picker := { lineCount := 10, linePos := 2 }, focusedWin := .picker } =
    some ⟨0, 10, 2⟩ := rfl
  obtain ⟨buffer', hscrolled, hok, -, hreturns⟩ := updateTui_scrolls (.zeroed true)
    (sampleSession []) (fun _ => 8) (.goToBufferLine { amount := 0 }) hb h (by decide) (by decide) rfl
  obtain ⟨model', hresult⟩ := hreturns (by rintro ⟨⟩)
  exact ⟨model', buffer', hresult, (hok _ _ hresult).1, hscrolled.selected, hscrolled.shown⟩

end Dabugger.Tui.Scroll
