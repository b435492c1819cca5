import Dabugger.Tui.FunctionKeys
import Dabugger.Tui.Update

/-! # The key buffer

The functions that write the key buffer, called in any order. In every state reached it holds the keys
since it was wiped, then zeros (`after_keeps`). `on_motion_input` is computed with a log of where it
reads the array; without the log it is that of the source (`result_onMotionInputLog`). It stays inside
of the array, and the number that it finds is too small for one of the relative amounts to come out
(`Keeps.safe`). -/

namespace Dabugger.Tui.KeyBuffer

open Dabugger.Lib.Log Dabugger.Lib.Windows Dabugger.Base Dabugger.Debug.Session Dabugger.Tui.Types
  Dabugger.Tui.Input Dabugger.Tui.Update Dabugger.Tui.Chords Dabugger.Tui.FunctionKeys

/-! ### `on_motion_input` with a log -/

/-- A computation that logs the indices at which it reads the array. -/
abbrev Reading := Logged ℤ Fault

/-- The index is one of the array. -/
def InArray (i : ℤ) : Prop := 0 ≤ i ∧ i < maxInputBuffer

/-- `input->buffer[i]`. -/
def readKey (input : InputBuffer) (i : ℤ) : Reading UInt8 := do
  emit i
  return input.buffer.getD i.toNat 0

/-- `input->count > 1 && input->buffer[input->count - 2] == key`. -/
def previousIsLog (input : InputBuffer) (key : UInt8) : Reading Bool :=
  if input.count > 1 then do
    let c ← readKey input (input.count - 2)
    return c = key
  else return false

/-- The loop that looks for the first digit. -/
def numBeginLog (input : InputBuffer) : ℕ → Option ℕ → Reading (Option ℕ)
  | 0, begin => return begin
  | i + 1, begin => do
    let c ← readKey input i
    if isdigit c then numBeginLog input i (some i) else return begin

/-- The digits that `strtoul` reads, from index `i` on: the text ends at what is not one, or goes on
behind the array. -/
def digitsLog : List UInt8 → ℤ → Reading (List UInt8)
  | [], i => do
    emit i
    return []
  | c :: text, i => do
    emit i
    if isdigit c then do
      let digits ← digitsLog text (i + 1)
      return c :: digits
    else return []

def strtoulLog (text : List UInt8) (i : ℤ) : Reading UInt64 := do
  let digits ← digitsLog text i
  return UInt64.ofNat (min (decimal digits) (2 ^ 64 - 1))

def absAmountLog (input : InputBuffer) (initial : UInt64) : Reading UInt64 := do
  match ← numBeginLog input (input.count - 1) none with
  | some begin => strtoulLog (input.buffer.drop begin) begin
  | none => return initial

def countedMotionLog (input : InputBuffer) (direction : Direction) : Reading TuiMsg :=
  if input.key = Key.motionLineSelector then do
    let amount ← absAmountLog input 0
    if amount = 0 then return .goToBufferLine { direction, amount := Amount.bufferEnd }
    else return .goToBufferLine { direction, amount := amount.toInt64 }
  else do
    let amount ← absAmountLog input 1
    return .bufferMotion { direction, amount := amount.toInt64 }

def motionMsgLog (input : InputBuffer) : Reading TuiMsg := do
  let direction := motionDirection input.key
  if ← previousIsLog input Key.chordSwitchWin then
    return .changeSection { direction, amount := 1 }
  else if input.key = Key.chordHalfUp then
    return .bufferMotion { direction := .up, amount := Amount.bufferHalf }
  else if input.key = Key.chordHalfDown then
    return .bufferMotion { direction := .down, amount := Amount.bufferHalf }
  else if input.key = Key.motionStartOfFile then do
    if ← previousIsLog input input.key then
      return .goToBufferLine { direction, amount := Amount.bufferStart }
    else if input.count = 1 then return .none
    else do
      -- the key is looked at again, even if there were no two
      let _ ← readKey input (input.count - 2)
      return .none
  else countedMotionLog input direction

def onMotionInputLog (input : InputBuffer) : Reading (TuiMsg × InputBuffer) := do
  let msg ← motionMsgLog input
  return (msg, if msg = .none then input else clearInputBuffer)

/-! ### Histories -/

/-- A call of one of the functions; what `getch` returns is the argument of `key`. -/
inductive Call where
  | getInputKey (ch : ℤ)
  | onMotionInput
  | clearInputBuffer

/-- What a call does to the key buffer. -/
def Call.apply : Call → InputBuffer → InputBuffer
  | getInputKey ch, input => Input.getInputKey input ch
  | onMotionInput, input => (Input.onMotionInput input).2
  | clearInputBuffer, _ => Input.clearInputBuffer

/-- The key buffer after these calls. -/
def after (calls : List Call) : InputBuffer := calls.foldl (fun input call => call.apply input) {}

/-- The key buffer once `key` was read to it. -/
structure HasRead (key : UInt8) (input : InputBuffer) : Prop where
  pos : 1 ≤ input.count
  count_le : input.count ≤ maxInputBuffer - 1
  length : input.buffer.length = maxInputBuffer
  last : input.buffer[input.count - 1]? = some key
  key_eq : input.key = key
  zeros : ∀ i, input.count ≤ i → i < maxInputBuffer → input.buffer[i]? = some 0

/-- **The invariant**: the keys since the key buffer was wiped, the last of which is its key, and
zeros. -/
structure Keeps (input : InputBuffer) (window : List UInt8) : Prop where
  holds : Holds input window
  key : input.key = window.getLastD 0

theorem keeps_clear : Keeps clearInputBuffer [] := ⟨holds_clear, rfl⟩

variable {input : InputBuffer} {window : List UInt8}

theorem Keeps.getInputKey (h : Keeps input window) (ch : ℤ) :
    Keeps (Input.getInputKey input ch) (push maxInputBuffer window (UInt8.ofInt ch)) := by
  have hholds := h.holds.getInputKey (UInt8.ofInt ch)
  rw [getInputKey_ofInt] at hholds
  exact ⟨hholds, by rw [push, List.getLastD_concat]; rfl⟩

theorem Keeps.onMotionInput (h : Keeps input window) :
    ∃ window', Keeps (Input.onMotionInput input).2 window' := by
  unfold Input.onMotionInput
  dsimp only
  split
  · exact ⟨window, h⟩
  · exact ⟨[], keeps_clear⟩

/-- **One call.** -/
theorem Keeps.apply (h : Keeps input window) :
    ∀ call : Call, ∃ window', Keeps (call.apply input) window'
  | .getInputKey ch => ⟨_, h.getInputKey ch⟩
  | .onMotionInput => h.onMotionInput
  | .clearInputBuffer => ⟨[], keeps_clear⟩

/-- **Every history of calls.** -/
theorem after_keeps (calls : List Call) : ∃ window, Keeps (after calls) window :=
  List.foldlRecOn (motive := fun input => ∃ window, Keeps input window) calls _ ⟨[], keeps_clear⟩
    fun _ ⟨_, h⟩ call _ => h.apply call

/-- What is kept behind the keys. -/
theorem Keeps.getElem?_zero (h : Keeps input window) {i : ℕ} (hi : input.count ≤ i)
    (hlt : i < maxInputBuffer) : input.buffer[i]? = some 0 := by
  rw [h.holds.count] at hi
  rw [h.holds.buffer, List.getElem?_append_right hi, List.getElem?_replicate_of_lt (by omega)]

theorem Keeps.length_buffer (h : Keeps input window) : input.buffer.length = maxInputBuffer := by
  have hlt := h.holds.length_lt
  rw [h.holds.buffer, List.length_append, List.length_replicate]
  omega

theorem Keeps.count_lt (h : Keeps input window) : input.count < maxInputBuffer := by
  rw [h.holds.count]
  exact h.holds.length_lt

theorem Keeps.hasRead (h : Keeps input window) (ch : ℤ) :
    HasRead (UInt8.ofInt ch) (Input.getInputKey input ch) := by
  have hread := h.getInputKey ch
  have hcount := hread.holds.count
  have hlt := hread.count_lt
  rw [push, List.length_append, List.length_singleton] at hcount
  refine ⟨by omega, by omega, hread.length_buffer, ?_, rfl, fun i => hread.getElem?_zero⟩
  rw [hread.holds.buffer, push, hcount, Nat.add_sub_cancel, List.append_assoc,
    List.getElem?_append_right le_rfl, Nat.sub_self]
  rfl

/-! ### Without the log -/

theorem result_readKey (input : InputBuffer) (i : ℤ) :
    (readKey input i).result = .ok (input.buffer.getD i.toNat 0) := rfl

theorem result_previousIsLog (input : InputBuffer) (key : UInt8) :
    (previousIsLog input key).result =
      .ok (decide (input.count > 1 ∧ previousKey input = key)) := by
  unfold previousIsLog
  split
  · next hcount =>
    have hindex : ((input.count : ℤ) - 2).toNat = input.count - 2 := by omega
    rw [result_bind_pure, result_readKey, hindex, Bool.decide_and, decide_eq_true hcount]
    rfl
  · next hcount => rw [Bool.decide_and, decide_eq_false hcount]; rfl

theorem result_numBeginLog (input : InputBuffer) : ∀ (n : ℕ) (begin : Option ℕ),
    (numBeginLog input n begin).result = .ok (numBegin input.buffer n begin)
  | 0, _ => rfl
  | n + 1, begin => by
    rw [numBeginLog, numBegin, bind_of_ok (result_readKey input n), Int.toNat_natCast]
    dsimp only
    split
    · exact result_numBeginLog input n (some n)
    · rfl

theorem result_digitsLog : ∀ (text : List UInt8) (i : ℤ),
    (digitsLog text i).result = .ok (text.takeWhile isdigit)
  | [], _ => rfl
  | c :: text, i => by
    rw [digitsLog, result_emit_bind, List.takeWhile_cons]
    split
    · rw [result_bind_pure, result_digitsLog text (i + 1)]
      rfl
    · rfl

theorem result_absAmountLog (input : InputBuffer) (initial : UInt64) :
    (absAmountLog input initial).result = .ok (absAmount input initial) := by
  rw [absAmountLog, absAmount, bind_of_ok (result_numBeginLog input _ none)]
  cases numBegin input.buffer (input.count - 1) none with
  | none => rfl
  | some begin =>
    dsimp only
    rw [strtoulLog, result_bind_pure, result_digitsLog]
    rfl

theorem result_countedMotionLog (input : InputBuffer) (direction : Direction) :
    (countedMotionLog input direction).result = .ok (countedMotion input direction) := by
  unfold countedMotionLog countedMotion
  split
  · rw [bind_of_ok (result_absAmountLog input 0)]
    dsimp only
    split
    · rfl
    · rfl
  · rw [bind_of_ok (result_absAmountLog input 1)]
    rfl

theorem result_motionMsgLog (input : InputBuffer) :
    (motionMsgLog input).result = .ok (motionMsg input) := by
  unfold motionMsgLog motionMsg
  rw [bind_of_ok (result_previousIsLog input Key.chordSwitchWin)]
  dsimp only
  by_cases hsection : input.count > 1 ∧ previousKey input = Key.chordSwitchWin
  · rw [if_pos hsection, if_pos (decide_eq_true hsection)]
    rfl
  rw [if_neg hsection, if_neg (by simpa using hsection)]
  split
  · rfl
  split
  · rfl
  split
  · rw [bind_of_ok (result_previousIsLog input input.key)]
    dsimp only
    by_cases hstart : input.count > 1 ∧ previousKey input = input.key
    · rw [if_pos hstart, if_pos (decide_eq_true hstart)]
      rfl
    rw [if_neg hstart, if_neg (by simpa using hstart)]
    split
    · rfl
    · rfl
  · exact result_countedMotionLog input _

/-- **With a log**, `on_motion_input` is that of the source. -/
theorem result_onMotionInputLog (input : InputBuffer) :
    (onMotionInputLog input).result = .ok (onMotionInput input) := by
  rw [onMotionInputLog, bind_of_ok (result_motionMsgLog input)]
  rfl

/-! ### Where the array is read -/

theorem emits_readKey (input : InputBuffer) {i : ℤ} (h : InArray i) :
    Emits InArray (readKey input i) :=
  emits_emit_bind_iff.mpr ⟨h, .pure _⟩

section
variable (h : Keeps input window)
include h

/-- The index of the key before the last one. -/
theorem Keeps.inArray_previous (hcount : input.count > 1) : InArray (input.count - 2) := by
  have hlt := h.count_lt
  unfold InArray
  omega

theorem Keeps.emits_previousIsLog (key : UInt8) : Emits InArray (previousIsLog input key) := by
  unfold previousIsLog
  split
  · next hcount => exact (emits_readKey input (h.inArray_previous hcount)).bind fun _ _ => .pure _
  · exact .pure _

theorem Keeps.emits_numBeginLog : ∀ {n : ℕ} (begin : Option ℕ), n ≤ input.count →
    Emits InArray (numBeginLog input n begin)
  | 0, _, _ => .pure _
  | n + 1, begin, hn => by
    have hlt := h.count_lt
    refine (emits_readKey input (by unfold InArray; omega)).bind fun c _ => ?_
    split
    · exact Keeps.emits_numBeginLog (some n) (Nat.le_of_succ_le hn)
    · exact .pure _

end

/-- The first digit is before the index where the loop starts. -/
theorem numBegin_lt {buffer : List UInt8} : ∀ {n : ℕ} {begin : Option ℕ} {i : ℕ},
    numBegin buffer n begin = some i → i < n ∨ begin = some i
  | 0, _, _, h => .inr h
  | n + 1, begin, i, h => by
    rw [numBegin] at h
    split at h
    · rcases numBegin_lt h with hlt | heq
      · exact .inl (Nat.lt_succ_of_lt hlt)
      · exact .inl (Option.some_inj.mp heq ▸ Nat.lt_succ_self n)
    · exact .inr h

/-- A text with an end in it is read up to there. -/
theorem emits_digitsLog : ∀ {text : List UInt8} (i : ℤ), (∃ c ∈ text, isdigit c = false) →
    Emits (fun j => i ≤ j ∧ j < i + text.length) (digitsLog text i)
  | [], _, h => by
    obtain ⟨c, hc, -⟩ := h
    cases hc
  | c :: text, i, h => by
    rw [digitsLog, List.length_cons, Nat.cast_succ]
    refine emits_emit_bind_iff.mpr ⟨by omega, ?_⟩
    split
    · next hdigit =>
      obtain ⟨d, hd, hend⟩ := h
      have hmem : d ∈ text := (List.mem_cons.mp hd).resolve_left fun heq => by
        rw [heq, hdigit] at hend
        cases hend
      refine Emits.bind ?_ fun _ _ => .pure _
      intro j hj
      have hj := emits_digitsLog (i + 1) ⟨d, hmem, hend⟩ j hj
      omega
    · exact .pure _

/-- The array ends with a zero, so that every text in it has an end. -/
theorem Keeps.exists_end (h : Keeps input window) {i : ℕ} (hi : i < maxInputBuffer) :
    ∃ c ∈ input.buffer.drop i, isdigit c = false := by
  have hlast : input.buffer[maxInputBuffer - 1]? = some 0 :=
    h.getElem?_zero (Nat.le_sub_one_of_lt h.count_lt) (by decide)
  refine ⟨0, List.mem_of_getElem? (i := maxInputBuffer - 1 - i) ?_, by decide⟩
  rw [List.getElem?_drop, Nat.add_sub_cancel' (Nat.le_sub_one_of_lt hi)]
  exact hlast

theorem Keeps.emits_absAmountLog (h : Keeps input window) (initial : UInt64) :
    Emits InArray (absAmountLog input initial) := by
  refine (h.emits_numBeginLog none (Nat.sub_le _ _)).bind fun begin hbegin => ?_
  rw [result_numBeginLog] at hbegin
  cases begin with
  | none => exact .pure _
  | some begin =>
    have hlt := (numBegin_lt (Except.ok.inj hbegin)).resolve_right nofun
    have hcount := h.count_lt
    have hdigits := emits_digitsLog begin (h.exists_end (show begin < maxInputBuffer by omega))
    refine Emits.bind ?_ fun _ _ => .pure _
    intro j hj
    have hj := hdigits j hj
    rw [List.length_drop, h.length_buffer] at hj
    unfold InArray
    omega

theorem Keeps.emits_motionMsgLog (h : Keeps input window) : Emits InArray (motionMsgLog input) := by
  refine (h.emits_previousIsLog _).bind fun _ _ => ?_
  split
  · exact .pure _
  split
  · exact .pure _
  split
  · exact .pure _
  split
  · next hkey =>
    refine (h.emits_previousIsLog _).bind fun _ _ => ?_
    split
    · exact .pure _
    split
    · exact .pure _
    · next hne =>
      refine (emits_readKey input (h.inArray_previous ?_)).bind fun _ _ => .pure _
      -- an empty key buffer has no such key
      have hpos : input.count ≠ 0 := by
        intro hzero
        rw [h.holds.count, List.length_eq_zero_iff] at hzero
        have hlast := h.key
        rw [hzero, hkey] at hlast
        exact absurd hlast (by decide)
      omega
  · unfold countedMotionLog
    split
    · refine (h.emits_absAmountLog _).bind fun _ _ => ?_
      split
      · exact .pure _
      · exact .pure _
    · exact (h.emits_absAmountLog _).bind fun _ _ => .pure _

/-- **`on_motion_input` stays inside of the array.** -/
theorem Keeps.emits_onMotionInputLog (h : Keeps input window) :
    Emits InArray (onMotionInputLog input) :=
  h.emits_motionMsgLog.bind fun _ _ => .pure _

/-! ### The number that is found -/

/-- A number with as many digits as the array has room for. -/
theorem strtoul_lt {text : List UInt8} {n : ℕ} (h : text.length ≤ n) :
    (strtoul text).toNat < 10 ^ n := by
  have hdigits : ∀ c ∈ text.takeWhile isdigit, isdigit c = true :=
    List.all_eq_true.mp List.all_takeWhile
  have hval := decimal_lt_of_length hdigits ((List.takeWhile_prefix _).length_le.trans h)
  rw [strtoul, UInt64.toNat_ofNat']
  exact ((Nat.mod_le _ _).trans (Nat.min_le_left _ _)).trans_lt hval

/-- Whatever the last key is, the number is one of a `long`. -/
theorem Keeps.absAmount_lt (h : Keeps input window) {initial : UInt64} (hinitial : initial ≤ 1) :
    (absAmount input initial).toNat < 2 ^ 63 := by
  unfold absAmount
  split
  · next begin _ =>
    have hlength : (input.buffer.drop begin).length ≤ 10 := by
      rw [List.length_drop, h.length_buffer]
      exact Nat.sub_le _ _
    exact (strtoul_lt hlength).trans (by decide)
  · exact (UInt64.le_iff_toNat_le.mp hinitial).trans_lt (by decide)

theorem isMotionKey_zero : isMotionKey 0 = false := by decide

/-- **Behind eight digits there is room for a motion key only.** -/
theorem Keeps.absAmount_lt_of_motion (h : Keeps input window) (hkey : isMotionKey input.key = true)
    {initial : UInt64} (hinitial : initial ≤ 1) : (absAmount input initial).toNat < 10 ^ 8 := by
  rcases List.eq_nil_or_concat' window with rfl | ⟨typed, key, rfl⟩
  · have hzero : input.key = 0 := h.key
    rw [hzero, isMotionKey_zero] at hkey
    cases hkey
  have hlast : input.key = key := by rw [h.key, List.getLastD_concat]
  have hnodigit : isdigit key = false := by
    rw [hlast] at hkey
    by_contra hdigit
    rw [isMotionKey_digit (Bool.eq_true_of_not_eq_false hdigit)] at hkey
    cases hkey
  obtain ⟨before, digits, rfl, hbefore, hdigits⟩ := exists_digits typed
  have hone := UInt64.le_iff_toNat_le.mp hinitial
  have hnumber := (h.holds.absAmount hbefore hdigits hnodigit hone).1
  have hlt := h.holds.length_lt
  simp only [List.length_append, List.length_singleton] at hlt
  rw [UInt64.ofNat_toNat] at hnumber
  rw [hnumber, UInt64.toNat_ofNat']
  refine (Nat.mod_le _ _).trans_lt ?_
  unfold number
  split
  · exact hone.trans_lt (by decide)
  · exact decimal_lt_of_length hdigits (by unfold maxInputBuffer at hlt; omega)

/-- The relative amounts below zero. -/
def relativeAmounts : List Int64 := [Amount.bufferHalf, Amount.bufferFull, Amount.bufferStart]

theorem toInt64_notMem {amount : UInt64} (h : amount.toNat < 2 ^ 63) :
    amount.toInt64 ∉ relativeAmounts := by
  have hneg : ∀ relative ∈ relativeAmounts, relative.toUInt64.toNat ≥ 2 ^ 63 :=
    List.all_iff_forall_prop.mp (by decide)
  intro hmem
  have hge := hneg _ hmem
  rw [UInt64.toUInt64_toInt64] at hge
  omega

/-! ### The assertion of `update_tui` -/

/-- The message does not ask for a motion to the start. -/
def NotToStart (msg : TuiMsg) : Prop :=
  ∀ motion, msg = .bufferMotion motion → motion.amount ≠ Amount.bufferStart

theorem Keeps.notToStart (h : Keeps input window) : NotToStart (Input.onMotionInput input).1 := by
  intro motion
  have hcounted : NotToStart (countedMotion input (motionDirection input.key)) := by
    unfold countedMotion
    dsimp only
    rintro motion heq hstart
    split at heq
    · split at heq <;> cases heq
    · cases heq
      refine toInt64_notMem (h.absAmount_lt (show (1 : UInt64) ≤ 1 by decide)) ?_
      rw [show (absAmount input 1).toInt64 = Amount.bufferStart from hstart]
      decide
  unfold Input.onMotionInput motionMsg
  dsimp only
  split
  · nofun
  split
  · rintro ⟨⟩
    decide
  split
  · rintro ⟨⟩
    decide
  split
  · split <;> nofun
  · exact hcounted motion

theorem onStdinInput_cases (model : TuiModel) (input : InputBuffer) (ch : ℤ) :
    onStdinInput model input ch = Input.onMotionInput (Input.getInputKey input ch) ∨
      (onStdinInput model input ch).2 = Input.getInputKey input ch ∧
        NotToStart (onStdinInput model input ch).1 := by
  unfold onStdinInput
  dsimp only
  split_ifs
  · exact .inr ⟨rfl, nofun⟩
  · exact .inr ⟨rfl, nofun⟩
  · exact .inr ⟨rfl, nofun⟩
  · exact .inr ⟨rfl, nofun⟩
  · exact .inr ⟨rfl, nofun⟩
  · exact .inl rfl
  · exact .inr ⟨rfl, nofun⟩

theorem after_append (calls calls' : List Call) :
    after (calls ++ calls') = calls'.foldl (fun input call => call.apply input) (after calls) :=
  List.foldl_append

/-- **A key of the terminal** is one call or two. -/
theorem exists_after_onStdinInput (model : TuiModel) (calls : List Call) (ch : ℤ) :
    ∃ calls', (onStdinInput model (after calls) ch).2 = after calls' := by
  rcases onStdinInput_cases model (after calls) ch with h | ⟨h, -⟩
  · exact ⟨calls ++ [.getInputKey ch, .onMotionInput], by rw [h, after_append]; rfl⟩
  · exact ⟨calls ++ [.getInputKey ch], by rw [h, after_append]; rfl⟩

theorem Keeps.onStdinInput_notToStart (h : Keeps input window) (model : TuiModel) (ch : ℤ) :
    NotToStart (onStdinInput model input ch).1 := by
  rcases onStdinInput_cases model input ch with heq | ⟨-, hmsg⟩
  · rw [heq]
    exact (h.getInputKey ch).notToStart
  · exact hmsg

section
variable {host : Host} {session : DebugSession} {getmaxy : TuiWindow → UInt32} {model : TuiModel}

/-- Changing the line fails behind a call only. -/
theorem changeLine_bind_ne_fail (rows : UInt32) (line : UInt64) (buffer : TuiBuffer) (e : Fault) :
    (changeLine host session rows line buffer model >>= fun model => pure (model, TuiCmd.none)) ≠
      fail e := by
  intro heq
  have hlog := congrArg Logged.log heq
  rw [log_bind_pure] at hlog
  unfold changeLine at heq hlog
  dsimp only at heq hlog
  split at hlog
  · rw [emit_bind] at hlog
    cases hlog
  · next hsame =>
    rw [if_neg hsame] at heq
    cases heq

/-- **The assertion of `update_tui`** fails for a motion to the start only. -/
theorem updateTui_ne_fail {msg : TuiMsg} (h : NotToStart msg) :
    updateTui host session getmaxy msg model ≠ fail .assertFailed := by
  unfold updateTui
  cases msg with
  | bufferMotion motion =>
    dsimp only
    split
    · nofun
    split
    · nofun
    rw [decide_eq_true (h motion rfl), cAssert_true]
    change (if _ then _ else _) ≠ _
    split
    · nofun
    · exact changeLine_bind_ne_fail _ _ _ _
  | goToBufferLine motion =>
    dsimp only
    split
    · nofun
    · exact changeLine_bind_ne_fail _ _ _ _
  | setSourceBuffer buffer | setAssemblyBuffer buffer => cases buffer <;> nofun
  | toggleBreakpoint =>
    dsimp only
    split
    · nofun
    · intro heq
      have hlog := congrArg Logged.log heq
      rw [emit_bind] at hlog
      cases hlog
    · nofun
  | _ => nofun

end

/-! ### Every history -/

/-- What holds of a key buffer whatever is called next. -/
structure Safe (input : InputBuffer) : Prop where
  /-- A key that is read is the last one, and there are zeros behind it. -/
  hasRead : ∀ ch, HasRead (UInt8.ofInt ch) (Input.getInputKey input ch)
  /-- `on_motion_input` reads the array at its indices only. -/
  inArray : Emits InArray (onMotionInputLog input)
  result_eq : (onMotionInputLog input).result = .ok (Input.onMotionInput input)
  /-- Its number is small for a motion key, and no relative amount for any key. -/
  amount_lt : ∀ initial ≤ 1, isMotionKey input.key = true → (absAmount input initial).toNat < 10 ^ 8
  amount_notMem : ∀ initial ≤ 1, (absAmount input initial).toInt64 ∉ relativeAmounts
  /-- Its message is nothing that the assertion of `update_tui` forbids. -/
  asserted : ∀ host session getmaxy model,
    updateTui host session getmaxy (Input.onMotionInput input).1 model ≠ fail .assertFailed

theorem Keeps.safe (h : Keeps input window) : Safe input where
  hasRead := h.hasRead
  inArray := h.emits_onMotionInputLog
  result_eq := result_onMotionInputLog input
  amount_lt := fun _ hinitial hkey => h.absAmount_lt_of_motion hkey hinitial
  amount_notMem := fun _ hinitial => toInt64_notMem (h.absAmount_lt hinitial)
  asserted := fun _ _ _ _ => updateTui_ne_fail h.notToStart

end Dabugger.Tui.KeyBuffer
