import Dabugger.Lib.Runs
import Dabugger.Tui.Chords
import Mathlib.Data.List.Forall2

/-! # Function keys

`getch` returns codes above 255 for the function keys, and `get_input_key` keeps the lowest byte of a
code: a function key acts as the key with this byte. It acts as a key that is not bound exactly if that
byte is harmless where it is typed (`actsAsUnbound_iff`).

Two input buffers that differ in inert keys only give the same messages (`press_alike`). -/

namespace Dabugger.Tui.FunctionKeys

open Dabugger.Lib.Runs Dabugger.Lib.Windows Dabugger.Tui.Types Dabugger.Tui.Input Dabugger.Tui.Chords

/-! ### Codes -/

/-- What `getch` returns, and the model then. -/
structure KeyCode where
  code : ℤ
  model : TuiModel

/-- What a code gives. -/
def receive (input : InputBuffer) (g : KeyCode) : TuiMsg × InputBuffer :=
  onStdinInput g.model input g.code

/-- The input buffer after these codes. -/
def received (history : List KeyCode) : InputBuffer :=
  history.foldl (fun input g => (receive input g).2) {}

/-- The key that a code acts as. -/
def KeyCode.narrow (g : KeyCode) : KeyPress := ⟨UInt8.ofInt g.code, g.model⟩

theorem receive_eq (input : InputBuffer) (g : KeyCode) : receive input g = press input g.narrow := by
  unfold receive press onStdinInput KeyCode.narrow
  dsimp only
  rw [getInputKey_ofInt]

theorem received_eq (history : List KeyCode) :
    received history = typed (history.map KeyCode.narrow) := by
  rw [received, typed, List.foldl_map]
  simp only [receive_eq]

/-! ### Keys that are not bound -/

/-- The keys with a macro. -/
def boundKeys : List UInt8 :=
  [Key.quit, Key.motionUp, Key.motionDown, Key.motionLeft, Key.motionRight, Key.motionStartOfFile,
    Key.motionLineSelector, Key.chordHalfUp, Key.chordHalfDown, Key.chordSwitchWin,
    Key.chordFilePicker, Key.confirm, Key.toggleBreakpoint, Key.runProg, Key.stopProg,
    Key.stepInstruction, Key.stepOver]

/-- The key is not bound, and no digit. -/
def Unbound (key : UInt8) : Prop := key ∉ boundKeys ∧ isdigit key = false

/-- The keys that give a message wherever they are typed. -/
def actingKeys : List UInt8 :=
  [Key.quit, Key.chordFilePicker, Key.confirm, Key.toggleBreakpoint, Key.runProg, Key.motionUp,
    Key.motionDown, Key.motionLeft, Key.motionRight, Key.motionLineSelector, Key.chordHalfUp,
    Key.chordHalfDown]

/-- The key does not change what a later key means: it is no digit, and begins no chord. -/
def Inert (key : UInt8) : Prop :=
  isdigit key = false ∧ key ≠ Key.chordSwitchWin ∧ key ≠ Key.motionStartOfFile

instance (key : UInt8) : Decidable (Inert key) := inferInstanceAs (Decidable (_ ∧ _))

/-- **The code acts as a key that is not bound**: it gives no message, and later keys give the messages
that they give after such a key. -/
def ActsAsUnbound (history : List KeyCode) (g : KeyCode) : Prop :=
  (receive (received history) g).1 = .none ∧
    ∃ key, Unbound key ∧ ∀ later : List KeyPress,
      outputs press (receive (received history) g).2 later =
        outputs press (press (received history) ⟨key, g.model⟩).2 later

/-- The last key of the input buffer. -/
def lastKey (input : InputBuffer) : UInt8 := input.buffer.getD (input.count - 1) 0

/-- The key gives no message, and is inert, or wiped before the next key means anything. -/
structure Harmless (input : InputBuffer) (key : UInt8) : Prop where
  acts : key ∉ actingKeys
  counted : ¬ Inert key → input.count + 2 = maxInputBuffer
  start : key = Key.motionStartOfFile →
    lastKey input ≠ Key.motionStartOfFile ∧ lastKey input ≠ Key.chordSwitchWin

/-! ### Input buffers that are alike -/

/-- The keys are the same, or both inert. -/
def AlikeKey (c d : UInt8) : Prop := c = d ∨ Inert c ∧ Inert d

theorem AlikeKey.refl (c : UInt8) : AlikeKey c c := .inl rfl

section
variable {c d : UInt8} (h : AlikeKey c d)
include h

theorem AlikeKey.isdigit_eq : isdigit c = isdigit d := by
  rcases h with rfl | ⟨hc, hd⟩
  · rfl
  · rw [hc.1, hd.1]

/-- A key that is not inert is the same one in both. -/
theorem AlikeKey.eq_iff {key : UInt8} (hkey : ¬ Inert key) : c = key ↔ d = key := by
  rcases h with rfl | ⟨hc, hd⟩
  · rfl
  · refine iff_of_false ?_ ?_
    · rintro rfl
      exact hkey hc
    · rintro rfl
      exact hkey hd

end

section
variable {xs ys : List UInt8} (h : List.Forall₂ AlikeKey xs ys)
include h

theorem alike_getD (i : ℕ) : AlikeKey (xs.getD i 0) (ys.getD i 0) := by
  induction h generalizing i with
  | nil => exact .refl _
  | cons hcd _ ih =>
    cases i with
    | zero => exact hcd
    | succ i => exact ih i

theorem alike_set {c d : UInt8} (hcd : AlikeKey c d) (i : ℕ) :
    List.Forall₂ AlikeKey (xs.set i c) (ys.set i d) := by
  induction h generalizing i with
  | nil => exact .nil
  | cons hab hrest ih =>
    cases i with
    | zero => exact .cons hcd hrest
    | succ i => exact .cons hab (ih i)

theorem takeWhile_alike : xs.takeWhile isdigit = ys.takeWhile isdigit := by
  induction h with
  | nil => rfl
  | cons hab _ ih =>
    rw [List.takeWhile_cons, List.takeWhile_cons, hab.isdigit_eq, ih]
    rcases hab with rfl | ⟨-, hd⟩
    · rfl
    · rw [hd.1]
      rfl

theorem numBegin_alike (n : ℕ) (begin : Option ℕ) : numBegin xs n begin = numBegin ys n begin := by
  induction n generalizing begin with
  | zero => rfl
  | succ n ih =>
    rw [numBegin, numBegin, (alike_getD h n).isdigit_eq, ih]

end

/-- Behind `get_input_key`: the input buffers differ in inert keys only. -/
structure AlikeNow (input input' : InputBuffer) : Prop where
  key : input.key = input'.key
  count : input.count = input'.count
  buffer : List.Forall₂ AlikeKey input.buffer input'.buffer

/-- **Before it**: so they do, or the next key wipes both. -/
structure Alike (input input' : InputBuffer) : Prop where
  count : input.count = input'.count
  buffer : input.count + 1 = maxInputBuffer ∨ List.Forall₂ AlikeKey input.buffer input'.buffer

theorem forall₂_alike_refl : ∀ xs : List UInt8, List.Forall₂ AlikeKey xs xs
  | [] => .nil
  | x :: xs => .cons (.refl x) (forall₂_alike_refl xs)

section
variable {input input' : InputBuffer}

theorem alikeNow_getInputKey (h : Alike input input') (ch : ℤ) :
    AlikeNow (getInputKey input ch) (getInputKey input' ch) := by
  unfold getInputKey
  dsimp only
  rw [← h.count]
  by_cases hfull : input.count + 1 = maxInputBuffer
  · rw [if_pos hfull, if_pos hfull]
    exact ⟨rfl, rfl, forall₂_alike_refl _⟩
  · rw [if_neg hfull, if_neg hfull]
    exact ⟨rfl, rfl, alike_set (h.buffer.resolve_left hfull) (.refl _) _⟩

section
variable (h : AlikeNow input input')
include h

theorem AlikeNow.alike : Alike input input' := ⟨h.count, .inr h.buffer⟩

theorem absAmount_alike (initial : UInt64) : absAmount input initial = absAmount input' initial := by
  unfold absAmount
  rw [h.count, numBegin_alike h.buffer]
  split
  · rename_i begin _
    rw [strtoul, strtoul, takeWhile_alike (List.forall₂_drop begin h.buffer)]
  · rfl

theorem motionMsg_alike : motionMsg input = motionMsg input' := by
  have hprevious : AlikeKey (previousKey input) (previousKey input') := by
    unfold previousKey
    rw [← h.count]
    exact alike_getD h.buffer _
  have hcounted : ∀ direction, countedMotion input direction = countedMotion input' direction := by
    intro direction
    unfold countedMotion
    rw [h.key, absAmount_alike h, absAmount_alike h]
  have hswitch := hprevious.eq_iff (show ¬ Inert Key.chordSwitchWin by decide)
  have hstart := hprevious.eq_iff (show ¬ Inert Key.motionStartOfFile by decide)
  unfold motionMsg
  by_cases hg : input'.key = Key.motionStartOfFile
  · simp only [h.key, h.count, hswitch, hcounted, hg, hstart]
  · simp only [h.key, h.count, hswitch, hcounted, if_neg hg]

theorem onMotionInput_alike :
    (onMotionInput input).1 = (onMotionInput input').1 ∧
      Alike (onMotionInput input).2 (onMotionInput input').2 := by
  unfold onMotionInput
  dsimp only
  rw [motionMsg_alike h]
  refine ⟨rfl, ?_⟩
  split
  · exact h.alike
  · exact ⟨rfl, .inr (forall₂_alike_refl _)⟩

end

/-- **One key**: the messages are the same, and the input buffers stay alike. -/
theorem press_alike (h : Alike input input') (p : KeyPress) :
    (press input p).1 = (press input' p).1 ∧ Alike (press input p).2 (press input' p).2 := by
  have hnow := alikeNow_getInputKey h p.key.toNat
  cases hm : isMotionKey p.key with
  | true =>
    rw [press_motion hm, press_motion hm]
    exact onMotionInput_alike hnow
  | false =>
    rw [press_other hm, press_other hm]
    refine ⟨?_, hnow.alike⟩
    unfold press onStdinInput
    dsimp only
    rw [key_getInputKey, key_getInputKey, hm, if_neg Bool.false_ne_true, if_neg Bool.false_ne_true]
    split_ifs <;> rfl

end

/-! ### A harmless key -/

theorem outputs_alike {input input' : InputBuffer} (h : Alike input input') (later : List KeyPress) :
    outputs press input later = outputs press input' later :=
  outputs_eq_of_simulation (R := Alike) (fun _ _ p h => press_alike h p) later h

/-- The digits at the end of a list. -/
theorem exists_digits (xs : List UInt8) : ∃ before digits, xs = before ++ digits ∧
    (∀ c, before.getLast? = some c → isdigit c = false) ∧ ∀ c ∈ digits, isdigit c = true := by
  induction xs using List.reverseRecOn with
  | nil => exact ⟨[], [], rfl, nofun, nofun⟩
  | append_singleton xs c ih =>
    cases hc : isdigit c with
    | true =>
      obtain ⟨before, digits, rfl, hbefore, hdigits⟩ := ih
      refine ⟨before, digits ++ [c], List.append_assoc _ _ _, hbefore, ?_⟩
      intro d hd
      rcases List.mem_append.mp hd with hd | hd
      · exact hdigits d hd
      · rw [List.mem_singleton.mp hd]
        exact hc
    | false =>
      refine ⟨xs ++ [c], [], (List.append_nil _).symm, ?_, nofun⟩
      intro d hd
      rw [List.getLast?_concat, Option.some_inj] at hd
      rw [← hd]
      exact hc

/-- Where these keys are typed, they give a message. -/
theorem press_ne_none {p : KeyPress} (hp : p.key ∈ actingKeys) (input : InputBuffer) :
    (press input p).1 ≠ .none := by
  by_cases hm : isMotionKey p.key = true
  · have hne : p.key ≠ Key.motionStartOfFile := by
      rintro heq
      rw [heq] at hp
      exact absurd hp (by decide)
    rw [press_motion hm]
    unfold onMotionInput motionMsg countedMotion
    dsimp only
    rw [key_getInputKey]
    split_ifs <;> exact nofun
  · have hall : ∀ key ∈ actingKeys, isMotionKey key = true ∨ key ∈ [Key.quit, Key.chordFilePicker,
        Key.confirm, Key.toggleBreakpoint, Key.runProg] :=
      List.all_iff_forall_prop.mp (by decide)
    have hkey := (hall _ hp).resolve_left hm
    unfold press onStdinInput
    dsimp only
    rw [key_getInputKey]
    split_ifs with h₁ h₂ h₃ h₄ h₅
    · exact nofun
    · exact nofun
    · exact nofun
    · exact nofun
    · exact nofun
    · simp [h₁, h₂, h₃, h₄, h₅] at hkey

/-- A key that is not one of them gives one only as the end of a chord with `g`. -/
theorem press_none_iff {p : KeyPress} (hp : p.key ∉ actingKeys) {input : InputBuffer}
    {window : List UInt8} (h : Holds input window) :
    (press input p).1 = .none ↔ (p.key = Key.motionStartOfFile →
      (room maxInputBuffer window).getLast? ≠ some Key.motionStartOfFile ∧
        (room maxInputBuffer window).getLast? ≠ some Key.chordSwitchWin) := by
  by_cases hg : p.key = Key.motionStartOfFile
  · have hm : isMotionKey p.key = true := by
      rw [hg]
      rfl
    have hinput := h.getInputKey p.key
    rw [press_motion hm, forall_prop_of_true hg]
    change motionMsg _ = _ ↔ _
    by_cases hsection : (room maxInputBuffer window).getLast? = some Key.chordSwitchWin
    · rw [hinput.motionMsg_section hsection]
      exact iff_of_false nofun fun hne => hne.2 hsection
    · rw [hinput.motionMsg_start (by rw [key_getInputKey, hg]) hsection, and_iff_left hsection]
      split
      · exact iff_of_false nofun (not_not_intro ‹_›)
      · exact iff_of_true rfl ‹_›
  · have hall : ∀ key, isMotionKey key = true → key = Key.motionStartOfFile ∨ key ∈ actingKeys := by
      intro key hkey
      have hmem := of_decide_eq_true hkey
      simp only [List.mem_cons, List.not_mem_nil, or_false] at hmem
      rcases hmem with rfl | rfl | rfl | rfl | rfl | rfl | rfl | rfl <;> decide
    have hm : ¬ isMotionKey p.key = true := by
      intro hm
      rcases hall _ hm with heq | hmem
      · exact hg heq
      · exact hp hmem
    refine iff_of_true ?_ fun heq => absurd heq hg
    unfold press onStdinInput
    dsimp only
    rw [key_getInputKey]
    simp only [actingKeys, List.mem_cons, not_or] at hp
    rw [if_neg hp.1, if_neg hp.2.1, if_neg hp.2.2.1, if_neg hp.2.2.2.1, if_neg hp.2.2.2.2.1, if_neg hm]

/-- A key without a message is stored. -/
theorem press_keeps {p : KeyPress} {input : InputBuffer} (h : (press input p).1 = .none) :
    (press input p).2 = getInputKey input p.key.toNat := by
  cases hm : isMotionKey p.key with
  | true =>
    rw [press_motion hm] at h ⊢
    unfold onMotionInput at h ⊢
    dsimp only at h ⊢
    rw [if_pos h]
  | false => exact press_other hm input

theorem Unbound.inert {key : UInt8} (h : Unbound key) : Inert key := by
  refine ⟨h.2, ?_, ?_⟩
  · rintro rfl
    exact h.1 (by decide)
  · rintro rfl
    exact h.1 (by decide)

theorem Unbound.notMem {key : UInt8} (h : Unbound key) : key ∉ actingKeys := by
  have hall : ∀ key ∈ actingKeys, key ∈ boundKeys := List.all_iff_forall_prop.mp (by decide)
  exact fun hmem => h.1 (hall key hmem)

/-- A key that is not bound gives no message. -/
theorem Unbound.press_none {p : KeyPress} (h : Unbound p.key) {input : InputBuffer}
    {window : List UInt8} (hw : Holds input window) : (press input p).1 = .none :=
  (press_none_iff h.notMem hw).mpr fun hg => absurd hg h.inert.2.2

/-- Two inert keys, or two keys that are wiped next, leave input buffers that are alike. -/
theorem alike_getInputKey {input : InputBuffer} {key key' : UInt8}
    (h : AlikeKey key key' ∨ input.count + 2 = maxInputBuffer) :
    Alike (getInputKey input key.toNat) (getInputKey input key'.toNat) := by
  unfold getInputKey
  dsimp only
  rw [ofInt_toNat, ofInt_toNat]
  refine ⟨rfl, ?_⟩
  dsimp only
  rcases h with h | h
  · exact .inr (alike_set (forall₂_alike_refl _) h _)
  · left
    rw [if_neg (by omega)]
    exact h

section
variable {input : InputBuffer} {window : List UInt8} (hw : Holds input window)
include hw

theorem Holds.lastKey_iff {c : UInt8} (hc : c ≠ 0) (h8 : input.count + 2 = maxInputBuffer) :
    (room maxInputBuffer window).getLast? ≠ some c ↔ lastKey input ≠ c := by
  have hcount := hw.count
  rw [room_of_ne (by omega)]
  exact not_congr (hw.getD_count_iff hc).symm

/-- **A harmless key** acts as any key that is not bound. -/
theorem Harmless.acts_as {p q : KeyPress} (h : Harmless input p.key) (hq : Unbound q.key) :
    (press input p).1 = .none ∧ ∀ later : List KeyPress,
      outputs press (press input p).2 later = outputs press (press input q).2 later := by
  have hnone : (press input p).1 = .none := by
    refine (press_none_iff h.acts hw).mpr fun hg => ?_
    have h8 := h.counted (by rw [hg]; decide)
    rw [Holds.lastKey_iff hw (by decide) h8, Holds.lastKey_iff hw (by decide) h8]
    exact h.start hg
  refine ⟨hnone, fun later => outputs_alike ?_ later⟩
  rw [press_keeps hnone, press_keeps (hq.press_none hw)]
  refine alike_getInputKey ?_
  by_cases hinert : Inert p.key
  · exact .inl (.inr ⟨hinert, hq.inert⟩)
  · exact .inr (h.counted hinert)

/-! ### A key that is told apart -/

/-- The input buffer when the next key comes. -/
theorem holds_next {p : KeyPress} (hp : (press input p).1 = .none)
    (h8 : input.count + 2 ≠ maxInputBuffer) (key : UInt8) :
    Holds (getInputKey (press input p).2 key.toNat)
      (room maxInputBuffer window ++ [p.key] ++ [key]) := by
  have hcount := hw.count
  have hnext := (hw.press_none (p := p) fun _ => hp).getInputKey key
  rw [push, room_push, if_neg (by unfold maxInputBuffer at h8; omega)] at hnext
  exact hnext

/-- A motion with a count, behind a key that is not `Ctrl-W`. -/
theorem message_counted {p : KeyPress} (hp : (press input p).1 = .none)
    (h8 : input.count + 2 ≠ maxInputBuffer) (hsection : p.key ≠ Key.chordSwitchWin)
    {key : UInt8} (hkey : key = Key.motionDown ∨ key = Key.motionLineSelector) {model : TuiModel}
    {before digits : List UInt8} (hsplit : room maxInputBuffer window ++ [p.key] = before ++ digits)
    (hbefore : ∀ c, before.getLast? = some c → isdigit c = false)
    (hdigits : ∀ c ∈ digits, isdigit c = true) :
    (press (press input p).2 ⟨key, model⟩).1 =
      if key = Key.motionDown then
        .bufferMotion ⟨.down, (UInt64.ofNat (number 1 digits)).toInt64⟩
      else .goToBufferLine ⟨.up, (UInt64.ofNat (number 0 digits)).toInt64⟩ := by
  have hnext := holds_next hw hp h8 key
  have hlast : (room maxInputBuffer window ++ [p.key]).getLast? ≠ some Key.chordSwitchWin := by
    rw [List.getLast?_concat]
    exact fun h => hsection (Option.some_inj.mp h)
  have hmotion : isMotionKey key = true ∧ isdigit key = false ∧
      key ∈ [Key.motionUp, Key.motionDown, Key.motionLeft, Key.motionRight,
        Key.motionLineSelector] := by
    rcases hkey with rfl | rfl <;> decide
  have hmsg := hnext.motionMsg_counted (by rw [key_getInputKey]; exact hmotion.2.2) hlast
  rw [hsplit] at hnext
  have habs : ∀ initial ≤ 1, absAmount (getInputKey (press input p).2 key.toNat)
      (UInt64.ofNat initial) = UInt64.ofNat (number initial digits) := fun initial hinitial =>
    (hnext.absAmount hbefore hdigits hmotion.2.1 hinitial).1
  rw [press_motion hmotion.1]
  change motionMsg _ = _
  rw [hmsg, key_getInputKey]
  rcases hkey with rfl | rfl
  · rw [if_pos rfl, countedMotion, key_getInputKey, if_neg (by decide),
      show (1 : UInt64) = UInt64.ofNat 1 from rfl, habs 1 le_rfl]
    rfl
  · rw [if_neg (by decide), countedMotion_goTo (key_getInputKey _ _), habs 0 (by decide)]
    rfl

/-- Behind an inert key there is no number. -/
theorem message_inert {p : KeyPress} (hp : (press input p).1 = .none)
    (h8 : input.count + 2 ≠ maxInputBuffer) (hinert : Inert p.key) {key : UInt8}
    (hkey : key = Key.motionDown ∨ key = Key.motionLineSelector) {model : TuiModel} :
    (press (press input p).2 ⟨key, model⟩).1 =
      if key = Key.motionDown then .bufferMotion ⟨.down, (UInt64.ofNat 1).toInt64⟩
      else .goToBufferLine ⟨.up, (UInt64.ofNat 0).toInt64⟩ := by
  refine message_counted hw hp h8 hinert.2.1 hkey (List.append_nil _).symm ?_ nofun
  intro c hc
  rw [List.getLast?_concat, Option.some_inj] at hc
  rw [← hc]
  exact hinert.1

/-- A digit counts. -/
theorem digit_told_apart {p q : KeyPress} (hp : (press input p).1 = .none)
    (hq : (press input q).1 = .none) (h8 : input.count + 2 ≠ maxInputBuffer)
    (hdigit : isdigit p.key = true) (hinert : Inert q.key) :
    ∃ key, (press (press input p).2 ⟨key, {}⟩).1 ≠ (press (press input q).2 ⟨key, {}⟩).1 := by
  obtain ⟨before, digits, hsplit, hbefore, hdigits⟩ :=
    exists_digits (room maxInputBuffer window ++ [p.key])
  have hne : digits ≠ [] := by
    rintro rfl
    have hlast := hbefore p.key (by rw [← List.append_nil before, ← hsplit, List.getLast?_concat])
    rw [hdigit] at hlast
    cases hlast
  have hsection : p.key ≠ Key.chordSwitchWin := by
    intro heq
    rw [heq] at hdigit
    cases hdigit
  have hlen : decimal digits < 2 ^ 64 := by
    have hlength := congrArg List.length hsplit
    have hroom := length_room_lt (n := maxInputBuffer) (by decide) hw.length_lt
    rw [List.length_append, List.length_append, List.length_singleton] at hlength
    have hval : decimal digits < 10 ^ 9 := decimal_lt_of_length hdigits (by
      unfold maxInputBuffer at hroom hlength; omega)
    exact hval.trans (by decide)
  have hnumber : ∀ initial, number initial digits = decimal digits := fun _ => if_neg hne
  -- the number is not 1, or it is not 0
  by_cases hone : decimal digits = 1
  · refine ⟨Key.motionLineSelector, ?_⟩
    rw [message_counted hw hp h8 hsection (.inr rfl) hsplit hbefore hdigits,
      message_inert hw hq h8 hinert (.inr rfl), if_neg (by decide), if_neg (by decide), hnumber, hone]
    decide
  · refine ⟨Key.motionDown, ?_⟩
    rw [message_counted hw hp h8 hsection (.inl rfl) hsplit hbefore hdigits,
      message_inert hw hq h8 hinert (.inl rfl), hnumber, if_pos rfl, if_pos rfl]
    intro heq
    rw [TuiMsg.bufferMotion.injEq, TuiMotion.mk.injEq] at heq
    have hval := congrArg (fun x => x.toUInt64.toNat) heq.2
    rw [UInt64.toUInt64_toInt64, UInt64.toUInt64_toInt64, UInt64.toNat_ofNat_of_lt' hlen] at hval
    exact hone hval

/-- So do `Ctrl-W` and `g`. -/
theorem chord_told_apart {p q : KeyPress} (hp : (press input p).1 = .none)
    (hq : (press input q).1 = .none) (h8 : input.count + 2 ≠ maxInputBuffer)
    (hchord : p.key = Key.chordSwitchWin ∨ p.key = Key.motionStartOfFile) (hinert : Inert q.key) :
    ∃ key, (press (press input p).2 ⟨key, {}⟩).1 ≠ (press (press input q).2 ⟨key, {}⟩).1 := by
  rcases hchord with hkey | hkey
  · refine ⟨Key.motionDown, ?_⟩
    have hnext := holds_next hw hp h8 Key.motionDown
    rw [hkey] at hnext
    rw [message_inert hw hq h8 hinert (.inl rfl), press_motion (p := ⟨Key.motionDown, {}⟩) rfl]
    change motionMsg _ ≠ _
    rw [hnext.motionMsg_section List.getLast?_concat, if_pos rfl]
    exact nofun
  · refine ⟨Key.motionStartOfFile, ?_⟩
    have hnext := holds_next hw hp h8 Key.motionStartOfFile
    have hnext' := holds_next hw hq h8 Key.motionStartOfFile
    have hlast : (room maxInputBuffer window ++ [q.key]).getLast? ≠ some Key.chordSwitchWin := by
      rw [List.getLast?_concat]
      exact fun h => hinert.2.1 (Option.some_inj.mp h)
    rw [hkey] at hnext
    rw [press_motion (p := ⟨Key.motionStartOfFile, {}⟩) rfl,
      press_motion (p := ⟨Key.motionStartOfFile, {}⟩) rfl]
    change motionMsg _ ≠ motionMsg _
    rw [hnext.motionMsg_start (key_getInputKey _ _) (by rw [List.getLast?_concat]; decide),
      hnext'.motionMsg_start (key_getInputKey _ _) hlast, if_pos List.getLast?_concat, if_neg]
    · exact nofun
    · rw [List.getLast?_concat]
      exact fun h => hinert.2.2 (Option.some_inj.mp h)

/-- **Only a harmless key** acts as one that is not bound. -/
theorem Harmless.of_acts_as {p q : KeyPress} (hq : Unbound q.key)
    (hnone : (press input p).1 = .none)
    (hsame : ∀ later : List KeyPress,
      outputs press (press input p).2 later = outputs press (press input q).2 later) :
    Harmless input p.key := by
  have hacts : p.key ∉ actingKeys := fun hmem => press_ne_none hmem input hnone
  have hone : ¬ ∃ key, (press (press input p).2 ⟨key, {}⟩).1 ≠
      (press (press input q).2 ⟨key, {}⟩).1 := by
    rintro ⟨key, hne⟩
    exact hne (List.cons.inj (hsame [⟨key, {}⟩])).1
  have hcounted : ¬ Inert p.key → input.count + 2 = maxInputBuffer := by
    intro hinert
    by_contra h8
    cases hdigit : isdigit p.key with
    | true => exact hone (digit_told_apart hw hnone (hq.press_none hw) h8 hdigit hq.inert)
    | false =>
      refine hone (chord_told_apart hw hnone (hq.press_none hw) h8 ?_ hq.inert)
      by_contra hchord
      rw [not_or] at hchord
      exact hinert ⟨hdigit, hchord⟩
  refine ⟨hacts, hcounted, fun hg => ?_⟩
  have h8 := hcounted (by rw [hg]; decide)
  have hlast := (press_none_iff hacts hw).mp hnone hg
  rw [Holds.lastKey_iff hw (by decide) h8, Holds.lastKey_iff hw (by decide) h8] at hlast
  exact hlast

end

/-- **A code acts as a key that is not bound** if and only if its lowest byte is harmless where it is
typed. -/
theorem actsAsUnbound_iff (history : List KeyCode) (g : KeyCode) :
    ActsAsUnbound history g ↔ Harmless (received history) (UInt8.ofInt g.code) := by
  obtain ⟨window, hw, -⟩ := typed_holds (history.map KeyCode.narrow)
  rw [← received_eq] at hw
  unfold ActsAsUnbound
  rw [receive_eq]
  constructor
  · rintro ⟨hnone, key, hkey, hsame⟩
    exact Harmless.of_acts_as hw (q := ⟨key, g.model⟩) hkey hnone hsame
  · intro h
    have hx : Unbound 120 := by
      unfold Unbound
      decide
    obtain ⟨hnone, hsame⟩ := Harmless.acts_as hw (p := g.narrow) (q := ⟨120, g.model⟩) h hx
    exact ⟨hnone, 120, hx, hsame⟩

/-- `KEY_NPAGE`, the page-down key, runs the debuggee. -/
theorem not_actsAsUnbound_pageDown :
    ¬ ∀ (history : List KeyCode) (g : KeyCode), 255 < g.code → ActsAsUnbound history g := by
  intro h
  have hmsg : (receive (received []) ⟨338, {}⟩).1 = .runDebuggee := by decide
  have hnone := (h [] ⟨338, {}⟩ (by decide)).1
  rw [hmsg] at hnone
  cases hnone

end Dabugger.Tui.FunctionKeys
