import Dabugger.Lib.Windows
import Dabugger.Tui.Input
import Mathlib.Data.Bool.AllAny

/-! # Counts and chords

What the keys mean is decided by the keys before them in the input buffer. The buffer holds an end of
the keys that were typed (`Holds`, `typed_holds`), and the key that would fill it wipes it: a chord
keeps its meaning exactly if it is not typed across a wipe, or nothing that matters is lost in it
(`onStdinInput_means_iff`). -/

namespace Dabugger.Tui.Chords

open Dabugger.Lib.Windows Dabugger.Base Dabugger.Tui.Types Dabugger.Tui.Input

/-! ### Histories -/

/-- A key, and the model when it is pressed. -/
structure KeyPress where
  key : UInt8
  model : TuiModel

/-- What a key press gives. -/
def press (input : InputBuffer) (p : KeyPress) : TuiMsg × InputBuffer :=
  onStdinInput p.model input p.key.toNat

/-- The input buffer after these keys. -/
def typed (history : List KeyPress) : InputBuffer :=
  history.foldl (fun input p => (press input p).2) {}

/-! ### Chords and what they mean -/

/-- The chords; a count is given by its digits. -/
inductive Chord where
  | count (digits : List UInt8) (key : UInt8)
  | single (key : UInt8)
  | goTo (digits : List UInt8)
  | start
  | changeSection (key : UInt8)

/-- The keys before the last one. -/
def Chord.leading : Chord → List UInt8
  | .count digits _ => digits
  | .single _ => []
  | .goTo digits => digits
  | .start => [Key.motionStartOfFile]
  | .changeSection _ => [Key.chordSwitchWin]

/-- The last key. -/
def Chord.last : Chord → UInt8
  | .count _ key => key
  | .single key => key
  | .goTo _ => Key.motionLineSelector
  | .start => Key.motionStartOfFile
  | .changeSection key => key

/-- A `g` after these keys (the last one first) is the second one of a `gg`. -/
def completesStart : List UInt8 → Bool
  | [] => false
  | c :: cs => c = Key.motionStartOfFile && cs.head? ≠ some Key.chordSwitchWin &&
    !completesStart cs

/-- After these keys, one to eight digits that are no end of a longer number. -/
structure IsCount (before digits : List UInt8) : Prop where
  isdigit_of_mem : ∀ c ∈ digits, isdigit c = true
  maximal : ∀ c, before.getLast? = some c → isdigit c = false
  ne_nil : digits ≠ []
  length_le : digits.length ≤ 8

/-- What a chord requires of the keys before it. -/
def Chord.Typed (before : List UInt8) : Chord → Prop
  | .count digits key => IsCount before digits ∧ key ∈ [Key.motionUp, Key.motionDown]
  | .single key => key ∈ [Key.motionUp, Key.motionDown] ∧
    ∀ c, before.getLast? = some c → isdigit c = false ∧ c ≠ Key.chordSwitchWin
  | .goTo digits => IsCount before digits ∧ 1 ≤ decimal digits
  | .start => before.getLast? ≠ some Key.chordSwitchWin ∧ completesStart before.reverse = false
  | .changeSection key =>
    key ∈ [Key.motionLeft, Key.motionDown, Key.motionUp, Key.motionRight]

/-- The message that a chord means. -/
def Chord.Means : Chord → TuiMsg → Prop
  | .count digits key, msg => ∃ amount, msg = .bufferMotion ⟨motionDirection key, amount⟩ ∧
    amount.toInt = decimal digits
  | .single key, msg => msg = .bufferMotion ⟨motionDirection key, 1⟩
  | .goTo digits, msg => ∃ direction amount, msg = .goToBufferLine ⟨direction, amount⟩ ∧
    amount.toInt = decimal digits
  | .start, msg => ∃ direction, msg = .goToBufferLine ⟨direction, Amount.bufferStart⟩
  | .changeSection key, msg => msg = .changeSection ⟨motionDirection key, 1⟩

/-- The number of digits that are wiped, when a number and a key are typed behind `count` keys. -/
def lostDigits (count : ℕ) (digits : List UInt8) : ℕ :=
  if count + digits.length + 1 < maxInputBuffer then 0 else maxInputBuffer - 1 - count

/-- The digits that are wiped are leading zeros. -/
def LosesZeros (count : ℕ) (digits : List UInt8) : Prop :=
  lostDigits count digits < digits.length ∧ ∀ c ∈ digits.take (lostDigits count digits), c = 48

/-- The chord is not typed across a wipe, or nothing is lost in it. -/
def Chord.Kept (input : InputBuffer) : Chord → Prop
  | .count digits _ => LosesZeros input.count digits ∨
    lostDigits input.count digits = digits.length ∧ decimal digits = 1
  | .single _ => True
  | .goTo digits => LosesZeros input.count digits
  | .start => input.count ≠ 8 ∧
    (input.count = 9 ∨ input.buffer.getD (input.count - 1) 0 ≠ Key.motionStartOfFile)
  | .changeSection _ => input.count ≠ 8

/-! ### What the input buffer holds -/

/-- The keys of the input buffer. -/
structure Holds (input : InputBuffer) (window : List UInt8) : Prop where
  buffer : input.buffer = window ++ List.replicate (maxInputBuffer - window.length) 0
  count : input.count = window.length
  length_lt : window.length < maxInputBuffer

theorem holds_clear : Holds clearInputBuffer [] := ⟨rfl, rfl, by decide⟩

variable {input : InputBuffer} {window : List UInt8}

/-- Writing behind the keys. -/
theorem Holds.set (h : Holds input window) (key : UInt8) :
    input.buffer.set window.length key =
      (window ++ [key]) ++ List.replicate (maxInputBuffer - (window ++ [key]).length) 0 := by
  have hlt := h.length_lt
  obtain ⟨k, hk⟩ : ∃ k, maxInputBuffer - window.length = k + 1 :=
    ⟨maxInputBuffer - window.length - 1, by omega⟩
  have hk' : maxInputBuffer - (window ++ [key]).length = k := by
    rw [List.length_append, List.length_singleton]; omega
  rw [h.buffer, hk', hk, List.replicate_succ, List.set_append_right _ _ le_rfl, Nat.sub_self,
    List.set_cons_zero, List.append_assoc, List.singleton_append]

theorem ofInt_toNat (key : UInt8) : UInt8.ofInt (key.toNat : ℤ) = key := by
  have hmod : (key.toNat : ℤ) % 2 ^ 8 = key.toNat :=
    Int.emod_eq_of_lt (by omega) (by have := key.toNat_lt; omega)
  rw [UInt8.ofInt, hmod, Int.toNat_natCast, UInt8.ofNat_toNat]

@[simp] theorem key_getInputKey (input : InputBuffer) (key : UInt8) :
    (getInputKey input key.toNat).key = key := ofInt_toNat key

/-- A code acts as its lowest byte. -/
theorem getInputKey_ofInt (input : InputBuffer) (ch : ℤ) :
    Input.getInputKey input (UInt8.ofInt ch).toNat = Input.getInputKey input ch := by
  unfold Input.getInputKey
  rw [ofInt_toNat]

/-- **A key is pushed into the window.** -/
theorem Holds.getInputKey (h : Holds input window) (key : UInt8) :
    Holds (getInputKey input key.toNat) (push maxInputBuffer window key) := by
  have hlt := length_push_lt (n := maxInputBuffer) (by decide) h.length_lt key
  unfold Input.getInputKey push room
  dsimp only
  rw [h.count, ofInt_toNat]
  refine ⟨?_, ?_, hlt⟩
  · by_cases hfull : window.length + 1 = maxInputBuffer
    · rw [if_pos hfull, if_pos hfull]
      exact holds_clear.set key
    · rw [if_neg hfull, if_neg hfull]
      exact h.set key
  · by_cases hfull : window.length + 1 = maxInputBuffer
    · rw [if_pos hfull, if_pos hfull]
      rfl
    · rw [if_neg hfull, if_neg hfull, List.length_append]
      rfl

/-! ### Keys that leave the input buffer -/

/-- The cases of the `switch` are disjoint. -/
theorem motionKey_ne {key : UInt8} (h : isMotionKey key = true) :
    key ≠ Key.quit ∧ key ≠ Key.chordFilePicker ∧ key ≠ Key.confirm ∧
      key ≠ Key.toggleBreakpoint ∧ key ≠ Key.runProg := by
  have hall : ∀ key ∈ [Key.motionUp, Key.motionDown, Key.motionLeft, Key.motionRight,
      Key.motionStartOfFile, Key.motionLineSelector, Key.chordHalfUp, Key.chordHalfDown],
      key ≠ Key.quit ∧ key ≠ Key.chordFilePicker ∧ key ≠ Key.confirm ∧
        key ≠ Key.toggleBreakpoint ∧ key ≠ Key.runProg :=
    List.all_iff_forall_prop.mp (by decide)
  exact hall key (of_decide_eq_true h)

theorem press_motion {p : KeyPress} (h : isMotionKey p.key = true) (input : InputBuffer) :
    press input p = onMotionInput (getInputKey input p.key.toNat) := by
  obtain ⟨h₁, h₂, h₃, h₄, h₅⟩ := motionKey_ne h
  unfold press onStdinInput
  dsimp only
  rw [key_getInputKey, if_neg h₁, if_neg h₂, if_neg h₃, if_neg h₄, if_neg h₅, if_pos h]

theorem press_other {p : KeyPress} (h : isMotionKey p.key = false) (input : InputBuffer) :
    (press input p).2 = getInputKey input p.key.toNat := by
  unfold press onStdinInput
  dsimp only
  rw [key_getInputKey, if_neg (show ¬ isMotionKey p.key = true by rw [h]; exact nofun)]
  split_ifs <;> rfl

/-- A key that gives no motion is pushed into the window. -/
theorem Holds.press_none (h : Holds input window) {p : KeyPress}
    (hp : isMotionKey p.key = true → (press input p).1 = .none) :
    Holds (press input p).2 (push maxInputBuffer window p.key) := by
  cases hm : isMotionKey p.key with
  | false => rw [press_other hm]; exact h.getInputKey p.key
  | true =>
    have hnone := hp hm
    rw [press_motion hm] at hnone ⊢
    unfold onMotionInput at hnone ⊢
    dsimp only at hnone ⊢
    rw [if_pos hnone]
    exact h.getInputKey p.key

/-- A motion empties it. -/
theorem Holds.press_motion {p : KeyPress} (hm : isMotionKey p.key = true)
    (hp : (press input p).1 ≠ .none) : Holds (press input p).2 [] := by
  rw [Chords.press_motion hm] at hp ⊢
  unfold onMotionInput at hp ⊢
  dsimp only at hp ⊢
  rw [if_neg hp]
  exact holds_clear

/-- **One key**: what the input buffer holds is still an end of the keys that were typed. -/
theorem Holds.press_suffix (h : Holds input window) {keys : List UInt8} (hs : window <:+ keys)
    (p : KeyPress) :
    ∃ window', Holds (press input p).2 window' ∧ window' <:+ keys ++ [p.key] := by
  by_cases hp : isMotionKey p.key = true → (press input p).1 = .none
  · exact ⟨_, h.press_none hp, push_suffix hs p.key⟩
  · obtain ⟨hm, hp⟩ := Classical.not_imp.mp hp
    exact ⟨[], Holds.press_motion hm hp, List.nil_suffix⟩

/-- The keys that were pressed. -/
def keys (history : List KeyPress) : List UInt8 := history.map KeyPress.key

theorem typed_concat (history : List KeyPress) (p : KeyPress) :
    typed (history ++ [p]) = (press (typed history) p).2 := by
  rw [typed, List.foldl_append]
  rfl

/-- **Every history**: the input buffer holds an end of the keys. -/
theorem typed_holds (history : List KeyPress) :
    ∃ window, Holds (typed history) window ∧ window <:+ keys history := by
  induction history using List.reverseRecOn with
  | nil => exact ⟨[], holds_clear, List.suffix_rfl⟩
  | append_singleton history p ih =>
    obtain ⟨window, h, hs⟩ := ih
    rw [typed_concat, keys, List.map_append]
    exact h.press_suffix hs p

/-- Keys that are no motions, one after another. -/
theorem Holds.foldl_press (h : Holds input window) {ps : List KeyPress}
    (hps : ∀ p ∈ ps, isMotionKey p.key = false) :
    Holds (ps.foldl (fun input p => (press input p).2) input)
      ((keys ps).foldl (push maxInputBuffer) window) := by
  induction ps generalizing input window with
  | nil => exact h
  | cons p ps ih =>
    rw [List.forall_mem_cons] at hps
    have hp : isMotionKey p.key = true → (press input p).1 = .none := fun hm => by
      rw [hps.1] at hm
      cases hm
    exact ih (h.press_none hp) hps.2

/-! ### Numbers -/

theorem isdigit_iff {c : UInt8} : isdigit c = true ↔ 48 ≤ c.toNat ∧ c.toNat ≤ 57 := by
  rw [isdigit, Bool.and_eq_true, decide_eq_true_eq, decide_eq_true_eq, UInt8.le_iff_toNat_le,
    UInt8.le_iff_toNat_le]
  rfl

theorem decimal_concat (digits : List UInt8) (c : UInt8) :
    decimal (digits ++ [c]) = 10 * decimal digits + (c.toNat - 48) := by
  rw [decimal, List.foldl_append]
  rfl

/-- Digits behind digits. -/
theorem decimal_append (xs ys : List UInt8) :
    decimal (xs ++ ys) = decimal xs * 10 ^ ys.length + decimal ys := by
  induction ys using List.reverseRecOn with
  | nil => simp [decimal]
  | append_singleton ys c ih =>
    rw [← List.append_assoc, decimal_concat, decimal_concat, ih, List.length_append,
      List.length_singleton, pow_succ]
    ring

theorem decimal_lt : ∀ {digits : List UInt8}, (∀ c ∈ digits, isdigit c = true) →
    decimal digits < 10 ^ digits.length := by
  intro digits
  induction digits using List.reverseRecOn with
  | nil => intro _; decide
  | append_singleton digits c ih =>
    intro h
    rw [List.forall_mem_append] at h
    have hc := (isdigit_iff.mp (h.2 c (List.mem_singleton_self c))).2
    have ih := ih h.1
    rw [decimal_concat, List.length_append, List.length_singleton, pow_succ]
    omega

theorem decimal_lt_of_length {digits : List UInt8} {n : ℕ} (h : ∀ c ∈ digits, isdigit c = true)
    (hlen : digits.length ≤ n) : decimal digits < 10 ^ n :=
  (decimal_lt h).trans_le (Nat.pow_le_pow_right (by decide) hlen)

/-- Only zeros make zero. -/
theorem decimal_eq_zero_iff : ∀ {digits : List UInt8}, (∀ c ∈ digits, isdigit c = true) →
    (decimal digits = 0 ↔ ∀ c ∈ digits, c = 48) := by
  intro digits
  induction digits using List.reverseRecOn with
  | nil => exact fun _ => iff_of_true rfl nofun
  | append_singleton digits c ih =>
    intro h
    rw [List.forall_mem_append] at h
    have hc := (isdigit_iff.mp (h.2 c (List.mem_singleton_self c))).1
    have hzero : c.toNat - 48 = 0 ↔ c = 48 := by
      rw [← UInt8.toNat_inj]
      change _ ↔ c.toNat = 48
      omega
    rw [decimal_concat, List.forall_mem_append, List.forall_mem_singleton, ← ih h.1, ← hzero]
    omega

/-- A number keeps its value without its first digits exactly if they are zeros. -/
theorem decimal_drop_iff {digits : List UInt8} (h : ∀ c ∈ digits, isdigit c = true) (k : ℕ) :
    decimal (digits.drop k) = decimal digits ↔ ∀ c ∈ digits.take k, c = 48 := by
  rw [← decimal_eq_zero_iff fun c hc => h c (List.mem_of_mem_take hc)]
  conv_lhs => rhs; rw [← List.take_append_drop k digits, decimal_append]
  have hpos : 0 < 10 ^ (digits.drop k).length := Nat.pow_pos (by decide)
  constructor
  · intro heq
    have hmul : decimal (digits.take k) * 10 ^ (digits.drop k).length = 0 := by omega
    exact (Nat.mul_eq_zero.mp hmul).resolve_right hpos.ne'
  · intro hzero
    rw [hzero, Nat.zero_mul, Nat.zero_add]

/-! ### What is before the last key -/

section
variable {before : List UInt8} {key : UInt8}

/-- The key before the last one. -/
theorem Holds.previousKey_iff (h : Holds input (before ++ [key])) (c : UInt8) :
    input.count > 1 ∧ previousKey input = c ↔ before.getLast? = some c := by
  have hcount := h.count
  rw [List.length_append, List.length_singleton] at hcount
  rcases List.eq_nil_or_concat' before with rfl | ⟨before, d, rfl⟩
  · rw [List.length_nil] at hcount
    exact iff_of_false (fun hc => by omega) nofun
  · have hprevious : previousKey input = d := by
      rw [List.length_append, List.length_singleton] at hcount
      rw [previousKey, h.buffer, hcount]
      simp
    rw [hprevious, List.getLast?_concat, Option.some_inj, hcount, List.length_append,
      List.length_singleton]
    exact and_iff_right (by omega)

/-- The loop that looks for the first digit, before digits. -/
theorem numBegin_digits {before : List UInt8}
    (hb : ∀ c, before.getLast? = some c → isdigit c = false) :
    ∀ {digits : List UInt8}, (∀ c ∈ digits, isdigit c = true) → ∀ (rest : List UInt8) begin,
      numBegin (before ++ digits ++ rest) (before.length + digits.length) begin =
        if digits = [] then begin else some before.length := by
  intro digits
  induction digits using List.reverseRecOn with
  | nil =>
    intro _ rest begin
    rw [if_pos rfl, List.append_nil, List.length_nil, Nat.add_zero]
    rcases List.eq_nil_or_concat' before with rfl | ⟨before, c, rfl⟩
    · rfl
    · have hc := hb c List.getLast?_concat
      have hget : (before ++ [c] ++ rest).getD before.length 0 = c := by simp
      rw [List.length_append, List.length_singleton, numBegin, hget, hc,
        if_neg Bool.false_ne_true]
  | append_singleton digits d ih =>
    intro hd rest begin
    rw [List.forall_mem_append] at hd
    have hget : (before ++ (digits ++ [d]) ++ rest).getD (before.length + digits.length) 0 = d := by
      rw [← List.append_assoc, ← List.length_append, List.append_assoc, List.singleton_append]
      simp
    have hlist : before ++ (digits ++ [d]) ++ rest = before ++ digits ++ (d :: rest) := by simp
    rw [List.length_append, List.length_singleton, ← Nat.add_assoc, numBegin, hget,
      if_pos (hd.2 d (List.mem_singleton_self d)), hlist, ih hd.1,
      if_neg (List.append_ne_nil_of_right_ne_nil _ (List.cons_ne_nil d []))]
    split
    · next h => rw [h, List.length_nil, Nat.add_zero]
    · rfl

/-- The number that digits are; `initial` if there are none. -/
def number (initial : ℕ) (digits : List UInt8) : ℕ :=
  if digits = [] then initial else decimal digits

/-- **The number before the last key**, and it fits in a `long`. -/
theorem Holds.absAmount {digits : List UInt8} (h : Holds input (before ++ digits ++ [key]))
    (hb : ∀ c, before.getLast? = some c → isdigit c = false)
    (hd : ∀ c ∈ digits, isdigit c = true) (hkey : isdigit key = false) {initial : ℕ}
    (hinitial : initial ≤ 1) :
    absAmount input (UInt64.ofNat initial) = UInt64.ofNat (number initial digits) ∧
      number initial digits < 2 ^ 63 := by
  have hlt := h.length_lt
  have hcount := h.count
  simp only [List.length_append, List.length_singleton] at hlt hcount
  have hbegin := numBegin_digits hb hd
    ([key] ++ List.replicate (maxInputBuffer - (before ++ digits ++ [key]).length) 0) none
  rw [← List.append_assoc, ← h.buffer] at hbegin
  rw [Input.absAmount, hcount, Nat.add_sub_cancel, hbegin, number]
  by_cases hnil : digits = []
  · rw [if_pos hnil, if_pos hnil]
    exact ⟨rfl, by omega⟩
  · have htext : (input.buffer.drop before.length).takeWhile isdigit = digits := by
      rw [h.buffer, List.append_assoc, List.append_assoc, List.drop_left,
        List.takeWhile_append_of_pos hd, List.singleton_append,
        List.takeWhile_cons_of_neg (by rw [hkey]; exact nofun), List.append_nil]
    have hval : decimal digits < 10 ^ 9 := decimal_lt_of_length hd (by
      unfold maxInputBuffer at hlt; omega)
    rw [if_neg hnil, if_neg hnil]
    dsimp only
    rw [strtoul, htext, Nat.min_eq_left (by omega)]
    exact ⟨rfl, by omega⟩

/-! ### Messages -/

/-- A motion key directly after `Ctrl-W`. -/
theorem Holds.motionMsg_section (h : Holds input (before ++ [key]))
    (hb : before.getLast? = some Key.chordSwitchWin) :
    motionMsg input = .changeSection ⟨motionDirection input.key, 1⟩ := by
  rw [motionMsg, if_pos ((h.previousKey_iff _).mpr hb)]

/-- `g`. -/
theorem Holds.motionMsg_start (h : Holds input (before ++ [key]))
    (hkey : input.key = Key.motionStartOfFile) (hb : before.getLast? ≠ some Key.chordSwitchWin) :
    motionMsg input = if before.getLast? = some Key.motionStartOfFile then
      .goToBufferLine ⟨.up, Amount.bufferStart⟩ else .none := by
  rw [motionMsg, hkey, if_neg (mt (h.previousKey_iff _).mp hb), if_neg (by decide),
    if_neg (by decide), if_pos rfl]
  simp only [h.previousKey_iff]
  rfl

/-- The keys that take a count. -/
theorem Holds.motionMsg_counted (h : Holds input (before ++ [key]))
    (hkey : input.key ∈ [Key.motionUp, Key.motionDown, Key.motionLeft, Key.motionRight,
      Key.motionLineSelector])
    (hb : before.getLast? ≠ some Key.chordSwitchWin) :
    motionMsg input = countedMotion input (motionDirection input.key) := by
  have hne : ∀ key ∈ [Key.motionUp, Key.motionDown, Key.motionLeft, Key.motionRight,
      Key.motionLineSelector],
      key ≠ Key.chordHalfUp ∧ key ≠ Key.chordHalfDown ∧ key ≠ Key.motionStartOfFile :=
    List.all_iff_forall_prop.mp (by decide)
  obtain ⟨h₁, h₂, h₃⟩ := hne _ hkey
  rw [motionMsg, if_neg (mt (h.previousKey_iff _).mp hb), if_neg h₁, if_neg h₂, if_neg h₃]

end

/-! ### Across a wipe -/

/-- A digit is no motion. -/
theorem isMotionKey_digit {c : UInt8} (h : isdigit c = true) : isMotionKey c = false := by
  rw [isdigit_iff] at h
  refine decide_eq_false fun hc => ?_
  have hall : ∀ key ∈ [Key.motionUp, Key.motionDown, Key.motionLeft, Key.motionRight,
      Key.motionStartOfFile, Key.motionLineSelector, Key.chordHalfUp, Key.chordHalfDown],
      ¬ (48 ≤ key.toNat ∧ key.toNat ≤ 57) :=
    List.all_iff_forall_prop.mp (by decide)
  exact hall c hc h

/-- The last element of an end. -/
theorem getLast?_of_suffix {xs ys : List UInt8} (h : xs <:+ ys) {c : UInt8}
    (hc : xs.getLast? = some c) : ys.getLast? = some c := by
  obtain ⟨before, rfl⟩ := h
  rw [List.getLast?_append, hc]
  rfl

/-- **A number and a key**, behind a window: what is left of it, the digits that are left, and the
key. -/
theorem foldl_count {window digits : List UInt8} (key : UInt8)
    (hw : window.length < maxInputBuffer) (hd : digits.length ≤ 8) :
    ∃ before, before <:+ window ∧ (digits.drop (lostDigits window.length digits) = [] →
        digits ≠ [] → before = []) ∧
      (digits ++ [key]).foldl (push maxInputBuffer) window =
        before ++ digits.drop (lostDigits window.length digits) ++ [key] := by
  unfold lostDigits
  by_cases hlt : window.length + digits.length + 1 < maxInputBuffer
  · rw [if_pos hlt]
    refine ⟨window, List.suffix_rfl, fun hnil hne => absurd hnil hne, ?_⟩
    · rw [foldl_push_of_lt (by rw [List.length_append, List.length_singleton]; omega),
        List.drop_zero, List.append_assoc]
  · rw [if_neg hlt]
    refine ⟨[], List.nil_suffix, fun _ _ => rfl, ?_⟩
    have hlen : (digits ++ [key]).length = digits.length + 1 := by simp
    unfold maxInputBuffer at hw hlt ⊢
    rw [foldl_push_of_le hw (by omega) (by omega), List.drop_append_of_le_length (by omega),
      List.nil_append]

/-! ### Chords -/

/-- The message of a key. -/
def message (history : List KeyPress) (p : KeyPress) : TuiMsg := (press (typed history) p).1

theorem message_motion {p : KeyPress} (h : isMotionKey p.key = true) (history : List KeyPress) :
    message history p = motionMsg (getInputKey (typed history) p.key.toNat) := by
  rw [message, press_motion h]
  rfl

theorem typed_append (before chord : List KeyPress) :
    typed (before ++ chord) = chord.foldl (fun input p => (press input p).2) (typed before) :=
  List.foldl_append

/-- What is in the input buffer when a key is typed behind digits. -/
theorem holds_count {before chord : List KeyPress} {p : KeyPress} {window : List UInt8}
    (h : Holds (typed before) window) (hs : window <:+ keys before)
    (hc : IsCount (keys before) (keys chord)) :
    ∃ rest, Holds (getInputKey (typed (before ++ chord)) p.key.toNat)
        (rest ++ (keys chord).drop (lostDigits window.length (keys chord)) ++ [p.key]) ∧
      (∀ c, rest.getLast? = some c → isdigit c = false) ∧
      (rest ++ (keys chord).drop (lostDigits window.length (keys chord))).getLast? ≠
        some Key.chordSwitchWin := by
  have hchord : ∀ q ∈ chord, isMotionKey q.key = false := fun q hq =>
    isMotionKey_digit (hc.isdigit_of_mem q.key (List.mem_map_of_mem hq))
  have hwindow := (h.foldl_press hchord).getInputKey p.key
  obtain ⟨rest, hrest, hall, hfold⟩ := foldl_count p.key h.length_lt hc.length_le
  rw [List.foldl_append] at hfold
  rw [← typed_append] at hwindow
  refine ⟨rest, hfold ▸ hwindow, fun c hlast => ?_, fun hlast => ?_⟩
  · exact hc.maximal c (getLast?_of_suffix (hrest.trans hs) hlast)
  · cases hkept : (keys chord).drop (lostDigits window.length (keys chord)) with
    | nil =>
      rw [hkept, hall hkept hc.ne_nil] at hlast
      cases hlast
    | cons d ds =>
      rw [hkept, List.getLast?_append_of_ne_nil _ (List.cons_ne_nil d ds)] at hlast
      have hmem : Key.chordSwitchWin ∈ keys chord := by
        apply List.mem_of_mem_drop
        rw [hkept]
        exact List.mem_of_getLast? hlast
      exact absurd (hc.isdigit_of_mem _ hmem) (by decide)

/-- **A count** is the number of the digits that are left. -/
theorem message_count {before chord : List KeyPress} {p : KeyPress}
    (hc : IsCount (keys before) (keys chord))
    (hkey : p.key ∈ [Key.motionUp, Key.motionDown, Key.motionLineSelector]) :
    ∀ initial ≤ 1, ∃ input, message (before ++ chord) p =
        countedMotion input (motionDirection p.key) ∧ input.key = p.key ∧
      absAmount input (UInt64.ofNat initial) = UInt64.ofNat (number initial
        ((keys chord).drop (lostDigits (typed before).count (keys chord)))) ∧
      number initial ((keys chord).drop (lostDigits (typed before).count (keys chord))) < 2 ^ 63 := by
  intro initial hinitial
  obtain ⟨window, h, hs⟩ := typed_holds before
  obtain ⟨rest, hinput, hrest, hlast⟩ := holds_count h hs hc (p := p)
  rw [← h.count] at hinput hlast
  have hmotion : isMotionKey p.key = true ∧ isdigit p.key = false ∧
      p.key ∈ [Key.motionUp, Key.motionDown, Key.motionLeft, Key.motionRight,
        Key.motionLineSelector] := by
    have hall : ∀ key ∈ [Key.motionUp, Key.motionDown, Key.motionLineSelector],
        isMotionKey key = true ∧ isdigit key = false ∧
          key ∈ [Key.motionUp, Key.motionDown, Key.motionLeft, Key.motionRight,
            Key.motionLineSelector] :=
      List.all_iff_forall_prop.mp (by decide)
    exact hall _ hkey
  have hdigits : ∀ c ∈ (keys chord).drop (lostDigits (typed before).count (keys chord)),
      isdigit c = true := fun c hmem => hc.isdigit_of_mem c (List.mem_of_mem_drop hmem)
  refine ⟨_, ?_, key_getInputKey _ _, hinput.absAmount hrest hdigits hmotion.2.1 hinitial⟩
  rw [message_motion hmotion.1,
    hinput.motionMsg_counted (by rw [key_getInputKey]; exact hmotion.2.2) hlast, key_getInputKey]

/-- The digits that are left have the value of all exactly if zeros were lost. -/
theorem number_drop_iff {digits : List UInt8} (hd : ∀ c ∈ digits, isdigit c = true) (initial : ℕ)
    {count : ℕ} (hlost : lostDigits count digits ≤ digits.length) :
    number initial (digits.drop (lostDigits count digits)) = decimal digits ↔
      LosesZeros count digits ∨
        lostDigits count digits = digits.length ∧ decimal digits = initial := by
  rw [number, LosesZeros]
  by_cases hall : lostDigits count digits = digits.length
  · rw [if_pos (List.drop_eq_nil_of_le hall.ge)]
    constructor
    · exact fun h => .inr ⟨hall, h.symm⟩
    · rintro (⟨hlt, -⟩ | ⟨-, h⟩)
      · exact absurd hlt (by omega)
      · exact h.symm
  · rw [if_neg (by rw [List.drop_eq_nil_iff]; omega), decimal_drop_iff hd]
    constructor
    · exact fun h => .inl ⟨by omega, h⟩
    · rintro (⟨-, h⟩ | ⟨h, -⟩)
      · exact h
      · exact absurd h hall

theorem lostDigits_le (count : ℕ) (digits : List UInt8) :
    lostDigits count digits ≤ digits.length := by
  unfold lostDigits
  split_ifs
  · exact Nat.zero_le _
  · omega

section
variable {before chord : List KeyPress} {p : KeyPress}

/-- `j` or `k` directly after a number. -/
theorem count_means_iff (hc : IsCount (keys before) (keys chord))
    (hkey : p.key ∈ [Key.motionUp, Key.motionDown]) :
    (Chord.count (keys chord) p.key).Means (message (before ++ chord) p) ↔
      (Chord.count (keys chord) p.key).Kept (typed before) := by
  have hall : ∀ key ∈ [Key.motionUp, Key.motionDown],
      key ∈ [Key.motionUp, Key.motionDown, Key.motionLineSelector] ∧
        key ≠ Key.motionLineSelector :=
    List.all_iff_forall_prop.mp (by decide)
  obtain ⟨hmem, hne⟩ := hall _ hkey
  obtain ⟨input, hmsg, hin, habs, hlt⟩ := message_count hc hmem 1 le_rfl
  have hval := Int64.toInt_ofNat_of_lt hlt
  rw [Chord.Means, Chord.Kept, ← number_drop_iff hc.isdigit_of_mem 1 (lostDigits_le _ _), hmsg,
    countedMotion, if_neg (by rw [hin]; exact hne)]
  constructor
  · rintro ⟨amount, hamount, hdec⟩
    cases hamount
    rw [show (1 : UInt64) = UInt64.ofNat 1 from rfl, habs] at hdec
    exact Int.natCast_inj.mp (hval.symm.trans hdec)
  · intro hnumber
    refine ⟨_, rfl, ?_⟩
    rw [show (1 : UInt64) = UInt64.ofNat 1 from rfl, habs, ← hnumber]
    exact hval

/-- The end of the buffer and line 0 are the same number. -/
theorem countedMotion_goTo {input : InputBuffer} (h : input.key = Key.motionLineSelector)
    (direction : Direction) :
    countedMotion input direction =
      .goToBufferLine ⟨direction, (absAmount input (UInt64.ofNat 0)).toInt64⟩ := by
  rw [countedMotion, if_pos h]
  dsimp only
  split
  · next hzero =>
    rw [show (0 : UInt64) = UInt64.ofNat 0 from rfl] at hzero
    rw [hzero]
    rfl
  · rfl

/-- `G` directly after a number that is not zero. -/
theorem goTo_means_iff (hc : IsCount (keys before) (keys chord)) (hn : 1 ≤ decimal (keys chord))
    (hkey : p.key = Key.motionLineSelector) :
    (Chord.goTo (keys chord)).Means (message (before ++ chord) p) ↔
      (Chord.goTo (keys chord)).Kept (typed before) := by
  obtain ⟨input, hmsg, hin, habs, hlt⟩ :=
    message_count hc (p := p) (by rw [hkey]; decide) 0 (by decide)
  have hval := Int64.toInt_ofNat_of_lt hlt
  have hiff := number_drop_iff hc.isdigit_of_mem 0 (lostDigits_le (typed before).count (keys chord))
  rw [or_iff_left (by rintro ⟨-, h⟩; omega)] at hiff
  rw [Chord.Means, Chord.Kept, ← hiff, hmsg, countedMotion_goTo (hin.trans hkey), habs]
  constructor
  · rintro ⟨direction, amount, hamount, hdec⟩
    cases hamount
    exact Int.natCast_inj.mp (hval.symm.trans hdec)
  · intro hnumber
    refine ⟨_, _, rfl, ?_⟩
    rw [← hnumber]
    exact hval

/-- `j` or `k` alone. -/
theorem single_means (hkey : p.key ∈ [Key.motionUp, Key.motionDown])
    (hb : ∀ c, (keys before).getLast? = some c → isdigit c = false ∧ c ≠ Key.chordSwitchWin) :
    (Chord.single p.key).Means (message before p) := by
  have hall : ∀ key ∈ [Key.motionUp, Key.motionDown], isMotionKey key = true ∧
      isdigit key = false ∧ key ≠ Key.motionLineSelector ∧
        key ∈ [Key.motionUp, Key.motionDown, Key.motionLeft, Key.motionRight,
          Key.motionLineSelector] :=
    List.all_iff_forall_prop.mp (by decide)
  obtain ⟨hm, hdigit, hne, hmem⟩ := hall _ hkey
  obtain ⟨window, h, hs⟩ := typed_holds before
  have hinput := h.getInputKey p.key
  have hlast : ∀ c, (room maxInputBuffer window).getLast? = some c →
      isdigit c = false ∧ c ≠ Key.chordSwitchWin := fun c hc =>
    hb c (getLast?_of_suffix ((room_suffix _ _).trans hs) hc)
  have hinput' := hinput
  rw [push, ← List.append_nil (room maxInputBuffer window)] at hinput'
  have habs := (hinput'.absAmount (fun c hc => (hlast c hc).1) (by rintro _ ⟨⟩) hdigit le_rfl).1
  rw [Chord.Means, message_motion hm, hinput.motionMsg_counted (by rw [key_getInputKey]; exact hmem)
    (fun hc => (hlast _ hc).2 rfl), key_getInputKey, countedMotion, if_neg (by
      rw [key_getInputKey]; exact hne), show (1 : UInt64) = UInt64.ofNat 1 from rfl, habs]
  rfl

/-! ### Chords of two keys -/

/-- What is left of the window when the second of two keys comes. -/
theorem room_push (window : List UInt8) (c : UInt8) :
    room maxInputBuffer (push maxInputBuffer window c) =
      if window.length = 8 then [] else room maxInputBuffer window ++ [c] := by
  have hlen : (push maxInputBuffer window c).length + 1 = maxInputBuffer ↔ window.length = 8 := by
    unfold push room maxInputBuffer at *
    rw [List.length_append, List.length_singleton]
    split_ifs with h9
    · exact iff_of_false (by decide) (by omega)
    · omega
  by_cases h8 : window.length = 8
  · rw [if_pos h8, room_of_eq (hlen.mpr h8)]
  · rw [if_neg h8, room_of_ne (mt hlen.mp h8)]
    rfl

/-- The key that is at the end of the input buffer. -/
theorem Holds.getD_count_iff {input : InputBuffer} {window : List UInt8} (h : Holds input window)
    {c : UInt8} (hc : c ≠ 0) :
    input.buffer.getD (input.count - 1) 0 = c ↔ window.getLast? = some c := by
  rw [h.buffer, h.count]
  rcases List.eq_nil_or_concat' window with rfl | ⟨window, d, rfl⟩
  · exact iff_of_false (fun h0 => hc h0.symm) nofun
  · rw [List.getLast?_concat, Option.some_inj]
    simp

/-- `h`, `j`, `k` or `l` directly after `Ctrl-W`. -/
theorem section_means_iff {q : KeyPress} (hq : q.key = Key.chordSwitchWin)
    (hkey : p.key ∈ [Key.motionLeft, Key.motionDown, Key.motionUp, Key.motionRight]) :
    (Chord.changeSection p.key).Means (message (before ++ [q]) p) ↔
      (Chord.changeSection p.key).Kept (typed before) := by
  have hall : ∀ key ∈ [Key.motionLeft, Key.motionDown, Key.motionUp, Key.motionRight],
      isMotionKey key = true ∧ key ≠ Key.motionLineSelector ∧
        key ∈ [Key.motionUp, Key.motionDown, Key.motionLeft, Key.motionRight,
          Key.motionLineSelector] :=
    List.all_iff_forall_prop.mp (by decide)
  obtain ⟨hm, hne, hmem⟩ := hall _ hkey
  obtain ⟨window, h, -⟩ := typed_holds before
  have hq' : isMotionKey q.key = true → (press (typed before) q).1 = .none := fun hm => by
    rw [hq] at hm
    exact absurd hm (by decide)
  have hinput := (h.press_none hq').getInputKey p.key
  rw [push, room_push window, hq] at hinput
  rw [Chord.Means, Chord.Kept, message_motion hm, typed_concat, h.count]
  by_cases h8 : window.length = 8
  · rw [if_pos h8] at hinput
    rw [hinput.motionMsg_counted (by rw [key_getInputKey]; exact hmem) (by rintro ⟨⟩),
      countedMotion, if_neg (by rw [key_getInputKey]; exact hne)]
    exact iff_of_false (by rintro ⟨⟩) (fun h => h h8)
  · rw [if_neg h8] at hinput
    rw [hinput.motionMsg_section List.getLast?_concat, key_getInputKey]
    exact iff_of_true rfl h8

theorem getLast?_room_iff (window : List UInt8) (c : UInt8) :
    (room maxInputBuffer window).getLast? = some c ↔
      window.length ≠ 9 ∧ window.getLast? = some c := by
  by_cases h9 : window.length = 9
  · rw [room_of_eq (by rw [h9]; rfl)]
    exact iff_of_false (by rintro ⟨⟩) (fun h => h.1 h9)
  · rw [room_of_ne (by unfold maxInputBuffer; omega)]
    exact (and_iff_right h9).symm

/-- A `g` goes to the start if it is typed directly behind a `g` in the input buffer. -/
theorem start_means_iff_of_holds {history : List KeyPress} {rest : List UInt8}
    (hkey : p.key = Key.motionStartOfFile) (hm : isMotionKey p.key = true)
    (hrest : rest.getLast? ≠ some Key.chordSwitchWin)
    (hinput : Holds (getInputKey (typed history) p.key.toNat) (rest ++ [p.key])) :
    Chord.start.Means (message history p) ↔ rest.getLast? = some Key.motionStartOfFile := by
  rw [message_motion hm, hinput.motionMsg_start ((key_getInputKey _ _).trans hkey) hrest,
    Chord.Means]
  split
  · next hlast => exact iff_of_true ⟨_, rfl⟩ hlast
  · next hlast => exact iff_of_false (by rintro ⟨_, ⟨⟩⟩) hlast

/-- Two `g` in a row. -/
theorem start_means_iff {q : KeyPress} (hq : q.key = Key.motionStartOfFile)
    (hkey : p.key = Key.motionStartOfFile)
    (hb : (keys before).getLast? ≠ some Key.chordSwitchWin) :
    Chord.start.Means (message (before ++ [q]) p) ↔ Chord.start.Kept (typed before) := by
  obtain ⟨window, h, hs⟩ := typed_holds before
  have hm : ∀ {p : KeyPress}, p.key = Key.motionStartOfFile → isMotionKey p.key = true := by
    intro p hp
    rw [hp]
    rfl
  have hroom := getLast?_room_iff window Key.motionStartOfFile
  have hfirst : (press (typed before) q).1 =
      if (room maxInputBuffer window).getLast? = some Key.motionStartOfFile then
        .goToBufferLine ⟨.up, Amount.bufferStart⟩ else .none :=
    (message_motion (hm hq) before).trans ((h.getInputKey q.key).motionMsg_start
      ((key_getInputKey _ _).trans hq)
      fun hc => hb (getLast?_of_suffix ((room_suffix _ _).trans hs) hc))
  rw [Chord.Kept, Ne, Ne, h.getD_count_iff (by decide), h.count]
  by_cases hg : (room maxInputBuffer window).getLast? = some Key.motionStartOfFile
  · -- the first `g` completes another `gg` and empties the buffer
    rw [if_pos hg] at hfirst
    have hinput := (Holds.press_motion (hm hq) (by rw [hfirst]; exact nofun)).getInputKey p.key
    rw [← typed_concat, push] at hinput
    rw [start_means_iff_of_holds hkey (hm hkey) (by rintro ⟨⟩) hinput]
    obtain ⟨h9, hlast⟩ := hroom.mp hg
    exact iff_of_false (by rintro ⟨⟩) (fun hk => hk.2.elim h9 (fun hne => hne hlast))
  · rw [if_neg hg] at hfirst
    have hinput := (h.press_none fun _ => hfirst).getInputKey p.key
    rw [← typed_concat, push, room_push window, hq] at hinput
    by_cases h8 : window.length = 8
    · rw [if_pos h8] at hinput
      rw [start_means_iff_of_holds hkey (hm hkey) (by rintro ⟨⟩) hinput]
      exact iff_of_false (by rintro ⟨⟩) (fun hk => hk.1 h8)
    · rw [if_neg h8] at hinput
      rw [start_means_iff_of_holds hkey (hm hkey) (by rw [List.getLast?_concat]; decide) hinput]
      exact iff_of_true List.getLast?_concat
        ⟨h8, or_iff_not_imp_left.mpr fun h9 hlast => hg (hroom.mpr ⟨h9, hlast⟩)⟩

end

/-- **Counts and chords.** After every history a chord means what was typed exactly if it is not typed
across a wipe of the input buffer, or nothing is lost in it. -/
theorem onStdinInput_means_iff (before chord : List KeyPress) (p : KeyPress) (c : Chord)
    (hleading : keys chord = c.leading) (hlast : p.key = c.last) (hc : c.Typed (keys before)) :
    c.Means (message (before ++ chord) p) ↔ c.Kept (typed before) := by
  cases c with
  | count digits key =>
    obtain rfl : keys chord = digits := hleading
    obtain rfl : p.key = key := hlast
    exact count_means_iff hc.1 hc.2
  | single key =>
    obtain rfl : p.key = key := hlast
    obtain rfl : chord = [] := List.map_eq_nil_iff.mp hleading
    rw [List.append_nil]
    exact iff_of_true (single_means hc.1 hc.2) trivial
  | goTo digits =>
    obtain rfl : keys chord = digits := hleading
    exact goTo_means_iff hc.1 hc.2 hlast
  | start =>
    obtain ⟨q, rfl, hq⟩ := List.map_eq_singleton_iff.mp hleading
    exact start_means_iff hq hlast hc.1
  | changeSection key =>
    obtain rfl : p.key = key := hlast
    obtain ⟨q, rfl, hq⟩ := List.map_eq_singleton_iff.mp hleading
    exact section_means_iff hq hc

/-- Keys, pressed in the first model. -/
def pressed (keys : List UInt8) : List KeyPress := keys.map fun key => ⟨key, {}⟩

theorem isCount_twelve {before : List UInt8}
    (h : ∀ c, before.getLast? = some c → isdigit c = false) : IsCount before [49, 50] :=
  ⟨List.all_eq_true.mp rfl, h, nofun, by decide⟩

/-- `12j` at the start. -/
theorem onStdinInput_means_iff_sample :
    (Chord.count [49, 50] Key.motionDown).Means
      (message ([] ++ pressed [49, 50]) ⟨Key.motionDown, {}⟩) :=
  (onStdinInput_means_iff [] (pressed [49, 50]) ⟨Key.motionDown, {}⟩
    (.count [49, 50] Key.motionDown) rfl rfl ⟨isCount_twelve nofun, by decide⟩).mpr
      (.inl ⟨by decide, List.all_iff_forall_prop.mp rfl⟩)

/-- After eight keys that do nothing, `12j` goes 2 lines down. -/
theorem not_onStdinInput_means_wiped :
    ¬ ∀ (before chord : List KeyPress) (p : KeyPress) (c : Chord), keys chord = c.leading →
      p.key = c.last → c.Typed (keys before) → c.Means (message (before ++ chord) p) := by
  intro h
  obtain ⟨amount, hmsg, hamount⟩ := h (pressed (List.replicate 8 120)) (pressed [49, 50])
    ⟨Key.motionDown, {}⟩ (.count [49, 50] Key.motionDown) rfl rfl
    ⟨isCount_twelve (by rintro c ⟨⟩; rfl), by decide⟩
  rw [show message (pressed (List.replicate 8 120) ++ pressed [49, 50]) ⟨Key.motionDown, {}⟩ =
    .bufferMotion ⟨.down, 2⟩ by decide] at hmsg
  cases hmsg
  exact absurd hamount (by decide)

end Dabugger.Tui.Chords
