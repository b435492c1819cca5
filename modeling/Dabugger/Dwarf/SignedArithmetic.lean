import Dabugger.Dwarf.Program
import Dabugger.Leb
import Dabugger.Lib.Log

/-! # Signed arithmetic on decoded operands

`read_sleb128` shifts its groups as `int64_t`, and `DW_LNS_advance_line` adds the number that is read
to the line as `int64_t`. Here both are computed with a log of the exact values of these operations;
without the log they are the functions of the source (`erases_readSleb128`, `decodeStandard_advanceLine`).
The values are all representable (`SignedArithmeticDefined`) except on long encodings: nine and ten
bytes shift into the sign, and a value near `INT64_MAX` leaves no room for the line. -/

namespace Dabugger.Dwarf.SignedArithmetic

open Dabugger.Lib.Bytes Dabugger.Lib.Exact Dabugger.Lib.Log Dabugger.Base
open Dabugger.Base.BinaryReader Dabugger.Reader Dabugger.Dwarf.Types Dabugger.Dwarf.Program

/-- A function that reads, with the exact values of its signed operations. -/
abbrev SignedParse := StateT BinaryReader (Logged ℤ Fault)

/-- The loop of `read_sleb128`: each group is shifted as `int64_t`. -/
def slebLoop : ℕ → ReadResult → UInt64 → UInt8 →
    SignedParse (ReadResult × UInt64 × UInt8)
  | 0, result, out, byte => return ({ result with status := .lebI64Overflow }, out, byte)
  | left + 1, result, out, byte => do
    let (byteReadResult, b) ← unlogged (readInt 1 byte.toNat 1)
    let byte := UInt8.ofNat b
    if byteReadResult.status ≠ .ok then
      return ({ result with status := byteReadResult.status }, out, byte)
    emitItem ((byte &&& 0x7f).toNat * 2 ^ (result.bytesConsumed * 7) : ℤ)
    let out := out ||| ((byte &&& 0x7f).toUInt64 <<< UInt64.ofNat (result.bytesConsumed * 7))
    let result := { result with bytesConsumed := result.bytesConsumed + 1 }
    if byte &&& 0x80 ≠ 0 then slebLoop left result out byte
    else return (result, out, byte)

/-- `read_sleb128`. -/
def readSleb128Signed : SignedParse (ReadResult × Int64) := do
  let (result, out, byte) ← slebLoop 10 ⟨0, .ok⟩ 0 0
  if result.status ≠ .ok then return (result, out.toInt64)
  if result.bytesConsumed * 7 < 64 ∧ byte &&& 0x40 ≠ 0 then
    emitItem (1 * 2 ^ (result.bytesConsumed * 7) : ℤ)
    emitItem (-(1 * 2 ^ (result.bytesConsumed * 7)) : ℤ)
    return (result, (out ||| -((1 : UInt64) <<< UInt64.ofNat (result.bytesConsumed * 7))).toInt64)
  return (result, out.toInt64)

/-- The case `DW_LNS_advance_line` of `decode_line_num_prog`. -/
def advanceLine (stateMachine : LineNumStateMachine) :
    SignedParse LineNumStateMachine := do
  let (_, lineIncrement) ← readSleb128Signed
  emitItem (stateMachine.line.toNat + lineIncrement.toInt)
  let line := (stateMachine.line.toUInt64.toInt64 + lineIncrement).toUInt64.toUInt32
  return { stateMachine with line }

/-! ### Without the log -/

section
theorem erases_slebLoop : ∀ (left : ℕ) (result : ReadResult) (out : UInt64) (byte : UInt8),
    Erases (slebLoop left result out byte) (lebLoop .lebI64Overflow left result out byte)
  | 0, _, _, _ => .pure _
  | left + 1, _, _, _ => (Erases.unlogged _).bind fun _ =>
    .ite (.pure _) (.emit_bind (.ite (erases_slebLoop left _ _ _) (.pure _)))

/-- **The logged reader** is `read_sleb128`. -/
theorem erases_readSleb128 : Erases readSleb128Signed readSleb128 :=
  (erases_slebLoop 10 _ _ _).bind fun _ =>
    .ite (.pure _) (.ite (.emit_bind (.emit_bind (.pure _))) (.pure _))

/-- **The logged case** is the one of `decode_line_num_prog`. -/
theorem decodeStandard_advanceLine (header : LineNumProgHeader) (stateMachine : LineNumStateMachine)
    (table : LineInfoTable) :
    Erases (advanceLine stateMachine >>= fun s => pure (s, table))
      (decodeStandard header Lns.advanceLine stateMachine table) := by
  have hcase : Erases (advanceLine stateMachine) (readSleb128 >>= fun x => pure
      { stateMachine with
        line := (stateMachine.line.toUInt64.toInt64 + x.2).toUInt64.toUInt32 }) :=
    (erases_readSleb128).bind fun _ => .emit_bind (.pure _)
  have h := hcase.bind (g := fun s => pure (s, table)) fun _ => .pure _
  rw [bind_assoc] at h
  rw [decodeStandard, if_neg (by decide), if_neg (by decide), if_pos rfl]
  exact h

end

/-! ### The log on arbitrary bytes -/

/-- The groups of `bs`, shifted behind `c` groups. -/
def shiftedGroups : ℕ → List UInt8 → List ℤ
  | _, [] => []
  | c, b :: bs => ((b.toNat % 128 : ℕ) * 2 ^ (c * 7) : ℤ) :: shiftedGroups (c + 1) bs

theorem mem_shiftedGroups {z : ℤ} : ∀ {c : ℕ} {bs : List UInt8}, z ∈ shiftedGroups c bs ↔
    ∃ i b, bs[i]? = some b ∧ z = (b.toNat % 128 : ℕ) * 2 ^ ((c + i) * 7)
  | _, [] => by simp [shiftedGroups]
  | c, a :: bs => by
    rw [shiftedGroups, List.mem_cons, mem_shiftedGroups]
    constructor
    · rintro (h | ⟨i, b, hb, h⟩)
      · exact ⟨0, a, rfl, h⟩
      · refine ⟨i + 1, b, hb, ?_⟩
        rw [h, Nat.add_assoc, Nat.add_comm 1 i]
    · rintro ⟨_ | i, b, hb, h⟩
      · obtain rfl : a = b := by simpa using hb
        exact .inl h
      · refine .inr ⟨i, b, hb, ?_⟩
        rw [h, Nat.add_assoc, Nat.add_comm 1 i]

/-- What extends the sign of the number at the start of `bs`: the bit behind it and the bits from there
on, if the number ends, has a sign and leaves room. -/
def signExtension (bs : List UInt8) : List ℤ :=
  if lebStatus .lebI64Overflow 10 bs = .ok ∧ lebSpan 10 bs * 7 < 64 ∧
      64 ≤ ((bs.take (lebSpan 10 bs)).getLastD 0).toNat % 128 then
    [1 * 2 ^ (lebSpan 10 bs * 7), -(1 * 2 ^ (lebSpan 10 bs * 7))]
  else []

section
theorem log_slebLoop : ∀ (left c : ℕ) (out : UInt64) (byte : UInt8) (bs : List UInt8),
    (slebLoop left ⟨c, .ok⟩ out byte (ofBytes bs)).log =
      shiftedGroups c (bs.take (lebSpan left bs))
  | 0, _, _, _, _ => rfl
  | left + 1, c, out, byte, [] => by
    have hread := readInt_short (w := 1) (by simpa using byte.toNat_lt)
      (show ([] : List UInt8).length < 1 by simp)
    rw [slebLoop, log_unlogged_bind hread]
    rfl
  | left + 1, c, out, byte, b :: bs => by
    have hread := reads_readInt_byte byte.toNat b bs
    rw [List.singleton_append] at hread
    rw [slebLoop, log_unlogged_bind hread]
    dsimp only
    rw [if_neg (by simp), log_emitItem_bind, UInt8.ofNat_toNat, byte_and_7f,
      lebSpan]
    by_cases hb : b.toNat < 128
    · rw [if_neg (by rw [byte_and_80]; simpa using hb), if_pos hb]
      rfl
    · rw [if_pos (by rw [byte_and_80]; exact hb), log_slebLoop left, if_neg hb]
      rfl

/-- The log of `read_sleb128`: the groups, and behind a number that ends what extends its sign. -/
theorem log_readSleb128 (bs : List UInt8) :
    (readSleb128Signed (ofBytes bs)).log =
      shiftedGroups 0 (bs.take (lebSpan 10 bs)) ++ signExtension bs := by
  have hl := lebLoop_ofBytes .lebI64Overflow 10 0 0 0 bs (by simp) (by simp)
  have h40 := byte_and_40 ((bs.take (lebSpan 10 bs)).getLastD 0)
  have hloop := (erases_slebLoop 10 ⟨0, .ok⟩ 0 0 (ofBytes bs)).trans hl
  rw [readSleb128Signed, log_bind_state hloop, log_slebLoop]
  dsimp only
  rw [Nat.zero_add]
  congr 1
  unfold signExtension
  by_cases hok : lebStatus .lebI64Overflow 10 bs = .ok
  · rw [if_neg (not_not.mpr hok)]
    by_cases hsign : lebSpan 10 bs * 7 < 64 ∧
        64 ≤ ((bs.take (lebSpan 10 bs)).getLastD 0).toNat % 128
    · rw [if_pos ⟨hsign.1, h40.mpr hsign.2⟩, if_pos ⟨hok, hsign⟩]
      rfl
    · rw [if_neg fun h => hsign ⟨h.1, h40.mp h.2⟩, if_neg fun h => hsign h.2]
      rfl
  · rw [if_pos hok, if_neg fun h => hok h.1]
    rfl

/-- The log of the case is that of its read, and the sum. -/
theorem log_advanceLine (stateMachine : LineNumStateMachine) {bs : List UInt8}
    {result : ReadResult} {lineIncrement : Int64} {reader : BinaryReader}
    (h : readSleb128 (ofBytes bs) = .ok ((result, lineIncrement), reader)) :
    (advanceLine stateMachine (ofBytes bs)).log =
      (readSleb128Signed (ofBytes bs)).log ++
        [(stateMachine.line.toNat : ℤ) + lineIncrement.toInt] := by
  rw [advanceLine, log_bind_state ((erases_readSleb128 _).trans h)]
  rfl

end

/-! ### What is representable -/

/-- An `int64_t` has the value. -/
def Representable (z : ℤ) : Prop := -2 ^ 63 ≤ z ∧ z < 2 ^ 63

/-- The signed operations on the operand `bs` of `DW_LNS_advance_line`, those of `read_sleb128` and
the sum with the line, have representable values. -/
structure SignedArithmeticDefined (bs : List UInt8) (line : UInt32) : Prop where
  shifts : ∀ z ∈ (readSleb128Signed (ofBytes bs)).log, Representable z
  sum : ∀ stateMachine : LineNumStateMachine, stateMachine.line = line →
    ∀ z ∈ (advanceLine stateMachine (ofBytes bs)).log, Representable z

/-- The operand neither shifts a bit into the sign nor is too large for the line. -/
structure OperandFits (bs : List UInt8) (line : UInt32) : Prop where
  ninth : ∀ b, ContinuesTo 8 bs b → b.toNat < 64 ∨ 128 ≤ b.toNat
  tenth : ∀ b, ContinuesTo 9 bs b → b.toNat % 128 = 0
  sum : 9 ≤ bs.length → (∀ c ∈ bs.take 9, 128 ≤ c.toNat) →
    ulebVal (bs.take 9) + line.toNat < 2 ^ 63

section
variable {bs : List UInt8}

theorem representable_group {d i : ℕ} (hd : d < 128) (hi : i ≤ 8) :
    Representable (d * 2 ^ (i * 7) : ℤ) := by
  have hpow : 2 ^ (i * 7) ≤ 2 ^ 56 := Nat.pow_le_pow_right (by decide) (by omega)
  have hmul : d * 2 ^ (i * 7) ≤ 127 * 2 ^ 56 := Nat.mul_le_mul (by omega) hpow
  have hcast : (d * 2 ^ (i * 7) : ℤ) = (d * 2 ^ (i * 7) : ℕ) := by push_cast; rfl
  rw [Representable, hcast]
  omega

theorem representable_signBit {c : ℕ} (hc : c ≤ 8) :
    Representable (1 * 2 ^ (c * 7)) ∧ Representable (-(1 * 2 ^ (c * 7))) := by
  obtain ⟨hlow, hhigh⟩ := representable_group (d := 1) (by decide) hc
  rw [Nat.cast_one] at hlow hhigh
  have hpos : (0 : ℤ) < 2 ^ (c * 7) := pow_pos (by decide) _
  rw [Representable, Representable]
  omega

/-- The groups are representable exactly if a tenth one is zero. -/
theorem representable_groups_iff :
    (∀ z ∈ shiftedGroups 0 (bs.take (lebSpan 10 bs)), Representable z) ↔
      ∀ b, ContinuesTo 9 bs b → b.toNat % 128 = 0 := by
  constructor
  · intro h b hb
    obtain ⟨hlt, -⟩ := List.getElem?_eq_some_iff.mp hb.2
    have hspan := lt_lebSpan hb.1 hlt (show 9 < 10 by decide)
    have htake : (bs.take (lebSpan 10 bs))[9]? = some b := by
      rw [List.getElem?_take_of_lt hspan]
      exact hb.2
    have hgroup := (h _ (mem_shiftedGroups.mpr ⟨9, b, htake, rfl⟩)).2
    omega
  · intro htenth z hz
    obtain ⟨i, b, hb, rfl⟩ := mem_shiftedGroups.mp hz
    have hi : i < lebSpan 10 bs := by
      by_contra hle
      rw [List.getElem?_take_eq_none (by omega)] at hb
      cases hb
    rw [List.getElem?_take_of_lt hi] at hb
    have hcount := lebSpan_le_count 10 bs
    rw [Nat.zero_add]
    by_cases hi8 : i ≤ 8
    · exact representable_group (Nat.mod_lt _ (by decide)) hi8
    · obtain rfl : i = 9 := by omega
      have hnine : ∀ c ∈ bs.take 9, 128 ≤ c.toNat := by
        rcases lebStatus_cases .lebI64Overflow 10 bs with ⟨-, -, -, hall⟩ | ⟨-, hs, hlt, -⟩ |
          ⟨k, hk, b', -, hs, hb', -⟩
        · exact fun c hc => hall c (List.take_subset_take_left bs (show 9 ≤ 10 by decide) hc)
        · omega
        · obtain rfl : k = 9 := by omega
          exact hb'.1
      rw [htenth b ⟨hnine, hb⟩, Nat.cast_zero, zero_mul, Representable]
      omega

/-- What extends the sign is representable exactly if a ninth group that ends the number has none. -/
theorem representable_signExtension_iff :
    (∀ z ∈ signExtension bs, Representable z) ↔
      ∀ b, ContinuesTo 8 bs b → b.toNat < 64 ∨ 128 ≤ b.toNat := by
  unfold signExtension
  constructor
  · intro h b hb
    by_contra hcon
    obtain ⟨hspan, hok⟩ := lebSpan_of_continuesTo hb (by omega) (show 8 < 10 by decide)
    rw [hspan, getLastD_take_succ hb.2, if_pos ⟨hok _, by decide, by omega⟩] at h
    have hone := (h (1 * 2 ^ (9 * 7)) List.mem_cons_self).2
    omega
  · intro hninth z hz
    split_ifs at hz with hsign
    · obtain ⟨hok, hlt, h64⟩ := hsign
      rcases lebStatus_cases .lebI64Overflow 10 bs with ⟨hs, -⟩ | ⟨hs, -⟩ |
        ⟨k, hk, b, -, hs, hb, hb128⟩
      · rw [hs] at hok
        cases hok
      · rw [hs] at hok
        cases hok
      · rw [hs, getLastD_take_succ hb.2] at h64
        have hk8 : k ≠ 8 := by
          rintro rfl
          have := hninth b hb
          omega
        obtain ⟨hone, hneg⟩ := representable_signBit (show k + 1 ≤ 8 by omega)
        rw [hs] at hz
        rcases List.mem_pair.mp hz with rfl | rfl
        · exact hone
        · exact hneg
    · cases hz

/-- **The shifts of `read_sleb128`** are representable exactly if no bit is shifted into the sign. -/
theorem representable_shifts_iff :
    (∀ z ∈ (readSleb128Signed (ofBytes bs)).log, Representable z) ↔
      (∀ b, ContinuesTo 8 bs b → b.toNat < 64 ∨ 128 ≤ b.toNat) ∧
        ∀ b, ContinuesTo 9 bs b → b.toNat % 128 = 0 := by
  rw [log_readSleb128, List.forall_mem_append, representable_groups_iff,
    representable_signExtension_iff, and_comm]

/-! ### The sum -/

/-- The value that `read_sleb128` leaves in `out`, modulo `2^64`. -/
def operandValue (bs : List UInt8) : ℤ :=
  if lebStatus .lebI64Overflow 10 bs = .ok then slebVal (bs.take (lebSpan 10 bs))
  else ulebVal (bs.take (lebSpan 10 bs))

/-- Behind nine bytes that continue, and no bit in a tenth byte, it is their value. -/
theorem operandValue_of_nine (h9 : 9 ≤ bs.length) (hnine : ∀ c ∈ bs.take 9, 128 ≤ c.toNat)
    (htenth : ∀ b, ContinuesTo 9 bs b → b.toNat % 128 = 0) :
    operandValue bs = ulebVal (bs.take 9) := by
  by_cases hlen : bs.length = 9
  · have hspan : lebSpan 10 bs = 9 ∧ lebStatus .lebI64Overflow 10 bs = .outOfBounds := by
      rcases lebStatus_cases .lebI64Overflow 10 bs with ⟨-, -, hle, -⟩ | ⟨hs, hspan, -, -⟩ |
        ⟨k, hk, b, -, -, hb, hb128⟩
      · omega
      · exact ⟨by omega, hs⟩
      · obtain ⟨hlt, heq⟩ := List.getElem?_eq_some_iff.mp hb.2
        have hmem : b ∈ bs.take 9 := by
          rw [← heq, List.take_of_length_le hlen.le]
          exact List.getElem_mem hlt
        have := hnine b hmem
        omega
    rw [operandValue, hspan.1, hspan.2, if_neg (by decide)]
  · have h10 : 9 < bs.length := by omega
    have hb := List.getElem?_eq_getElem h10
    have hzero := htenth _ ⟨hnine, hb⟩
    have hspan : lebSpan 10 bs = 10 := by
      have := lt_lebSpan hnine h10 (show 9 < 10 by decide)
      have := lebSpan_le_count 10 bs
      omega
    rw [operandValue, hspan, slebVal_take_succ hb, ulebVal_take_succ hb, hzero]
    simp

/-- A number of fewer bytes is small. -/
theorem operandValue_small (h : ¬ (9 ≤ bs.length ∧ ∀ c ∈ bs.take 9, 128 ≤ c.toNat)) :
    -2 ^ 62 ≤ operandValue bs ∧ operandValue bs < 2 ^ 62 := by
  rcases lebStatus_cases .lebI64Overflow 10 bs with ⟨-, -, hle, hall⟩ | ⟨hs, hspan, -, hall⟩ |
    ⟨k, hk, b, hs, hspan, hb, -⟩
  · refine absurd ⟨by omega, fun c hc => hall c ?_⟩ h
    exact List.take_subset_take_left bs (show 9 ≤ 10 by decide) hc
  · have hlen : bs.length ≤ 8 := by
      by_contra hlt
      exact h ⟨by omega, fun c hc => hall c (List.mem_of_mem_take hc)⟩
    have hval := ulebVal_take_lt bs.length bs
    have hpow : 128 ^ bs.length ≤ 128 ^ 8 := Nat.pow_le_pow_right (by decide) hlen
    rw [operandValue, hs, hspan, if_neg (by decide)]
    omega
  · have hk8 : k ≤ 8 := by
      by_contra hlt
      obtain rfl : k = 9 := by omega
      obtain ⟨hlen, -⟩ := List.getElem?_eq_some_iff.mp hb.2
      exact h ⟨hlen.le, hb.1⟩
    rw [operandValue, hs, hspan, if_pos rfl]
    exact Leb.slebVal_take_bounds_nine (by omega) bs

/-- The sum with the line is representable exactly if the operand leaves room for the line. -/
theorem representable_sum_iff {line : UInt32}
    (htenth : ∀ b, ContinuesTo 9 bs b → b.toNat % 128 = 0) :
    Representable (line.toNat + (Int64.ofInt (operandValue bs)).toInt) ↔
      (9 ≤ bs.length → (∀ c ∈ bs.take 9, 128 ≤ c.toNat) →
        ulebVal (bs.take 9) + line.toNat < 2 ^ 63) := by
  have hline := line.toNat_lt
  by_cases h : 9 ≤ bs.length ∧ ∀ c ∈ bs.take 9, 128 ≤ c.toNat
  · have hlt := ulebVal_take_lt 9 bs
    rw [operandValue_of_nine h.1 h.2 htenth, Int64.toInt_ofInt_of_le (by omega) (by omega),
      Representable]
    constructor
    · intro hsum _ _
      omega
    · intro hsum
      have := hsum h.1 h.2
      omega
  · obtain ⟨hlow, hhigh⟩ := operandValue_small h
    rw [Int64.toInt_ofInt_of_le (by omega) (by omega), Representable]
    refine iff_of_true (by omega) fun h9 hnine => absurd ⟨h9, hnine⟩ h

/-- **Signed arithmetic** on the operand of `DW_LNS_advance_line` is defined exactly if the operand
fits. -/
theorem signedArithmeticDefined_iff (bs : List UInt8) (line : UInt32) :
    SignedArithmeticDefined bs line ↔ OperandFits bs line := by
  have hread := readSleb128_ofBytes bs
  constructor
  · rintro ⟨hshifts, hsum⟩
    obtain ⟨hninth, htenth⟩ := representable_shifts_iff.mp hshifts
    refine ⟨hninth, htenth, (representable_sum_iff htenth).mp ?_⟩
    refine hsum { resetLineNumStateMachine false with line := line } rfl _ ?_
    rw [log_advanceLine _ hread]
    exact List.mem_append_right _ List.mem_cons_self
  · rintro ⟨hninth, htenth, hsum⟩
    have hshifts : ∀ z ∈ (readSleb128Signed (ofBytes bs)).log, Representable z :=
      representable_shifts_iff.mpr ⟨hninth, htenth⟩
    refine ⟨hshifts, fun stateMachine hline z hz => ?_⟩
    rw [log_advanceLine _ hread] at hz
    rcases List.mem_append.mp hz with hz | hz
    · exact hshifts z hz
    · rw [List.mem_singleton.mp hz, hline]
      exact (representable_sum_iff htenth).mpr hsum

/-- `-2^62` on nine bytes: the sign extension shifts 1 by 63. -/
theorem not_signedArithmeticDefined_nine :
    ¬ SignedArithmeticDefined [0x80, 0x80, 0x80, 0x80, 0x80, 0x80, 0x80, 0x80, 0x40] 1 := by
  intro h
  obtain ⟨hninth, -⟩ := representable_shifts_iff.mp h.shifts
  have := hninth 0x40 (by decide)
  simp at this

end

end Dabugger.Dwarf.SignedArithmetic
