import Dabugger.Base
import Dabugger.Lib.Bytes
import Dabugger.Lib.Exact

/-! # `reader.c`

The functions of `reader.c`, and what each does to a reader at the start of a buffer. A read that
finds its encoding takes exactly it (`Reads`); on arbitrary bytes `readBytes_ok`, `readBytes_short`
and `lebLoop_ofBytes` say what is taken and returned. On any reader, no function moves it back
(`Ends`). -/

namespace Dabugger.Reader

open Dabugger.Lib.Bytes Dabugger.Lib.Exact Dabugger.Base Dabugger.Base.BinaryReader

/-- `advance_reader`. -/
def advanceReader (bytes : ℕ) : Parse ReadResult := fun reader =>
  if bytes > reader.remaining then .ok (⟨0, .outOfBounds⟩, reader)
  else .ok (⟨bytes, .ok⟩, ⟨reader.cursor.drop bytes, reader.remaining - bytes⟩)

/-- `read_bytes`: `out` holds the bytes of the destination before and after. -/
def readBytes (out : List UInt8) (bytes : ℕ) : Parse (ReadResult × List UInt8) := do
  let currentCursor := (← get).cursor
  let result ← advanceReader bytes
  if result.status ≠ .ok then return (result, out)
  let out ← memcpy out (currentCursor.take bytes)
  return (result, out)

/-- `peek_bytes`; it reports no bytes as consumed. -/
def peekBytes (out : List UInt8) (bytes : ℕ) : Parse (ReadResult × List UInt8) := do
  let reader ← get
  if bytes > reader.remaining then return (⟨0, .outOfBounds⟩, out)
  let out ← memcpy out (reader.cursor.take bytes)
  return (⟨0, .ok⟩, out)

/-- `read_bytes` to an integer variable of `w` bytes that holds `old`. -/
def readInt (w old bytes : ℕ) : Parse (ReadResult × ℕ) := do
  let (result, out) ← readBytes (toLe w old) bytes
  return (result, ofLe out)

/-- The loop of `read_uleb128` and of `read_sleb128`, which differ in the status for an eleventh
byte; `left` is `10 - bytes_consumed`. Also returns the last `byte`. -/
def lebLoop (overflow : ReadStatus) :
    ℕ → ReadResult → UInt64 → UInt8 → Parse (ReadResult × UInt64 × UInt8)
  | 0, result, out, byte => return ({ result with status := overflow }, out, byte)
  | left + 1, result, out, byte => do
    let (byteReadResult, b) ← readInt 1 byte.toNat 1
    let byte := UInt8.ofNat b
    if byteReadResult.status ≠ .ok then
      return ({ result with status := byteReadResult.status }, out, byte)
    let out := out ||| ((byte &&& 0x7f).toUInt64 <<< UInt64.ofNat (result.bytesConsumed * 7))
    let result := { result with bytesConsumed := result.bytesConsumed + 1 }
    if byte &&& 0x80 ≠ 0 then lebLoop overflow left result out byte
    else return (result, out, byte)

/-- `read_uleb128`. -/
def readUleb128 : Parse (ReadResult × UInt64) := do
  let (result, out, _) ← lebLoop .lebU64Overflow 10 ⟨0, .ok⟩ 0 0
  return (result, out)

/-- `read_sleb128`; shifts and the negation are taken modulo `2^64`. -/
def readSleb128 : Parse (ReadResult × Int64) := do
  let (result, out, byte) ← lebLoop .lebI64Overflow 10 ⟨0, .ok⟩ 0 0
  if result.status ≠ .ok then return (result, out.toInt64)
  if result.bytesConsumed * 7 < 64 ∧ byte &&& 0x40 ≠ 0 then
    return (result, (out ||| -((1 : UInt64) <<< UInt64.ofNat (result.bytesConsumed * 7))).toInt64)
  return (result, out.toInt64)

/-- `read_cstring`; `out` is left as it is when the string is not terminated. -/
def readCstring (out : CStr) : Parse (ReadResult × CStr) := fun reader =>
  let string := reader.cursor.take reader.remaining
  if 0 ∈ string then
    let s := string.takeWhile (· ≠ 0)
    let bytes := s.length + 1
    .ok ((⟨bytes, .ok⟩, .heap s), ⟨reader.cursor.drop bytes, reader.remaining - bytes⟩)
  else .ok ((⟨0, .outOfBounds⟩, out), reader)

/-! ### Reads that find what they look for -/

theorem advanceReader_ofBytes {n : ℕ} {bs : List UInt8} (h : n ≤ bs.length) :
    advanceReader n (ofBytes bs) = .ok (⟨n, .ok⟩, ofBytes (bs.drop n)) := by
  simp [advanceReader, ofBytes, Nat.not_lt.mpr h]

theorem advanceReader_short {n : ℕ} {bs : List UInt8} (h : bs.length < n) :
    advanceReader n (ofBytes bs) = .ok (⟨0, .outOfBounds⟩, ofBytes bs) := by
  simp [advanceReader, h]

theorem readBytes_ok (out : List UInt8) {bs : List UInt8} {n : ℕ} (h : n ≤ bs.length) :
    readBytes out n (ofBytes bs) =
      (memcpy out (bs.take n)).map fun out' => ((⟨n, .ok⟩, out'), ofBytes (bs.drop n)) := by
  rw [readBytes, get_bind]
  dsimp only [cursor_ofBytes]
  rw [bind_of_ok (advanceReader_ofBytes h), if_neg (by simp)]
  cases memcpy out (bs.take n) with
  | error e => exact lift_bind_error _
  | ok out' => exact lift_bind_ok _

theorem readBytes_short {out bs : List UInt8} {n : ℕ} (h : bs.length < n) :
    readBytes out n (ofBytes bs) = .ok ((⟨0, .outOfBounds⟩, out), ofBytes bs) := by
  rw [readBytes, get_bind, bind_of_ok (advanceReader_short h)]
  rfl

theorem peekBytes_ok (out : List UInt8) {bs : List UInt8} {n : ℕ} (h : n ≤ bs.length) :
    peekBytes out n (ofBytes bs) =
      (memcpy out (bs.take n)).map fun out' => ((⟨0, .ok⟩, out'), ofBytes bs) := by
  rw [peekBytes, get_bind, if_neg (show ¬ n > (ofBytes bs).remaining from Nat.not_lt.mpr h),
    cursor_ofBytes]
  cases memcpy out (bs.take n) with
  | error e => exact lift_bind_error _
  | ok out' => exact lift_bind_ok _

theorem peekBytes_short {out bs : List UInt8} {n : ℕ} (h : bs.length < n) :
    peekBytes out n (ofBytes bs) = .ok ((⟨0, .outOfBounds⟩, out), ofBytes bs) := by
  rw [peekBytes, get_bind, if_pos (show n > (ofBytes bs).remaining from h)]
  rfl

theorem reads_readBytes (out bs : List UInt8) (h : bs.length ≤ out.length) :
    Reads ofBytes (readBytes out bs.length) bs
      (⟨bs.length, .ok⟩, bs ++ out.drop bs.length) := by
  intro rest
  rw [readBytes_ok out (by simp), List.take_left, List.drop_left, memcpy_eq h]
  rfl

/-- **Reading an integer variable** on all its bytes: what it held is gone. -/
theorem reads_readInt {w v : ℕ} (old : ℕ) (hv : v < 256 ^ w) :
    Reads ofBytes (readInt w old w) (toLe w v) (⟨w, .ok⟩, v) := by
  have h := reads_readBytes (toLe w old) (toLe w v) (by simp)
  rw [length_toLe, List.drop_of_length_le (by simp), List.append_nil] at h
  refine h.bind_pure ?_
  show Reads ofBytes (pure (_, ofLe (toLe w v))) [] _
  rw [ofLe_toLe_of_lt hv]
  exact .pure _

/-- Reading one byte. -/
theorem reads_readInt_byte (old : ℕ) (b : UInt8) :
    Reads ofBytes (readInt 1 old 1) [b] (⟨1, .ok⟩, b.toNat) :=
  (reads_readInt old (by simpa using b.toNat_lt)).of_eq (by simp [toLe])

theorem readInt_short {w old n : ℕ} {bs : List UInt8} (ho : old < 256 ^ w) (h : bs.length < n) :
    readInt w old n (ofBytes bs) = .ok ((⟨0, .outOfBounds⟩, old), ofBytes bs) := by
  rw [readInt, bind_of_ok (readBytes_short h)]
  show Except.ok ((_, ofLe (toLe w old)), _) = _
  rw [ofLe_toLe_of_lt ho]

/-- **Reading `n` bytes into a wider variable** that holds zero. -/
theorem reads_readInt_zero {w n v : ℕ} (hn : n ≤ w) (hv : v < 256 ^ n) :
    Reads ofBytes (readInt w 0 n) (toLe n v) (⟨n, .ok⟩, v) := by
  have h := reads_readBytes (toLe w 0) (toLe n v) (by simpa using hn)
  rw [length_toLe] at h
  refine h.bind_pure ?_
  show Reads ofBytes (pure (_, ofLe (toLe n v ++ (toLe w 0).drop n))) [] _
  rw [toLe_zero, List.drop_replicate, ofLe_append, ofLe_replicate_zero, ofLe_toLe_of_lt hv,
    Nat.mul_zero, Nat.add_zero]
  exact .pure _

/-! ### LEB128 -/

/-- The status a LEB128 read ends with that may take `n` more bytes. -/
def lebStatus (overflow : ReadStatus) : ℕ → List UInt8 → ReadStatus
  | 0, _ => overflow
  | _ + 1, [] => .outOfBounds
  | n + 1, b :: bs => if b.toNat < 128 then .ok else lebStatus overflow n bs

theorem byte_and_7f (b : UInt8) : (b &&& 0x7f).toNat = b.toNat % 128 := by
  rw [UInt8.toNat_and]
  exact Nat.and_two_pow_sub_one_eq_mod b.toNat 7

theorem byte_and_80 (b : UInt8) : b &&& 0x80 ≠ 0 ↔ ¬ b.toNat < 128 := by
  have h : ∀ i : Fin 256, UInt8.ofNat i.val &&& 0x80 ≠ 0 ↔ ¬ i.val < 128 := by decide +kernel
  simpa using h ⟨b.toNat, b.toNat_lt⟩

theorem byte_and_40 (b : UInt8) : b &&& 0x40 ≠ 0 ↔ 64 ≤ b.toNat % 128 := by
  have h : ∀ i : Fin 256, UInt8.ofNat i.val &&& 0x40 ≠ 0 ↔ 64 ≤ i.val % 128 := by decide +kernel
  simpa using h ⟨b.toNat, b.toNat_lt⟩

/-- Or-ing a seven-bit group in above the `c` groups read so far is adding it, modulo `2^64`. -/
theorem or_group {a d c : ℕ} (ha : a < 128 ^ c) (hc : c ≤ 9) (hd : d < 128) :
    UInt64.ofNat a ||| (UInt64.ofNat d <<< UInt64.ofNat (c * 7)) =
      UInt64.ofNat (a + 128 ^ c * d) := by
  have e : (128 : ℕ) ^ c = 2 ^ (c * 7) := by rw [Nat.mul_comm, Nat.pow_mul]
  rw [e] at ha ⊢
  have hk : 2 ^ (c * 7) ≤ 2 ^ 63 := Nat.pow_le_pow_right (by decide) (by omega)
  have hsplit : 2 ^ 64 = 2 ^ (c * 7) * 2 ^ (64 - c * 7) := by
    rw [← Nat.pow_add]; congr 1; omega
  apply UInt64.toNat_inj.mp
  rw [UInt64.toNat_or, UInt64.toNat_shiftLeft, UInt64.toNat_ofNat', UInt64.toNat_ofNat',
    UInt64.toNat_ofNat', UInt64.toNat_ofNat', Nat.mod_eq_of_lt (a := a) (by omega),
    Nat.mod_eq_of_lt (a := d) (by omega), Nat.mod_eq_of_lt (a := c * 7) (by omega),
    Nat.mod_eq_of_lt (a := c * 7) (by omega), Nat.shiftLeft_eq, Nat.mul_comm d, hsplit,
    Nat.mul_mod_mul_left, Nat.or_comm, ← Nat.two_pow_add_eq_or_of_lt ha, ← hsplit]
  have hm : d % 2 ^ (64 - c * 7) < 2 ^ (64 - c * 7) := Nat.mod_lt _ (Nat.two_pow_pos _)
  have hlt : 2 ^ (c * 7) * (d % 2 ^ (64 - c * 7)) + a < 2 ^ 64 := by
    have h1 : 2 ^ (c * 7) * (d % 2 ^ (64 - c * 7) + 1) ≤ 2 ^ (c * 7) * 2 ^ (64 - c * 7) :=
      Nat.mul_le_mul_left _ hm
    rw [← hsplit, Nat.mul_add, Nat.mul_one] at h1
    omega
  have hmod : 2 ^ (c * 7) * d % 2 ^ 64 = 2 ^ (c * 7) * (d % 2 ^ (64 - c * 7)) := by
    rw [hsplit, Nat.mul_mod_mul_left]
  rw [Nat.add_mod, hmod, Nat.mod_eq_of_lt (a := a) (by omega), Nat.add_comm a,
    Nat.mod_eq_of_lt hlt]

theorem uint8_and_toUInt64 (b : UInt8) : (b &&& 0x7f).toUInt64 = UInt64.ofNat (b.toNat % 128) := by
  apply UInt64.toNat_inj.mp
  rw [UInt8.toNat_toUInt64, byte_and_7f, UInt64.toNat_ofNat']
  omega

/-- **The LEB128 loop on arbitrary bytes**, after `c` groups of value `a`: it takes `lebSpan` more
bytes, and the value of all groups taken is returned modulo `2^64`. -/
theorem lebLoop_ofBytes (overflow : ReadStatus) : ∀ (left c a : ℕ) (byte : UInt8) (bs : List UInt8),
    left + c = 10 → a < 128 ^ c →
      lebLoop overflow left ⟨c, .ok⟩ (UInt64.ofNat a) byte (ofBytes bs) =
        .ok ((⟨c + lebSpan left bs, lebStatus overflow left bs⟩,
          UInt64.ofNat (a + 128 ^ c * ulebVal (bs.take (lebSpan left bs))),
          (bs.take (lebSpan left bs)).getLastD byte), ofBytes (bs.drop (lebSpan left bs)))
  | 0, c, a, byte, bs, _, _ => by simp [lebLoop, lebSpan, lebStatus]; rfl
  | left + 1, c, a, byte, [], hc, ha => by
    rw [lebLoop, bind_of_ok (readInt_short (w := 1) (by simpa using byte.toNat_lt)
      (show ([] : List UInt8).length < 1 by simp))]
    simp [lebSpan, lebStatus]
    rfl
  | left + 1, c, a, byte, b :: bs, hc, ha => by
    have h := reads_readInt_byte byte.toNat b bs
    rw [List.singleton_append] at h
    rw [lebLoop, bind_of_ok h]
    dsimp only
    rw [if_neg (by simp)]
    have hg := or_group (d := b.toNat % 128) ha (by omega) (Nat.mod_lt _ (by decide))
    rw [UInt8.ofNat_toNat, uint8_and_toUInt64, hg]
    by_cases hlast : b.toNat < 128
    · rw [if_neg (by rw [byte_and_80]; simpa using hlast)]
      simp [lebSpan, lebStatus, hlast, ulebVal_cons]
      rfl
    · have hlt : a + 128 ^ c * (b.toNat % 128) < 128 ^ (c + 1) := by
        have h1 : 128 ^ c * (b.toNat % 128 + 1) ≤ 128 ^ c * 128 :=
          Nat.mul_le_mul_left _ (Nat.mod_lt _ (by decide))
        rw [Nat.mul_add, Nat.mul_one] at h1
        rw [pow_succ]
        omega
      rw [if_pos (by rw [byte_and_80]; exact hlast)]
      rw [lebLoop_ofBytes overflow left (c + 1) _ b bs (by omega) hlt]
      have hv : a + 128 ^ c * (b.toNat % 128) +
          128 ^ (c + 1) * ulebVal (bs.take (lebSpan left bs)) =
          a + 128 ^ c * ulebVal (b :: bs.take (lebSpan left bs)) := by
        rw [ulebVal_cons, pow_succ]; ring
      rw [hv]
      simp only [lebSpan, lebStatus, if_neg hlast, List.take_succ_cons, List.drop_succ_cons,
        List.getLastD_cons]
      rw [show c + 1 + lebSpan left bs = c + (lebSpan left bs + 1) by omega]

theorem readUleb128_ofBytes (bs : List UInt8) :
    readUleb128 (ofBytes bs) =
      .ok ((⟨lebSpan 10 bs, lebStatus .lebU64Overflow 10 bs⟩,
        UInt64.ofNat (ulebVal (bs.take (lebSpan 10 bs)))), ofBytes (bs.drop (lebSpan 10 bs))) := by
  have h := lebLoop_ofBytes .lebU64Overflow 10 0 0 0 bs (by simp) (by simp)
  rw [readUleb128, bind_of_ok (show lebLoop _ 10 ⟨0, .ok⟩ 0 0 (ofBytes bs) = _ from h)]
  simp
  rfl

theorem lebSpan_append : ∀ {bs : List UInt8} {n : ℕ} (rest : List UInt8), IsLeb bs →
    bs.length ≤ n → lebSpan n (bs ++ rest) = bs.length ∧
      ∀ overflow, lebStatus overflow n (bs ++ rest) = .ok
  | [], _, _, h, _ => h.elim
  | _ :: _, 0, _, _, hn => by simp at hn
  | b :: bs, n + 1, rest, h, hn => by
    rw [IsLeb] at h
    by_cases hb : b.toNat < 128
    · rw [if_pos hb] at h
      simp [lebSpan, lebStatus, hb, h]
    · rw [if_neg hb] at h
      have ih := lebSpan_append rest h (n := n) (by simpa using hn)
      simp [lebSpan, lebStatus, hb, ih]

/-- A number whose last byte is among the first `n` bytes is taken. -/
theorem lebSpan_of_continuesTo : ∀ {k n : ℕ} {bs : List UInt8} {b : UInt8}, ContinuesTo k bs b →
    b.toNat < 128 → k < n → lebSpan n bs = k + 1 ∧ ∀ overflow, lebStatus overflow n bs = .ok
  | _, _, [], _, h, _, _ => by simp [ContinuesTo] at h
  | 0, n + 1, c :: bs, b, h, hb, _ => by
    obtain rfl : c = b := by simpa [ContinuesTo] using h
    simp [lebSpan, lebStatus, hb]
  | k + 1, n + 1, c :: bs, b, h, hb, hk => by
    rw [continuesTo_cons] at h
    have hc : ¬ c.toNat < 128 := by omega
    have ih := lebSpan_of_continuesTo h.2 hb (n := n) (by omega)
    simp [lebSpan, lebStatus, hc, ih]

/-- **The ways a LEB128 read ends**: `n` bytes that continue, too few bytes that all continue, or a
byte that ends the number. -/
theorem lebStatus_cases (overflow : ReadStatus) : ∀ (n : ℕ) (bs : List UInt8),
    (lebStatus overflow n bs = overflow ∧ lebSpan n bs = n ∧ n ≤ bs.length ∧
      ∀ c ∈ bs.take n, 128 ≤ c.toNat) ∨
    (lebStatus overflow n bs = .outOfBounds ∧ lebSpan n bs = bs.length ∧ bs.length < n ∧
      ∀ c ∈ bs, 128 ≤ c.toNat) ∨
    ∃ k < n, ∃ b, lebStatus overflow n bs = .ok ∧ lebSpan n bs = k + 1 ∧ ContinuesTo k bs b ∧
      b.toNat < 128
  | 0, bs => .inl ⟨rfl, rfl, Nat.zero_le _, by simp⟩
  | n + 1, [] => .inr (.inl ⟨rfl, rfl, Nat.succ_pos n, by simp⟩)
  | n + 1, c :: bs => by
    by_cases hc : c.toNat < 128
    · refine .inr (.inr ⟨0, Nat.succ_pos n, c, ?_, ?_, ⟨by simp, rfl⟩, hc⟩)
      · rw [lebStatus, if_pos hc]
      · rw [lebSpan, if_pos hc]
    · rw [lebStatus, lebSpan, if_neg hc, if_neg hc, List.length_cons, List.take_succ_cons,
        List.forall_mem_cons, List.forall_mem_cons]
      rcases lebStatus_cases overflow n bs with ⟨h1, h2, h3, h4⟩ | ⟨h1, h2, h3, h4⟩ |
        ⟨k, hk, b, h1, h2, h3, h4⟩
      · exact .inl ⟨h1, by omega, by omega, by omega, h4⟩
      · exact .inr (.inl ⟨h1, by omega, by omega, by omega, h4⟩)
      · refine .inr (.inr ⟨k + 1, by omega, b, h1, by omega, ?_, h4⟩)
        exact continuesTo_cons.mpr ⟨by omega, h3⟩

/-- **An unsigned LEB128 number**, minimal or padded, is read exactly. -/
theorem reads_readUleb128 {v : ℕ} {bs : List UInt8} (h : IsUleb v bs) :
    Reads ofBytes readUleb128 bs (⟨bs.length, .ok⟩, UInt64.ofNat v) := by
  intro rest
  obtain ⟨h1, h2⟩ := lebSpan_append rest h.shape h.short
  rw [readUleb128_ofBytes, h1, h2, List.take_left, List.drop_left, h.val]

/-- Two's complement: the bits of `z` are those of any natural number equal to it modulo `2^64`. -/
theorem toInt64_ofNat {n : ℕ} {z : ℤ} (h : (n : ℤ) % 2 ^ 64 = z % 2 ^ 64) :
    (UInt64.ofNat n).toInt64 = Int64.ofInt z := by
  apply Int64.toBitVec.inj
  apply BitVec.eq_of_toNat_eq
  rw [Int64.toBitVec_ofInt, BitVec.toNat_ofInt]
  show (UInt64.ofNat n).toNat = _
  rw [UInt64.toNat_ofNat']
  have : (((n % 2 ^ 64 : ℕ) : ℤ)) = z % 2 ^ 64 := by rw [← h]; simp
  push_cast at this ⊢
  omega

/-- The sign extension of `read_sleb128` above `c` groups of value `a`. -/
theorem sign_extend {a c : ℕ} (ha : a < 128 ^ c) (hc : c ≤ 9) :
    UInt64.ofNat a ||| -((1 : UInt64) <<< UInt64.ofNat (c * 7)) =
      UInt64.ofNat (a + (2 ^ 64 - 128 ^ c)) := by
  have e : (128 : ℕ) ^ c = 2 ^ (c * 7) := by rw [Nat.mul_comm, Nat.pow_mul]
  rw [e] at ha ⊢
  have hk : 2 ^ (c * 7) ≤ 2 ^ 63 := Nat.pow_le_pow_right (by decide) (by omega)
  have hpos : 0 < 2 ^ (c * 7) := Nat.two_pow_pos _
  have hsplit : 2 ^ 64 = 2 ^ (c * 7) * 2 ^ (64 - c * 7) := by
    rw [← Nat.pow_add]; congr 1; omega
  have hneg : (-((1 : UInt64) <<< UInt64.ofNat (c * 7))).toNat =
      2 ^ (c * 7) * (2 ^ (64 - c * 7) - 1) := by
    rw [UInt64.toNat_neg, UInt64.toNat_shiftLeft, UInt64.toNat_ofNat',
      Nat.mod_eq_of_lt (a := c * 7) (by omega), Nat.mod_eq_of_lt (a := c * 7) (by omega),
      Nat.shiftLeft_eq, Nat.mul_sub, Nat.mul_one, ← hsplit, show (1 : UInt64).toNat = 1 from rfl,
      Nat.one_mul, Nat.mod_eq_of_lt (a := 2 ^ (c * 7)) (by omega),
      Nat.mod_eq_of_lt (by simp [UInt64.size])]
    rfl
  apply UInt64.toNat_inj.mp
  rw [UInt64.toNat_or, hneg, UInt64.toNat_ofNat', UInt64.toNat_ofNat',
    Nat.mod_eq_of_lt (a := a) (by omega), Nat.or_comm, ← Nat.two_pow_add_eq_or_of_lt ha,
    Nat.mul_sub, Nat.mul_one, ← hsplit, Nat.mod_eq_of_lt (by omega), Nat.add_comm]

/-- **The signed reader on arbitrary bytes**: the sign is extended only if the number ends. -/
theorem readSleb128_ofBytes (bs : List UInt8) :
    readSleb128 (ofBytes bs) =
      .ok ((⟨lebSpan 10 bs, lebStatus .lebI64Overflow 10 bs⟩,
        Int64.ofInt (if lebStatus .lebI64Overflow 10 bs = .ok then slebVal (bs.take (lebSpan 10 bs))
          else ulebVal (bs.take (lebSpan 10 bs)))), ofBytes (bs.drop (lebSpan 10 bs))) := by
  have hl := lebLoop_ofBytes .lebI64Overflow 10 0 0 0 bs (by simp) (by simp)
  rw [readSleb128, bind_of_ok (show lebLoop _ 10 ⟨0, .ok⟩ 0 0 (ofBytes bs) = _ from hl)]
  have hlen : (bs.take (lebSpan 10 bs)).length = lebSpan 10 bs := by
    rw [List.length_take, Nat.min_eq_left (lebSpan_le 10 bs)]
  have hu := ulebVal_lt (bs.take (lebSpan 10 bs))
  rw [hlen] at hu
  have h10 := lebSpan_le_count 10 bs
  dsimp only
  rw [Nat.zero_add, Nat.zero_add, pow_zero, Nat.one_mul]
  by_cases hok : lebStatus .lebI64Overflow 10 bs = .ok
  · rw [if_neg (not_not.mpr hok), if_pos hok]
    have h40 := byte_and_40 ((bs.take (lebSpan 10 bs)).getLastD 0)
    by_cases hsign : 64 ≤ ((bs.take (lebSpan 10 bs)).getLastD 0).toNat % 128
    · have hv : slebVal (bs.take (lebSpan 10 bs)) =
          ulebVal (bs.take (lebSpan 10 bs)) - 128 ^ lebSpan 10 bs := by
        rw [slebVal, signBit, decide_eq_true hsign, if_pos rfl, hlen]
      by_cases hc : lebSpan 10 bs * 7 < 64
      · have hle : (128 : ℕ) ^ lebSpan 10 bs ≤ 2 ^ 63 := by
          rw [show (128 : ℕ) ^ lebSpan 10 bs = 2 ^ (lebSpan 10 bs * 7) by
            rw [Nat.mul_comm, Nat.pow_mul]]
          exact Nat.pow_le_pow_right (by decide) (by omega)
        rw [if_pos ⟨hc, h40.mpr hsign⟩, sign_extend hu (by omega), toInt64_ofNat]
        · rfl
        · have hcast : ((2 ^ 64 - 128 ^ lebSpan 10 bs : ℕ) : ℤ) = 2 ^ 64 - 128 ^ lebSpan 10 bs := by
            rw [Nat.cast_sub (by omega)]
            push_cast
            rfl
          rw [hv, Nat.cast_add, hcast]
          omega
      · rw [if_neg (by tauto), toInt64_ofNat]
        · rfl
        · rw [hv, show lebSpan 10 bs = 10 by omega]
          omega
    · have hv : slebVal (bs.take (lebSpan 10 bs)) = ulebVal (bs.take (lebSpan 10 bs)) := by
        rw [slebVal, signBit, decide_eq_false hsign, if_neg (by simp), sub_zero]
      rw [if_neg (by tauto), toInt64_ofNat rfl, hv]
      rfl
  · rw [if_pos hok, if_neg hok, toInt64_ofNat rfl]
    rfl

/-- **A signed LEB128 number**, minimal or padded, is read exactly. -/
theorem reads_readSleb128 {v : ℤ} {bs : List UInt8} (h : IsSleb v bs) :
    Reads ofBytes readSleb128 bs (⟨bs.length, .ok⟩, Int64.ofInt v) := by
  intro rest
  obtain ⟨h1, h2⟩ := lebSpan_append rest h.shape h.short
  rw [readSleb128_ofBytes, h1, h2, if_pos rfl, List.take_left, List.drop_left, h.val]

/-- **A terminated string** is read exactly, and copied without its terminator. -/
theorem reads_readCstring {s : List UInt8} (out : CStr) (h : 0 ∉ s) :
    Reads ofBytes (readCstring out) (s ++ [0]) (⟨s.length + 1, .ok⟩, .heap s) := by
  intro rest
  have htake : (s ++ [0] ++ rest).takeWhile (· ≠ 0) = s := by
    rw [List.append_assoc, List.takeWhile_append_of_pos]
    · simp
    · intro b hb
      have hne : b ≠ 0 := fun h0 => h (h0 ▸ hb)
      simpa using hne
  unfold readCstring
  simp only [cursor_ofBytes, remaining_ofBytes, List.take_length]
  rw [if_pos (by simp), htake]
  simp only [Except.ok.injEq, Prod.mk.injEq, true_and]
  have hl : (s ++ [0]).length = s.length + 1 := by simp
  rw [← hl, List.drop_left]
  simp only [ofBytes, List.length_append, BinaryReader.mk.injEq, true_and]
  omega

/-! ### Readers do not look ahead -/

theorem ofBytes_injective : Function.Injective ofBytes := fun _ _ h =>
  congrArg BinaryReader.cursor h

theorem local_readBytes (out : List UInt8) (n : ℕ) : Local ofBytes (readBytes out n) := by
  intro bs s s' x t hs h
  by_cases hlong : bs.length + s.length < n
  · rw [readBytes_short (by rwa [List.length_append])] at h
    cases h
    refine .inl ⟨bs, Nat.le_refl _, rfl, readBytes_short ?_⟩
    rw [List.length_append]
    omega
  · rw [readBytes_ok out (by rw [List.length_append]; omega)] at h
    cases hcopy : memcpy out ((bs ++ s).take n) with
    | error e =>
      rw [hcopy] at h
      cases h
    | ok out' =>
      rw [hcopy] at h
      cases h
      by_cases hn : n ≤ bs.length
      · refine .inl ⟨bs.drop n, by rw [List.length_drop]; omega, ?_, ?_⟩
        · rw [List.drop_append_of_le_length hn]
        · rw [List.take_append_of_le_length hn] at hcopy
          rw [readBytes_ok out (by rw [List.length_append]; omega),
            List.take_append_of_le_length hn, hcopy, List.drop_append_of_le_length hn]
          rfl
      · refine .inr ⟨_, ?_, rfl⟩
        rw [List.length_drop, List.length_append]
        omega

theorem local_readInt (w old n : ℕ) : Local ofBytes (readInt w old n) :=
  (local_readBytes _ n).bind fun _ => .pure _

theorem local_lebLoop (overflow : ReadStatus) : ∀ (left : ℕ) (result : ReadResult) (out : UInt64)
    (byte : UInt8), Local ofBytes (lebLoop overflow left result out byte)
  | 0, _, _, _ => .pure _
  | left + 1, _, _, _ => (local_readInt 1 _ 1).bind fun _ =>
    .ite (.pure _) (.ite (local_lebLoop overflow left _ _ _) (.pure _))

theorem local_readUleb128 : Local ofBytes readUleb128 :=
  (local_lebLoop _ 10 _ _ _).bind fun _ => .pure _

theorem local_readSleb128 : Local ofBytes readSleb128 :=
  (local_lebLoop _ 10 _ _ _).bind fun _ => .ite (.pure _) (.ite (.pure _) (.pure _))

/-! ### Readers never move back -/

/-- The function ends, and never moves the reader back. -/
abbrev Ends {α : Type} (p : Parse α) : Prop := Shrinks remaining (· ≠ .diverges) p

/-- The function ends, and takes a byte if one is left. -/
abbrev Moves {α : Type} (p : Parse α) : Prop := Advances remaining (· ≠ .diverges) p

/-- The ways in which a run of readers ends before it returns are among `E`: a copy past the end of its
destination, and a failing assertion. -/
class AllowsReads (E : Fault → Prop) : Prop where
  overflow : E .overflow
  assertFailed : E .assertFailed

instance : AllowsReads (· ≠ .diverges) := ⟨by simp, by simp⟩

instance : AllowsReads (· ≠ .divByZero) := ⟨by simp, by simp⟩

variable {E : Fault → Prop}

theorem ends_advanceReader (n : ℕ) : Shrinks remaining E (advanceReader n) where
  le r x r' h := by
    unfold advanceReader at h
    split at h <;> cases h
    · exact Nat.le_refl _
    · exact Nat.sub_le _ _
  error r e h := by
    unfold advanceReader at h
    split at h <;> cases h

theorem memcpy_ends [AllowsReads E] (dst src : List UInt8) (e : Fault)
    (h : memcpy dst src = .error e) : E e := by
  unfold memcpy at h
  split at h <;> cases h
  exact AllowsReads.overflow

theorem cAssert_ends [AllowsReads E] (host : Host) (p : Bool) (e : Fault) (h : cAssert host p = .error e) :
    E e := by
  unfold cAssert at h
  split at h <;> cases h
  exact AllowsReads.assertFailed

theorem ends_readBytes [AllowsReads E] (out : List UInt8) (n : ℕ) :
    Shrinks remaining E (readBytes out n) :=
  .get_bind fun _ => (ends_advanceReader n).bind fun _ =>
    .ite (.pure _) ((Shrinks.lift (memcpy_ends _ _)).bind fun _ => .pure _)

/-- **What a read can do**: take its bytes, or leave the reader alone for want of them. -/
theorem readBytes_inv {out : List UInt8} {n : ℕ} {r r' : BinaryReader}
    {x : ReadResult × List UInt8} (h : readBytes out n r = .ok (x, r')) :
    (x.1.status = .ok ∧ n ≤ r.remaining ∧ r' = ⟨r.cursor.drop n, r.remaining - n⟩) ∨
      (x.1.status = .outOfBounds ∧ r.remaining < n ∧ r' = r) := by
  rw [readBytes, get_bind] at h
  obtain ⟨result, r1, h1, h2⟩ := bind_ok h
  unfold advanceReader at h1
  split at h1
  · cases h1
    cases h2
    exact .inr ⟨rfl, by omega, rfl⟩
  · cases h1
    rw [if_neg (by simp)] at h2
    obtain ⟨out', r2, h3, h4⟩ := bind_ok h2
    cases hm : memcpy out (r.cursor.take n) with
    | error e => rw [hm] at h3; cases h3
    | ok out' =>
      rw [hm] at h3
      cases h3
      cases h4
      exact .inl ⟨rfl, by omega, rfl⟩

theorem ends_readInt [AllowsReads E] (w old n : ℕ) : Shrinks remaining E (readInt w old n) :=
  (ends_readBytes _ n).bind fun _ => .pure _

/-- Reading one byte takes it. -/
theorem moves_readInt [AllowsReads E] (w old : ℕ) :
    Advances remaining E (readInt w old 1) := by
  refine Advances.bind ⟨ends_readBytes _ 1, fun r x r' h h0 => ?_⟩ fun _ => .pure _
  rcases readBytes_inv h with ⟨-, -, rfl⟩ | ⟨-, hlt, -⟩
  · exact Nat.sub_lt h0 Nat.one_pos
  · omega

theorem ends_lebLoop [AllowsReads E] (overflow : ReadStatus) : ∀ (left : ℕ) (result : ReadResult)
    (out : UInt64) (byte : UInt8), Shrinks remaining E (lebLoop overflow left result out byte)
  | 0, _, _, _ => .pure _
  | left + 1, _, _, _ => (ends_readInt 1 _ 1).bind fun _ =>
    .ite (.pure _) (.ite (ends_lebLoop overflow left _ _ _) (.pure _))

theorem ends_readUleb128 [AllowsReads E] : Shrinks remaining E readUleb128 :=
  (ends_lebLoop _ 10 _ _ _).bind fun _ => .pure _

theorem ends_readSleb128 [AllowsReads E] : Shrinks remaining E readSleb128 :=
  (ends_lebLoop _ 10 _ _ _).bind fun _ => .ite (.pure _) (.ite (.pure _) (.pure _))

theorem ends_readCstring (out : CStr) : Shrinks remaining E (readCstring out) where
  le r x r' h := by
    unfold readCstring at h
    dsimp only at h
    split at h <;> cases h
    · exact Nat.sub_le _ _
    · exact Nat.le_refl _
  error r e h := by
    unfold readCstring at h
    dsimp only at h
    split at h <;> cases h

end Dabugger.Reader
