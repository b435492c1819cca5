import Dabugger.Lib.Log
import Dabugger.Lib.Runs
import Dabugger.Reader

/-! # Reader accounting

The functions of `reader.c`, called one after another with any arguments. They are computed with a log
of the memory that they read; without the log they are those of the source (`erases_call`). In every
state reached, the offset of the cursor and the remaining bytes make up the buffer, the next call reads
inside of it, and it moves the reader by the bytes that it reports (`run_accounted`). -/

namespace Dabugger.Reader.Accounting

open Dabugger.Lib.Bytes Dabugger.Lib.Exact Dabugger.Lib.Log Dabugger.Lib.Runs Dabugger.Base
open Dabugger.Base.BinaryReader Dabugger.Reader

/-! ### The functions with a log -/

/-- Bytes that are read, from a cursor on. -/
structure Access where
  cursor : List UInt8
  bytes : ℕ

/-- They are bytes of the buffer: the cursor stands in it, and they end where it ends or before. -/
def Access.Inside (buffer : List UInt8) (a : Access) : Prop :=
  a.cursor <:+ buffer ∧ a.bytes ≤ a.cursor.length

/-- A function that reads, with a log. -/
abbrev LoggedParse := StateT BinaryReader (Logged Access Fault)

/-- `memcpy` from the cursor. -/
def memcpyLog (out cursor : List UInt8) (bytes : ℕ) : LoggedParse (List UInt8) := do
  emitItem ⟨cursor, bytes⟩
  unlogged (liftM (memcpy out (cursor.take bytes)))

def readBytesLog (out : List UInt8) (bytes : ℕ) : LoggedParse (ReadResult × List UInt8) := do
  let currentCursor := (← get).cursor
  let result ← unlogged (advanceReader bytes)
  if result.status ≠ .ok then return (result, out)
  let out ← memcpyLog out currentCursor bytes
  return (result, out)

def peekBytesLog (out : List UInt8) (bytes : ℕ) : LoggedParse (ReadResult × List UInt8) := do
  let reader ← get
  if bytes > reader.remaining then return (⟨0, .outOfBounds⟩, out)
  let out ← memcpyLog out reader.cursor bytes
  return (⟨0, .ok⟩, out)

def readIntLog (w old bytes : ℕ) : LoggedParse (ReadResult × ℕ) := do
  let (result, out) ← readBytesLog (toLe w old) bytes
  return (result, ofLe out)

def lebLoopLog (overflow : ReadStatus) :
    ℕ → ReadResult → UInt64 → UInt8 → LoggedParse (ReadResult × UInt64 × UInt8)
  | 0, result, out, byte => return ({ result with status := overflow }, out, byte)
  | left + 1, result, out, byte => do
    let (byteReadResult, b) ← readIntLog 1 byte.toNat 1
    let byte := UInt8.ofNat b
    if byteReadResult.status ≠ .ok then
      return ({ result with status := byteReadResult.status }, out, byte)
    let out := out ||| ((byte &&& 0x7f).toUInt64 <<< UInt64.ofNat (result.bytesConsumed * 7))
    let result := { result with bytesConsumed := result.bytesConsumed + 1 }
    if byte &&& 0x80 ≠ 0 then lebLoopLog overflow left result out byte
    else return (result, out, byte)

def readUleb128Log : LoggedParse (ReadResult × UInt64) := do
  let (result, out, _) ← lebLoopLog .lebU64Overflow 10 ⟨0, .ok⟩ 0 0
  return (result, out)

def readSleb128Log : LoggedParse (ReadResult × Int64) := do
  let (result, out, byte) ← lebLoopLog .lebI64Overflow 10 ⟨0, .ok⟩ 0 0
  if result.status ≠ .ok then return (result, out.toInt64)
  if result.bytesConsumed * 7 < 64 ∧ byte &&& 0x40 ≠ 0 then
    return (result, (out ||| -((1 : UInt64) <<< UInt64.ofNat (result.bytesConsumed * 7))).toInt64)
  return (result, out.toInt64)

/-- `read_cstring`: `memchr` reads what remains, and `strdup` up to the zero. -/
def readCstringLog (out : CStr) : LoggedParse (ReadResult × CStr) := do
  let reader ← get
  emitItem ⟨reader.cursor, reader.remaining⟩
  if 0 ∈ reader.cursor.take reader.remaining then
    emitItem ⟨reader.cursor, (reader.cursor.takeWhile (· ≠ 0)).length + 1⟩
  unlogged (readCstring out)

/-! ### Calls -/

/-- A call and its arguments; `out` holds what the destination holds. -/
inductive Call where
  | advanceReader (bytes : ℕ)
  | readBytes (out : List UInt8) (bytes : ℕ)
  | peekBytes (out : List UInt8) (bytes : ℕ)
  | readUleb128
  | readSleb128
  | readCstring (out : CStr)

/-- What a call returns. -/
def Call.read : Call → Parse ReadResult
  | advanceReader bytes => Reader.advanceReader bytes
  | readBytes out bytes => Reader.readBytes out bytes >>= fun x => pure x.1
  | peekBytes out bytes => Reader.peekBytes out bytes >>= fun x => pure x.1
  | readUleb128 => Reader.readUleb128 >>= fun x => pure x.1
  | readSleb128 => Reader.readSleb128 >>= fun x => pure x.1
  | readCstring out => Reader.readCstring out >>= fun x => pure x.1

/-- With a log. -/
def Call.readLog : Call → LoggedParse ReadResult
  | advanceReader bytes => unlogged (Reader.advanceReader bytes)
  | readBytes out bytes => readBytesLog out bytes >>= fun x => pure x.1
  | peekBytes out bytes => peekBytesLog out bytes >>= fun x => pure x.1
  | readUleb128 => readUleb128Log >>= fun x => pure x.1
  | readSleb128 => readSleb128Log >>= fun x => pure x.1
  | readCstring out => readCstringLog out >>= fun x => pure x.1

/-- The call is a LEB128 read, which may fail behind the first byte. -/
def Call.IsLeb : Call → Prop
  | readUleb128 | readSleb128 => True
  | _ => False

/-- The destination is as long as the caller says. -/
def Call.Fits : Call → Prop
  | readBytes out bytes | peekBytes out bytes => bytes ≤ out.length
  | _ => True

/-- A call that returns. -/
def Step (reader : BinaryReader) (call : Call × ReadResult) (reader' : BinaryReader) : Prop :=
  call.1.read reader = .ok (call.2, reader')

/-! ### Without the log -/

theorem erases_get_bind {α : Type} {g : BinaryReader → LoggedParse α} {f : BinaryReader → Parse α}
    (h : ∀ reader, Erases (g reader) (f reader)) : Erases (get >>= g) (get >>= f) :=
  fun reader => h reader reader

/-- Looking at the reader does not count. -/
theorem erases_get {α : Type} {g : BinaryReader → LoggedParse α} {p : Parse α}
    (h : ∀ reader, Erases (g reader) p) : Erases (get >>= g) p :=
  fun reader => h reader reader

theorem erases_memcpy (out cursor : List UInt8) (bytes : ℕ) :
    Erases (memcpyLog out cursor bytes) (liftM (memcpy out (cursor.take bytes))) :=
  .emit_bind (.unlogged _)

theorem erases_readBytes (out : List UInt8) (bytes : ℕ) :
    Erases (readBytesLog out bytes) (Reader.readBytes out bytes) :=
  erases_get_bind fun _ => (Erases.unlogged _).bind fun _ =>
    .ite (.pure _) ((erases_memcpy _ _ _).bind fun _ => .pure _)

theorem erases_peekBytes (out : List UInt8) (bytes : ℕ) :
    Erases (peekBytesLog out bytes) (Reader.peekBytes out bytes) :=
  erases_get_bind fun _ => .ite (.pure _) ((erases_memcpy _ _ _).bind fun _ => .pure _)

theorem erases_readInt (w old bytes : ℕ) :
    Erases (readIntLog w old bytes) (readInt w old bytes) :=
  (erases_readBytes _ _).bind fun _ => .pure _

theorem erases_lebLoop (overflow : ReadStatus) :
    ∀ (left : ℕ) (result : ReadResult) (out : UInt64) (byte : UInt8),
      Erases (lebLoopLog overflow left result out byte)
        (lebLoop overflow left result out byte)
  | 0, _, _, _ => .pure _
  | left + 1, _, _, _ => (erases_readInt _ _ _).bind fun _ =>
    .ite (.pure _) (.ite (erases_lebLoop overflow left _ _ _) (.pure _))

theorem erases_readUleb128 : Erases readUleb128Log (Reader.readUleb128) :=
  (erases_lebLoop _ 10 _ _ _).bind fun _ => .pure _

theorem erases_readSleb128 : Erases readSleb128Log (Reader.readSleb128) :=
  (erases_lebLoop _ 10 _ _ _).bind fun _ => .ite (.pure _) (.ite (.pure _) (.pure _))

theorem erases_readCstring (out : CStr) :
    Erases (readCstringLog out) (Reader.readCstring out) := by
  refine erases_get fun reader => .emit_bind ?_
  split
  · exact .emit_bind (.unlogged _)
  · exact .unlogged _

/-- **The calls with a log** are those of the source. -/
theorem erases_call : ∀ call : Call, Erases (call.readLog) (call.read)
  | .advanceReader _ => .unlogged _
  | .readBytes _ _ => (erases_readBytes _ _).bind fun _ => .pure _
  | .peekBytes _ _ => (erases_peekBytes _ _).bind fun _ => .pure _
  | .readUleb128 => (erases_readUleb128).bind fun _ => .pure _
  | .readSleb128 => (erases_readSleb128).bind fun _ => .pure _
  | .readCstring _ => (erases_readCstring _).bind fun _ => .pure _

/-! ### What a call reads -/

theorem ofBytes_drop (n : ℕ) (bs : List UInt8) :
    (⟨bs.drop n, bs.length - n⟩ : BinaryReader) = ofBytes (bs.drop n) := by
  rw [ofBytes, List.length_drop]

/-- Reading a byte leaves a reader of what is behind it, or the reader as it was. -/
theorem exists_ofBytes_readInt {old : ℕ} {bs : List UInt8} {x : ReadResult × ℕ}
    {reader' : BinaryReader} (h : readInt 1 old 1 (ofBytes bs) = .ok (x, reader')) :
    ∃ bs', bs' <:+ bs ∧ reader' = ofBytes bs' := by
  obtain ⟨y, r, hread, hpure⟩ := bind_ok h
  cases hpure
  rcases readBytes_inv hread with ⟨-, -, hr⟩ | ⟨-, -, hr⟩
  · exact ⟨bs.drop 1, List.drop_suffix 1 bs, hr.trans (ofBytes_drop 1 bs)⟩
  · exact ⟨bs, List.suffix_refl bs, hr⟩

/-- A string that is terminated ends before the buffer does. -/
theorem length_takeWhile_lt {bs : List UInt8} (h : 0 ∈ bs) :
    (bs.takeWhile (· ≠ 0)).length < bs.length := by
  have hprefix := List.takeWhile_prefix (l := bs) (· ≠ 0)
  refine lt_of_le_of_ne hprefix.length_le fun heq => ?_
  rw [← hprefix.eq_of_length heq] at h
  simpa using List.all_eq_true.mp List.all_takeWhile 0 h

section
variable {buffer : List UInt8}

theorem emits_memcpy {out cursor : List UInt8} {bytes : ℕ} (hcursor : cursor <:+ buffer)
    (h : bytes ≤ cursor.length) (reader : BinaryReader) :
    Emits (Access.Inside buffer) (memcpyLog out cursor bytes reader) :=
  emits_emitItem_bind_iff.mpr ⟨⟨hcursor, h⟩, nofun⟩

theorem emits_readBytes {bs : List UInt8} (hbs : bs <:+ buffer) (out : List UInt8)
    (bytes : ℕ) :
    Emits (Access.Inside buffer) (readBytesLog out bytes (ofBytes bs)) := by
  refine Emits.state_bind (q := unlogged (Reader.advanceReader bytes)) nofun fun result reader' h => ?_
  split
  · exact nofun
  · rename_i hok
    refine Emits.state_bind (emits_memcpy hbs ?_ reader') fun _ _ _ => nofun
    by_contra hlt
    have hshort := advanceReader_short (Nat.not_le.mp hlt)
    cases hshort.symm.trans h
    exact hok nofun

theorem emits_lebLoop (overflow : ReadStatus) :
    ∀ (left : ℕ) (result : ReadResult) (out : UInt64) (byte : UInt8) {bs : List UInt8},
      bs <:+ buffer →
        Emits (Access.Inside buffer) (lebLoopLog overflow left result out byte (ofBytes bs))
  | 0, _, _, _, _, _ => nofun
  | left + 1, result, out, byte, bs, hbs => by
    refine Emits.state_bind (Emits.state_bind (emits_readBytes hbs _ _) fun _ _ _ => nofun) ?_
    intro x reader' h
    obtain ⟨bs', hbs', rfl⟩ := exists_ofBytes_readInt ((erases_readInt _ _ _ _).symm.trans h)
    dsimp only
    split
    · exact nofun
    split
    · exact emits_lebLoop overflow left _ _ _ (hbs'.trans hbs)
    · exact nofun

variable {bs : List UInt8} (hbs : bs <:+ buffer)
include hbs

theorem emits_peekBytes (out : List UInt8) (bytes : ℕ) :
    Emits (Access.Inside buffer) (peekBytesLog out bytes (ofBytes bs)) := by
  refine Emits.state_bind (q := get) (s := ofBytes bs) nofun ?_
  rintro _ _ ⟨⟩
  split
  · exact nofun
  · rename_i hle
    exact Emits.state_bind (emits_memcpy hbs (Nat.not_lt.mp hle) _) fun _ _ _ => nofun

theorem emits_readCstring (out : CStr) :
    Emits (Access.Inside buffer) (readCstringLog out (ofBytes bs)) := by
  refine Emits.state_bind (q := get) (s := ofBytes bs) nofun ?_
  rintro _ _ ⟨⟩
  refine emits_emitItem_bind_iff.mpr ⟨⟨hbs, le_refl bs.length⟩, ?_⟩
  dsimp only
  split
  · rename_i hzero
    rw [remaining_ofBytes, cursor_ofBytes, List.take_length] at hzero
    exact emits_emitItem_bind_iff.mpr ⟨⟨hbs, length_takeWhile_lt hzero⟩, nofun⟩
  · exact nofun

/-- **A call reads inside the buffer.** -/
theorem emits_call :
    ∀ call : Call, Emits (Access.Inside buffer) (call.readLog (ofBytes bs))
  | .advanceReader _ => nofun
  | .readBytes _ _ => Emits.state_bind (emits_readBytes hbs _ _) fun _ _ _ => nofun
  | .peekBytes _ _ => Emits.state_bind (emits_peekBytes hbs _ _) fun _ _ _ => nofun
  | .readUleb128 => by
    refine Emits.state_bind ?_ fun _ _ _ => nofun
    exact Emits.state_bind (emits_lebLoop _ 10 _ _ _ hbs) fun _ _ _ => nofun
  | .readSleb128 => by
    refine Emits.state_bind ?_ fun _ _ _ => nofun
    refine Emits.state_bind (emits_lebLoop _ 10 _ _ _ hbs) fun _ _ _ => ?_
    dsimp only
    split
    · exact nofun
    split
    · exact nofun
    · exact nofun
  | .readCstring _ => Emits.state_bind (emits_readCstring hbs _) fun _ _ _ => nofun

end

/-! ### What a call does to the reader -/

/-- The reader has moved from the start of `bs` by what is reported, and a failure that is not one of a
LEB128 number reports nothing. -/
structure Moved (call : Call) (bs : List UInt8) (result : ReadResult) (reader : BinaryReader) :
    Prop where
  consumed_le : result.bytesConsumed ≤ bs.length
  reader_eq : reader = ofBytes (bs.drop result.bytesConsumed)
  consumed_of_failed : ¬ call.IsLeb → result.status ≠ .ok → result.bytesConsumed = 0

section
variable {bs : List UInt8} {result : ReadResult} {reader : BinaryReader}

/-- A call that leaves the reader and reports that. -/
theorem Moved.stays (call : Call) (bs : List UInt8) (status : ReadStatus) :
    Moved call bs ⟨0, status⟩ (ofBytes bs) :=
  ⟨Nat.zero_le _, rfl, fun _ _ => rfl⟩

/-- A call that takes bytes and succeeds. -/
theorem Moved.takes (call : Call) {n : ℕ} (h : n ≤ bs.length) :
    Moved call bs ⟨n, .ok⟩ (ofBytes (bs.drop n)) :=
  ⟨h, rfl, fun _ hne => absurd rfl hne⟩

theorem bind_fst_ok {α : Type} {p : Parse (ReadResult × α)} {reader : BinaryReader}
    {result : ReadResult} {reader' : BinaryReader}
    (h : (p >>= fun x => pure x.1) reader = .ok (result, reader')) :
    ∃ a, p reader = .ok ((result, a), reader') := by
  obtain ⟨⟨result, a⟩, r, hp, hpure⟩ := bind_ok h
  cases hpure
  exact ⟨a, hp⟩

theorem moved_readBytes {out out' : List UInt8} {bytes : ℕ}
    (h : Reader.readBytes out bytes (ofBytes bs) = .ok ((result, out'), reader)) :
    Moved (.readBytes out bytes) bs result reader := by
  rcases Nat.lt_or_ge bs.length bytes with hshort | hle
  · rw [readBytes_short hshort] at h
    cases h
    exact .stays _ bs _
  · obtain ⟨copied, -, hcopied⟩ := except_map_ok ((readBytes_ok out hle).symm.trans h)
    cases hcopied
    exact .takes _ hle

theorem moved_peekBytes {out out' : List UInt8} {bytes : ℕ}
    (h : Reader.peekBytes out bytes (ofBytes bs) = .ok ((result, out'), reader)) :
    Moved (.peekBytes out bytes) bs result reader := by
  rcases Nat.lt_or_ge bs.length bytes with hshort | hle
  · rw [peekBytes_short hshort] at h
    cases h
    exact .stays _ bs _
  · obtain ⟨copied, -, hcopied⟩ := except_map_ok ((peekBytes_ok out hle).symm.trans h)
    cases hcopied
    exact .stays _ bs _

theorem moved_readCstring {out out' : CStr}
    (h : Reader.readCstring out (ofBytes bs) = .ok ((result, out'), reader)) :
    Moved (.readCstring out) bs result reader := by
  unfold Reader.readCstring at h
  rw [remaining_ofBytes, cursor_ofBytes, List.take_length] at h
  dsimp only at h
  split at h
  · rename_i hzero
    cases h
    rw [ofBytes_drop]
    exact .takes _ (length_takeWhile_lt hzero)
  · cases h
    exact .stays _ bs _

/-- **A call that returns** has moved the reader by what it reports. -/
theorem moved_call : ∀ {call : Call}, call.read (ofBytes bs) = .ok (result, reader) →
    Moved call bs result reader
  | .advanceReader bytes, h => by
    rcases Nat.lt_or_ge bs.length bytes with hshort | hle
    · cases (advanceReader_short hshort).symm.trans h
      exact .stays _ bs _
    · cases (advanceReader_ofBytes hle).symm.trans h
      exact .takes _ hle
  | .readBytes _ _, h => by
    obtain ⟨out', h⟩ := bind_fst_ok h
    exact moved_readBytes h
  | .peekBytes _ _, h => by
    obtain ⟨out', h⟩ := bind_fst_ok h
    exact moved_peekBytes h
  | .readUleb128, h => by
    obtain ⟨v, h⟩ := bind_fst_ok h
    cases (readUleb128_ofBytes bs).symm.trans h
    exact ⟨lebSpan_le 10 bs, rfl, fun hleb => absurd trivial hleb⟩
  | .readSleb128, h => by
    obtain ⟨v, h⟩ := bind_fst_ok h
    cases (readSleb128_ofBytes bs).symm.trans h
    exact ⟨lebSpan_le 10 bs, rfl, fun hleb => absurd trivial hleb⟩
  | .readCstring _, h => by
    obtain ⟨out', h⟩ := bind_fst_ok h
    exact moved_readCstring h

/-! ### Calls return -/

theorem bind_fst_of_ok {α : Type} {p : Parse (ReadResult × α)} {x : ReadResult × α}
    {reader reader' : BinaryReader} (h : p reader = .ok (x, reader')) :
    (p >>= fun x => pure x.1) reader = .ok (x.1, reader') := by
  rw [bind_of_ok h]
  rfl

/-- **A call whose destination is large enough returns.** -/
theorem call_returns (bs : List UInt8) : ∀ {call : Call}, call.Fits →
    ∃ result reader, call.read (ofBytes bs) = .ok (result, reader)
  | .advanceReader bytes, _ => by
    rcases Nat.lt_or_ge bs.length bytes with hshort | hle
    · exact ⟨_, _, advanceReader_short hshort⟩
    · exact ⟨_, _, advanceReader_ofBytes hle⟩
  | .readBytes out bytes, hfits => by
    rcases Nat.lt_or_ge bs.length bytes with hshort | hle
    · exact ⟨_, _, bind_fst_of_ok (readBytes_short hshort)⟩
    · have hcopy := memcpy_eq ((List.length_take_le bytes bs).trans hfits)
      have hread := readBytes_ok out hle
      rw [hcopy] at hread
      exact ⟨_, _, bind_fst_of_ok hread⟩
  | .peekBytes out bytes, hfits => by
    rcases Nat.lt_or_ge bs.length bytes with hshort | hle
    · exact ⟨_, _, bind_fst_of_ok (peekBytes_short hshort)⟩
    · have hcopy := memcpy_eq ((List.length_take_le bytes bs).trans hfits)
      have hpeek := peekBytes_ok out hle
      rw [hcopy] at hpeek
      exact ⟨_, _, bind_fst_of_ok hpeek⟩
  | .readUleb128, _ => ⟨_, _, bind_fst_of_ok (readUleb128_ofBytes bs)⟩
  | .readSleb128, _ => ⟨_, _, bind_fst_of_ok (readSleb128_ofBytes bs)⟩
  | .readCstring out, _ => by
    by_cases hzero : 0 ∈ (ofBytes bs).cursor.take (ofBytes bs).remaining
    · exact ⟨_, _, bind_fst_of_ok (if_pos hzero)⟩
    · exact ⟨_, _, bind_fst_of_ok (if_neg hzero)⟩

end

/-! ### Sequences of calls -/

/-- The bytes that calls have reported. -/
def reported (calls : List (Call × ReadResult)) : ℕ :=
  (calls.map fun call => call.2.bytesConsumed).sum

/-- **Where calls lead**: behind the bytes that they have reported, which are bytes of the buffer. -/
theorem run_reported : ∀ {calls : List (Call × ReadResult)} {bs : List UInt8} {reader : BinaryReader},
    Run Step (ofBytes bs) calls reader →
      reported calls ≤ bs.length ∧ reader = ofBytes (bs.drop (reported calls))
  | [], _, _, run => by
    cases run
    exact ⟨Nat.zero_le _, rfl⟩
  | (call, result) :: calls, bs, reader, run => by
    cases run with
    | step h rest =>
      have hmoved : Moved call bs result _ := moved_call h
      obtain ⟨hle, rfl, -⟩ := hmoved
      obtain ⟨hrest, rfl⟩ := run_reported rest
      have hsum : reported ((call, result) :: calls) = result.bytesConsumed + reported calls := rfl
      rw [List.length_drop] at hrest
      rw [hsum, List.drop_drop]
      exact ⟨by omega, rfl⟩

/-- After any calls, the cursor stands behind the bytes that they have reported, and its offset and the
remaining bytes make up the buffer. The next call then reads bytes of the buffer only, returns if its
destination is large enough, and moves the reader by what it reports; when it fails and does not read
a LEB128 number, it leaves the reader as it was. -/
theorem run_accounted {buffer : List UInt8} {calls : List (Call × ReadResult)}
    {reader : BinaryReader} (run : Run Step (ofBytes buffer) calls reader) :
    reader.cursor = buffer.drop (reported calls) ∧
    reported calls + reader.remaining = buffer.length ∧
    ∀ call : Call,
      (call.readLog reader).result = call.read reader ∧
      Emits (Access.Inside buffer) (call.readLog reader) ∧
      (call.Fits → ∃ result reader', Step reader (call, result) reader') ∧
      ∀ result reader', Step reader (call, result) reader' →
        reader'.cursor = reader.cursor.drop result.bytesConsumed ∧
        reader.remaining = reader'.remaining + result.bytesConsumed ∧
        (¬ call.IsLeb → result.status ≠ .ok → reader' = reader) := by
  obtain ⟨hle, rfl⟩ := run_reported run
  refine ⟨rfl, ?_, fun call => ⟨erases_call call _, ?_, call_returns _, ?_⟩⟩
  · rw [remaining_ofBytes, List.length_drop]
    omega
  · exact emits_call (List.drop_suffix _ _) call
  · intro result reader' h
    have hmoved : Moved call _ result reader' := moved_call h
    obtain ⟨hconsumed, rfl, hfailed⟩ := hmoved
    refine ⟨rfl, ?_, fun hleb hstatus => ?_⟩
    · rw [remaining_ofBytes, remaining_ofBytes, List.length_drop (i := result.bytesConsumed)]
      omega
    · rw [hfailed hleb hstatus]
      rfl

/-- A number, a string, an advance by more than there is, and a number that is cut off. -/
theorem run_accounted_sample :
    (ofBytes []).cursor = [0x81, 0x01, 0x61, 0x00, 0x80].drop 5 ∧ 5 + (ofBytes []).remaining = 5 := by
  have run : Run Step (ofBytes [0x81, 0x01, 0x61, 0x00, 0x80])
      [(.readUleb128, ⟨2, .ok⟩), (.readCstring .null, ⟨2, .ok⟩),
        (.advanceReader (2 ^ 64 - 1), ⟨0, .outOfBounds⟩), (.readSleb128, ⟨1, .outOfBounds⟩)]
      (ofBytes []) :=
    .step rfl (.step rfl (.step rfl (.step rfl (.refl _))))
  obtain ⟨hcursor, hremaining, -⟩ := run_accounted run
  exact ⟨hcursor, hremaining⟩

end Dabugger.Reader.Accounting
