import Dabugger.Dwarf.HeaderRoundTrip
import Dabugger.Dwarf.Program

/-! # The widths of what the parser reads

How far the fields of a header and the instructions of a program reach on any bytes, well-formed or
not: each `skip` function gives what is left behind a field, or `none` where the run ends there (a
failing assertion, a division by zero, a copy past the end of its destination). A read that does not find
its bytes leaves them (`skipBytes`). The `leaves` theorems say that the parser does the same. -/

namespace Dabugger.Dwarf.Widths

open Dabugger.Lib.Bytes Dabugger.Lib.Exact Dabugger.Base Dabugger.Base.BinaryReader
open Dabugger.Reader Dabugger.Dwarf.Types Dabugger.Dwarf.Header Dabugger.Dwarf.HeaderEncoding
open Dabugger.Dwarf.HeaderRoundTrip Dabugger.Dwarf.Program

/-! ### Fields -/

/-- Behind `n` bytes. -/
def skipBytes (n : ℕ) (bs : List UInt8) : List UInt8 := if n ≤ bs.length then bs.drop n else bs

/-- Behind `n` bytes that are copied to a variable of `w` bytes. It is irreducible since `n` may be
`SIZE_MAX`, from which a reduction would count down. -/
@[irreducible] def skipCopy (w n : ℕ) (bs : List UInt8) : Option (List UInt8) :=
  if w < n ∧ n ≤ bs.length then none else some (skipBytes n bs)

/-- An integer of `n` bytes at the start; zero if they are not there. -/
def uintAt (n : ℕ) (bs : List UInt8) : ℕ := if n ≤ bs.length then ofLe (bs.take n) else 0

/-- Behind a LEB128 number. -/
def skipLeb (bs : List UInt8) : List UInt8 := bs.drop (lebSpan 10 bs)

/-- The value of a LEB128 number at the start. -/
def lebAt (bs : List UInt8) : UInt64 := UInt64.ofNat (ulebVal (bs.take (lebSpan 10 bs)))

/-- Behind a terminated string. -/
def skipString (bs : List UInt8) : List UInt8 :=
  if 0 ∈ bs then bs.drop ((bs.takeWhile (· ≠ 0)).length + 1) else bs

/-- Behind an assertion that fails. -/
def skipAssert (host : Host) (bs : List UInt8) : Option (List UInt8) :=
  if host.asserts then none else some bs

/-- Behind a path. -/
def skipPath (host : Host) (isDwarf64 : Bool) (form : DwarfFormCode) (bs : List UInt8) :
    Option (List UInt8) :=
  if form = Form.string then some (skipString bs)
  else if form = Form.lineStrp ∨ form = Form.strp ∨ form = Form.strpSup then
    if form = Form.strp then skipAssert host (skipBytes (if isDwarf64 then 8 else 4) bs)
    else some (skipBytes (if isDwarf64 then 8 else 4) bs)
  else some bs

/-- Behind a directory index. -/
def skipDirectoryIndex (form : DwarfFormCode) (bs : List UInt8) : Option (List UInt8) :=
  if form = Form.data1 then some (skipBytes 1 bs)
  else if form = Form.data2 then some (skipBytes 2 bs)
  else if form = Form.udata then some (skipLeb bs)
  else some bs

/-- Behind a timestamp. -/
def skipTimestamp (form : DwarfFormCode) (bs : List UInt8) : Option (List UInt8) :=
  if form = Form.udata then some (skipLeb bs)
  else if form = Form.data4 then some (skipBytes 4 bs)
  else if form = Form.data8 then some (skipBytes 8 bs)
  else if form = Form.block then skipCopy 8 (lebAt bs).toNat (skipLeb bs)
  else some bs

/-- Behind a size. -/
def skipSize (form : DwarfFormCode) (bs : List UInt8) : Option (List UInt8) :=
  if form = Form.udata then some (skipLeb bs)
  else if form = Form.data1 then some (skipBytes 1 bs)
  else if form = Form.data2 then some (skipBytes 2 bs)
  else if form = Form.data4 then some (skipBytes 4 bs)
  else if form = Form.data8 then some (skipBytes 8 bs)
  else some bs

/-- Behind an MD5. -/
def skipMd5 (form : DwarfFormCode) (bs : List UInt8) : Option (List UInt8) :=
  if form = Form.data16 then some (skipBytes 16 bs) else some bs

/-- Behind a field of an entry. -/
def skipField (host : Host) (isDwarf64 : Bool) (bs : List UInt8) (fmt : DwarfLineNumFormatDesc) :
    Option (List UInt8) :=
  if fmt.contentType = Lnct.path then skipPath host isDwarf64 fmt.formCode bs
  else if fmt.contentType = Lnct.directoryIndex then skipDirectoryIndex fmt.formCode bs
  else if fmt.contentType = Lnct.timestamp then skipTimestamp fmt.formCode bs
  else if fmt.contentType = Lnct.size then skipSize fmt.formCode bs
  else if fmt.contentType = Lnct.md5 then skipMd5 fmt.formCode bs
  else if Lnct.loUser ≤ fmt.contentType ∧ fmt.contentType ≤ Lnct.hiUser then skipAssert host bs
  else some bs

/-! ### Headers -/

theorem skipBytes_append {n : ℕ} {bs : List UInt8} (h : bs.length = n) (rest : List UInt8) :
    skipBytes n (bs ++ rest) = rest := by
  subst h
  rw [skipBytes, if_pos (by simp), List.drop_left]

/-- Behind entries in the given formats. -/
def skipEntries (host : Host) (isDwarf64 : Bool) (formats : List DwarfLineNumFormatDesc) :
    ℕ → List UInt8 → Option (List UInt8)
  | 0, bs => some bs
  | n + 1, bs => (formats.foldlM (skipField host isDwarf64) bs).bind
    (skipEntries host isDwarf64 formats n)

/-- The fields of an entry, each with the bytes it begins with, as far as the run comes. -/
def fieldsAt (host : Host) (isDwarf64 : Bool) :
    List DwarfLineNumFormatDesc → List UInt8 → List (DwarfLineNumFormatDesc × List UInt8)
  | [], _ => []
  | fmt :: formats, bs =>
    (fmt, bs) :: (skipField host isDwarf64 bs fmt).elim [] (fieldsAt host isDwarf64 formats)

/-- The fields of the entries, as far as the run comes. -/
def entriesAt (host : Host) (isDwarf64 : Bool) (formats : List DwarfLineNumFormatDesc) :
    ℕ → List UInt8 → List (List (DwarfLineNumFormatDesc × List UInt8))
  | 0, _ => []
  | n + 1, bs => fieldsAt host isDwarf64 formats bs ::
    (formats.foldlM (skipField host isDwarf64) bs).elim [] (entriesAt host isDwarf64 formats n)

/-- The formats at the start, and what is behind them. -/
def takeFormats : ℕ → List UInt8 → List DwarfLineNumFormatDesc × List UInt8
  | 0, bs => ([], bs)
  | n + 1, bs =>
    let behind := takeFormats n (skipLeb (skipLeb bs))
    (⟨(lebAt bs).toUInt32, (lebAt (skipLeb bs)).toUInt32⟩ :: behind.1, behind.2)

/-- Behind a list of formats and the entries in these formats. -/
def skipTable (host : Host) (isDwarf64 : Bool) (bs : List UInt8) : Option (List UInt8) :=
  let behind := takeFormats (bs.headD 0).toNat (bs.drop 1)
  skipEntries host isDwarf64 behind.1 (lebAt behind.2).toNat (skipLeb behind.2)

/-- **Behind the fields and the tables of a header**, from the byte after `header_length` on. -/
def skipHeader (host : Host) (isDwarf64 : Bool) (bs : List UInt8) : Option (List UInt8) :=
  let opcodeBase := (bs.getD 5 0).toNat
  let lengths := skipCopy (opcodeBase - 1) ((opcodeBase + (2 ^ 64 - 1)) % 2 ^ 64) (bs.drop 6)
  lengths.bind fun cs => (skipTable host isDwarf64 cs).bind (skipTable host isDwarf64)

/-- Behind the fields of a header and its opcode lengths, where the tables begin. -/
def skipToTables (bs : List UInt8) : Option (List UInt8) :=
  let opcodeBase := (bs.getD 5 0).toNat
  skipCopy (opcodeBase - 1) ((opcodeBase + (2 ^ 64 - 1)) % 2 ^ 64) (bs.drop 6)

/-- The number of entries in a table. -/
def tableCount (bs : List UInt8) : UInt64 := lebAt (takeFormats (bs.headD 0).toNat (bs.drop 1)).2

/-- The unit length at the start is one of 64-bit DWARF. -/
def isDwarf64At (bs : List UInt8) : Bool := decide (uintAt 4 bs = 0xffffffff)

/-- Behind a unit length. -/
def skipUnitLength (host : Host) (bs : List UInt8) : Option (List UInt8) :=
  if uintAt 4 bs < 0xfffffff0 then some (skipBytes 4 bs)
  else if isDwarf64At bs then some (skipBytes 8 (skipBytes 4 bs))
  else skipAssert host (skipBytes 4 bs)

/-- Behind the `header_length` of a header. -/
def skipLengths (host : Host) (bs : List UInt8) : Option (List UInt8) :=
  (skipUnitLength host bs).map fun cs =>
    skipBytes (offsetSize (isDwarf64At bs)) ((skipBytes 2 cs).drop 2)

/-- The tables of a header. -/
def tablesAt (host : Host) (bs : List UInt8) : Option (List UInt8) :=
  (skipLengths host bs).bind skipToTables

/-- **Behind a whole header.** -/
def skipUnitHeader (host : Host) (bs : List UInt8) : Option (List UInt8) :=
  (skipLengths host bs).bind (skipHeader host (isDwarf64At bs))

/-! ### Instructions -/

/-- Behind the operand of an extended opcode, the size of the instruction included. -/
def skipExtended (bs : List UInt8) : Option (List UInt8) :=
  match skipLeb bs with
  | [] => some []
  | opcode :: cs =>
    if opcode = Lne.endSequence then some cs
    else if opcode = Lne.setAddress then skipCopy 8 (lebAt bs - 1).toNat cs
    else if opcode = Lne.setDiscriminator then some (skipLeb cs)
    else some cs

/-- Behind the operand of a standard opcode. -/
def skipStandard (maxOps lineRange opcode : UInt8) (bs : List UInt8) : Option (List UInt8) :=
  if opcode = Lns.copy then some bs
  else if opcode = Lns.advancePc then if maxOps = 0 then none else some (skipLeb bs)
  else if opcode = Lns.advanceLine then some (skipLeb bs)
  else if opcode = Lns.setFile then some (skipLeb bs)
  else if opcode = Lns.setColumn then some (skipLeb bs)
  else if opcode = Lns.negateStmt then some bs
  else if opcode = Lns.setBasicBlock then some bs
  else if opcode = Lns.constAddPc then if lineRange = 0 ∨ maxOps = 0 then none else some bs
  else if opcode = Lns.fixedAdvancePc then some (skipBytes 2 bs)
  else if opcode = Lns.setPrologueEnd then some bs
  else if opcode = Lns.setEpilogueBegin then some bs
  else if opcode = Lns.setIsa then some (skipLeb bs)
  else some bs

/-- **Behind an instruction**, under a header with these fields. -/
def skipInstruction (maxOps lineRange opcodeBase : UInt8) :
    List UInt8 → Option (List UInt8)
  | [] => none
  | opcode :: bs =>
    if opcode = 0 then skipExtended bs
    else if opcode < opcodeBase then skipStandard maxOps lineRange opcode bs
    else if lineRange = 0 ∨ maxOps = 0 then none
    else some bs

/-! ### The readers -/

variable (host : Host)

theorem leaves_readBytes (out : List UInt8) (n : ℕ) (bs : List UInt8) :
    Leaves ofBytes (readBytes out n) bs (skipCopy out.length n bs) (· =
      if n ≤ bs.length then (⟨n, .ok⟩, bs.take n ++ out.drop n)
      else (⟨0, .outOfBounds⟩, out)) := by
  unfold skipCopy skipBytes
  by_cases hn : n ≤ bs.length
  · have hread := readBytes_ok out hn
    have hlen : (bs.take n).length = n := List.length_take_of_le hn
    by_cases ho : out.length < n
    · rw [if_pos ⟨ho, hn⟩]
      refine ⟨.overflow, ?_⟩
      rw [hread, memcpy, if_pos (by rwa [hlen])]
      rfl
    · rw [if_neg (by tauto), if_pos hn, if_pos hn]
      rw [memcpy_eq (by omega), hlen] at hread
      exact ⟨_, hread, rfl⟩
  · rw [if_neg (by tauto), if_neg hn, if_neg hn]
    exact ⟨_, readBytes_short (by omega), rfl⟩

theorem leaves_readInt (w old n : ℕ) (bs : List UInt8) :
    Leaves ofBytes (readInt w old n) bs (skipCopy w n bs) (· =
      if n ≤ bs.length then (⟨n, .ok⟩, ofLe (bs.take n ++ (toLe w old).drop n))
      else (⟨0, .outOfBounds⟩, ofLe (toLe w old))) := by
  have h := leaves_readBytes (toLe w old) n bs
  rw [length_toLe] at h
  refine h.bind_end fun x cs hx => .pure ?_
  by_cases hn : n ≤ bs.length
  · rw [if_pos hn] at hx ⊢
    rw [hx]
  · rw [if_neg hn] at hx ⊢
    rw [hx]

/-- A read that fits in its variable. -/
theorem leaves_readInt_le {w n : ℕ} (old : ℕ) (hn : n ≤ w) (bs : List UInt8) :
    Leaves ofBytes (readInt w old n) bs (some (skipBytes n bs)) fun _ => True := by
  have h := leaves_readInt w old n bs
  rw [skipCopy, if_neg (by omega)] at h
  exact h.mono fun _ _ => trivial

/-- A read to a wider variable that holds zero. -/
theorem leaves_readInt_zero {w n : ℕ} (hn : n ≤ w) (bs : List UInt8) :
    Leaves ofBytes (readInt w 0 n) bs (some (skipBytes n bs)) fun x =>
      (x.1.status = .ok ↔ n ≤ bs.length) ∧ x.2 = uintAt n bs := by
  have h := leaves_readInt w 0 n bs
  rw [skipCopy, if_neg (by omega)] at h
  refine h.mono ?_
  rintro _ rfl
  unfold uintAt
  by_cases hl : n ≤ bs.length
  · rw [if_pos hl, if_pos hl, toLe_zero, List.drop_replicate, ofLe_append, ofLe_replicate_zero,
      Nat.mul_zero, Nat.add_zero]
    exact ⟨iff_of_true rfl hl, rfl⟩
  · rw [if_neg hl, if_neg hl, toLe_zero, ofLe_replicate_zero]
    exact ⟨iff_of_false (by simp) hl, rfl⟩

theorem leaves_uint16 (bs : List UInt8) :
    Leaves ofBytes readUInt16 bs (some (skipBytes 2 bs)) fun _ => True :=
  (leaves_readInt_zero (Nat.le_refl 2) bs).bind_some fun _ _ => .done

theorem leaves_uint32 (bs : List UInt8) :
    Leaves ofBytes readUInt32 bs (some (skipBytes 4 bs)) (· = UInt32.ofNat (uintAt 4 bs)) :=
  (leaves_readInt_zero (Nat.le_refl 4) bs).bind_some fun _ h =>
    .pure (congrArg UInt32.ofNat h.2)

theorem leaves_uint64 {n : ℕ} (hn : n ≤ 8) (bs : List UInt8) :
    Leaves ofBytes (readUInt64 n) bs (some (skipBytes n bs)) fun _ => True :=
  (leaves_readInt_zero hn bs).bind_some fun _ _ => .done

theorem leaves_uint8 (bs : List UInt8) :
    Leaves ofBytes readUInt8 bs (some (bs.drop 1)) (· = bs.headD 0) := by
  cases bs with
  | nil =>
    refine ⟨0, ?_, rfl⟩
    have h : readInt 1 0 1 (ofBytes []) = .ok ((⟨0, .outOfBounds⟩, 0), ofBytes []) :=
      readInt_short (by decide) (by simp)
    rw [readUInt8, bind_of_ok h]
    rfl
  | cons b bs =>
    refine ⟨b, ?_, rfl⟩
    have hbyte : readInt 1 0 1 (ofBytes (b :: bs)) = _ := reads_readInt_byte 0 b bs
    rw [readUInt8, bind_of_ok hbyte]
    show Except.ok (UInt8.ofNat b.toNat, _) = _
    rw [UInt8.ofNat_toNat]
    rfl

theorem leaves_uleb128 (bs : List UInt8) :
    Leaves ofBytes readUleb128 bs (some (skipLeb bs)) (·.2 = lebAt bs) :=
  ⟨_, readUleb128_ofBytes bs, rfl⟩

theorem leaves_sleb128 (bs : List UInt8) :
    Leaves ofBytes readSleb128 bs (some (skipLeb bs)) fun _ => True := by
  have hl := lebLoop_ofBytes .lebI64Overflow 10 0 0 0 bs (by simp) (by simp)
  refine (Leaves.of_ok hl).bind_some fun x _ => ?_
  dsimp only
  split
  · exact .done
  · split
    · exact .done
    · exact .done

theorem leaves_cstring (out : CStr) (bs : List UInt8) :
    Leaves ofBytes (readCstring out) bs (some (skipString bs)) (· =
      if 0 ∈ bs then (⟨(bs.takeWhile (· ≠ 0)).length + 1, .ok⟩, .heap (bs.takeWhile (· ≠ 0)))
      else (⟨0, .outOfBounds⟩, out)) := by
  refine ⟨_, ?_, rfl⟩
  unfold readCstring skipString
  simp only [cursor_ofBytes, remaining_ofBytes, List.take_length]
  split
  · simp [ofBytes]
  · rfl

theorem leaves_cAssert (bs : List UInt8) :
    Leaves ofBytes (liftM (cAssert host false) : Parse Unit) bs (skipAssert host bs)
      fun _ => True := by
  unfold skipAssert cAssert
  cases host.asserts
  · exact .of_ok rfl
  · exact ⟨.assertFailed, rfl⟩

/-! ### The header -/

section
variable (locals : Locals) (form : DwarfFormCode) (entry : DwarfLineNumContentEntry)
  (bs : List UInt8)

/-- The end of a `read_lnct_*` function reads nothing. -/
theorem leaves_store {c : Prop} [Decidable c] (e e' : DwarfLineNumContentEntry) :
    Leaves ofBytes (if c then pure e else pure e' : Parse DwarfLineNumContentEntry) bs (some bs)
      fun _ => True := by
  split
  · exact .done
  · exact .done

theorem leaves_path (isDwarf64 : Bool) :
    Leaves ofBytes (readLnctPath host locals form entry isDwarf64) bs
      (skipPath host isDwarf64 form bs) fun _ => True := by
  simp only [readLnctPath, pure_bind, ne_eq, ite_not]
  refine .ite (fun _ => (leaves_cstring _ bs).bind_some fun _ _ => leaves_store _ _ _) fun _ =>
    .ite (fun _ => ?_) fun _ => leaves_store _ _ _
  refine (leaves_readInt_le _ (by split <;> simp) bs).bind_some fun _ _ => ?_
  by_cases hl : form = Form.lineStrp
  · have hs : form ≠ Form.strp := by
      rw [hl]
      decide
    rw [if_pos hl, if_neg hs]
    exact leaves_store _ _ _
  · rw [if_neg hl]
    refine .ite (fun _ => ?_) fun _ => leaves_store _ _ _
    exact (leaves_cAssert host _).bind_end fun _ _ _ => leaves_store _ _ _

theorem leaves_directoryIndex :
    Leaves ofBytes (readLnctDirectoryIndex locals form entry) bs (skipDirectoryIndex form bs)
      fun _ => True := by
  simp only [readLnctDirectoryIndex, pure_bind, ne_eq, ite_not]
  have hint (n : ℕ) (hn : n ≤ 8) := leaves_readInt_le 0 hn bs
  refine .ite (fun _ => (hint 1 (by decide)).bind_some fun _ _ => leaves_store _ _ _) fun _ => ?_
  refine .ite (fun _ => (hint 2 (by decide)).bind_some fun _ _ => leaves_store _ _ _) fun _ => ?_
  exact .ite (fun _ => (leaves_uleb128 bs).bind_some fun _ _ => leaves_store _ _ _) fun _ =>
    leaves_store _ _ _

theorem leaves_timestamp :
    Leaves ofBytes (readLnctTimestamp locals form entry) bs (skipTimestamp form bs)
      fun _ => True := by
  simp only [readLnctTimestamp, pure_bind, ne_eq, ite_not]
  have hint (n : ℕ) (hn : n ≤ 8) := leaves_readInt_le locals.timestamp.toNat hn bs
  refine .ite (fun _ => (leaves_uleb128 bs).bind_some fun _ _ => leaves_store _ _ _) fun _ => ?_
  refine .ite (fun _ => (hint 4 (by decide)).bind_some fun _ _ => leaves_store _ _ _) fun _ => ?_
  refine .ite (fun _ => (hint 8 (by decide)).bind_some fun _ _ => leaves_store _ _ _) fun _ => ?_
  refine .ite (fun _ => (leaves_uleb128 bs).bind_some fun x hx => ?_) fun _ => leaves_store _ _ _
  rw [hx]
  exact (leaves_readInt 8 _ _ _).bind_end fun _ _ _ => leaves_store _ _ _

theorem leaves_size :
    Leaves ofBytes (readLnctSize locals form entry) bs (skipSize form bs) fun _ => True := by
  simp only [readLnctSize, pure_bind, ne_eq, ite_not]
  have hint (n : ℕ) (hn : n ≤ 8) := leaves_readInt_le locals.size.toNat hn bs
  refine .ite (fun _ => (leaves_uleb128 bs).bind_some fun _ _ => leaves_store _ _ _) fun _ => ?_
  refine .ite (fun _ => (hint 1 (by decide)).bind_some fun _ _ => leaves_store _ _ _) fun _ => ?_
  refine .ite (fun _ => (hint 2 (by decide)).bind_some fun _ _ => leaves_store _ _ _) fun _ => ?_
  refine .ite (fun _ => (hint 4 (by decide)).bind_some fun _ _ => leaves_store _ _ _) fun _ => ?_
  exact .ite (fun _ => (hint 8 (by decide)).bind_some fun _ _ => leaves_store _ _ _) fun _ =>
    leaves_store _ _ _

theorem leaves_md5 :
    Leaves ofBytes (readLnctMd5 locals form entry) bs (skipMd5 form bs) fun _ => True := by
  simp only [readLnctMd5, pure_bind, ne_eq, ite_not]
  have hread := leaves_readBytes locals.md5.toList 16 bs
  rw [skipCopy, if_neg (by simp)] at hread
  exact .ite (fun _ => hread.bind_some fun _ _ => leaves_store _ _ _) fun _ => leaves_store _ _ _

end

theorem leaves_field (isDwarf64 : Bool) (i j : ℕ) (fmt : DwarfLineNumFormatDesc)
    (entry : DwarfLineNumContentEntry) (bs : List UInt8) :
    Leaves ofBytes (readLnctField host isDwarf64 i j fmt entry) bs
      (skipField host isDwarf64 bs fmt) fun _ => True := by
  refine .get_bind (.ite (fun _ => leaves_path host _ _ _ _ _) fun _ => ?_)
  refine .ite (fun _ => leaves_directoryIndex _ _ _ _) fun _ => ?_
  refine .ite (fun _ => leaves_timestamp _ _ _ _) fun _ => ?_
  refine .ite (fun _ => leaves_size _ _ _ _) fun _ => ?_
  refine .ite (fun _ => leaves_md5 _ _ _ _) fun _ => .ite (fun _ => ?_) fun _ => .done
  exact (leaves_cAssert host bs).bind_end fun _ _ _ => .done

theorem leaves_fields (isDwarf64 : Bool) (i : ℕ) : ∀ (j : ℕ) (formats : List DwarfLineNumFormatDesc)
    (entry : DwarfLineNumContentEntry) (bs : List UInt8),
    Leaves ofBytes (readLnctFields host isDwarf64 i j formats entry) bs
      (formats.foldlM (skipField host isDwarf64) bs) fun _ => True
  | _, [], _, _ => .done
  | j, fmt :: formats, entry, bs => by
    rw [List.foldlM_cons]
    exact (leaves_field host isDwarf64 i j fmt entry bs).bind fun _ cs _ =>
      leaves_fields isDwarf64 i (j + 1) formats _ cs

theorem leaves_entries (isDwarf64 : Bool) (formats : List DwarfLineNumFormatDesc) :
    ∀ (i n : ℕ) (bs : List UInt8),
    Leaves ofBytes (readLnctEntries host formats isDwarf64 i n) bs
      (skipEntries host isDwarf64 formats n bs) fun _ => True
  | _, 0, _ => .done
  | i, n + 1, bs =>
    (leaves_fields host isDwarf64 i 0 formats {} bs).bind fun _ cs _ =>
      (leaves_entries isDwarf64 formats (i + 1) n cs).bind_end fun _ _ _ => .done

theorem leaves_formats : ∀ (n : ℕ) (bs : List UInt8),
    Leaves ofBytes (readFormats n) bs (some (takeFormats n bs).2) (· = (takeFormats n bs).1)
  | 0, _ => .pure rfl
  | n + 1, bs => by
    refine (leaves_uleb128 bs).bind_some fun x hx => ?_
    refine (leaves_uleb128 _).bind_some fun y hy => ?_
    refine (leaves_formats n _).bind_some fun formats hf => .pure ?_
    rw [hx, hy, hf]
    rfl

/-- What the decoder needs to know of a header is in its fields of fixed width. -/
structure FixedFields (isDwarf64 : Bool) (unitLength headerLength : UInt64) (bs : List UInt8)
    (header : LineNumProgHeader) : Prop where
  isDwarf64 : header.isDwarf64 = isDwarf64
  unitLength : header.unitLength = unitLength
  headerLength : header.headerLength = headerLength
  maxOps : header.maximumOperationsPerInstruction = bs.getD 1 0
  lineRange : header.lineRange = bs.getD 4 0
  opcodeBase : header.opcodeBase = bs.getD 5 0

theorem headD_drop (bs : List UInt8) (n : ℕ) : (bs.drop n).headD 0 = bs.getD n 0 := by
  rw [List.headD_eq_head?_getD, List.head?_drop, List.getD_eq_getElem?_getD]

theorem leaves_unitLength (bs : List UInt8) :
    Leaves ofBytes (readUnitLength host) bs (skipUnitLength host bs) (·.1 = isDwarf64At bs) := by
  unfold skipUnitLength
  have hlt : uintAt 4 bs < 2 ^ 32 := by
    unfold uintAt
    split
    · have := ofLe_lt (bs.take 4)
      rw [List.length_take_of_le ‹_›] at this
      omega
    · decide
  refine (leaves_uint32 bs).bind_some ?_
  rintro _ rfl
  have hn : (UInt32.ofNat (uintAt 4 bs)).toNat = uintAt 4 bs := UInt32.toNat_ofNat_of_lt' hlt
  have hless : UInt32.ofNat (uintAt 4 bs) < 0xfffffff0 ↔ uintAt 4 bs < 0xfffffff0 := by
    rw [UInt32.lt_iff_toNat_lt, hn]
    rfl
  have hmax : UInt32.ofNat (uintAt 4 bs) = 0xffffffff ↔ isDwarf64At bs = true := by
    rw [← UInt32.toNat_inj, hn, isDwarf64At, decide_eq_true_eq]
    rfl
  rw [if_congr hless rfl rfl, if_congr hmax rfl rfl]
  refine .ite (fun h => .pure ?_) fun _ => .ite (fun h => ?_) fun h => ?_
  · rw [isDwarf64At, decide_eq_false (by omega)]
  · exact (leaves_uint64 (Nat.le_refl 8) _).bind_some fun _ _ => .pure h.symm
  · exact (leaves_cAssert host _).bind_end fun _ _ _ => .pure (Bool.eq_false_iff.mpr h).symm

/-- The entries that are read of a table are what `Ψ` says of its bytes. -/
def TableLeaves (isDwarf64 : Bool) (Ψ : List UInt8 → List DwarfLineNumContentEntry → Prop) : Prop :=
  ∀ bs, Leaves ofBytes (readLnctEntries host (takeFormats (bs.headD 0).toNat (bs.drop 1)).1 isDwarf64
    0 (tableCount bs).toNat) (skipLeb (takeFormats (bs.headD 0).toNat (bs.drop 1)).2)
    (skipTable host isDwarf64 bs) (Ψ bs)

/-- The directories of a header are the table at `bs`, the files the one behind it. -/
structure TablesAre (isDwarf64 : Bool) (Ψ : List UInt8 → List DwarfLineNumContentEntry → Prop)
    (bs : List UInt8) (header : LineNumProgHeader) : Prop where
  directoriesCount : header.directoriesCount = tableCount bs
  directories : Ψ bs header.directories
  files : ∃ cs, skipTable host isDwarf64 bs = some cs ∧ header.fileNamesCount = tableCount cs ∧
    Ψ cs header.fileNames

/-- The header parser, from the byte after `header_length` on. -/
theorem leaves_parseLineHeader_behind {isDwarf64 : Bool} {unitLength headerLength : UInt64}
    {Ψ : List UInt8 → List DwarfLineNumContentEntry → Prop} {bs cs ds : List UInt8}
    (hu : Leaves ofBytes (readUnitLength host) bs (some cs) (· = (isDwarf64, unitLength)))
    (hh : Leaves ofBytes (readUInt64 (if isDwarf64 then 8 else 4)) ((skipBytes 2 cs).drop 2)
      (some ds) (· = headerLength)) (ht : TableLeaves host isDwarf64 Ψ) :
    Leaves ofBytes (parseLineHeader host) bs (skipHeader host isDwarf64 ds) fun header =>
      FixedFields isDwarf64 unitLength headerLength ds header ∧
        ∃ es, skipToTables ds = some es ∧ TablesAre host isDwarf64 Ψ es header := by
  refine hu.bind_some ?_
  rintro _ rfl
  refine (leaves_uint16 cs).bind_some fun _ _ => ?_
  refine (leaves_uint8 _).bind_some fun _ _ => (leaves_uint8 _).bind_some fun _ _ => ?_
  rw [List.drop_drop]
  refine hh.bind_some ?_
  rintro _ rfl
  refine (leaves_uint8 ds).bind_some fun _ _ => (leaves_uint8 _).bind_some fun maxOps h1 => ?_
  refine (leaves_uint8 _).bind_some fun _ _ => (leaves_uint8 _).bind_some fun _ _ => ?_
  refine (leaves_uint8 _).bind_some fun lineRange h4 => ?_
  refine (leaves_uint8 _).bind_some fun opcodeBase h5 => ?_
  simp only [List.drop_drop, headD_drop, Nat.reduceAdd] at h1 h4 h5 ⊢
  unfold skipHeader skipToTables
  rw [← h5]
  have hlengths := leaves_readBytes (List.replicate (opcodeBase.toNat - 1) 0)
    ((opcodeBase.toNat + (2 ^ 64 - 1)) % 2 ^ 64) (ds.drop 6)
  rw [List.length_replicate] at hlengths
  refine hlengths.bind_of_eq fun es hes _ _ => ?_
  refine (leaves_uint8 es).bind_some ?_
  rintro _ rfl
  refine (leaves_formats _ _).bind_some ?_
  rintro _ rfl
  refine (leaves_uleb128 _).bind_some fun count hc => ?_
  rw [hc]
  refine (ht es).bind_of_eq fun fs hfs directories hd => ?_
  refine (leaves_uint8 fs).bind_some ?_
  rintro _ rfl
  refine (leaves_formats _ _).bind_some ?_
  rintro _ rfl
  refine (leaves_uleb128 _).bind_some fun count' hc' => ?_
  rw [hc']
  refine (ht fs).bind_end fun files _ hf => .pure ?_
  exact ⟨⟨rfl, rfl, rfl, h1, h4, h5⟩, es, hes, rfl, hd, fs, hfs, rfl, hf⟩

theorem tableLeaves_entries (isDwarf64 : Bool) : TableLeaves host isDwarf64 fun _ _ => True :=
  fun _ => leaves_entries host isDwarf64 _ _ _ _

/-- **The header parser** on any bytes behind the lengths. -/
theorem leaves_parseLineHeader {isDwarf64 : Bool} {unitLength headerLength : UInt64}
    (version : UInt16) (addressSize segmentSelectorSize : UInt8) (bs : List UInt8)
    (hu : isDwarf64 = false → unitLength.toNat < 0xfffffff0)
    (hh : headerLength.toNat < 256 ^ offsetSize isDwarf64) :
    Leaves ofBytes (parseLineHeader host)
      (lengthBytes isDwarf64 unitLength.toNat ++ (toLe 2 version.toNat ++
        (toLe 1 addressSize.toNat ++ (toLe 1 segmentSelectorSize.toNat ++
          (toLe (offsetSize isDwarf64) headerLength.toNat ++ bs)))))
      (skipHeader host isDwarf64 bs) (FixedFields isDwarf64 unitLength headerLength bs) := by
  have h8 : offsetSize isDwarf64 ≤ 8 := by unfold offsetSize; split <;> simp
  refine (leaves_parseLineHeader_behind host ((reads_unitLength host hu).leaves _) ?_
    (tableLeaves_entries host isDwarf64)).mono fun _ h => h.1
  have hversion : skipBytes 2 (toLe 2 version.toNat ++ (toLe 1 addressSize.toNat ++
      (toLe 1 segmentSelectorSize.toNat ++ (toLe (offsetSize isDwarf64) headerLength.toNat ++ bs)))) =
        toLe 1 addressSize.toNat ++ (toLe 1 segmentSelectorSize.toNat ++
          (toLe (offsetSize isDwarf64) headerLength.toNat ++ bs)) :=
    skipBytes_append (length_toLe 2 _) _
  rw [hversion]
  exact (reads_uint64 h8 hh).leaves bs

/-- **The header parser** on any bytes. -/
theorem leaves_parseLineHeader_tables {Ψ : List UInt8 → List DwarfLineNumContentEntry → Prop}
    (bs : List UInt8) (ht : TableLeaves host (isDwarf64At bs) Ψ) :
    Leaves ofBytes (parseLineHeader host) bs (skipUnitHeader host bs) fun header =>
      header.isDwarf64 = isDwarf64At bs ∧
        ∃ es, tablesAt host bs = some es ∧ TablesAre host (isDwarf64At bs) Ψ es header := by
  have hunit := leaves_unitLength host bs
  unfold skipUnitHeader tablesAt skipLengths
  cases hskip : skipUnitLength host bs with
  | none =>
    rw [hskip] at hunit
    obtain ⟨e, he⟩ := hunit
    exact ⟨e, bind_of_error he⟩
  | some cs =>
    rw [hskip] at hunit
    obtain ⟨⟨isDwarf64, unitLength⟩, hu, rfl⟩ := hunit
    have h8 : offsetSize (isDwarf64At bs) ≤ 8 := by unfold offsetSize; split <;> simp
    obtain ⟨headerLength, hh, -⟩ := leaves_uint64 h8 ((skipBytes 2 cs).drop 2)
    rw [Option.map_some, Option.bind_some, Option.bind_some]
    refine (leaves_parseLineHeader_behind host ⟨_, hu, rfl⟩ ⟨_, hh, rfl⟩ ht).mono ?_
    rintro header ⟨hfixed, htables⟩
    exact ⟨hfixed.isDwarf64, htables⟩

theorem leaves_parseLineHeader_ofBytes (bs : List UInt8) :
    Leaves ofBytes (parseLineHeader host) bs (skipUnitHeader host bs)
      (·.isDwarf64 = isDwarf64At bs) :=
  (leaves_parseLineHeader_tables host bs (tableLeaves_entries host _)).mono fun _ h => h.1

/-! ### The program -/

variable (header : LineNumProgHeader) (stateMachine : LineNumStateMachine) (table : LineInfoTable)

theorem toUInt64_eq_zero (x : UInt8) : x.toUInt64 = 0 ↔ x = 0 := by
  rw [← UInt64.toNat_inj, ← UInt8.toNat_inj, UInt8.toNat_toUInt64]
  rfl

theorem leaves_advancePc (opAdvance : UInt64) (bs : List UInt8) :
    Leaves ofBytes (liftM (stateMachineAdvancePc stateMachine header opAdvance) : Parse _) bs
      (if header.maximumOperationsPerInstruction = 0 then none else some bs) fun _ => True := by
  unfold stateMachineAdvancePc
  by_cases h : header.maximumOperationsPerInstruction = 0
  · rw [if_pos h]
    simp only [(toUInt64_eq_zero _).mpr h, ↓reduceIte]
    exact ⟨.divByZero, rfl⟩
  · rw [if_neg h]
    simp only [mt (toUInt64_eq_zero _).mp h, ↓reduceIte]
    exact .of_ok rfl

/-- A division by the line range, then the advance. -/
theorem leaves_divide {α : Type} {opAdvance : UInt64} {f : LineNumStateMachine → α}
    (bs : List UInt8) :
    Leaves ofBytes
      (if header.lineRange = 0 then do
        throw .divByZero
        let stateMachine ← stateMachineAdvancePc stateMachine header opAdvance
        pure (f stateMachine)
      else do
        let stateMachine ← stateMachineAdvancePc stateMachine header opAdvance
        pure (f stateMachine) : Parse α) bs
      (if header.lineRange = 0 ∨ header.maximumOperationsPerInstruction = 0 then none else some bs)
      fun _ => True := by
  by_cases h : header.lineRange = 0
  · rw [if_pos h, if_pos (.inl h)]
    exact ⟨.divByZero, rfl⟩
  · rw [if_neg h]
    have hadv := (leaves_advancePc header stateMachine opAdvance bs).bind_end
      (f := fun sm => pure (f sm)) (Ψ := fun _ => True) fun _ _ _ => .done
    simpa [h] using hadv

theorem leaves_decodeExtended (bs : List UInt8) :
    Leaves ofBytes (decodeExtended header stateMachine table) bs (skipExtended bs)
      fun _ => True := by
  refine (leaves_uleb128 bs).bind_some fun x hx => (leaves_uint8 _).bind_some ?_
  rintro _ rfl
  rw [hx]
  unfold skipExtended
  cases hs : skipLeb bs with
  | nil => exact .done
  | cons opcode cs =>
    refine .ite (fun _ => .done) fun _ => .ite (fun _ => ?_) fun _ => .ite (fun _ => ?_) fun _ => .done
    · exact (leaves_readInt 8 0 _ cs).bind_end fun _ _ _ => .done
    · exact (leaves_uleb128 cs).bind_some fun _ _ => .done

theorem leaves_decodeStandard (opcode : UInt8) (bs : List UInt8) :
    Leaves ofBytes (decodeStandard header opcode stateMachine table) bs
      (skipStandard header.maximumOperationsPerInstruction header.lineRange opcode bs)
      fun _ => True := by
  have hu := leaves_uleb128 bs
  refine .ite (fun _ => .done) fun _ => .ite (fun _ => hu.bind_some fun _ _ => ?_) fun _ => ?_
  · exact (leaves_advancePc header stateMachine _ (skipLeb bs)).bind_end fun _ _ _ => .done
  refine .ite (fun _ => (leaves_sleb128 bs).bind_some fun _ _ => .done) fun _ => ?_
  refine .ite (fun _ => hu.bind_some fun _ _ => .done) fun _ => ?_
  refine .ite (fun _ => hu.bind_some fun _ _ => .done) fun _ => ?_
  refine .ite (fun _ => .done) fun _ => .ite (fun _ => .done) fun _ => ?_
  refine .ite (fun _ => leaves_divide _ _ _) fun _ => .ite (fun _ => ?_) fun _ => ?_
  · have hint := (leaves_readInt_le 0 (Nat.le_refl 2) bs).bind_some
      (f := fun x => pure (UInt16.ofNat x.2)) (Ψ := fun _ => True) fun _ _ => .done
    exact hint.bind_some fun _ _ => .done
  refine .ite (fun _ => .done) fun _ => .ite (fun _ => .done) fun _ => ?_
  exact .ite (fun _ => hu.bind_some fun _ _ => .done) fun _ => .done

theorem leaves_decodeSpecial (opcode : UInt8) (bs : List UInt8) :
    Leaves ofBytes (decodeSpecial header opcode stateMachine table) bs
      (if header.lineRange = 0 ∨ header.maximumOperationsPerInstruction = 0 then none else some bs)
      fun _ => True :=
  leaves_divide _ _ _

/-- **An iteration of the decoder's loop** on any bytes. -/
theorem leaves_decodeStep (state : DecodeState) (opcode : UInt8) (bs : List UInt8) :
    Leaves ofBytes (decodeStep header state) (opcode :: bs)
      (skipInstruction header.maximumOperationsPerInstruction header.lineRange
        header.opcodeBase (opcode :: bs)) fun flow => ∃ state', flow = .next state' := by
  unfold Leaves
  rw [decodeStep_cons]
  change Leaves ofBytes _ bs _ _
  refine Leaves.bind_end (Φ := fun _ => True) ?_ fun state' _ _ => .pure ⟨state', rfl⟩
  refine .ite (fun _ => leaves_decodeExtended _ _ _ _) fun _ => ?_
  exact .ite (fun _ => leaves_decodeStandard _ _ _ _ _) fun _ => leaves_decodeSpecial _ _ _ _ _

end Dabugger.Dwarf.Widths
