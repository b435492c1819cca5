import Dabugger.Dwarf.Reached

/-! # The copies of the parser

What the parser asks `read_bytes` for: each call with the bytes that its destination holds and the
value of its count, before it becomes a `size_t` (`Call`). The calls of a header and of an instruction
move the reader as the parser does (`replay_header`, `replay_instruction`). Three counts come from the
file; all calls fit in their destinations (`ReadsFit`) exactly if these do. -/

namespace Dabugger.Dwarf.Copies

open Dabugger.Lib.Bytes Dabugger.Lib.Exact Dabugger.Lib.Loop Dabugger.Base
open Dabugger.Base.BinaryReader Dabugger.Reader Dabugger.Dwarf.Types Dabugger.Dwarf.Header
open Dabugger.Dwarf.HeaderEncoding Dabugger.Dwarf.Program Dabugger.Dwarf.Widths
open Dabugger.Dwarf.Reached

/-- A call that moves the reader. -/
inductive Call where
  /-- `read_bytes` to a destination of `size` bytes -/
  | readBytes (size : ℕ) (count : ℤ)
  | readCstring
  deriving DecidableEq

/-- What the call leaves of the bytes, or `none` where its copy overruns the destination; the count is a
`size_t`. -/
def Call.run : Call → List UInt8 → Option (List UInt8)
  | .readBytes size count, bs => skipCopy size (count % 2 ^ 64).toNat bs
  | .readCstring, bs => some (skipString bs)

/-- **The call fits**: its count has not wrapped around, and the destination holds so many bytes. -/
def Call.Fits : Call → Prop
  | .readBytes size count => 0 ≤ count ∧ count ≤ size
  | .readCstring => True

/-- What calls one after another leave. -/
def replay (calls : List Call) (bs : List UInt8) : Option (List UInt8) :=
  calls.foldlM (fun bs call => call.run bs) bs

/-! ### The calls -/

/-- `byte` of `read_uleb128` and `read_sleb128`, as often as it is read. -/
def lebCalls : ℕ → List UInt8 → List Call
  | 0, _ => []
  | _ + 1, [] => [.readBytes 1 1]
  | n + 1, b :: bs => .readBytes 1 1 :: if b.toNat < 128 then [] else lebCalls n bs

/-- `read_lnct_path`. -/
def pathCalls (isDwarf64 : Bool) (form : DwarfFormCode) : List Call :=
  if form = Form.string then [.readCstring]
  else if form = Form.lineStrp ∨ form = Form.strp ∨ form = Form.strpSup then
    [.readBytes 8 (if isDwarf64 then 8 else 4)]
  else []

/-- `read_lnct_directory_index`. -/
def directoryIndexCalls (form : DwarfFormCode) (bs : List UInt8) : List Call :=
  if form = Form.data1 then [.readBytes 8 1]
  else if form = Form.data2 then [.readBytes 8 2]
  else if form = Form.udata then lebCalls 10 bs
  else []

/-- `read_lnct_timestamp`. -/
def timestampCalls (form : DwarfFormCode) (bs : List UInt8) : List Call :=
  if form = Form.udata then lebCalls 10 bs
  else if form = Form.data4 then [.readBytes 8 4]
  else if form = Form.data8 then [.readBytes 8 8]
  else if form = Form.block then lebCalls 10 bs ++ [.readBytes 8 (lebAt bs).toNat]
  else []

/-- `read_lnct_size`. -/
def sizeCalls (form : DwarfFormCode) (bs : List UInt8) : List Call :=
  if form = Form.udata then lebCalls 10 bs
  else if form = Form.data1 then [.readBytes 8 1]
  else if form = Form.data2 then [.readBytes 8 2]
  else if form = Form.data4 then [.readBytes 8 4]
  else if form = Form.data8 then [.readBytes 8 8]
  else []

/-- `read_lnct_md5`. -/
def md5Calls (form : DwarfFormCode) : List Call :=
  if form = Form.data16 then [.readBytes 16 16] else []

/-- The `switch` of `read_lnct_entries`. -/
def fieldCalls (isDwarf64 : Bool) (field : DwarfLineNumFormatDesc × List UInt8) : List Call :=
  let (fmt, bs) := field
  if fmt.contentType = Lnct.path then pathCalls isDwarf64 fmt.formCode
  else if fmt.contentType = Lnct.directoryIndex then directoryIndexCalls fmt.formCode bs
  else if fmt.contentType = Lnct.timestamp then timestampCalls fmt.formCode bs
  else if fmt.contentType = Lnct.size then sizeCalls fmt.formCode bs
  else if fmt.contentType = Lnct.md5 then md5Calls fmt.formCode
  else []

/-- The loops over the formats. -/
def formatsCalls : ℕ → List UInt8 → List Call
  | 0, _ => []
  | n + 1, bs => lebCalls 10 bs ++ (lebCalls 10 (skipLeb bs) ++ formatsCalls n (skipLeb (skipLeb bs)))

/-- The fields of the entries of a table, with its formats before them. -/
def tableFields (host : Host) (isDwarf64 : Bool) (bs : List UInt8) :
    List (DwarfLineNumFormatDesc × List UInt8) :=
  let behind := takeFormats (bs.headD 0).toNat (bs.drop 1)
  (entriesAt host isDwarf64 behind.1 (lebAt behind.2).toNat (skipLeb behind.2)).flatten

/-- A list of formats, and the entries in these formats. -/
def tableCalls (host : Host) (isDwarf64 : Bool) (bs : List UInt8) : List Call :=
  let behind := takeFormats (bs.headD 0).toNat (bs.drop 1)
  .readBytes 1 1 :: (formatsCalls (bs.headD 0).toNat (bs.drop 1) ++
    (lebCalls 10 behind.2 ++ (tableFields host isDwarf64 bs).flatMap (fieldCalls isDwarf64)))

/-- The fields of the entries of both tables, as far as the run comes. -/
def headerFields (host : Host) (isDwarf64 : Bool) (bs : List UInt8) :
    List (DwarfLineNumFormatDesc × List UInt8) :=
  tableFields host isDwarf64 bs ++
    (skipTable host isDwarf64 bs).elim [] (tableFields host isDwarf64)

/-- Behind `standard_opcode_lengths`, which is at the start of `bs`. -/
def skipOpcodeLengths (opcodeBase : UInt8) (bs : List UInt8) : Option (List UInt8) :=
  skipCopy (opcodeBase.toNat - 1) ((opcodeBase.toNat + (2 ^ 64 - 1)) % 2 ^ 64) bs

/-- The fields behind `header_length`, and the tables. -/
def headerCalls (host : Host) (isDwarf64 : Bool) (bs : List UInt8) : List Call :=
  List.replicate 6 (.readBytes 1 1) ++
    .readBytes ((bs.getD 5 0).toNat - 1) ((bs.getD 5 0).toNat - 1) ::
      (skipOpcodeLengths (bs.getD 5 0) (bs.drop 6)).elim [] fun cs =>
        tableCalls host isDwarf64 cs ++
          (skipTable host isDwarf64 cs).elim [] (tableCalls host isDwarf64)

/-- `parse_line_header`. -/
def unitHeaderCalls (host : Host) (bs : List UInt8) : List Call :=
  .readBytes 4 4 :: ((if isDwarf64At bs then [.readBytes 8 8] else []) ++
    (skipUnitLength host bs).elim [] fun cs =>
      [.readBytes 2 2, .readBytes 1 1, .readBytes 1 1,
        .readBytes 8 (if isDwarf64At bs then 8 else 4)] ++
      headerCalls host (isDwarf64At bs)
        (skipBytes (offsetSize (isDwarf64At bs)) ((skipBytes 2 cs).drop 2)))

/-- The branch of `decode_line_num_prog` for extended opcodes. -/
def extendedCalls (bs : List UInt8) : List Call :=
  lebCalls 10 bs ++ .readBytes 1 1 ::
    if (skipLeb bs).headD 0 = Lne.setAddress then [.readBytes 8 ((lebAt bs).toNat - 1)]
    else if (skipLeb bs).headD 0 = Lne.setDiscriminator then lebCalls 10 ((skipLeb bs).drop 1)
    else []

/-- The branch of `decode_line_num_prog` for standard opcodes. -/
def standardCalls (opcode : UInt8) (bs : List UInt8) : List Call :=
  if opcode ∈ [Lns.advancePc, Lns.advanceLine, Lns.setFile, Lns.setColumn, Lns.setIsa] then
    lebCalls 10 bs
  else if opcode = Lns.fixedAdvancePc then [.readBytes 2 2]
  else []

/-- The body of the loop of `decode_line_num_prog`. -/
def instructionCalls (header : LineNumProgHeader) : List UInt8 → List Call
  | [] => [.readBytes 1 1]
  | opcode :: bs => .readBytes 1 1 ::
    if opcode = 0 then extendedCalls bs
    else if opcode < header.opcodeBase then standardCalls opcode bs
    else []

/-! ### The calls move the reader as the parser does -/

section
variable {host : Host} {isDwarf64 : Bool} {bs cs : List UInt8}

theorem toNat_emod {count : ℤ} (h : 0 ≤ count) (hlt : count < 2 ^ 64) :
    (count % 2 ^ 64).toNat = count.toNat := by
  rw [Int.emod_eq_of_lt h hlt]

/-- A call that fits overruns nothing. -/
theorem run_of_fits {size : ℕ} {count : ℤ} (hsize : size < 2 ^ 64)
    (h : (Call.readBytes size count).Fits) (bs : List UInt8) :
    (Call.readBytes size count).run bs = some (skipBytes count.toNat bs) := by
  obtain ⟨h0, hle⟩ := h
  rw [Call.run, toNat_emod h0 (by omega), skipCopy, if_neg (by omega)]

theorem replay_nil (bs : List UInt8) : replay [] bs = some bs := rfl

theorem replay_cons (call : Call) (calls : List Call) (bs : List UInt8) :
    replay (call :: calls) bs = (call.run bs).bind (replay calls) := rfl

theorem replay_append (calls calls' : List Call) (bs : List UInt8) :
    replay (calls ++ calls') bs = (replay calls bs).bind (replay calls') :=
  List.foldlM_append

theorem replay_singleton (call : Call) (bs : List UInt8) :
    replay [call] bs = call.run bs := by
  rw [replay_cons]
  exact Option.bind_fun_some _

/-- A read that fits in its variable. -/
theorem replay_read (size count : ℕ) (h : count ≤ size) (hsize : size < 2 ^ 64)
    (calls : List Call) (bs : List UInt8) :
    replay (.readBytes size count :: calls) bs = replay calls (skipBytes count bs) := by
  have hfits : (Call.readBytes size count).Fits := ⟨Int.natCast_nonneg _, Int.ofNat_le.mpr h⟩
  rw [replay_cons, run_of_fits hsize hfits, Option.bind_some, Int.toNat_natCast]

/-- Where the parser leaves something, the calls leave the same. -/
def Follows (calls : List Call) (bs : List UInt8) (o : Option (List UInt8)) : Prop :=
  ∀ cs, o = some cs → replay calls bs = some cs

theorem Follows.of_eq {calls : List Call} {o : Option (List UInt8)}
    (h : replay calls bs = o) : Follows calls bs o := by
  rintro cs rfl
  exact h

theorem Follows.ite {c : Prop} [Decidable c] {calls calls' : List Call}
    {o o' : Option (List UInt8)} (h : c → Follows calls bs o)
    (h' : ¬ c → Follows calls' bs o') :
    Follows (if c then calls else calls') bs (if c then o else o') := by
  by_cases hc : c
  · rw [if_pos hc, if_pos hc]
    exact h hc
  · rw [if_neg hc, if_neg hc]
    exact h' hc

theorem Follows.append {calls calls' : List Call} {o : Option (List UInt8)}
    {k : List UInt8 → Option (List UInt8)} (h : Follows calls bs o)
    (h' : ∀ cs, o = some cs → Follows calls' cs (k cs)) :
    Follows (calls ++ calls') bs (o.bind k) := by
  intro ds hds
  obtain ⟨cs, hcs, hk⟩ := Option.bind_eq_some_iff.mp hds
  rw [replay_append, h cs hcs, Option.bind_some]
  exact h' cs hcs ds hk

/-- An assertion that fails, behind the last call. -/
theorem Follows.skipAssert {calls : List Call} (h : replay calls bs = some cs) :
    Follows calls bs (skipAssert host cs) := by
  intro ds hds
  unfold Widths.skipAssert at hds
  split at hds
  · cases hds
  · rw [h, hds]

theorem skipBytes_one (bs : List UInt8) : skipBytes 1 bs = bs.drop 1 := by
  cases bs with
  | nil => rfl
  | cons b bs => rw [skipBytes, if_pos (by simp)]

/-- A byte that is read to a variable of its own. -/
theorem replay_byte (calls : List Call) (bs : List UInt8) :
    replay (.readBytes 1 1 :: calls) bs = replay calls (bs.drop 1) := by
  rw [← skipBytes_one]
  exact replay_read 1 1 (Nat.le_refl 1) (by decide) calls bs

theorem replay_lebCalls : ∀ (n : ℕ) (bs : List UInt8),
    replay (lebCalls n bs) bs = some (bs.drop (lebSpan n bs))
  | 0, _ => rfl
  | _ + 1, [] => by
    rw [lebCalls, replay_byte]
    rfl
  | n + 1, b :: bs => by
    rw [lebCalls, replay_byte, List.drop_one, List.tail_cons, lebSpan]
    by_cases hb : b.toNat < 128
    · rw [if_pos hb, if_pos hb]
      rfl
    · rw [if_neg hb, if_neg hb, replay_lebCalls n bs]
      rfl

theorem replay_leb (calls : List Call) (bs : List UInt8) :
    replay (lebCalls 10 bs ++ calls) bs = replay calls (skipLeb bs) := by
  rw [replay_append, replay_lebCalls, Option.bind_some]
  rfl

theorem Follows.byte {calls : List Call} {o : Option (List UInt8)}
    (h : Follows calls (bs.drop 1) o) : Follows (.readBytes 1 1 :: calls) bs o := by
  intro cs hcs
  rw [replay_byte]
  exact h cs hcs

theorem Follows.leb {calls : List Call} {o : Option (List UInt8)}
    (h : Follows calls (skipLeb bs) o) : Follows (lebCalls 10 bs ++ calls) bs o := by
  intro cs hcs
  rw [replay_leb]
  exact h cs hcs

theorem replay_number (bs : List UInt8) : replay (lebCalls 10 bs) bs = some (skipLeb bs) :=
  replay_lebCalls 10 bs

/-- An integer of a fixed width. -/
theorem replay_uint (count : ℕ) (h : count ≤ 8) (bs : List UInt8) :
    replay [.readBytes 8 count] bs = some (skipBytes count bs) :=
  replay_read 8 count h (by decide) [] bs

theorem follows_path (form : DwarfFormCode) (bs : List UInt8) :
    Follows (pathCalls isDwarf64 form) bs (skipPath host isDwarf64 form bs) := by
  have hoffset : replay [.readBytes 8 (if isDwarf64 then 8 else 4)] bs =
      some (skipBytes (if isDwarf64 then 8 else 4) bs) := by
    cases isDwarf64
    · exact replay_uint 4 (by decide) bs
    · exact replay_uint 8 (Nat.le_refl 8) bs
  refine .ite (fun _ => .of_eq rfl) fun _ => .ite (fun _ => ?_) fun _ => .of_eq rfl
  by_cases hstrp : form = Form.strp
  · rw [if_pos hstrp]
    exact .skipAssert hoffset
  · rw [if_neg hstrp]
    exact .of_eq hoffset

theorem follows_directoryIndex (form : DwarfFormCode) (bs : List UInt8) :
    Follows (directoryIndexCalls form bs) bs (skipDirectoryIndex form bs) := by
  refine .ite (fun _ => .of_eq (replay_uint 1 (by decide) bs)) fun _ => ?_
  refine .ite (fun _ => .of_eq (replay_uint 2 (by decide) bs)) fun _ => ?_
  exact .ite (fun _ => .of_eq (replay_number bs)) fun _ => .of_eq rfl

theorem follows_timestamp (form : DwarfFormCode) (bs : List UInt8) :
    Follows (timestampCalls form bs) bs (skipTimestamp form bs) := by
  refine .ite (fun _ => .of_eq (replay_number bs)) fun _ => ?_
  refine .ite (fun _ => .of_eq (replay_uint 4 (by decide) bs)) fun _ => ?_
  refine .ite (fun _ => .of_eq (replay_uint 8 (by decide) bs)) fun _ => ?_
  refine .ite (fun _ => .of_eq ?_) fun _ => .of_eq rfl
  have hcount : (((lebAt bs).toNat : ℤ) % 2 ^ 64).toNat = (lebAt bs).toNat :=
    toNat_emod (Int.natCast_nonneg _) (Int.ofNat_lt.mpr (lebAt bs).toNat_lt)
  rw [replay_leb, replay_singleton, Call.run, hcount]

theorem follows_size (form : DwarfFormCode) (bs : List UInt8) :
    Follows (sizeCalls form bs) bs (skipSize form bs) := by
  refine .ite (fun _ => .of_eq (replay_number bs)) fun _ => ?_
  refine .ite (fun _ => .of_eq (replay_uint 1 (by decide) bs)) fun _ => ?_
  refine .ite (fun _ => .of_eq (replay_uint 2 (by decide) bs)) fun _ => ?_
  refine .ite (fun _ => .of_eq (replay_uint 4 (by decide) bs)) fun _ => ?_
  exact .ite (fun _ => .of_eq (replay_uint 8 (by decide) bs)) fun _ => .of_eq rfl

theorem follows_md5 (form : DwarfFormCode) (bs : List UInt8) :
    Follows (md5Calls form) bs (skipMd5 form bs) :=
  .ite (fun _ => .of_eq (replay_read 16 16 (Nat.le_refl 16) (by decide) [] bs)) fun _ => .of_eq rfl

theorem follows_field (fmt : DwarfLineNumFormatDesc) (bs : List UInt8) :
    Follows (fieldCalls isDwarf64 (fmt, bs)) bs (skipField host isDwarf64 bs fmt) := by
  refine .ite (fun _ => follows_path _ bs) fun _ => ?_
  refine .ite (fun _ => follows_directoryIndex _ bs) fun _ => ?_
  refine .ite (fun _ => follows_timestamp _ bs) fun _ => .ite (fun _ => follows_size _ bs) fun _ => ?_
  refine .ite (fun _ => follows_md5 _ bs) fun _ => ?_
  split
  · exact .skipAssert rfl
  · exact .of_eq rfl

/-- The fields of an entry. -/
theorem follows_fields : ∀ (formats : List DwarfLineNumFormatDesc) (bs : List UInt8),
    Follows ((fieldsAt host isDwarf64 formats bs).flatMap (fieldCalls isDwarf64)) bs
      (formats.foldlM (skipField host isDwarf64) bs)
  | [], _ => .of_eq rfl
  | fmt :: formats, bs => by
    rw [fieldsAt, List.flatMap_cons, List.foldlM_cons]
    refine (follows_field fmt bs).append fun cs hcs => ?_
    rw [hcs, Option.elim_some]
    exact follows_fields formats cs

theorem follows_entries (formats : List DwarfLineNumFormatDesc) : ∀ (n : ℕ) (bs : List UInt8),
    Follows ((entriesAt host isDwarf64 formats n bs).flatten.flatMap (fieldCalls isDwarf64)) bs
      (skipEntries host isDwarf64 formats n bs)
  | 0, _ => .of_eq rfl
  | n + 1, bs => by
    rw [entriesAt, List.flatten_cons, List.flatMap_append]
    refine (follows_fields formats bs).append fun cs hcs => ?_
    rw [hcs, Option.elim_some]
    exact follows_entries formats n cs

theorem replay_formats : ∀ (n : ℕ) (bs : List UInt8),
    replay (formatsCalls n bs) bs = some (takeFormats n bs).2
  | 0, _ => rfl
  | n + 1, bs => by
    rw [formatsCalls, replay_leb, replay_leb, replay_formats n]
    rfl

theorem follows_table (bs : List UInt8) :
    Follows (tableCalls host isDwarf64 bs) bs (skipTable host isDwarf64 bs) := by
  refine .byte fun cs hcs => ?_
  rw [replay_append, replay_formats, Option.bind_some, replay_leb]
  exact follows_entries _ _ _ cs hcs

/-- The fields behind `header_length`, and the tables. -/
theorem follows_header (bs : List UInt8) :
    Follows (headerCalls host isDwarf64 bs) bs (skipHeader host isDwarf64 bs) := by
  have hcount : ((((bs.getD 5 0).toNat : ℤ) - 1) % 2 ^ 64).toNat =
      ((bs.getD 5 0).toNat + (2 ^ 64 - 1)) % 2 ^ 64 := by
    omega
  have hlengths : replay
      [.readBytes ((bs.getD 5 0).toNat - 1) ((bs.getD 5 0).toNat - 1)] (bs.drop 6) =
        skipOpcodeLengths (bs.getD 5 0) (bs.drop 6) := by
    rw [replay_singleton, Call.run, hcount]
    rfl
  have htables : Follows
      ([.readBytes ((bs.getD 5 0).toNat - 1) ((bs.getD 5 0).toNat - 1)] ++
        (skipOpcodeLengths (bs.getD 5 0) (bs.drop 6)).elim [] fun cs =>
          tableCalls host isDwarf64 cs ++
            (skipTable host isDwarf64 cs).elim [] (tableCalls host isDwarf64))
      (bs.drop 6) (skipHeader host isDwarf64 bs) := by
    refine (Follows.of_eq hlengths).append fun cs hcs => ?_
    rw [hcs, Option.elim_some]
    refine (follows_table cs).append fun ds hds => ?_
    rw [hds, Option.elim_some]
    exact follows_table ds
  unfold headerCalls
  simp only [List.replicate_succ, List.replicate_zero, List.cons_append, List.nil_append]
  refine .byte (.byte (.byte (.byte (.byte (.byte ?_)))))
  rw [List.drop_drop, List.drop_drop, List.drop_drop, List.drop_drop, List.drop_drop]
  exact htables

/-- The second part of a 64-bit unit length. -/
theorem follows_unitLength (bs : List UInt8) :
    Follows (if isDwarf64At bs then [.readBytes 8 8] else []) (skipBytes 4 bs)
      (skipUnitLength host bs) := by
  unfold skipUnitLength
  by_cases hlt : uintAt 4 bs < 0xfffffff0
  · have hnot : ¬ isDwarf64At bs = true := by
      rw [isDwarf64At, decide_eq_true_eq]
      omega
    rw [if_pos hlt, if_neg hnot]
    exact .of_eq rfl
  · rw [if_neg hlt]
    exact .ite (fun _ => .of_eq (replay_uint 8 (Nat.le_refl 8) _)) fun _ => .skipAssert rfl

theorem follows_unitHeader (bs : List UInt8) :
    Follows (unitHeaderCalls host bs) bs (skipUnitHeader host bs) := by
  intro cs hcs
  obtain ⟨ds, hlengths, hfields⟩ := Option.bind_eq_some_iff.mp hcs
  obtain ⟨es, hunit, rfl⟩ := Option.map_eq_some_iff.mp hlengths
  have hstart (calls : List Call) (bs : List UInt8) :
      replay (.readBytes 4 4 :: calls) bs = replay calls (skipBytes 4 bs) :=
    replay_read 4 4 (Nat.le_refl 4) (by decide) calls bs
  have hversion (calls : List Call) (bs : List UInt8) :
      replay (.readBytes 2 2 :: calls) bs = replay calls (skipBytes 2 bs) :=
    replay_read 2 2 (Nat.le_refl 2) (by decide) calls bs
  have hlength (calls : List Call) (bs : List UInt8) (isDwarf64 : Bool) :
      replay (.readBytes 8 (if isDwarf64 then 8 else 4) :: calls) bs =
        replay calls (skipBytes (offsetSize isDwarf64) bs) := by
    cases isDwarf64
    · exact replay_read 8 4 (by decide) (by decide) calls bs
    · exact replay_read 8 8 (by decide) (by decide) calls bs
  unfold unitHeaderCalls
  rw [hstart, replay_append, follows_unitLength bs es hunit, Option.bind_some, hunit,
    Option.elim_some, List.cons_append, hversion, List.cons_append, replay_byte, List.cons_append,
    replay_byte, List.cons_append, hlength, List.drop_drop]
  exact follows_header _ cs hfields

/-- **The calls of a header** move the reader as `parse_line_header` does. -/
theorem replay_header {header : LineNumProgHeader} {r : BinaryReader}
    (h : parseLineHeader host (ofBytes bs) = .ok (header, r)) :
    ∃ cs, replay (unitHeaderCalls host bs) bs = some cs ∧ r = ofBytes cs := by
  obtain ⟨cs, hskip, hr, -⟩ := (leaves_parseLineHeader_ofBytes host bs).of_run h
  exact ⟨cs, follows_unitHeader bs cs hskip, hr⟩

/-- The count of the operand of `DW_LNE_set_address`. -/
theorem replay_address (size : UInt64) (bs : List UInt8) :
    replay [.readBytes 8 (size.toNat - 1)] bs = skipCopy 8 (size - 1).toNat bs := by
  have hcount : (((size.toNat : ℤ) - 1) % 2 ^ 64).toNat = (size - 1).toNat := by
    rw [UInt64.toNat_sub]
    have := size.toNat_lt
    simp only [UInt64.reduceToNat]
    omega
  rw [replay_singleton, Call.run, hcount]

theorem follows_extended (bs : List UInt8) :
    Follows (extendedCalls bs) bs (skipExtended bs) := by
  refine .leb (.byte ?_)
  unfold skipExtended
  cases skipLeb bs with
  | nil => exact .of_eq rfl
  | cons opcode ds =>
    rw [List.headD_cons, List.drop_one, List.tail_cons]
    dsimp only
    by_cases hend : opcode = Lne.endSequence
    · rw [if_pos hend, hend]
      exact .of_eq rfl
    rw [if_neg hend]
    refine .ite (fun _ => .of_eq (replay_address _ ds)) fun _ => ?_
    exact .ite (fun _ => .of_eq (replay_number ds)) fun _ => .of_eq rfl

theorem follows_standard (maxOps lineRange opcode : UInt8) (bs : List UInt8) :
    Follows (standardCalls opcode bs) bs (skipStandard maxOps lineRange opcode bs) := by
  intro cs h
  unfold standardCalls
  by_cases hnumber :
      opcode ∈ [Lns.advancePc, Lns.advanceLine, Lns.setFile, Lns.setColumn, Lns.setIsa]
  · rw [if_pos hnumber, replay_number]
    simp only [List.mem_cons, List.not_mem_nil, or_false] at hnumber
    rcases hnumber with rfl | rfl | rfl | rfl | rfl
    · change (if maxOps = 0 then none else some (skipLeb bs)) = some cs at h
      rwa [if_neg fun h0 => by rw [if_pos h0] at h; cases h] at h
    all_goals exact h
  rw [if_neg hnumber]
  by_cases hfixed : opcode = Lns.fixedAdvancePc
  · rw [if_pos hfixed]
    subst hfixed
    rw [← h]
    exact replay_read 2 2 (Nat.le_refl 2) (by decide) [] bs
  · rw [if_neg hfixed, replay_nil]
    simp only [List.mem_cons, List.not_mem_nil, or_false, not_or] at hnumber
    obtain ⟨h1, h2, h3, h4, h5⟩ := hnumber
    -- the other opcodes have no operand
    unfold skipStandard at h
    simp only [h1, h2, h3, h4, h5, hfixed, if_false] at h
    split_ifs at h <;> exact h

theorem follows_instruction (header : LineNumProgHeader) (opcode : UInt8) (operand : List UInt8) :
    Follows (instructionCalls header (opcode :: operand)) (opcode :: operand)
      (skipInstruction header.maximumOperationsPerInstruction header.lineRange
        header.opcodeBase (opcode :: operand)) := by
  refine .byte (.ite (fun _ => follows_extended operand) fun _ => ?_)
  refine .ite (fun _ => follows_standard _ _ opcode operand) fun _ cs hcs => ?_
  -- a special opcode has no operand
  split at hcs
  · cases hcs
  · exact hcs

/-- **The calls of an instruction** move the reader as the body of the loop does. -/
theorem replay_instruction {header : LineNumProgHeader} {state : DecodeState}
    {flow : Flow DecodeState} {r : BinaryReader}
    (h : decodeStep header state (ofBytes bs) = .ok (flow, r)) :
    ∃ cs, replay (instructionCalls header bs) bs = some cs ∧ r = ofBytes cs := by
  cases bs with
  | nil =>
    cases h
    exact ⟨[], replay_byte [] [], rfl⟩
  | cons opcode operand =>
    obtain ⟨cs, hskip, hr, -⟩ := (leaves_decodeStep header state opcode operand).of_run h
    exact ⟨cs, follows_instruction header opcode operand cs hskip, hr⟩

end

/-! ### Calls that fit -/

/-- All of the calls fit. -/
def AllFit (calls : List Call) : Prop := ∀ call ∈ calls, call.Fits

@[simp] theorem allFit_nil : AllFit [] := List.forall_mem_nil _

@[simp] theorem allFit_cons (call : Call) (calls : List Call) :
    AllFit (call :: calls) ↔ call.Fits ∧ AllFit calls := List.forall_mem_cons

@[simp] theorem allFit_append (calls calls' : List Call) :
    AllFit (calls ++ calls') ↔ AllFit calls ∧ AllFit calls' := List.forall_mem_append

theorem allFit_flatMap {β : Type} (l : List β) (f : β → List Call) :
    AllFit (l.flatMap f) ↔ ∀ x ∈ l, AllFit (f x) := by
  unfold AllFit
  simp only [List.mem_flatMap]
  constructor
  · intro h x hx call hcall
    exact h call ⟨x, hx, hcall⟩
  · rintro h call ⟨x, hx, hcall⟩
    exact h x hx call hcall

theorem allFit_ite {c : Prop} [Decidable c] {calls calls' : List Call} (h : AllFit calls)
    (h' : AllFit calls') : AllFit (if c then calls else calls') := by
  split
  · exact h
  · exact h'

theorem fits_readBytes {size count : ℕ} (h : count ≤ size) : (Call.readBytes size count).Fits :=
  ⟨Int.natCast_nonneg _, Int.ofNat_le.mpr h⟩

theorem fits_byte : (Call.readBytes 1 1).Fits := fits_readBytes (Nat.le_refl 1)

theorem allFit_read {size count : ℕ} (h : count ≤ size) : AllFit [.readBytes size count] :=
  (allFit_cons _ _).mpr ⟨fits_readBytes h, allFit_nil⟩

theorem allFit_lebCalls : ∀ (n : ℕ) (bs : List UInt8), AllFit (lebCalls n bs)
  | 0, _ => allFit_nil
  | _ + 1, [] => allFit_read (Nat.le_refl 1)
  | n + 1, _ :: bs =>
    (allFit_cons _ _).mpr ⟨fits_byte, allFit_ite allFit_nil (allFit_lebCalls n bs)⟩

/-- A timestamp in a block is no longer than its variable. -/
def TimestampFits (field : DwarfLineNumFormatDesc × List UInt8) : Prop :=
  field.1.contentType = Lnct.timestamp → field.1.formCode = Form.block →
    (lebAt field.2).toNat ≤ 8

theorem allFit_timestampCalls (form : DwarfFormCode) (bs : List UInt8) :
    AllFit (timestampCalls form bs) ↔ (form = Form.block → (lebAt bs).toNat ≤ 8) := by
  unfold timestampCalls
  by_cases hblock : form = Form.block
  · subst hblock
    rw [if_neg (by decide), if_neg (by decide), if_neg (by decide), if_pos rfl]
    simp [allFit_lebCalls, Call.Fits]
  · rw [if_neg hblock]
    have hfit : AllFit (if form = Form.udata then lebCalls 10 bs
        else if form = Form.data4 then [.readBytes 8 4]
        else if form = Form.data8 then [.readBytes 8 8] else []) := by
      refine allFit_ite (allFit_lebCalls 10 bs) (allFit_ite ?_ (allFit_ite ?_ allFit_nil))
      · exact allFit_read (by decide : 4 ≤ 8)
      · exact allFit_read (Nat.le_refl 8)
    exact iff_of_true hfit fun h => absurd h hblock

theorem allFit_fieldCalls (isDwarf64 : Bool) (field : DwarfLineNumFormatDesc × List UInt8) :
    AllFit (fieldCalls isDwarf64 field) ↔ TimestampFits field := by
  obtain ⟨fmt, bs⟩ := field
  unfold fieldCalls TimestampFits
  dsimp only
  by_cases htimestamp : fmt.contentType = Lnct.timestamp
  · have hpath : fmt.contentType ≠ Lnct.path := by
      rw [htimestamp]
      decide
    have hindex : fmt.contentType ≠ Lnct.directoryIndex := by
      rw [htimestamp]
      decide
    rw [if_neg hpath, if_neg hindex, if_pos htimestamp, allFit_timestampCalls]
    exact ⟨fun h _ => h, fun h => h htimestamp⟩
  · rw [if_neg htimestamp]
    have huint (count : ℕ) (h : count ≤ 8) : AllFit [.readBytes 8 count] := allFit_read h
    have hpath : AllFit (pathCalls isDwarf64 fmt.formCode) := by
      refine allFit_ite ((allFit_cons _ _).mpr ⟨trivial, allFit_nil⟩) (allFit_ite ?_ allFit_nil)
      cases isDwarf64
      · exact huint 4 (by decide)
      · exact huint 8 (by decide)
    have hindex : AllFit (directoryIndexCalls fmt.formCode bs) :=
      allFit_ite (huint 1 (by decide)) (allFit_ite (huint 2 (by decide))
        (allFit_ite (allFit_lebCalls 10 bs) allFit_nil))
    have hsize : AllFit (sizeCalls fmt.formCode bs) :=
      allFit_ite (allFit_lebCalls 10 bs) (allFit_ite (huint 1 (by decide))
        (allFit_ite (huint 2 (by decide)) (allFit_ite (huint 4 (by decide))
          (allFit_ite (huint 8 (by decide)) allFit_nil))))
    have hmd5 : AllFit (md5Calls fmt.formCode) :=
      allFit_ite (allFit_read (Nat.le_refl 16)) allFit_nil
    refine iff_of_true ?_ fun h => absurd h htimestamp
    exact allFit_ite hpath (allFit_ite hindex (allFit_ite hsize (allFit_ite hmd5 allFit_nil)))

theorem allFit_formatsCalls : ∀ (n : ℕ) (bs : List UInt8), AllFit (formatsCalls n bs)
  | 0, _ => allFit_nil
  | n + 1, bs => by
    rw [formatsCalls, allFit_append, allFit_append]
    exact ⟨allFit_lebCalls 10 bs, allFit_lebCalls 10 _, allFit_formatsCalls n _⟩

theorem allFit_tableCalls (host : Host) (isDwarf64 : Bool) (bs : List UInt8) :
    AllFit (tableCalls host isDwarf64 bs) ↔
      ∀ field ∈ tableFields host isDwarf64 bs, TimestampFits field := by
  unfold tableCalls
  rw [allFit_cons, allFit_append, allFit_append, allFit_flatMap]
  simp only [fits_byte, allFit_formatsCalls, allFit_lebCalls, true_and, allFit_fieldCalls]

/-- The calls on the fields behind `header_length` and on the tables fit, as far as the run comes. -/
theorem allFit_headerCalls (host : Host) (isDwarf64 : Bool) (bs : List UInt8) :
    AllFit (headerCalls host isDwarf64 bs) ↔
      bs.getD 5 0 ≠ 0 ∧ ∀ cs, skipOpcodeLengths (bs.getD 5 0) (bs.drop 6) = some cs →
        ∀ field ∈ headerFields host isDwarf64 cs, TimestampFits field := by
  have hbase : (Call.readBytes ((bs.getD 5 0).toNat - 1) ((bs.getD 5 0).toNat - 1)).Fits ↔
      bs.getD 5 0 ≠ 0 := by
    rw [Call.Fits, Ne, ← UInt8.toNat_inj, UInt8.toNat_zero]
    omega
  have hfields : AllFit (List.replicate 6 (.readBytes 1 1)) := by
    intro call hcall
    rw [List.eq_of_mem_replicate hcall]
    exact fits_byte
  have htable (o : Option (List UInt8)) :
      AllFit (o.elim [] (tableCalls host isDwarf64)) ↔
        ∀ field ∈ o.elim [] (tableFields host isDwarf64), TimestampFits field := by
    cases o with
    | none => exact iff_of_true allFit_nil (List.forall_mem_nil _)
    | some cs => exact allFit_tableCalls host isDwarf64 cs
  unfold headerCalls headerFields
  rw [allFit_append, allFit_cons, hbase]
  simp only [hfields, true_and]
  refine and_congr_right fun _ => ?_
  cases skipOpcodeLengths (bs.getD 5 0) (bs.drop 6) with
  | none => exact iff_of_true allFit_nil (by rintro _ ⟨⟩)
  | some cs =>
    rw [Option.elim_some, allFit_append, allFit_tableCalls, htable]
    simp only [Option.some.injEq, forall_eq', List.forall_mem_append]

theorem allFit_unitHeaderCalls (host : Host) (bs : List UInt8) :
    AllFit (unitHeaderCalls host bs) ↔ ∀ cs, skipLengths host bs = some cs →
      AllFit (headerCalls host (isDwarf64At bs) cs) := by
  have hstart : (Call.readBytes 4 4).Fits := fits_readBytes (Nat.le_refl 4)
  have hlong : AllFit (if isDwarf64At bs then [.readBytes 8 8] else []) :=
    allFit_ite (allFit_read (Nat.le_refl 8)) allFit_nil
  have hversion : (Call.readBytes 2 2).Fits := fits_readBytes (Nat.le_refl 2)
  have hlength : (Call.readBytes 8 (if isDwarf64At bs then 8 else 4)).Fits := by
    cases isDwarf64At bs
    · exact fits_readBytes (by decide : 4 ≤ 8)
    · exact fits_readBytes (Nat.le_refl 8)
  unfold unitHeaderCalls skipLengths
  rw [allFit_cons, allFit_append]
  cases skipUnitLength host bs with
  | none => simp [hstart, hlong]
  | some cs => simp [hstart, hlong, hversion, hlength, fits_byte]

theorem allFit_extendedCalls (bs : List UInt8) :
    AllFit (extendedCalls bs) ↔ ((skipLeb bs).headD 0 = Lne.setAddress →
      1 ≤ (lebAt bs).toNat ∧ (lebAt bs).toNat ≤ 9) := by
  unfold extendedCalls
  rw [allFit_append, allFit_cons]
  by_cases haddress : (skipLeb bs).headD 0 = Lne.setAddress
  · rw [if_pos haddress]
    simp only [allFit_lebCalls, allFit_cons, allFit_nil, Call.Fits, true_and, and_true, haddress,
      true_implies]
    omega
  · rw [if_neg haddress]
    have hfit : AllFit (if (skipLeb bs).headD 0 = Lne.setDiscriminator then
        lebCalls 10 ((skipLeb bs).drop 1) else []) := allFit_ite (allFit_lebCalls 10 _) allFit_nil
    exact iff_of_true ⟨allFit_lebCalls 10 bs, fits_byte, hfit⟩ fun h => absurd h haddress

theorem allFit_standardCalls (opcode : UInt8) (bs : List UInt8) :
    AllFit (standardCalls opcode bs) :=
  allFit_ite (allFit_lebCalls 10 bs) (allFit_ite (allFit_read (Nat.le_refl 2)) allFit_nil)

theorem allFit_instructionCalls (header : LineNumProgHeader) (bs : List UInt8) :
    AllFit (instructionCalls header bs) ↔ ∀ operand, bs = 0 :: operand →
      (skipLeb operand).headD 0 = Lne.setAddress →
        1 ≤ (lebAt operand).toNat ∧ (lebAt operand).toNat ≤ 9 := by
  cases bs with
  | nil => exact iff_of_true (allFit_read (Nat.le_refl 1)) (by rintro _ ⟨⟩)
  | cons opcode operand =>
    rw [instructionCalls, allFit_cons]
    by_cases hextended : opcode = 0
    · subst hextended
      rw [if_pos rfl, allFit_extendedCalls]
      simp [fits_byte]
    · rw [if_neg hextended]
      have hfit := allFit_ite (c := opcode < header.opcodeBase)
        (allFit_standardCalls opcode operand) allFit_nil
      refine iff_of_true ⟨fits_byte, hfit⟩ fun _ h => absurd (List.cons.inj h).1 hextended

/-! ### Sections -/

/-- `parse_debug_line_section` makes the call. -/
def CalledIn (host : Host) (sections : ProgramSections) (call : Call) : Prop :=
  (∃ bs, UnitAt host sections bs ∧ call ∈ unitHeaderCalls host bs) ∨
    ∃ header bs, InstructionAt host sections header bs ∧ call ∈ instructionCalls header bs

/-- **No read is wider than its destination.** -/
def ReadsFit (host : Host) (sections : ProgramSections) : Prop :=
  ∀ call, CalledIn host sections call → call.Fits

/-- **The reads fit** exactly if no header that the parser comes to has the `opcode_base` zero or a
timestamp in a block of more than eight bytes, and every `DW_LNE_set_address` that it comes to has a
length from one to nine. -/
theorem readsFit_iff (host : Host) (sections : ProgramSections) :
    ReadsFit host sections ↔
      (∀ bs, UnitAt host sections bs → ∀ cs, skipLengths host bs = some cs →
        cs.getD 5 0 ≠ 0 ∧
          ∀ ds, skipOpcodeLengths (cs.getD 5 0) (cs.drop 6) = some ds →
            ∀ field ∈ headerFields host (isDwarf64At bs) ds, TimestampFits field) ∧
      ∀ header operand, InstructionAt host sections header (0 :: operand) →
        (skipLeb operand).headD 0 = Lne.setAddress →
          1 ≤ (lebAt operand).toNat ∧ (lebAt operand).toNat ≤ 9 := by
  constructor
  · intro h
    constructor
    · intro bs hunit cs hskip
      have hfit : AllFit (unitHeaderCalls host bs) := fun call hcall => h call (.inl ⟨bs, hunit, hcall⟩)
      exact (allFit_headerCalls _ _ _).mp ((allFit_unitHeaderCalls _ _).mp hfit cs hskip)
    · intro header operand hinstruction
      have hfit : AllFit (instructionCalls header (0 :: operand)) :=
        fun call hcall => h call (.inr ⟨header, _, hinstruction, hcall⟩)
      exact (allFit_instructionCalls _ _).mp hfit operand rfl
  · rintro ⟨hheaders, hinstructions⟩ call (⟨bs, hunit, hcall⟩ | ⟨header, bs, hinstruction, hcall⟩)
    · have hfit : AllFit (unitHeaderCalls host bs) := by
        rw [allFit_unitHeaderCalls]
        intro cs hskip
        exact (allFit_headerCalls _ _ _).mpr (hheaders bs hunit cs hskip)
      exact hfit call hcall
    · have hfit : AllFit (instructionCalls header bs) := by
        rw [allFit_instructionCalls]
        rintro operand rfl
        exact hinstructions header operand hinstruction
      exact hfit call hcall

/-- The fields of a header without entries, from the byte after `header_length` on. -/
def bareFields : List UInt8 := [1, 1, 1, 0xfb, 14, 1, 0, 0, 0, 0]

/-- `DW_LNE_set_address` with nine bytes. -/
def longAddress : List UInt8 := [0, 10, 2, 1, 2, 3, 4, 5, 6, 7, 8, 9]

/-- A unit with this instruction. -/
def longAddressSections : ProgramSections where
  debugLine := ⟨0, lengthBytes false 30 ++ (toLe 2 5 ++ (toLe 1 8 ++ (toLe 1 0 ++
    (toLe 4 10 ++ (bareFields ++ longAddress))))), by decide +kernel⟩

/-- Nine bytes are read to `address`. -/
theorem not_readsFit_longAddress :
    ¬ ∀ (host : Host) (sections : ProgramSections), ReadsFit host sections := by
  intro h
  have hunit : UnitAt (.zeroed true) longAddressSections longAddressSections.debugLine.data :=
    ⟨[], .refl _, rfl⟩
  have hskip : skipHeader (.zeroed true) false (bareFields ++ longAddress) = some longAddress := by
    decide +kernel
  have hleaves := @leaves_parseLineHeader (.zeroed true) false 30 10 5 8 0
    (bareFields ++ longAddress) (by decide) (by decide)
  rw [hskip] at hleaves
  obtain ⟨header, hheader, hfixed⟩ := hleaves
  have hlength : lineProgLength header = 12 := by
    rw [lineProgLength, hfixed.isDwarf64, hfixed.unitLength, hfixed.headerLength]
    decide
  have hinstruction : InstructionAt (.zeroed true) longAddressSections header longAddress := by
    refine ⟨longAddress, decodeStart header, ⟨_, hunit, hheader⟩, ?_, .refl _, ?_⟩
    · rw [hlength]
      rfl
    · rw [hlength]
      rfl
  have hread : Call.readBytes 8 9 ∈ extendedCalls longAddress.tail := by decide
  have hcall := h _ _ _ (.inr ⟨header, _, hinstruction, List.mem_cons_of_mem _ hread⟩)
  exact absurd hcall.2 (by decide)

end Dabugger.Dwarf.Copies
