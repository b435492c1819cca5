import Dabugger.Dwarf.Refinement
import Dabugger.Dwarf.Termination
import Dabugger.Dwarf.Widths

/-! # The length of an extended instruction

`decode_line_num_prog` reads the length of an extended instruction, and uses it for
`DW_LNE_set_address` only: what an opcode that it does not know has for an operand is decoded as
instructions. `IsTaken` says when the decoder gets to the end of the instruction and no further; an
unknown instruction is then as if it were not there (`framed_iff`). -/

namespace Dabugger.Dwarf.Framing

open Dabugger.Lib.Bytes Dabugger.Lib.Exact Dabugger.Lib.Loop Dabugger.Base
open Dabugger.Base.BinaryReader Dabugger.Reader Dabugger.Dwarf.Types Dabugger.Dwarf.Header
open Dabugger.Dwarf.HeaderRoundTrip Dabugger.Dwarf.Program Dabugger.Dwarf.Refinement
open Dabugger.Dwarf.Termination Dabugger.Dwarf.Widths

/-! ### Extended instructions -/

/-- An extended instruction: its length, which may be padded, its opcode, and what else the length
counts. -/
structure ExtendedInstruction where
  size : List UInt8
  opcode : UInt8
  operand : List UInt8
  isLeb : IsLeb size
  ulebVal_size : ulebVal size = operand.length + 1
  length_lt : operand.length + 1 < 2 ^ 64

namespace ExtendedInstruction

variable (i : ExtendedInstruction)

/-- Its bytes. -/
def bytes : List UInt8 := 0 :: (i.size ++ i.opcode :: i.operand)

/-- The decoder has no case for it. -/
def IsUnknown : Prop :=
  i.opcode ≠ Lne.endSequence ∧ i.opcode ≠ Lne.setAddress ∧ i.opcode ≠ Lne.setDiscriminator

/-- The decoder takes the operand, in front of `after`. -/
def TakesOperand (after : List UInt8) : Prop :=
  if i.opcode = Lne.endSequence then i.operand = []
  else if i.opcode = Lne.setAddress then i.operand.length ≤ 8
  else if i.opcode = Lne.setDiscriminator then lebSpan 10 (i.operand ++ after) = i.operand.length
  else i.operand = []

/-- It takes the length besides, which has at most ten bytes. -/
def IsTaken (after : List UInt8) : Prop := i.size.length ≤ 10 ∧ i.TakesOperand after

variable {i} in
theorem isUleb (h : i.size.length ≤ 10) : IsUleb (i.operand.length + 1) i.size :=
  ⟨i.isLeb, h, i.ulebVal_size⟩

theorem bytes_append (after : List UInt8) :
    i.bytes ++ after = 0 :: (i.size ++ i.opcode :: (i.operand ++ after)) := by
  rw [bytes, List.cons_append, List.append_assoc, List.cons_append]

theorem length_bytes_pos : 0 < i.bytes.length := Nat.succ_pos _

variable {i} in
theorem IsUnknown.takesOperand_iff (h : i.IsUnknown) (after : List UInt8) :
    i.TakesOperand after ↔ i.operand = [] := by
  rw [TakesOperand, if_neg h.1, if_neg h.2.1, if_neg h.2.2]

end ExtendedInstruction

section
variable {i : ExtendedInstruction} {after : List UInt8}

/-- What is skipped of an instruction. -/
theorem skipExtended_eq (hsize : i.size.length ≤ 10) (after : List UInt8) :
    skipExtended (i.size ++ i.opcode :: (i.operand ++ after)) =
      if i.opcode = Lne.endSequence then some (i.operand ++ after)
      else if i.opcode = Lne.setAddress then skipCopy 8 i.operand.length (i.operand ++ after)
      else if i.opcode = Lne.setDiscriminator then some (skipLeb (i.operand ++ after))
      else some (i.operand ++ after) := by
  have hspan := (lebSpan_append (i.opcode :: (i.operand ++ after)) i.isLeb hsize).1
  have hskip : skipLeb (i.size ++ i.opcode :: (i.operand ++ after)) =
      i.opcode :: (i.operand ++ after) := by
    rw [skipLeb, hspan, List.drop_left]
  have hlen : (lebAt (i.size ++ i.opcode :: (i.operand ++ after)) - 1).toNat =
      i.operand.length := by
    have hlt := i.length_lt
    rw [lebAt, hspan, List.take_left, i.ulebVal_size, UInt64.ofNat_add]
    have hsub : UInt64.ofNat i.operand.length + UInt64.ofNat 1 - 1 =
        UInt64.ofNat i.operand.length := by grind
    rw [hsub, UInt64.toNat_ofNat_of_lt' (show _ < 2 ^ 64 by omega)]
  rw [skipExtended, hskip]
  dsimp only
  rw [hlen]

theorem skipCopy_iff (w : ℕ) (operand after : List UInt8) :
    skipCopy w operand.length (operand ++ after) = some after ↔ operand.length ≤ w := by
  have hle : operand.length ≤ (operand ++ after).length := by
    rw [List.length_append]
    exact Nat.le_add_right _ _
  unfold skipCopy skipBytes
  by_cases hover : w < operand.length
  · rw [if_pos ⟨hover, hle⟩]
    exact iff_of_false nofun hover.not_ge
  · rw [if_neg fun h => hover h.1, if_pos hle, List.drop_left]
    exact iff_of_true rfl (not_lt.mp hover)

theorem skipLeb_iff (operand after : List UInt8) :
    skipLeb (operand ++ after) = after ↔ lebSpan 10 (operand ++ after) = operand.length := by
  have hle := lebSpan_le 10 (operand ++ after)
  unfold skipLeb
  constructor
  · intro h
    have hlen := congrArg List.length h
    rw [List.length_append] at hle
    rw [List.length_drop, List.length_append] at hlen
    omega
  · intro h
    rw [h, List.drop_left]

/-- Of a length with more than ten bytes the rest is taken for an opcode. -/
theorem skipExtended_ne (hsize : 10 < i.size.length) (after : List UInt8) :
    skipExtended (i.size ++ i.opcode :: (i.operand ++ after)) ≠ some after := by
  obtain ⟨c, cs, hdrop⟩ : ∃ c cs, i.size.drop 10 = c :: cs := by
    refine List.exists_cons_of_ne_nil fun hnil => ?_
    have hlen := congrArg List.length hnil
    rw [List.length_drop, List.length_nil] at hlen
    omega
  -- the length is less than `2^64`: nothing of it is in the bytes behind the tenth
  have hzero : ulebVal (c :: cs) = 0 := by
    have hsplit := ulebVal_append (i.size.take 10) (i.size.drop 10)
    rw [List.take_append_drop, i.ulebVal_size, hdrop, List.length_take,
      Nat.min_eq_left hsize.le] at hsplit
    have hlt := i.length_lt
    by_contra hne
    have hle : 128 ^ 10 * 1 ≤ 128 ^ 10 * ulebVal (c :: cs) :=
      Nat.mul_le_mul_left _ (Nat.one_le_iff_ne_zero.mpr hne)
    omega
  rw [ulebVal_cons] at hzero
  have hskip : skipLeb (i.size ++ i.opcode :: (i.operand ++ after)) =
      c :: (cs ++ i.opcode :: (i.operand ++ after)) := by
    rw [skipLeb, lebSpan_of_lt _ i.isLeb hsize, List.drop_append_of_le_length hsize.le, hdrop,
      List.cons_append]
  have hne : ∀ opcode : UInt8, opcode.toNat % 128 ≠ 0 → c ≠ opcode := by
    rintro _ hopcode rfl
    omega
  rw [skipExtended, hskip]
  dsimp only
  rw [if_neg (hne _ (by decide)), if_neg (hne _ (by decide)), if_neg (hne _ (by decide))]
  intro h
  have hlen := congrArg List.length (Option.some.inj h)
  rw [List.length_append, List.length_cons, List.length_append] at hlen
  omega

/-- The instruction is skipped exactly if it is taken. -/
theorem skipExtended_iff (i : ExtendedInstruction) (after : List UInt8) :
    skipExtended (i.size ++ i.opcode :: (i.operand ++ after)) = some after ↔
      i.IsTaken after := by
  by_cases hsize : i.size.length ≤ 10
  · rw [skipExtended_eq hsize, ExtendedInstruction.IsTaken, and_iff_right hsize,
      ExtendedInstruction.TakesOperand]
    split_ifs
    · rw [Option.some_inj, List.append_left_eq_self]
    · exact skipCopy_iff 8 i.operand after
    · rw [Option.some_inj, skipLeb_iff]
    · rw [Option.some_inj, List.append_left_eq_self]
  · exact iff_of_false (skipExtended_ne (not_le.mp hsize) after) fun h => hsize h.1

variable {header : LineNumProgHeader} {state : DecodeState}

/-- **An extended instruction**: the decoder gets behind it exactly if it is taken. -/
theorem decodeStep_extended_iff (i : ExtendedInstruction) (after : List UInt8) :
    (∃ state', decodeStep header state (ofBytes (i.bytes ++ after)) =
      .ok (.next state', ofBytes after)) ↔ i.IsTaken after := by
  have hstep := leaves_decodeStep header state 0
    (i.size ++ i.opcode :: (i.operand ++ after))
  rw [skipInstruction, if_pos rfl] at hstep
  rw [← skipExtended_iff, i.bytes_append]
  cases hskip : skipExtended (i.size ++ i.opcode :: (i.operand ++ after)) with
  | none =>
    rw [hskip] at hstep
    obtain ⟨e, he⟩ := hstep
    rw [he]
    exact iff_of_false nofun nofun
  | some cs =>
    rw [hskip] at hstep
    obtain ⟨_, hok, state', rfl⟩ := hstep
    rw [hok, Option.some_inj]
    constructor
    · rintro ⟨_, h⟩
      exact ofBytes_injective (congrArg Prod.snd (Except.ok.inj h))
    · rintro rfl
      exact ⟨state', rfl⟩

/-- **An unknown instruction** changes nothing; what it has for an operand is not taken. -/
theorem decodeStep_unknown (hi : i.IsUnknown) (hsize : i.size.length ≤ 10) (after : List UInt8) :
    decodeStep header state (ofBytes (i.bytes ++ after)) =
      .ok (.next state, ofBytes (i.operand ++ after)) := by
  obtain ⟨hend, haddress, hdiscriminator⟩ := hi
  have hextended : Reads ofBytes (decodeExtended header state.1 state.2)
      (i.size ++ [i.opcode]) state := by
    refine (reads_readUleb128 (i.isUleb hsize)).bind ((reads_byte i.opcode).bind_pure ?_)
    dsimp only
    rw [if_neg hend, if_neg haddress, if_neg hdiscriminator]
    exact .pure _
  have hopcode : Reads ofBytes (decodeOpcode header 0 state) (i.size ++ [i.opcode]) state :=
    hextended
  have hstep := reads_decodeStep_cons hopcode (i.operand ++ after)
  rwa [List.cons_append, List.append_assoc, List.singleton_append, ← i.bytes_append] at hstep

end

/-! ### The decoder does not look ahead -/

section
variable (header : LineNumProgHeader) (stateMachine : LineNumStateMachine)
  (table : LineInfoTable)

theorem local_uint8 : Local ofBytes readUInt8 :=
  (local_readInt 1 0 1).bind fun _ => .pure _

theorem local_advancePc (opAdvance : UInt64) :
    Local ofBytes (liftM (stateMachineAdvancePc stateMachine header opAdvance) : Parse _) :=
  .lift _

theorem local_divByZero {α : Type} : Local ofBytes (throw .divByZero : Parse α) := by
  rintro bs s s' x t - ⟨⟩

theorem local_decodeExtended : Local ofBytes (decodeExtended header stateMachine table) := by
  refine local_readUleb128.bind fun _ => local_uint8.bind fun _ => .ite (.pure _) ?_
  refine .ite ((local_readInt _ _ _).bind fun _ => .pure _) ?_
  exact .ite (local_readUleb128.bind fun _ => .pure _) (.pure _)

theorem local_decodeStandard (opcode : UInt8) :
    Local ofBytes (decodeStandard header opcode stateMachine table) := by
  have hu := local_readUleb128
  refine .ite (.pure _) (.ite (hu.bind fun _ => (local_advancePc _ _ _).bind fun _ => .pure _) ?_)
  refine .ite (local_readSleb128.bind fun _ => .pure _) ?_
  refine .ite (hu.bind fun _ => .pure _) (.ite (hu.bind fun _ => .pure _) ?_)
  refine .ite (.pure _) (.ite (.pure _) (.ite (.ite ?_ ?_) ?_))
  · exact local_divByZero.bind fun _ => (local_advancePc _ _ _).bind fun _ => .pure _
  · exact (local_advancePc _ _ _).bind fun _ => .pure _
  have hu16 : Local ofBytes readUInt16 := (local_readInt 2 0 2).bind fun _ => .pure _
  refine .ite (hu16.bind fun _ => .pure _) (.ite (.pure _) (.ite (.pure _) ?_))
  exact .ite (hu.bind fun _ => .pure _) (.pure _)

theorem local_decodeSpecial (opcode : UInt8) :
    Local ofBytes (decodeSpecial header opcode stateMachine table) := by
  refine .ite ?_ ((local_advancePc _ _ _).bind fun _ => .pure _)
  exact local_divByZero.bind fun _ => (local_advancePc _ _ _).bind fun _ => .pure _

/-- **An iteration of the decoder** does not look ahead. -/
theorem local_decodeStep (state : DecodeState) : Local ofBytes (decodeStep header state) := by
  refine (local_readInt _ _ _).bind fun _ => .ite (.pure _) (Local.bind ?_ fun _ => .pure _)
  exact .ite (local_decodeExtended _ _ _) (.ite (local_decodeStandard _ _ _ _)
    (local_decodeSpecial _ _ _ _))

end

/-! ### A program without an instruction -/

/-- The header of a unit that is `n` bytes shorter. -/
def without (header : LineNumProgHeader) (n : ℕ) : LineNumProgHeader :=
  { header with unitLength := header.unitLength - UInt64.ofNat n }

/-- The decoder comes to `rest` behind `before`. -/
def Comes (header : LineNumProgHeader) (before rest : List UInt8)
    (state : DecodeState) : Prop :=
  Visits (decodeCond (before ++ rest).length (lineProgLength header)) (decodeStep header)
    (decodeStart header, ofBytes (before ++ rest)) (state, ofBytes rest)

theorem lineProgLength_without {header : LineNumProgHeader} {n : ℕ}
    (h : n ≤ (lineProgLength header).toNat) :
    (lineProgLength (without header n)).toNat = (lineProgLength header).toNat - n := by
  have hn : (UInt64.ofNat n).toNat = n :=
    UInt64.toNat_ofNat_of_lt' (h.trans_lt (lineProgLength header).toNat_lt)
  have hsub : lineProgLength (without header n) = lineProgLength header - UInt64.ofNat n := by
    unfold lineProgLength without
    grind
  rw [hsub, UInt64.toNat_sub_of_le _ _ (by rwa [UInt64.le_iff_toNat_le, hn]), hn]

section
variable {host : Host} {header : LineNumProgHeader} {before : List UInt8}
  {i : ExtendedInstruction} {after : List UInt8} {state : DecodeState}

/-- **Without an instruction that changes nothing** the decoder comes to what is behind it in the same
state. -/
theorem Comes.without (hc : Comes header before (i.bytes ++ after) state)
    (hfits : before.length + i.bytes.length ≤ (lineProgLength header).toNat) :
    Comes (without header i.bytes.length) before after state := by
  have hpos := i.length_bytes_pos
  have hlength : (lineProgLength (Framing.without header i.bytes.length)).toNat = _ :=
    lineProgLength_without (by omega)
  refine Visits.of_local ofBytes_injective (local_decodeStep header) ?_ ?_ ?_ hc
    (Nat.le_refl _) rfl rfl
  · intro state cs state' ds h
    rcases decodeStep_lt header h with ⟨_, ⟨⟩⟩ | hlt
    exact hlt
  · rw [List.length_append]
    exact Nat.le_add_left _ _
  · intro state cs hcs hle _
    unfold decodeCond
    rw [hlength, remaining_ofBytes, List.length_append, List.length_append, decide_eq_true_eq]
    omega

/-- What is behind the instruction is decoded in the same way. -/
theorem whileLoop_without (hfits : before.length + i.bytes.length ≤ (lineProgLength header).toNat)
    (state : DecodeState) (n : ℕ) :
    whileLoop (decodeCond (before ++ after).length
        (lineProgLength (without header i.bytes.length))) (decodeStep header) n state
        (ofBytes after) =
      whileLoop (decodeCond (before ++ (i.bytes ++ after)).length (lineProgLength header))
        (decodeStep header) n state (ofBytes after) := by
  have hlength : (lineProgLength (without header i.bytes.length)).toNat = _ :=
    lineProgLength_without (by omega)
  refine whileLoop_congr (P := fun r => r.remaining ≤ after.length) ?_ ?_ n state (ofBytes after)
    (Nat.le_refl _)
  · intro state r hr
    unfold decodeCond
    rw [hlength, List.length_append, List.length_append, List.length_append, decide_eq_decide]
    omega
  · intro state r flow r' hr h
    exact ((ends_decodeStep header state).le r flow r' h).trans hr

/-- **Without an instruction that changes nothing** the decoder returns the same. -/
theorem decodeLineNumProg_without
    (hfits : before.length + i.bytes.length ≤ (lineProgLength header).toNat)
    (hc : Comes header before (i.bytes ++ after) state)
    (hstep : decodeStep header state (ofBytes (i.bytes ++ after)) =
      .ok (.next state, ofBytes after)) :
    decodeLineNumProg host (without header i.bytes.length) (ofBytes (before ++ after)) =
      decodeLineNumProg host header (ofBytes (before ++ (i.bytes ++ after))) := by
  have hpos := i.length_bytes_pos
  have hlength : (lineProgLength (without header i.bytes.length)).toNat = _ :=
    lineProgLength_without (by omega)
  -- both loops end as the one does behind the instruction
  obtain ⟨y, hy⟩ := decodeLoop_ends header (lineProgLength header)
    (before ++ (i.bytes ++ after)).length state (ofBytes after)
  have hnext : Visits (decodeCond (before ++ (i.bytes ++ after)).length (lineProgLength header))
      (decodeStep header) (state, ofBytes (i.bytes ++ after)) (state, ofBytes after) := by
    refine .step ?_ hstep (.refl _)
    unfold decodeCond
    rw [remaining_ofBytes, List.length_append, decide_eq_true_eq]
    omega
  obtain ⟨n, hn⟩ := (hc.trans hnext).whileLoop hy
  obtain ⟨n', hn'⟩ := (hc.without hfits).whileLoop ((whileLoop_without hfits state _).trans hy)
  obtain ⟨x, hx⟩ := decodeLoop_ends header (lineProgLength header)
    (ofBytes (before ++ (i.bytes ++ after))).remaining (decodeStart header)
    (ofBytes (before ++ (i.bytes ++ after)))
  obtain ⟨x', hx'⟩ := decodeLoop_ends (without header i.bytes.length)
    (lineProgLength (without header i.bytes.length)) (ofBytes (before ++ after)).remaining
    (decodeStart (without header i.bytes.length)) (ofBytes (before ++ after))
  obtain rfl := whileLoop_unique hx hn
  obtain rfl := whileLoop_unique hx' hn'
  have hassert : decide ((lineProgLength (without header i.bytes.length)).toNat ≤
      (before ++ after).length) =
        decide ((lineProgLength header).toNat ≤ (before ++ (i.bytes ++ after)).length) := by
    rw [hlength, List.length_append, List.length_append, List.length_append, decide_eq_decide]
    omega
  rw [decodeLineNumProg_apply, decodeLineNumProg_apply, hx, hx', remaining_ofBytes,
    remaining_ofBytes, hassert]

/-- **The instruction is framed by its length**, which counts the opcode and the operand: the decoder
gets exactly behind it. If it does not know the opcode, no register and no row has changed, and the
decoder returns what it returns for the program without the instruction. -/
structure Framed (host : Host) (header : LineNumProgHeader) (before : List UInt8)
    (i : ExtendedInstruction) (after : List UInt8) (state : DecodeState) : Prop where
  moves : ∃ state', decodeStep header state (ofBytes (i.bytes ++ after)) =
    .ok (.next state', ofBytes after)
  unchanged : i.IsUnknown → decodeStep header state (ofBytes (i.bytes ++ after)) =
    .ok (.next state, ofBytes after)
  deleted : i.IsUnknown →
    decodeLineNumProg host (without header i.bytes.length) (ofBytes (before ++ after)) =
      decodeLineNumProg host header (ofBytes (before ++ (i.bytes ++ after)))

/-- **Extended instructions.** An extended instruction that fits in the program and that the decoder
comes to is framed by its length exactly if the decoder takes the length and the operand. -/
theorem framed_iff (hfits : before.length + i.bytes.length ≤ (lineProgLength header).toNat)
    (hc : Comes header before (i.bytes ++ after) state) :
    Framed host header before i after state ↔ i.IsTaken after := by
  constructor
  · intro h
    exact (decodeStep_extended_iff i after).mp h.moves
  · intro h
    have hunchanged : i.IsUnknown → decodeStep header state (ofBytes (i.bytes ++ after)) =
        .ok (.next state, ofBytes after) := by
      intro hi
      rw [decodeStep_unknown hi h.1 after, (hi.takesOperand_iff after).mp h.2]
      rfl
    exact ⟨(decodeStep_extended_iff i after).mpr h, hunchanged,
      fun hi => decodeLineNumProg_without hfits hc (hunchanged hi)⟩

end

/-! ### A small program -/

/-- The header of `sampleHeader`. -/
def sampleProgHeader : LineNumProgHeader := parsedHeader sampleHeader [] []

/-- An instruction of a vendor. -/
def vendorInstruction : ExtendedInstruction where
  size := [1]
  opcode := 0x80
  operand := []
  isLeb := by decide
  ulebVal_size := by decide
  length_lt := by decide

/-- The same with an operand, which is also the opcode `DW_LNS_copy`. -/
def vendorInstructionWithOperand : ExtendedInstruction where
  size := [2]
  opcode := 0x80
  operand := [1]
  isLeb := by decide
  ulebVal_size := by decide
  length_lt := by decide

/-- An instruction of a vendor, behind the first one of `sampleProgram`. -/
theorem framed_iff_sample : ∃ state, Framed (.zeroed true) sampleProgHeader
    [0, 9, 2, 0, 16, 0, 0, 0, 0, 0, 0] vendorInstruction [1] state := by
  have hc : Comes sampleProgHeader [0, 9, 2, 0, 16, 0, 0, 0, 0, 0, 0]
      (vendorInstruction.bytes ++ [1]) _ :=
    .step rfl rfl (.refl _)
  exact ⟨_, (framed_iff (by decide) hc).mpr ⟨by decide, rfl⟩⟩

/-- With an operand it is not: the operand is decoded as an instruction. -/
theorem not_framed_vendor : ¬ ∀ (host : Host) (header : LineNumProgHeader) (before : List UInt8)
    (i : ExtendedInstruction) (after : List UInt8) (state : DecodeState),
      before.length + i.bytes.length ≤ (lineProgLength header).toNat →
      Comes header before (i.bytes ++ after) state →
        Framed host header before i after state := by
  intro h
  have hframed := h (.zeroed true) sampleProgHeader [] vendorInstructionWithOperand [] _
    (by decide) (.refl _)
  cases ((decodeStep_extended_iff _ _).mp hframed.moves).2

end Dabugger.Dwarf.Framing
