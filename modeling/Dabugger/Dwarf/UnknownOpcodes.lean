import Dabugger.Dwarf.Framing

/-! # Standard opcodes that the decoder does not know

`standard_opcode_lengths` says how many LEB128 operands each standard opcode has, so that a decoder
can skip one that it does not know. `parse_line_header` reads the table; `decode_line_num_prog` does
not look at it, and decodes the operands as instructions. So a program is decoded as if its unknown
instructions were not there, and to its end, where they have no operands
(`skipsUnknown_iff`). -/

namespace Dabugger.Dwarf.UnknownOpcodes

open Dabugger.Lib.Bytes Dabugger.Lib.Exact Dabugger.Lib.Loop Dabugger.Base
open Dabugger.Base.BinaryReader Dabugger.Reader Dabugger.Dwarf.Types Dabugger.Dwarf.HeaderRoundTrip
open Dabugger.Dwarf.Program Dabugger.Dwarf.Refinement Dabugger.Dwarf.Widths Dabugger.Dwarf.Framing
open Dabugger.LineProgram.Machine Dabugger.LineProgram.Encoding

/-! ### Programs with unknown instructions -/

/-- A standard instruction that the decoder has no case for: the opcode is one of the header's, and as
many LEB128 numbers follow as the header declares. -/
structure UnknownInstruction (header : LineNumProgHeader) where
  opcode : UInt8
  count : UInt8
  operands : List (List UInt8)
  le_opcode : 13 ≤ opcode.toNat
  opcode_lt : opcode.toNat < header.opcodeBase.toNat
  declared : header.standardOpcodeLengths[opcode.toNat - 1]? = some count
  length_operands : operands.length = count.toNat
  isLeb : ∀ operand ∈ operands, IsLeb operand

/-- Nothing is declared exactly if there is nothing behind the opcode. -/
theorem UnknownInstruction.flatten_eq_nil_iff {header : LineNumProgHeader}
    (i : UnknownInstruction header) :
    i.operands.flatten = [] ↔ header.standardOpcodeLengths[i.opcode.toNat - 1]? = some 0 := by
  have hcount : header.standardOpcodeLengths[i.opcode.toNat - 1]? = some 0 ↔ i.count.toNat = 0 := by
    rw [i.declared, Option.some_inj, ← UInt8.toNat_inj]
    rfl
  rw [hcount, ← i.length_operands, List.length_eq_zero_iff, List.flatten_eq_nil_iff]
  constructor
  · intro h
    refine List.eq_nil_iff_forall_not_mem.mpr fun operand hmem => ?_
    have hleb := i.isLeb operand hmem
    rw [h operand hmem] at hleb
    exact hleb
  · intro h
    rw [h]
    exact List.forall_mem_nil _

/-- A piece of a program: the encoding of an instruction, or an unknown instruction. -/
inductive Piece (header : LineNumProgHeader) where
  | instruction (i : Instruction) (bytes : List UInt8)
      (encodes : Encodes header.opcodeBase.toNat i bytes)
  | unknown (i : UnknownInstruction header)

namespace Piece

variable {header : LineNumProgHeader}

/-- Its bytes. -/
def bytes : Piece header → List UInt8
  | instruction _ bytes _ => bytes
  | unknown i => i.opcode :: i.operands.flatten

/-- It is an instruction that the decoder knows. -/
def isKnown : Piece header → Bool
  | instruction _ _ _ => true
  | unknown _ => false

theorem bytes_ne_nil : ∀ p : Piece header, p.bytes ≠ []
  | instruction _ _ encodes => encodes.ne_nil
  | unknown _ => List.cons_ne_nil _ _

end Piece

/-! ### The instructions that the decoder knows -/

section
variable {maxOps lineRange opcodeBase : UInt8}

theorem skipLeb_append {operand : List UInt8} (h : IsLeb operand) (hs : operand.length ≤ 10)
    (rest : List UInt8) : skipLeb (operand ++ rest) = rest :=
  (skipLeb_iff operand rest).mpr (lebSpan_append rest h hs).1

theorem skipInstruction_standard {opcode : UInt8} (h0 : opcode ≠ 0)
    (h : opcode.toNat < opcodeBase.toNat) (bs : List UInt8) :
    skipInstruction maxOps lineRange opcodeBase (opcode :: bs) =
      skipStandard maxOps lineRange opcode bs := by
  rw [skipInstruction, if_neg h0, if_pos (UInt8.lt_iff_toNat_lt.mpr h)]

/-- An extended instruction of the right length that the decoder takes. -/
theorem skipInstruction_extended {opcode : UInt8} {operand bs : List UInt8}
    (h : Extended opcode operand bs) (hlen : operand.length ≤ 16)
    (htakes : ∀ i : ExtendedInstruction, i.opcode = opcode → i.operand = operand →
      ∀ rest, i.TakesOperand rest) (rest : List UInt8) :
    skipInstruction maxOps lineRange opcodeBase (bs ++ rest) = some rest := by
  obtain ⟨size, hsize, rfl⟩ := h
  let i : ExtendedInstruction := ⟨size, opcode, operand, hsize.shape, hsize.val, by omega⟩
  have hi : i.IsTaken rest := ⟨hsize.short, htakes i rfl rfl rest⟩
  rw [show 0 :: (size ++ opcode :: operand) = i.bytes from rfl, i.bytes_append, skipInstruction,
    if_pos rfl]
  exact (skipExtended_iff i rest).mpr hi

/-- **The width of an instruction** is that of its encoding; where it divides by zero it has none. -/
theorem skipInstruction_encodes (hbase : 0 < opcodeBase.toNat) {i : Instruction} {bs : List UInt8}
    (he : Encodes opcodeBase.toNat i bs) :
    (∀ rest, skipInstruction maxOps lineRange opcodeBase (bs ++ rest) = some rest) ∨
      ∀ rest, skipInstruction maxOps lineRange opcodeBase (bs ++ rest) = none := by
  have hstandard : ∀ {opcode : UInt8} {operand : List UInt8},
      Standard opcodeBase.toNat opcode operand bs → opcode ≠ 0 → ∀ rest,
      skipInstruction maxOps lineRange opcodeBase (bs ++ rest) =
        skipStandard maxOps lineRange opcode (operand ++ rest) := by
    rintro opcode operand ⟨hlt, rfl⟩ h0 rest
    exact skipInstruction_standard h0 hlt _
  cases i with
  | special opcode =>
    obtain ⟨hle, rfl⟩ := he
    have h0 : opcode ≠ 0 := by
      rintro rfl
      exact absurd hle (not_le.mpr hbase)
    have hlt : ¬ opcode < opcodeBase := by
      rw [UInt8.lt_iff_toNat_lt]
      omega
    by_cases hdiv : lineRange = 0 ∨ maxOps = 0
    · exact .inr fun rest => by
        rw [List.singleton_append, skipInstruction, if_neg h0, if_neg hlt, if_pos hdiv]
    · exact .inl fun rest => by
        rw [List.singleton_append, skipInstruction, if_neg h0, if_neg hlt, if_neg hdiv]
  | copy | negateStmt | setBasicBlock | setPrologueEnd | setEpilogueBegin =>
    exact .inl fun rest => hstandard he (by decide) rest
  | constAddPc =>
    by_cases hdiv : lineRange = 0 ∨ maxOps = 0
    · exact .inr fun rest => (hstandard he (by decide) rest).trans (if_pos hdiv)
    · exact .inl fun rest => (hstandard he (by decide) rest).trans (if_neg hdiv)
  | advancePc n =>
    obtain ⟨u, hu, he⟩ := he
    by_cases hdiv : maxOps = 0
    · exact .inr fun rest => (hstandard he (by decide) rest).trans (if_pos hdiv)
    · refine .inl fun rest => (hstandard he (by decide) rest).trans ((if_neg hdiv).trans ?_)
      rw [skipLeb_append hu.shape hu.short]
  | advanceLine n | setFile n | setColumn n | setIsa n =>
    obtain ⟨u, hu, he⟩ := he
    refine .inl fun rest => (hstandard he (by decide) rest).trans (congrArg some ?_)
    exact skipLeb_append hu.shape hu.short rest
  | fixedAdvancePc n =>
    obtain ⟨-, he⟩ := he
    refine .inl fun rest => (hstandard he (by decide) rest).trans (congrArg some ?_)
    rw [skipBytes, if_pos (by simp), List.drop_append_of_le_length (by simp),
      List.drop_of_length_le (by simp), List.nil_append]
  | endSequence =>
    refine .inl (skipInstruction_extended he (by simp) ?_)
    rintro ⟨_, _, _, _, _, _⟩ rfl rfl rest
    exact (rfl : ([] : List UInt8) = [])
  | setAddress n =>
    obtain ⟨w, -, hw, -, he⟩ := he
    refine .inl (skipInstruction_extended he (by rw [length_toLe]; omega) ?_)
    rintro ⟨_, _, _, _, _, _⟩ rfl rfl rest
    show (toLe w n).length ≤ 8
    rwa [length_toLe]
  | setDiscriminator n =>
    obtain ⟨u, hu, he⟩ := he
    refine .inl (skipInstruction_extended he (by have := hu.short; omega) ?_)
    rintro ⟨_, _, _, _, _, _⟩ rfl rfl rest
    exact (lebSpan_append rest hu.shape hu.short).1

variable {header : LineNumProgHeader}

/-- **An instruction that the decoder knows** is decoded in the same way whatever follows it, or ends
the run whatever follows it. -/
theorem decodeStep_instruction (hbase : 0 < header.opcodeBase.toNat) {i : Instruction}
    {bs : List UInt8} (he : Encodes header.opcodeBase.toNat i bs) (state : DecodeState) :
    (∃ state', Reads ofBytes (decodeStep header state) bs (.next state')) ∨
      ∀ rest, ∃ e, decodeStep header state (ofBytes (bs ++ rest)) = .error e := by
  obtain ⟨opcode, operand, rfl⟩ := List.exists_cons_of_ne_nil he.ne_nil
  have hleaves := fun rest => leaves_decodeStep header state opcode (operand ++ rest)
  rcases skipInstruction_encodes hbase he with hskip | hskip
  · left
    have hpasses : ∀ rest, ∃ flow, decodeStep header state
        (ofBytes (opcode :: operand ++ rest)) = .ok (flow, ofBytes rest) := by
      intro rest
      have h := hleaves rest
      rw [← List.cons_append, hskip rest] at h
      obtain ⟨flow, hok, -⟩ := h
      exact ⟨flow, hok⟩
    obtain ⟨flow, hread⟩ := (local_decodeStep header state).reads ofBytes_injective hpasses
    obtain ⟨flow', hok, state', rfl⟩ : Leaves ofBytes _ (opcode :: (operand ++ [])) (some []) _ := by
      rw [← hskip []]
      exact hleaves []
    have hsame := (hread []).symm.trans hok
    cases hsame
    exact ⟨state', hread⟩
  · right
    intro rest
    have h := hleaves rest
    rw [← List.cons_append, hskip rest] at h
    exact h

/-- **An unknown instruction** changes nothing, and nothing of its operands is taken. -/
theorem decodeStep_unknownInstruction (i : UnknownInstruction header) (state : DecodeState) :
    Reads ofBytes (decodeStep header state) [i.opcode] (.next state) := by
  have hne : ∀ opcode : UInt8, opcode.toNat < 13 → i.opcode ≠ opcode := by
    rintro _ hlt rfl
    exact absurd i.le_opcode (by omega)
  refine reads_decodeStep_cons ?_
  rw [decodeOpcode, if_neg (hne 0 (by decide)), if_pos (UInt8.lt_iff_toNat_lt.mpr i.opcode_lt),
    decodeStandard]
  repeat rw [if_neg (hne _ (by decide))]
  exact .pure _

end

/-! ### Programs -/

section
variable (host : Host) {header : LineNumProgHeader} (pieces : List (Piece header))

/-- The bytes of a program. -/
abbrev programBytes : List UInt8 := pieces.flatMap Piece.bytes

/-- The program without its unknown instructions. -/
def deleted : List (Piece header) := pieces.filter Piece.isKnown

/-- How many bytes the unknown instructions have. -/
def deletedLength : ℕ := (programBytes pieces).length - (programBytes (deleted pieces)).length

theorem length_deleted_le :
    (programBytes (deleted pieces)).length ≤ (programBytes pieces).length :=
  (List.filter_sublist.flatMap Piece.bytes).length_le

theorem length_le_programBytes : ∀ pieces : List (Piece header),
    pieces.length ≤ (programBytes pieces).length
  | [] => Nat.le_refl _
  | p :: pieces => by
    have ih : pieces.length ≤ (pieces.flatMap Piece.bytes).length := length_le_programBytes pieces
    have hp := List.length_pos_iff.mpr p.bytes_ne_nil
    rw [programBytes, List.flatMap_cons, List.length_append, List.length_cons]
    omega

variable {pieces}

/-- **What the decoder makes of a program**, under any header of the right length. -/
theorem decodeLineNumProg_takes {o : Option DecodeState} {header' : LineNumProgHeader}
    (hlen : (lineProgLength header').toNat = (programBytes pieces).length)
    (hstart : decodeStart header' = decodeStart header)
    (hstep : decodeStep header' = decodeStep header)
    (t : Takes ofBytes (decodeStep header) Piece.bytes (decodeStart header) pieces o)
    (rest : List UInt8) (table : LineInfoTable) (r : BinaryReader) :
    decodeLineNumProg host header' (ofBytes (programBytes pieces ++ rest)) = .ok (table, r) ↔
      ∃ state, o = some state ∧ table = state.2 ∧ r = ofBytes rest := by
  have hle : pieces.length ≤ (programBytes pieces ++ rest).length + 1 := by
    have := length_le_programBytes pieces
    rw [List.length_append]
    omega
  have hcond : ∀ (state : DecodeState) (cs : List UInt8), cs <:+ programBytes pieces →
      decodeCond (programBytes pieces ++ rest).length (lineProgLength header') state
        (ofBytes (cs ++ rest)) = !cs.isEmpty := decodeCond_suffix hlen
  obtain ⟨hsome, hnone⟩ := t.whileLoop (fun p _ => p.bytes_ne_nil) hcond hle
  have hassert : decide ((lineProgLength header').toNat ≤ (programBytes pieces ++ rest).length) =
      true := by
    rw [hlen, List.length_append, decide_eq_true_eq]
    exact Nat.le_add_right _ _
  rw [decodeLineNumProg_apply, remaining_ofBytes, hassert, cAssert_true, hstart, hstep]
  cases o with
  | none =>
    obtain ⟨e, he⟩ := hnone rfl
    rw [he]
    constructor
    · rintro ⟨⟩
    · rintro ⟨_, ⟨⟩, -⟩
  | some state =>
    rw [hsome state rfl]
    constructor
    · rintro ⟨⟩
      exact ⟨state, rfl, rfl, rfl⟩
    · rintro ⟨_, ⟨⟩, rfl, rfl⟩
      rfl

/-- Each piece of a program whose unknown instructions change nothing is taken, or ends the run. -/
theorem takes_or_fails (hbase : 13 < header.opcodeBase.toNat)
    (hreads : ∀ p ∈ pieces, p.isKnown = false → ∀ state,
      Reads ofBytes (decodeStep header state) p.bytes (.next state)) :
    ∀ p ∈ pieces, ∀ state,
      (∃ state', Reads ofBytes (decodeStep header state) p.bytes (.next state')) ∨
        ∀ rest, ∃ e, decodeStep header state (ofBytes (p.bytes ++ rest)) = .error e := by
  intro p hp state
  cases p with
  | instruction i bytes encodes => exact decodeStep_instruction (by omega) encodes state
  | unknown i => exact .inl ⟨state, hreads _ hp rfl state⟩

/-- **Unknown instructions are skipped by their declared operand count**: an iteration at one of them
leaves the registers and the rows as they are and what is behind its operands; the decoder returns the
rows that it returns for the program without them, and has then taken the whole program. -/
structure SkipsUnknown (host : Host) (header : LineNumProgHeader) (pieces : List (Piece header))
    (rest : List UInt8) : Prop where
  skipped : ∀ before i after, pieces = before ++ .unknown i :: after → ∀ state,
    decodeStep header state (ofBytes ((Piece.unknown i).bytes ++ programBytes after ++ rest)) =
      .ok (.next state, ofBytes (programBytes after ++ rest))
  rows : ∀ table,
    (∃ r, decodeLineNumProg host header (ofBytes (programBytes pieces ++ rest)) = .ok (table, r)) ↔
      ∃ r, decodeLineNumProg host (without header (deletedLength pieces))
        (ofBytes (programBytes (deleted pieces) ++ rest)) = .ok (table, r)
  whole : ∀ table r,
    decodeLineNumProg host header (ofBytes (programBytes pieces ++ rest)) = .ok (table, r) →
      r = ofBytes rest

/-- **Unknown standard opcodes.** They are skipped exactly if the header declares no operands for
those that are in the program. -/
theorem skipsUnknown_iff (hbase : 13 < header.opcodeBase.toNat)
    (hlen : ProgramLength header (programBytes pieces).length) (rest : List UInt8) :
    SkipsUnknown host header pieces rest ↔ ∀ i, Piece.unknown i ∈ pieces →
      header.standardOpcodeLengths[i.opcode.toNat - 1]? = some 0 := by
  constructor
  · intro h i hi
    obtain ⟨before, after, rfl⟩ := List.append_of_mem hi
    have hskipped := h.skipped before i after rfl (decodeStart header)
    have htaken := decodeStep_unknownInstruction i (decodeStart header)
      (i.operands.flatten ++ (programBytes after ++ rest))
    have hbytes : [i.opcode] ++ (i.operands.flatten ++ (programBytes after ++ rest)) =
        (Piece.unknown i).bytes ++ programBytes after ++ rest := by
      simp only [Piece.bytes, List.cons_append, List.nil_append, List.append_assoc]
    rw [hbytes, hskipped] at htaken
    have hrest := ofBytes_injective (congrArg Prod.snd (Except.ok.inj htaken))
    exact i.flatten_eq_nil_iff.mp (List.self_eq_append_left.mp hrest)
  · intro h
    have hbytes : ∀ i, Piece.unknown i ∈ pieces → (Piece.unknown i).bytes = [i.opcode] :=
      fun i hi => congrArg (i.opcode :: ·) (i.flatten_eq_nil_iff.mpr (h i hi))
    have hreads : ∀ p ∈ pieces, p.isKnown = false → ∀ state,
        Reads ofBytes (decodeStep header state) p.bytes (.next state) := by
      rintro (_ | i) hp hknown state
      · cases hknown
      · rw [hbytes i hp]
        exact decodeStep_unknownInstruction i state
    have hprogram := hlen.toNat_lineProgLength
    have hle := length_deleted_le pieces
    have hdeleted : (lineProgLength (without header (deletedLength pieces))).toNat =
        (programBytes (deleted pieces)).length := by
      rw [lineProgLength_without (by rw [hprogram]; exact Nat.sub_le _ _), hprogram, deletedLength]
      omega
    obtain ⟨o, t⟩ := Takes.exists (takes_or_fails hbase hreads) (decodeStart header)
    have hwith := decodeLineNumProg_takes host hprogram rfl rfl t rest
    have hwithout := decodeLineNumProg_takes host hdeleted rfl rfl (t.filter hreads) rest
    refine ⟨?_, fun table => ?_, fun table r hok => ?_⟩
    · rintro before i after rfl state
      rw [List.append_assoc]
      exact hreads _ (List.mem_append_right _ List.mem_cons_self) rfl state _
    · simp only [hwith, hwithout]
    · obtain ⟨_, -, -, hr⟩ := (hwith table r).mp hok
      exact hr

end

/-! ### Small programs -/

/-- The header of `sampleHeader` with one more opcode, which has `count` operands, before a program of
two bytes. -/
def headerWith (count : UInt8) : LineNumProgHeader :=
  { sampleProgHeader with
    unitLength := sampleProgHeader.headerLength + 10
    opcodeBase := 14
    standardOpcodeLengths := sampleProgHeader.standardOpcodeLengths ++ [count] }

/-- An instruction of the new opcode without operands. -/
def unknownInstruction : UnknownInstruction (headerWith 0) where
  opcode := 13
  count := 0
  operands := []
  le_opcode := by decide
  opcode_lt := by decide
  declared := by decide
  length_operands := rfl
  isLeb := List.forall_mem_nil _

/-- One with an operand, which is also the opcode `DW_LNS_copy`. -/
def unknownInstructionWithOperand : UnknownInstruction (headerWith 1) where
  opcode := 13
  count := 1
  operands := [[1]]
  le_opcode := by decide
  opcode_lt := by decide
  declared := by decide
  length_operands := rfl
  isLeb := List.forall_mem_singleton.mpr (by decide)

/-- An instruction without operands, before `DW_LNS_copy`. -/
theorem skipsUnknown_iff_sample : SkipsUnknown (.zeroed true) (headerWith 0)
    [.unknown unknownInstruction, .instruction .copy [1] ⟨by decide, rfl⟩] [] := by
  refine (skipsUnknown_iff _ (by decide) (by decide) []).mpr fun i hi => ?_
  rcases List.mem_cons.mp hi with he | hi
  · cases he
    decide
  · cases List.mem_singleton.mp hi

/-- The operand of the other is decoded as an instruction: there is a row. -/
theorem not_skipsUnknown_operand : ¬ ∀ (host : Host) (header : LineNumProgHeader)
    (pieces : List (Piece header)) (rest : List UInt8), 13 < header.opcodeBase.toNat →
      ProgramLength header (programBytes pieces).length →
        SkipsUnknown host header pieces rest := by
  intro h
  have hskips := h (.zeroed true) (headerWith 1) [.unknown unknownInstructionWithOperand] []
    (by decide) (by decide)
  obtain ⟨r, hr⟩ := (hskips.rows _).mp ⟨_, rfl⟩
  have hempty : decodeLineNumProg (.zeroed true) (without (headerWith 1)
      (deletedLength [Piece.unknown unknownInstructionWithOperand]))
        (ofBytes (programBytes (deleted [Piece.unknown unknownInstructionWithOperand]) ++ [])) =
          .ok (⟨[]⟩, ofBytes []) := rfl
  rw [hempty] at hr
  cases hr

end Dabugger.Dwarf.UnknownOpcodes
