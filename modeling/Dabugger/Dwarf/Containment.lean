import Dabugger.Dwarf.Section
import Dabugger.Dwarf.Termination
import Dabugger.Dwarf.Widths

/-! # Where units and programs begin and end

A section tiled by units whose length fields are truthful, with any bytes in the header and in the
program (`RawUnit`). The parser keeps to the lengths (`Contained`) exactly where its own reading ends
at them (`EndsAtLengths`): nothing skips what a header has behind its file table, and no operand is
kept from reaching over the end of its unit. -/

namespace Dabugger.Dwarf.Containment

open Dabugger.Lib.Bytes Dabugger.Lib.Exact Dabugger.Lib.Loop Dabugger.Base
open Dabugger.Base.BinaryReader Dabugger.Reader Dabugger.Dwarf.Types Dabugger.Dwarf.Header
open Dabugger.Dwarf.HeaderEncoding Dabugger.Dwarf.HeaderRoundTrip Dabugger.Dwarf.Program
open Dabugger.Dwarf.Refinement Dabugger.Dwarf.Section Dabugger.Dwarf.Termination
open Dabugger.Dwarf.Widths

/-- The value of `unit_length` for a unit with so many bytes in its header and program. -/
def unitLength (isDwarf64 : Bool) (header program : ℕ) : ℕ :=
  2 + 1 + 1 + offsetSize isDwarf64 + header + program

/-- A unit: `headerBytes` are the `header_length` bytes behind that field. -/
structure RawUnit where
  isDwarf64 : Bool
  version : UInt16
  addressSize : UInt8
  segmentSelectorSize : UInt8
  headerBytes : List UInt8
  program : List UInt8
  fits : unitLength isDwarf64 headerBytes.length program.length <
    if isDwarf64 then 2 ^ 64 else 0xfffffff0

namespace RawUnit

variable (u : RawUnit)

/-- The truthful `unit_length`. -/
def length : UInt64 :=
  UInt64.ofNat (unitLength u.isDwarf64 u.headerBytes.length u.program.length)

/-- The truthful `header_length`. -/
def headerLength : UInt64 := UInt64.ofNat u.headerBytes.length

/-- The bytes of a unit that stand before others. -/
def bytesBefore (rest : List UInt8) : List UInt8 :=
  lengthBytes u.isDwarf64 u.length.toNat ++ (toLe 2 u.version.toNat ++
    (toLe 1 u.addressSize.toNat ++ (toLe 1 u.segmentSelectorSize.toNat ++
      (toLe (offsetSize u.isDwarf64) u.headerLength.toNat ++
        (u.headerBytes ++ (u.program ++ rest))))))

theorem length_lt : unitLength u.isDwarf64 u.headerBytes.length u.program.length < 2 ^ 64 := by
  have := u.fits
  split at this <;> omega

theorem toNat_length :
    u.length.toNat = unitLength u.isDwarf64 u.headerBytes.length u.program.length :=
  UInt64.toNat_ofNat_of_lt' u.length_lt

theorem toNat_headerLength : u.headerLength.toNat = u.headerBytes.length := by
  have h := u.length_lt
  unfold unitLength at h
  exact UInt64.toNat_ofNat_of_lt' (show _ < 2 ^ 64 by omega)

theorem length_lt_reserved (h : u.isDwarf64 = false) : u.length.toNat < 0xfffffff0 := by
  have hf := u.fits
  rw [if_neg (by simp [h])] at hf
  rw [toNat_length]
  exact hf

theorem headerLength_lt : u.headerLength.toNat < 256 ^ offsetSize u.isDwarf64 := by
  have hf := u.fits
  rw [toNat_headerLength]
  unfold unitLength at hf
  unfold offsetSize at hf ⊢
  split at hf
  · rw [if_pos ‹_›]
    omega
  · rw [if_neg ‹_›]
    omega

theorem bytesBefore_ne_nil (rest : List UInt8) : u.bytesBefore rest ≠ [] := by
  intro h
  have := congrArg List.length h
  simp [bytesBefore] at this

end RawUnit

/-- The bytes of the units. -/
def sectionBytes (units : List RawUnit) : List UInt8 :=
  units.foldr RawUnit.bytesBefore []

/-- **The unit is kept to its lengths** by the parser that starts reading it before the bytes
`after`: the decoder reads its first opcode right behind the header, never goes past the end of the
unit, and stops there. -/
def UnitContained (host : Host) (u : RawUnit) (after : List UInt8) : Prop :=
  ∃ header r table, parseLineHeader host (ofBytes (u.bytesBefore after)) = .ok (header, r) ∧
    (decodeCond r.remaining (lineProgLength header) (decodeStart header) r = true →
      r = ofBytes (u.program ++ after)) ∧
    (∀ y, Visits (decodeCond r.remaining (lineProgLength header)) (decodeStep header)
      (decodeStart header, r) y → after.length ≤ y.2.remaining) ∧
    decodeLineNumProg host header r = .ok (table, ofBytes after)

/-- **The units of a section are kept to their lengths**: the parser reads the length of each where
the unit before it ends, and keeps the unit to its lengths. -/
def Contained (host : Host) (sections : ProgramSections) (units : List RawUnit) : Prop :=
  ∀ before u after, units = before ++ u :: after →
    (∃ compUnits, compUnits.length = before.length ∧
      Visits sectionCond (parseCompUnit host) ([], ofBytes sections.debugLine.data)
        (compUnits, ofBytes (sectionBytes (u :: after)))) ∧
    UnitContained host u (sectionBytes after)

/-- The bytes behind the `header_length` of a unit. -/
def behindLengths (u : RawUnit) (after : List UInt8) : List UInt8 :=
  u.headerBytes ++ (u.program ++ after)

/-- **Reading the unit ends at its lengths**: the fields and tables of the header, each with its
width, end `header_length` bytes behind that field, and the instructions, each with its width, end at
the end of the unit; and nothing in them ends the run. -/
def EndsAtLengths (host : Host) (u : RawUnit) (after : List UInt8) : Prop :=
  skipHeader host u.isDwarf64 (behindLengths u after) = some (u.program ++ after) ∧
    Lands (skipInstruction ((behindLengths u after).getD 1 0)
      ((behindLengths u after).getD 4 0) ((behindLengths u after).getD 5 0)) after
      (u.program ++ after)

/-! ### One unit -/

variable {host : Host} {u : RawUnit} {after : List UInt8}

/-- The header parser on a unit. -/
theorem leaves_header (host : Host) (u : RawUnit) (after : List UInt8) :
    Leaves ofBytes (parseLineHeader host) (u.bytesBefore after)
      (skipHeader host u.isDwarf64 (behindLengths u after))
      (FixedFields u.isDwarf64 u.length u.headerLength (behindLengths u after)) :=
  leaves_parseLineHeader host _ _ _ _ u.length_lt_reserved u.headerLength_lt

theorem programLength {header : LineNumProgHeader}
    (h : FixedFields u.isDwarf64 u.length u.headerLength (behindLengths u after) header) :
    (lineProgLength header).toNat = u.program.length := by
  refine ProgramLength.toNat_lineProgLength ?_
  rw [ProgramLength, h.unitLength, h.isDwarf64, h.headerLength, u.toNat_length,
    u.toNat_headerLength]
  rfl

/-- The instructions under a header. -/
def skipUnder (header : LineNumProgHeader) : List UInt8 → Option (List UInt8) :=
  skipInstruction header.maximumOperationsPerInstruction header.lineRange header.opcodeBase

theorem leaves_decodeStep_of_ne_nil (header : LineNumProgHeader) (state : DecodeState)
    (cs : List UInt8) (h : cs ≠ []) : Leaves ofBytes (decodeStep header state) cs
      (skipUnder header cs) fun flow => ∃ state', flow = .next state' := by
  obtain ⟨opcode, bs, rfl⟩ := List.exists_cons_of_ne_nil h
  exact leaves_decodeStep header state opcode bs

theorem skipUnder_short {header : LineNumProgHeader} (cs ds : List UInt8)
    (h : skipUnder header cs = some ds) : ds.length ≤ cs.length := by
  have hne : cs ≠ [] := by
    rintro rfl
    cases h
  have hleaves : Leaves ofBytes (decodeStep header (decodeStart header)) cs
    (skipUnder header cs) _ := leaves_decodeStep_of_ne_nil _ _ _ hne
  rw [h] at hleaves
  obtain ⟨x, hx, -⟩ := hleaves
  exact (ends_decodeStep header _).le _ _ _ hx

/-- The test of the decoder's loop asks whether something of the program is left. -/
theorem decodeCond_program {len : UInt64} {n m : ℕ} (hlen : len.toNat = n) {orig : ℕ}
    (horig : orig = n + m) (state : DecodeState) (cs : List UInt8) (hcs : cs.length ≤ orig) :
    decodeCond orig len state (ofBytes cs) = decide (m < cs.length) := by
  rw [decodeCond, remaining_ofBytes, hlen, decide_eq_decide]
  omega

/-- The decoder ends at the end of the program exactly if the instructions do. -/
theorem decode_iff_lands {header : LineNumProgHeader}
    (hlen : (lineProgLength header).toNat = u.program.length) :
    (∃ table, decodeLineNumProg host header (ofBytes (u.program ++ after)) =
        .ok (table, ofBytes after)) ↔
      Lands (skipUnder header) after (u.program ++ after) := by
  have horig : (ofBytes (u.program ++ after)).remaining = u.program.length + after.length := by
    rw [remaining_ofBytes, List.length_append]
  obtain ⟨x, hx⟩ := decodeLoop_ends header (lineProgLength header)
    (ofBytes (u.program ++ after)).remaining (decodeStart header) (ofBytes (u.program ++ after))
  rw [← whileLoop_ok_iff_lands ofBytes_injective
    (leaves_decodeStep_of_ne_nil header) (decodeCond_program hlen horig) skipUnder_short
    (Nat.le_refl _) hx]
  constructor
  · rintro ⟨table, hdecode⟩
    obtain ⟨stateMachine, hloop⟩ := decodeLineNumProg_ok hdecode
    exact ⟨_, whileLoop_unique hx hloop⟩
  · rintro ⟨state, rfl⟩
    refine ⟨state.2, ?_⟩
    rw [decodeLineNumProg_apply, hx, hlen, decide_eq_true (by rw [horig]; omega), cAssert_true]
    rfl

/-- **A unit is kept to its lengths exactly if reading it ends at them.** -/
theorem unitContained_iff : UnitContained host u after ↔ EndsAtLengths host u after := by
  have hleaves := leaves_header host u after
  constructor
  · rintro ⟨header, r, table, hparse, hfirst, -, hdecode⟩
    obtain ⟨cs, hskip, rfl, hfields⟩ := hleaves.of_run hparse
    have hlen := programLength hfields
    -- an empty program has no first opcode; then the loop does not move the reader
    have hcs : cs = u.program ++ after := by
      by_cases hcond : decodeCond (ofBytes cs).remaining (lineProgLength header)
          (decodeStart header) (ofBytes cs) = true
      · exact ofBytes_injective (hfirst hcond)
      · rw [Bool.not_eq_true] at hcond
        obtain ⟨stateMachine, hloop⟩ := decodeLineNumProg_ok hdecode
        rw [whileLoop_false hcond] at hloop
        have hstay : cs = after := by
          injection hloop with hloop
          injection hloop with hloop
          exact ofBytes_injective (congrArg Prod.snd hloop)
        rw [decodeCond, Nat.sub_self, hlen, decide_eq_false_iff_not, Nat.pos_iff_ne_zero,
          not_not, List.length_eq_zero_iff] at hcond
        rw [hcond, hstay, List.nil_append]
    subst hcs
    refine ⟨hskip, ?_⟩
    have hlands := (decode_iff_lands hlen).mp ⟨table, hdecode⟩
    rwa [skipUnder, hfields.maxOps, hfields.lineRange, hfields.opcodeBase] at hlands
  · rintro ⟨hskip, hlands⟩
    rw [hskip] at hleaves
    obtain ⟨header, hparse, hfields⟩ := hleaves
    have hlen := programLength hfields
    rw [← hfields.maxOps, ← hfields.lineRange, ← hfields.opcodeBase] at hlands
    obtain ⟨table, hdecode⟩ := (decode_iff_lands hlen).mpr hlands
    refine ⟨header, _, table, hparse, fun _ => rfl, fun y hv => ?_, hdecode⟩
    obtain ⟨ds, hy, hds⟩ := hv.of_lands (leaves_decodeStep_of_ne_nil header)
      (decodeCond_program hlen (by rw [remaining_ofBytes, List.length_append])) skipUnder_short
      (Nat.le_refl _) hlands
    rw [hy]
    exact hds.length_le

/-! ### All units -/

/-- Reading a contained unit goes on to the unit behind it. -/
theorem UnitContained.visits (h : UnitContained host u after) (compUnits : List LineInfoCompUnit) :
    ∃ compUnit, Visits sectionCond (parseCompUnit host) (compUnits, ofBytes (u.bytesBefore after))
      (compUnits ++ [compUnit], ofBytes after) := by
  obtain ⟨header, r, table, hparse, -, -, hdecode⟩ := h
  refine ⟨⟨header, table⟩, .step ?_ ?_ (.refl _)⟩
  · have := List.length_pos_iff.mpr (u.bytesBefore_ne_nil after)
    simpa [sectionCond] using this
  · rw [parseCompUnit, bind_of_ok hparse, bind_of_ok hdecode]
    rfl

/-- Reading contained units goes on to what is behind them. -/
theorem visits_of_contained (after : List RawUnit) : ∀ (before : List RawUnit)
    (compUnits : List LineInfoCompUnit),
    (∀ b u a, before = b ++ u :: a → UnitContained host u (sectionBytes (a ++ after))) →
      ∃ compUnits', compUnits'.length = compUnits.length + before.length ∧
        Visits sectionCond (parseCompUnit host) (compUnits, ofBytes (sectionBytes (before ++ after)))
          (compUnits', ofBytes (sectionBytes after))
  | [], compUnits, _ => ⟨compUnits, rfl, .refl _⟩
  | u :: before, compUnits, h => by
    obtain ⟨compUnit, hv⟩ := (h [] u before rfl).visits compUnits
    obtain ⟨compUnits', hlen, hv'⟩ := visits_of_contained after before
      (compUnits ++ [compUnit]) fun b v a hb => h (u :: b) v a (by rw [hb]; rfl)
    refine ⟨compUnits', ?_, hv.trans hv'⟩
    rw [hlen, List.length_append, List.length_singleton, List.length_cons]
    omega

/-- **Units are kept to their lengths exactly if reading each of them ends at its lengths**: the
tables of the header where the header does, and the instructions of the program where the unit
does. -/
theorem contained_iff (host : Host) (sections : ProgramSections) (units : List RawUnit)
    (hdata : sections.debugLine.data = sectionBytes units) :
    Contained host sections units ↔
      ∀ before u after, units = before ++ u :: after →
        EndsAtLengths host u (sectionBytes after) := by
  constructor
  · intro h before u after hu
    exact unitContained_iff.mp (h before u after hu).2
  · intro h before u after hu
    refine ⟨?_, unitContained_iff.mpr (h before u after hu)⟩
    obtain ⟨compUnits, hlen, hv⟩ := visits_of_contained (u :: after) before []
      fun b v a hb => unitContained_iff.mpr (h b v (a ++ u :: after) (by rw [hu, hb]; simp))
    refine ⟨compUnits, by simpa using hlen, ?_⟩
    rw [hdata, hu]
    exact hv

/-! ### Bytes behind the file table -/

/-- The tables of an encoded header end with its encoding. -/
theorem skipHeader_of_encodesBody {h : HeaderValue} {debugLineStr body : List UInt8} (host : Host)
    (hw : h.WellFormed) (hb : h.EncodesBody debugLineStr body) (rest : List UInt8) :
    skipHeader host h.isDwarf64 (body ++ rest) = some rest := by
  obtain ⟨header, hr, -⟩ := reads_parseLineHeader host (h := h) ⟨hw, body, hb, rfl⟩
  have hleaves := leaves_parseLineHeader host h.version h.addressSize h.segmentSelectorSize
    (body ++ rest) hw.unitLength hw.headerLength
  have hread := hr rest
  simp only [HeaderValue.prelude, List.append_assoc] at hread
  obtain ⟨cs, hskip, hcs, -⟩ := hleaves.of_run hread
  rw [hskip, ofBytes_injective hcs]

/-- **A header with bytes behind its file table** is never kept to its length. -/
theorem not_endsAtLengths_of_extra {h : HeaderValue} {debugLineStr body extra : List UInt8}
    (hw : h.WellFormed) (hb : h.EncodesBody debugLineStr body) (hd : u.isDwarf64 = h.isDwarf64)
    (hu : u.headerBytes = body ++ extra) (hx : extra ≠ []) : ¬ EndsAtLengths host u after := by
  rintro ⟨hskip, -⟩
  rw [behindLengths, hu, List.append_assoc, hd, skipHeader_of_encodesBody host hw hb] at hskip
  have := congrArg List.length (Option.some.inj hskip)
  have := List.length_pos_iff.mpr hx
  simp only [List.length_append] at *
  omega

/-- The sample unit, with the bytes `extra` behind the file table. -/
def sampleUnit (extra : List UInt8) (h : extra.length < 100) : RawUnit where
  isDwarf64 := false
  version := 5
  addressSize := 8
  segmentSelectorSize := 0
  headerBytes := sampleBody ++ extra
  program := sampleProgramBytes
  fits := by
    rw [if_neg (by simp), unitLength, List.length_append, show sampleBody.length = 53 from rfl,
      show sampleProgramBytes.length = 15 from rfl, offsetSize, if_neg (by simp)]
    omega

/-- A section of two units, the first with one byte behind its file table. -/
def extraSections : ProgramSections where
  debugLine := ⟨0, sectionBytes [sampleUnit [0] (by decide), sampleUnit [] (by decide)],
    by decide +kernel⟩
  debugLineStr := sampleLineStr

/-- The decoder takes the byte behind the file table for the first opcode. -/
theorem not_contained_extra : ¬ Contained (.zeroed true) extraSections
    [sampleUnit [0] (by decide), sampleUnit [] (by decide)] := by
  intro h
  have hends := unitContained_iff.mp (h [] _ _ rfl).2
  exact not_endsAtLengths_of_extra sampleHeader_wellFormed sampleHeader_encodesBody rfl rfl
    (by simp) hends

/-- Without that byte the units are kept to their lengths. -/
theorem contained_iff_sample :
    Contained (.zeroed true)
        { debugLine := ⟨0, sectionBytes [sampleUnit [] (by decide)], by decide +kernel⟩ }
        [sampleUnit [] (by decide)] ↔
      ∀ before u after, [sampleUnit [] (by decide)] = before ++ u :: after →
        EndsAtLengths (.zeroed true) u (sectionBytes after) :=
  contained_iff _ _ _ rfl

end Dabugger.Dwarf.Containment
