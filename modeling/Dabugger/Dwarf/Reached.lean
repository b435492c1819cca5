import Dabugger.Dwarf.Framing

/-! # Where the section parser comes

A run of `parse_debug_line_section` comes to units (`UnitAt`), to the programs behind the headers that
it parses (`HeaderAt`) and to the instructions of these programs (`InstructionAt`), each with the bytes
that are left of the section; `parseDebugLineSection_error_iff` says where a run can fail, and
`exists_compUnit_iff` which units a run that returns has made. -/

namespace Dabugger.Dwarf.Reached

open Dabugger.Lib.Exact Dabugger.Lib.Loop Dabugger.Base Dabugger.Base.BinaryReader
open Dabugger.Reader Dabugger.Dwarf.Types Dabugger.Dwarf.Header Dabugger.Dwarf.Program
open Dabugger.Dwarf.Termination Dabugger.Dwarf.Widths Dabugger.Dwarf.Framing

variable (host : Host) (sections : ProgramSections) (header : LineNumProgHeader)

/-- A unit begins with `bs`: the parser goes on to read its header. -/
def UnitAt (bs : List UInt8) : Prop :=
  ∃ compUnits, Visits sectionCond (parseCompUnit host) ([], ofBytes sections.debugLine.data)
    (compUnits, ofBytes bs) ∧ sectionCond compUnits (ofBytes bs) = true

/-- The header has been parsed, and `program` is behind it. -/
def HeaderAt (program : List UInt8) : Prop :=
  ∃ bs, UnitAt host sections bs ∧ parseLineHeader host (ofBytes bs) = .ok (header, ofBytes program)

/-- The decoder of a program comes to `bs` in this state, and goes on to read an opcode. -/
def DecodesAt (program : List UInt8) (state : DecodeState) (bs : List UInt8) : Prop :=
  Visits (decodeCond program.length (lineProgLength header)) (decodeStep header)
      (decodeStart header, ofBytes program) (state, ofBytes bs) ∧
    decodeCond program.length (lineProgLength header) state (ofBytes bs) = true

/-- An instruction under the header begins with `bs`. -/
def InstructionAt (bs : List UInt8) : Prop :=
  ∃ program state, HeaderAt host sections header program ∧
    cAssert host (decide ((lineProgLength header).toNat ≤ program.length)) = .ok () ∧
    DecodesAt header program state bs

/-! ### The bytes that are left -/

section
variable {host : Host} {sections : ProgramSections} {header : LineNumProgHeader}

theorem parseLineHeader_ofBytes {bs : List UInt8} {r : BinaryReader}
    (h : parseLineHeader host (ofBytes bs) = .ok (header, r)) : ∃ program, r = ofBytes program := by
  obtain ⟨program, -, hr, -⟩ := (leaves_parseLineHeader_ofBytes host bs).of_run h
  exact ⟨program, hr⟩

theorem visits_ofBytes {cond : DecodeState → BinaryReader → Bool} {state : DecodeState}
    {program : List UInt8} {y : DecodeState × BinaryReader}
    (v : Visits cond (decodeStep header) (state, ofBytes program) y) :
    ∃ bs, y = (y.1, ofBytes bs) := by
  obtain ⟨bs, -, hbs⟩ := v.length_le (local_decodeStep header)
  exact ⟨bs, Prod.ext rfl hbs⟩

theorem decodeLineNumProg_ofBytes {program : List UInt8} {table : LineInfoTable} {r : BinaryReader}
    (h : decodeLineNumProg host header (ofBytes program) = .ok (table, r)) : ∃ bs, r = ofBytes bs := by
  obtain ⟨stateMachine, hloop⟩ := decodeLineNumProg_ok h
  obtain ⟨y, hv, ⟨-, rfl⟩ | ⟨-, hstop⟩⟩ := whileLoop_ok hloop
  · obtain ⟨bs, hbs⟩ := visits_ofBytes hv
    exact ⟨bs, congrArg Prod.snd hbs⟩
  · obtain ⟨bs, hbs⟩ := visits_ofBytes hv
    rw [hbs] at hstop
    obtain ⟨cs, -, hcs⟩ := (local_decodeStep header _).length_le hstop
    exact ⟨cs, hcs⟩

theorem parseCompUnit_ofBytes {compUnits : List LineInfoCompUnit} {bs : List UInt8}
    {flow : Flow (List LineInfoCompUnit)} {r : BinaryReader}
    (h : parseCompUnit host compUnits (ofBytes bs) = .ok (flow, r)) : ∃ cs, r = ofBytes cs := by
  obtain ⟨header, r1, h1, h2⟩ := bind_ok h
  obtain ⟨program, rfl⟩ := parseLineHeader_ofBytes h1
  obtain ⟨table, r2, h3, h4⟩ := bind_ok h2
  cases h4
  exact decodeLineNumProg_ofBytes h3

theorem unitAt_of_visits {y : List LineInfoCompUnit × BinaryReader}
    (v : Visits sectionCond (parseCompUnit host) ([], ofBytes sections.debugLine.data) y)
    (hc : sectionCond y.1 y.2 = true) : ∃ bs, y = (y.1, ofBytes bs) ∧ UnitAt host sections bs := by
  obtain ⟨bs, hbs⟩ := v.invariant (P := fun _ r => ∃ bs, r = ofBytes bs)
    (by rintro _ _ _ _ ⟨bs, rfl⟩ - h; exact parseCompUnit_ofBytes h) ⟨_, rfl⟩
  refine ⟨bs, Prod.ext rfl hbs, y.1, ?_, ?_⟩
  · rwa [← hbs]
  · rwa [← hbs]

/-! ### Where a run fails -/

/-- A program fails to be decoded where its assertion or one of its instructions fails. -/
theorem decodeLineNumProg_error_iff {program : List UInt8} {e : Fault} :
    decodeLineNumProg host header (ofBytes program) = .error e ↔
      cAssert host (decide ((lineProgLength header).toNat ≤ program.length)) = .error e ∨
      cAssert host (decide ((lineProgLength header).toNat ≤ program.length)) = .ok () ∧
        ∃ state bs, DecodesAt header program state bs ∧
          decodeStep header state (ofBytes bs) = .error e := by
  obtain ⟨x, hx⟩ := decodeLoop_ends header (lineProgLength header) program.length
    (decodeStart header) (ofBytes program)
  rw [remaining_ofBytes] at hx
  have hloop : x = .error e ↔ ∃ state bs, DecodesAt header program state bs ∧
      decodeStep header state (ofBytes bs) = .error e := by
    rw [whileLoop_error_iff hx]
    constructor
    · rintro ⟨y, hv, hc, hb⟩
      obtain ⟨bs, hbs⟩ := visits_ofBytes hv
      rw [hbs] at hv hc hb
      exact ⟨y.1, bs, ⟨hv, hc⟩, hb⟩
    · rintro ⟨state, bs, ⟨hv, hc⟩, hb⟩
      exact ⟨_, hv, hc, hb⟩
  rw [decodeLineNumProg_apply, remaining_ofBytes, hx, Option.getD_some, ← hloop]
  cases cAssert host (decide ((lineProgLength header).toNat ≤ program.length)) with
  | error e' =>
    show Except.error e' = Except.error e ↔ _
    simp
  | ok u => cases x <;> simp [Except.bind, Except.map]

/-- **A run fails** where it parses a header, asserts the length of a program, or decodes an
instruction. -/
theorem parseDebugLineSection_error_iff {e : Fault} :
    parseDebugLineSection host sections = .error e ↔
      (∃ bs, UnitAt host sections bs ∧ parseLineHeader host (ofBytes bs) = .error e) ∨
      (∃ header program, HeaderAt host sections header program ∧
        cAssert host (decide ((lineProgLength header).toNat ≤ program.length)) = .error e) ∨
      ∃ header program state bs, HeaderAt host sections header program ∧
        cAssert host (decide ((lineProgLength header).toNat ≤ program.length)) = .ok () ∧
        DecodesAt header program state bs ∧
          decodeStep header state (ofBytes bs) = .error e := by
  obtain ⟨x, hx⟩ := sectionLoop_ends host [] (ofBytes sections.debugLine.data)
  rw [parseDebugLineSection_of_some hx]
  have hmap : (x.map fun y => ((⟨y.1⟩ : LineInfo), y.2)) = .error e ↔ x = .error e := by
    cases x <;> simp [Except.map]
  rw [hmap, whileLoop_error_iff hx]
  constructor
  · rintro ⟨y, hv, hc, hb⟩
    obtain ⟨bs, hbs, hunit⟩ := unitAt_of_visits hv hc
    rw [hbs] at hb
    rcases bind_error hb with h1 | ⟨header, r, h1, h2⟩
    · exact .inl ⟨bs, hunit, h1⟩
    · obtain ⟨program, rfl⟩ := parseLineHeader_ofBytes h1
      have hheader : HeaderAt host sections header program := ⟨bs, hunit, h1⟩
      rcases bind_error h2 with h3 | ⟨table, r, -, h4⟩
      · rcases decodeLineNumProg_error_iff.mp h3 with ha | ⟨ha, state, ds, hd, he⟩
        · exact .inr (.inl ⟨header, program, hheader, ha⟩)
        · exact .inr (.inr ⟨header, program, state, ds, hheader, ha, hd, he⟩)
      · cases h4
  · have hfails : ∀ header program, HeaderAt host sections header program →
        decodeLineNumProg host header (ofBytes program) = .error e → ∃ y,
          Visits sectionCond (parseCompUnit host) ([], ofBytes sections.debugLine.data) y ∧
            sectionCond y.1 y.2 = true ∧ parseCompUnit host y.1 y.2 = .error e := by
      rintro header program ⟨bs, ⟨compUnits, hv, hc⟩, h1⟩ h2
      refine ⟨_, hv, hc, ?_⟩
      rw [parseCompUnit, bind_of_ok h1, bind_of_error h2]
    rintro (⟨bs, ⟨compUnits, hv, hc⟩, h1⟩ | ⟨header, program, hheader, ha⟩ |
      ⟨header, program, state, bs, hheader, ha, hd, he⟩)
    · exact ⟨_, hv, hc, bind_of_error h1⟩
    · exact hfails header program hheader (decodeLineNumProg_error_iff.mpr (.inl ha))
    · exact hfails header program hheader
        (decodeLineNumProg_error_iff.mpr (.inr ⟨ha, state, bs, hd, he⟩))

/-! ### The units that are parsed -/

/-- An iteration of the loop over the units parses a header, and adds a unit with it. -/
theorem parseCompUnit_ok {compUnits : List LineInfoCompUnit} {r s : BinaryReader}
    {flow : Flow (List LineInfoCompUnit)} (h : parseCompUnit host compUnits r = .ok (flow, s)) :
    ∃ header r' table, parseLineHeader host r = .ok (header, r') ∧
      flow = .next (compUnits ++ [⟨header, table⟩]) := by
  obtain ⟨header, r', h1, h2⟩ := bind_ok h
  obtain ⟨table, r'', -, h4⟩ := bind_ok h2
  cases h4
  exact ⟨header, r', table, h1, rfl⟩

theorem parseCompUnit_ne_stop (compUnits : List LineInfoCompUnit) (r : BinaryReader)
    (compUnits' : List LineInfoCompUnit) (r' : BinaryReader) :
    parseCompUnit host compUnits r ≠ .ok (.stop compUnits', r') := by
  intro h
  obtain ⟨_, _, _, -, hflow⟩ := parseCompUnit_ok h
  cases hflow

/-- A run that returns has ended the loop over the units. -/
theorem parseDebugLineSection_ok {lineInfo : LineInfo} {r : BinaryReader}
    (h : parseDebugLineSection host sections = .ok (lineInfo, r)) :
    ∃ n, whileLoop sectionCond (parseCompUnit host) n [] (ofBytes sections.debugLine.data) =
      some (.ok (lineInfo.compUnits, r)) := by
  obtain ⟨x, hx⟩ := sectionLoop_ends host [] (ofBytes sections.debugLine.data)
  rw [parseDebugLineSection_of_some hx] at h
  rcases x with e | ⟨compUnits, s⟩
  · cases h
  · cases h
    exact ⟨_, hx⟩

/-- The units that there are have headers that were parsed. -/
theorem headerAt_of_visits {y : List LineInfoCompUnit × BinaryReader}
    (v : Visits sectionCond (parseCompUnit host) ([], ofBytes sections.debugLine.data) y) :
    ∀ compUnit ∈ y.1, ∃ program, HeaderAt host sections compUnit.header program := by
  have hinv := v.invariant (P := fun compUnits r =>
    Visits sectionCond (parseCompUnit host) ([], ofBytes sections.debugLine.data) (compUnits, r) ∧
      ∀ compUnit ∈ compUnits, ∃ program, HeaderAt host sections compUnit.header program) ?_
    ⟨.refl _, nofun⟩
  · exact hinv.2
  · rintro compUnits r compUnits' r' ⟨hvisit, hall⟩ hc hb
    refine ⟨hvisit.trans (.step hc hb (.refl _)), ?_⟩
    obtain ⟨bs, hbs, hunit⟩ := unitAt_of_visits hvisit hc
    obtain ⟨header, r'', table, hparse, hflow⟩ := parseCompUnit_ok hb
    cases hflow
    obtain rfl : r = ofBytes bs := congrArg Prod.snd hbs
    obtain ⟨program, rfl⟩ := parseLineHeader_ofBytes hparse
    exact List.forall_mem_append.mpr
      ⟨hall, List.forall_mem_singleton.mpr ⟨program, bs, hunit, hparse⟩⟩

/-- No unit is dropped. -/
theorem isPrefix_of_visits {x y : List LineInfoCompUnit × BinaryReader}
    (v : Visits sectionCond (parseCompUnit host) x y) : x.1 <+: y.1 := by
  refine v.invariant (P := fun compUnits _ => x.1 <+: compUnits) ?_ (List.prefix_refl _)
  intro compUnits r compUnits' r' hp _ hb
  obtain ⟨_, _, _, -, hflow⟩ := parseCompUnit_ok hb
  cases hflow
  exact hp.trans (List.prefix_append _ _)

/-- **The units of a run that returns** are those with the headers that it has parsed. -/
theorem exists_compUnit_iff {lineInfo : LineInfo} {r : BinaryReader}
    (h : parseDebugLineSection host sections = .ok (lineInfo, r)) :
    (∃ compUnit ∈ lineInfo.compUnits, compUnit.header = header) ↔
      ∃ program, HeaderAt host sections header program := by
  obtain ⟨n, hloop⟩ := parseDebugLineSection_ok h
  constructor
  · rintro ⟨compUnit, hmem, rfl⟩
    obtain ⟨hv, -⟩ := (Visits.refl ([], ofBytes sections.debugLine.data)).to_end
      parseCompUnit_ne_stop hloop
    exact headerAt_of_visits hv compUnit hmem
  · rintro ⟨program, bs, ⟨compUnits, hvisit, hc⟩, hparse⟩
    obtain ⟨hrest, hend⟩ := hvisit.to_end parseCompUnit_ne_stop hloop
    -- the header is that of the iteration behind `compUnits`, which is not the last state
    cases hrest with
    | refl =>
      rw [hc] at hend
      cases hend
    | step _ hb hrest =>
      obtain ⟨header', r', table, hparse', hflow⟩ := parseCompUnit_ok hb
      cases hflow
      cases hparse.symm.trans hparse'
      exact ⟨⟨header, table⟩, (isPrefix_of_visits hrest).subset (by simp), rfl⟩

end

end Dabugger.Dwarf.Reached
