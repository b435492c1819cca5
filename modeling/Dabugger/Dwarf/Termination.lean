import Dabugger.Dwarf.Program

/-! # Parsing ends on every input

The readers ignore the results of their reads, and a failed read leaves the reader where it is. So
the bytes remaining are a measure only because some read of each iteration takes a byte whenever one
is left: the opcode in the loop of the decoder, and in the loop over the units the one-byte
`address_size`, which succeeds where the longer fields before it fail. -/

namespace Dabugger.Dwarf.Termination

open Dabugger.Lib.Exact Dabugger.Lib.Loop Dabugger.Base Dabugger.Base.BinaryReader
open Dabugger.Reader Dabugger.Dwarf.Types Dabugger.Dwarf.Header Dabugger.Dwarf.Program

section
variable {E : Fault → Prop}

/-- The end of a `read_lnct_*` function: what was read is stored, or not. -/
theorem ends_store {c : Prop} [Decidable c] (e e' : DwarfLineNumContentEntry) :
    Shrinks remaining E (if c then pure e else pure e' : Parse DwarfLineNumContentEntry) :=
  .ite (.pure _) (.pure _)

variable [AllowsReads E] (host : Host)

theorem ends_cAssert (p : Bool) : Shrinks remaining E (liftM (cAssert host p) : Parse Unit) :=
  .lift (cAssert_ends host p)

/-! ### One field of an entry -/

section
variable (locals : Locals) (formCode : DwarfFormCode) (entry : DwarfLineNumContentEntry)

theorem ends_path (isDwarf64 : Bool) :
    Shrinks remaining E (readLnctPath host locals formCode entry isDwarf64) := by
  simp only [readLnctPath, pure_bind, ne_eq, ite_not]
  refine .ite ((ends_readCstring _).bind fun _ => ends_store _ _) (.ite ?_ (ends_store _ _))
  refine (ends_readInt _ _ _).bind fun _ => .ite (ends_store _ _) (.ite ?_ (ends_store _ _))
  exact (ends_cAssert host _).bind fun _ => ends_store _ _

theorem ends_directoryIndex :
    Shrinks remaining E (readLnctDirectoryIndex locals formCode entry) := by
  simp only [readLnctDirectoryIndex, pure_bind, ne_eq, ite_not]
  refine .ite ((ends_readInt _ _ _).bind fun _ => ends_store _ _) ?_
  refine .ite ((ends_readInt _ _ _).bind fun _ => ends_store _ _) ?_
  exact .ite ((ends_readUleb128).bind fun _ => ends_store _ _) (ends_store _ _)

theorem ends_timestamp : Shrinks remaining E (readLnctTimestamp locals formCode entry) := by
  simp only [readLnctTimestamp, pure_bind, ne_eq, ite_not]
  refine .ite ((ends_readUleb128).bind fun _ => ends_store _ _) ?_
  refine .ite ((ends_readInt _ _ _).bind fun _ => ends_store _ _) ?_
  refine .ite ((ends_readInt _ _ _).bind fun _ => ends_store _ _) (.ite ?_ (ends_store _ _))
  exact (ends_readUleb128).bind fun _ => (ends_readInt _ _ _).bind fun _ =>
    ends_store _ _

theorem ends_size : Shrinks remaining E (readLnctSize locals formCode entry) := by
  simp only [readLnctSize, pure_bind, ne_eq, ite_not]
  refine .ite ((ends_readUleb128).bind fun _ => ends_store _ _) ?_
  refine .ite ((ends_readInt _ _ _).bind fun _ => ends_store _ _) ?_
  refine .ite ((ends_readInt _ _ _).bind fun _ => ends_store _ _) ?_
  refine .ite ((ends_readInt _ _ _).bind fun _ => ends_store _ _) ?_
  exact .ite ((ends_readInt _ _ _).bind fun _ => ends_store _ _) (ends_store _ _)

theorem ends_md5 : Shrinks remaining E (readLnctMd5 locals formCode entry) := by
  simp only [readLnctMd5, pure_bind, ne_eq, ite_not]
  exact .ite ((ends_readBytes _ _).bind fun _ => ends_store _ _) (ends_store _ _)

end

theorem ends_field {isDwarf64 : Bool} (i j : ℕ) (fmt : DwarfLineNumFormatDesc)
    (entry : DwarfLineNumContentEntry) : Shrinks remaining E (readLnctField host isDwarf64 i j fmt entry) := by
  refine .get_bind fun r => .ite (ends_path host _ _ _ _) ?_
  refine .ite (ends_directoryIndex _ _ _) (.ite (ends_timestamp _ _ _) ?_)
  refine .ite (ends_size _ _ _) (.ite (ends_md5 _ _ _) (.ite ?_ (.pure _)))
  exact (ends_cAssert host _).bind fun _ => .pure _

/-! ### The header -/

theorem ends_fields {isDwarf64 : Bool} (i : ℕ) : ∀ (j : ℕ) (formats : List DwarfLineNumFormatDesc)
    (entry : DwarfLineNumContentEntry), Shrinks remaining E (readLnctFields host isDwarf64 i j formats entry)
  | _, [], _ => .pure _
  | j, _ :: formats, _ => (ends_field host i j _ _).bind fun _ => ends_fields i (j + 1) formats _

theorem ends_entries {formats : List DwarfLineNumFormatDesc} {isDwarf64 : Bool} :
    ∀ i entryCount : ℕ, Shrinks remaining E (readLnctEntries host formats isDwarf64 i entryCount)
  | _, 0 => .pure _
  | i, entryCount + 1 => (ends_fields host i 0 _ _).bind fun _ =>
    (ends_entries (i + 1) entryCount).bind fun _ => .pure _

theorem ends_formats : ∀ count : ℕ, Shrinks remaining E (readFormats count)
  | 0 => .pure _
  | count + 1 => (ends_readUleb128).bind fun _ => (ends_readUleb128).bind fun _ =>
    (ends_formats count).bind fun _ => .pure _

theorem moves_uint8 : Advances remaining E readUInt8 := (moves_readInt 1 0).bind fun _ => .pure _

theorem ends_uint8 : Shrinks remaining E readUInt8 := (moves_uint8).toShrinks

theorem ends_uint16 : Shrinks remaining E readUInt16 := (ends_readInt _ _ _).bind fun _ => .pure _

theorem ends_uint64 (n : ℕ) : Shrinks remaining E (readUInt64 n) :=
  (ends_readInt _ _ _).bind fun _ => .pure _

theorem ends_unitLength : Shrinks remaining E (readUnitLength host) := by
  refine Shrinks.bind ((ends_readInt _ _ _).bind fun _ => .pure _) fun _ => ?_
  refine .ite (.pure _) (.ite ((ends_uint64 _).bind fun _ => .pure _) ?_)
  exact (ends_cAssert host _).bind fun _ => .pure _

/-- **The header parser takes a byte** if one is left: `address_size` does, where the fields before
it do not. -/
theorem moves_parseLineHeader : Advances remaining E (parseLineHeader host) := by
  refine (ends_unitLength host).bind_advances fun _ => ?_
  refine (ends_uint16).bind_advances fun _ => (moves_uint8).bind fun _ => ?_
  have h8 : Shrinks remaining E readUInt8 := ends_uint8
  refine h8.bind fun _ => (ends_uint64 _).bind fun _ => ?_
  refine h8.bind fun _ => h8.bind fun _ => h8.bind fun _ => h8.bind fun _ => h8.bind fun _ => ?_
  refine h8.bind fun _ => (ends_readBytes _ _).bind fun _ => ?_
  refine h8.bind fun _ => (ends_formats _).bind fun _ => ?_
  refine (ends_readUleb128).bind fun _ => (ends_entries host _ _).bind fun _ => ?_
  refine h8.bind fun _ => (ends_formats _).bind fun _ => ?_
  exact (ends_readUleb128).bind fun _ => (ends_entries host _ _).bind fun _ => .pure _

end

/-! ### The program -/

variable (host : Host) (header : LineNumProgHeader) (stateMachine : LineNumStateMachine) (table : LineInfoTable)

theorem advancePc_ends (opAdvance : UInt64) (e : Fault)
    (h : stateMachineAdvancePc stateMachine header opAdvance = .error e) : e ≠ .diverges := by
  unfold stateMachineAdvancePc at h
  dsimp only at h
  split at h <;> cases h
  simp

theorem ends_advancePc (opAdvance : UInt64) :
    Ends (liftM (stateMachineAdvancePc stateMachine header opAdvance) : Parse _) :=
  .lift (advancePc_ends _ _ _)

theorem ends_decodeExtended {E : Fault → Prop} [AllowsReads E] :
    Shrinks remaining E (decodeExtended header stateMachine table) := by
  refine (ends_readUleb128).bind fun _ => (ends_uint8).bind fun _ => .ite (.pure _) ?_
  refine .ite ((ends_readInt _ _ _).bind fun _ => .pure _) ?_
  exact .ite ((ends_readUleb128).bind fun _ => .pure _) (.pure _)

theorem ends_divByZero {α : Type} : Ends (throw .divByZero : Parse α) :=
  ⟨by rintro r x r' ⟨⟩, by rintro r e ⟨⟩; simp⟩

theorem ends_decodeStandard (opcode : UInt8) :
    Ends (decodeStandard header opcode stateMachine table) := by
  have hu : Ends readUleb128 := ends_readUleb128
  refine .ite (.pure _) (.ite (hu.bind fun _ => ?_) ?_)
  · exact (ends_advancePc _ _ _).bind fun _ => .pure _
  refine .ite ((ends_readSleb128).bind fun _ => .pure _) ?_
  refine .ite (hu.bind fun _ => .pure _) (.ite (hu.bind fun _ => .pure _) ?_)
  refine .ite (.pure _) (.ite (.pure _) (.ite (.ite ?_ ?_) ?_))
  · exact ends_divByZero.bind fun _ => (ends_advancePc _ _ _).bind fun _ => .pure _
  · exact (ends_advancePc _ _ _).bind fun _ => .pure _
  refine .ite ((ends_uint16).bind fun _ => .pure _) (.ite (.pure _) (.ite (.pure _) ?_))
  exact .ite (hu.bind fun _ => .pure _) (.pure _)

theorem ends_decodeSpecial (opcode : UInt8) :
    Ends (decodeSpecial header opcode stateMachine table) := by
  refine .ite ?_ ((ends_advancePc _ _ _).bind fun _ => .pure _)
  exact ends_divByZero.bind fun _ => (ends_advancePc _ _ _).bind fun _ => .pure _

theorem ends_decodeOpcode (opcode : UInt8) (state : DecodeState) :
    Ends (decodeOpcode header opcode state) :=
  .ite (ends_decodeExtended _ _ _) (.ite (ends_decodeStandard _ _ _ _)
    (ends_decodeSpecial _ _ _ _))

theorem ends_decodeStep (state : DecodeState) : Ends (decodeStep header state) :=
  (ends_readInt _ _ _).bind fun _ => .ite (.pure _)
    ((ends_decodeOpcode header _ _).bind fun _ => .pure _)

/-- **An iteration of the decoder** breaks, or takes its opcode. -/
theorem decodeStep_lt {state : DecodeState} {r r' : BinaryReader} {flow : Flow DecodeState}
    (h : decodeStep header state r = .ok (flow, r')) :
    (∃ state', flow = .stop state') ∨ r'.remaining < r.remaining := by
  obtain ⟨⟨result, opcode⟩, r1, h1, h2⟩ := bind_ok h
  obtain ⟨⟨result', out⟩, r2, h3, h4⟩ := bind_ok h1
  cases h4
  rcases readBytes_inv h3 with ⟨hs, hle, rfl⟩ | ⟨hs, -, rfl⟩
  · right
    dsimp only at h2
    rw [if_neg (by simpa using hs)] at h2
    obtain ⟨state', r2, h5, h6⟩ := bind_ok h2
    cases h6
    have := (ends_decodeOpcode header _ _).le _ _ _ h5
    dsimp only at this
    omega
  · left
    dsimp only at h2
    rw [if_pos (by simp [show result.status = _ from hs])] at h2
    cases h2
    exact ⟨_, rfl⟩

/-- **The loop of the decoder ends**, whatever its bound is. -/
theorem decodeLoop_ends (lineProgLength : UInt64) (origRemaining : ℕ) (state : DecodeState)
    (r : BinaryReader) : ∃ x, whileLoop (decodeCond origRemaining lineProgLength)
      (decodeStep header) (r.remaining + 1) state r = some x :=
  whileLoop_enough (μ := remaining) (fun a s a' s' _ hb => by
    rcases decodeStep_lt header hb with ⟨x, hx⟩ | hlt
    · cases hx
    · exact hlt) _ _ (Nat.lt_succ_self _)

theorem ends_decodeLineNumProg : Ends (decodeLineNumProg host header) := by
  constructor
  · intro r table r' h
    obtain ⟨stateMachine, hloop⟩ := decodeLineNumProg_ok h
    exact (whileLoop_shrinks (ends_decodeStep header) hloop).1 _ rfl
  · intro r e h
    obtain ⟨x, hx⟩ := decodeLoop_ends header (lineProgLength header) r.remaining
      (decodeStart header) r
    rw [decodeLineNumProg_apply, hx] at h
    cases hc : cAssert host (decide ((lineProgLength header).toNat ≤ r.remaining)) with
    | error e => rw [hc] at h; cases h; exact cAssert_ends (E := (· ≠ .diverges)) host _ _ hc
    | ok u =>
      rw [hc] at h
      cases x with
      | error e => cases h; exact (whileLoop_shrinks (ends_decodeStep header) hx).2 _ rfl
      | ok y => cases h

theorem moves_parseCompUnit (compUnits : List LineInfoCompUnit) :
    Moves (parseCompUnit host compUnits) :=
  (moves_parseLineHeader host).bind fun _ => (ends_decodeLineNumProg host _).bind fun _ => .pure _

/-! ### The section -/

/-- The loop over the units ends, within as many iterations as the section has bytes. -/
theorem sectionLoop_ends (compUnits : List LineInfoCompUnit) (r : BinaryReader) :
    ∃ x, whileLoop sectionCond (parseCompUnit host) r.remaining compUnits r = some x :=
  whileLoop_enough_of_zero (μ := remaining) (fun _ s hs => by simp [sectionCond, hs])
    (fun a s _ _ hc hb => (moves_parseCompUnit host a).lt _ _ _ hb (by simpa [sectionCond] using hc))
    _ _ (Nat.le_refl _)

/-- **Parsing ends on every input**, with and without assertions. An iteration of the loop over the
units that completes takes a byte, and as many iterations as there are bytes are enough; an iteration
of the decoder's loop breaks or takes a byte, whatever the bound of the loop is, and the loop ends. -/
theorem parsing_ends (sections : ProgramSections) :
    parseDebugLineSection host sections ≠ .error .diverges ∧
      (∀ n, sections.debugLine.size ≤ n → ∃ x,
        whileLoop sectionCond (parseCompUnit host) n [] (ofBytes sections.debugLine.data) = some x ∧
        parseDebugLineSection host sections = x.map fun y => (⟨y.1⟩, y.2)) ∧
      (∀ compUnits r flow r', sectionCond compUnits r = true →
        parseCompUnit host compUnits r = .ok (flow, r') → r'.remaining < r.remaining) ∧
      (∀ header state r flow r', decodeStep header state r = .ok (flow, r') →
        (∃ state', flow = .stop state') ∨ r'.remaining < r.remaining) ∧
      (∀ header (lineProgLength : UInt64) state (r : BinaryReader), ∃ x,
        whileLoop (decodeCond r.remaining lineProgLength) (decodeStep header)
          (r.remaining + 1) state r = some x) := by
  obtain ⟨x, hx⟩ := sectionLoop_ends host [] (ofBytes sections.debugLine.data)
  have hparse := parseDebugLineSection_of_some hx
  refine ⟨?_, fun n hn => ⟨x, whileLoop_mono hn hx, hparse⟩, ?_, ?_, ?_⟩
  · intro hd
    rw [hparse] at hd
    cases x with
    | ok y => cases hd
    | error e =>
      cases hd
      exact (whileLoop_shrinks (fun a => (moves_parseCompUnit host a).toShrinks) hx).2 _ rfl rfl
  · intro compUnits r flow r' hc h
    exact (moves_parseCompUnit host compUnits).lt _ _ _ h (by simpa [sectionCond] using hc)
  · exact fun header _ _ _ _ h => decodeStep_lt header h
  · exact fun header len state r => decodeLoop_ends header len r.remaining state r

/-- On a section of one byte all the longer fields fail to be read; `address_size` takes the byte. -/
theorem parsing_ends_oneByte : ∃ flow r',
    parseCompUnit (.zeroed false) [] (ofBytes [0]) = .ok (flow, r') ∧ r'.remaining < 1 :=
  ⟨_, _, rfl, (parsing_ends (.zeroed false) { debugLine := ⟨0, [0], by decide⟩ }).2.2.1 []
    (ofBytes [0]) _ _ rfl rfl⟩

end Dabugger.Dwarf.Termination
