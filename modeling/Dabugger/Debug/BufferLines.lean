import Dabugger.Debug.Assembly
import Mathlib.Data.List.TakeWhile

/-! # The lines of the buffers

The buffers that `get_source_buffer` and `get_assembly_buffer` return have as many lines as they say,
none of them null, and fewer than `2 ^ 32` (`LinesBuffer.Filled`). The source of a unit is its file cut
at the newlines, and each line at its first null byte: without null bytes the file can be read back from
the lines (`getSourceBuffer_roundTrip`). -/

namespace Dabugger.Debug.BufferLines

open Dabugger.Lib.Runs Dabugger.Lib.Arrays Dabugger.Base Dabugger.Dwarf.Types
  Dabugger.Debug.Session Dabugger.Debug.Buffers Dabugger.Debug.Assembly

/-! ### Filled buffers -/

/-- So many lines, and none of them null. -/
structure LinesFilled (buffer : LinesBuffer) : Prop where
  length : buffer.lines.length = buffer.lineCount.toNat
  lines : none ∉ buffer.lines
  lt : buffer.lineCount.toNat < 2 ^ 32

/-- So many lines and addresses. -/
structure AssemblyFilled (buffer : AssemblyBuffer) : Prop where
  text : LinesFilled buffer.textBuffer
  addresses : buffer.addresses.length = buffer.textBuffer.lineCount.toNat

theorem linesFilled_empty : LinesFilled {} := ⟨rfl, List.not_mem_nil, by decide⟩

section
variable {buffer buffer' : LinesBuffer} {lineNum : UInt32} {line : List UInt8}

/-- **One line** is written behind or over others. -/
theorem setLine_ok (hle : lineNum.toNat ≤ buffer.lines.length)
    (h : setLine buffer lineNum line = .ok buffer') :
    lineNum.toNat + 1 < 2 ^ 32 ∧ buffer'.lineCount.toNat = lineNum.toNat + 1 ∧
      buffer'.lines = buffer.lines.take lineNum.toNat ++ [some line] := by
  unfold setLine at h
  split at h
  · cases h
  · rename_i hne
    have hlt : lineNum.toNat + 1 < 2 ^ 32 := by
      by_contra hge
      exact hne (succ_eq_zero hge)
    cases h
    refine ⟨hlt, ?_, set_resize _ hle _⟩
    rw [UInt32.toNat_toUInt64, toNat_succ hlt]

/-- It is written unless its number is the last one of an `unsigned`. -/
theorem setLine_isOk_iff (buffer : LinesBuffer) (line : List UInt8) :
    (∃ buffer', setLine buffer lineNum line = .ok buffer') ↔ lineNum.toNat + 1 < 2 ^ 32 := by
  unfold setLine
  by_cases hlt : lineNum.toNat + 1 < 2 ^ 32
  · have hne : lineNum + 1 ≠ 0 := by
      intro h0
      have hsucc := toNat_succ hlt
      rw [h0] at hsucc
      simp at hsucc
    rw [if_neg hne]
    exact iff_of_true ⟨_, rfl⟩ hlt
  · rw [if_pos (succ_eq_zero hlt)]
    exact iff_of_false (by rintro ⟨_, ⟨⟩⟩) hlt

theorem LinesFilled.setLine (hf : LinesFilled buffer) (hle : lineNum.toNat ≤ buffer.lines.length)
    (h : setLine buffer lineNum line = .ok buffer') :
    LinesFilled buffer' ∧ buffer'.lines.length = lineNum.toNat + 1 := by
  obtain ⟨hlt, hcount, hlines⟩ := setLine_ok hle h
  have hlength : buffer'.lines.length = lineNum.toNat + 1 := by
    rw [hlines, List.length_append, List.length_take, Nat.min_eq_left hle]
    rfl
  refine ⟨⟨hlength.trans hcount.symm, ?_, hcount ▸ hlt⟩, hlength⟩
  rw [hlines]
  intro hmem
  rcases List.mem_append.mp hmem with hmem | hmem
  · exact hf.lines (List.mem_of_mem_take hmem)
  · cases List.mem_singleton.mp hmem

end

/-! ### The source -/

/-- The loop of `get_source_buffer`, from the end of the lines on. -/
theorem setLines_ok : ∀ {lines : List (List UInt8)} {buffer buffer' : LinesBuffer} {lineNum : UInt32},
    lineNum.toNat = buffer.lines.length → buffer.lineCount.toNat = buffer.lines.length →
    buffer.lines.length < 2 ^ 32 → setLines buffer lineNum lines = .ok buffer' →
    buffer'.lines = buffer.lines ++ lines.map (fun line => some (line.takeWhile (· ≠ 0))) ∧
      buffer'.lineCount.toNat = buffer'.lines.length ∧ buffer'.lines.length < 2 ^ 32
  | [], _, _, _, _, hcount, hlt, h => by
    cases h
    exact ⟨(List.append_nil _).symm, hcount, hlt⟩
  | line :: lines, buffer, buffer', lineNum, hnum, hcount, hlt, h => by
    obtain ⟨buffer₁, hset, h⟩ := except_bind_ok h
    obtain ⟨hsucc, hcount₁, hlines₁⟩ := setLine_ok hnum.le hset
    rw [hnum, List.take_length] at hlines₁
    have hlength : buffer₁.lines.length = buffer.lines.length + 1 := by
      rw [hlines₁, List.length_append, List.length_singleton]
    obtain ⟨hlines, hrest⟩ := setLines_ok (by rw [toNat_succ hsucc, hlength, hnum])
      (by rw [hcount₁, hlength, hnum]) (by omega) h
    refine ⟨?_, hrest⟩
    rw [hlines, hlines₁, List.append_assoc]
    rfl

/-- It returns if the lines can be numbered. -/
theorem setLines_isOk_iff : ∀ (lines : List (List UInt8)) {buffer : LinesBuffer}
    {lineNum : UInt32}, lineNum.toNat = buffer.lines.length →
    ((∃ buffer', setLines buffer lineNum lines = .ok buffer') ↔
      lineNum.toNat + lines.length < 2 ^ 32)
  | [], _, lineNum, _ => iff_of_true ⟨_, rfl⟩ lineNum.toNat_lt
  | line :: lines, buffer, lineNum, hnum => by
    rw [List.length_cons]
    by_cases hsucc : lineNum.toNat + 1 < 2 ^ 32
    · obtain ⟨buffer₁, hset⟩ := (setLine_isOk_iff buffer (line.takeWhile (· ≠ 0))).mpr hsucc
      obtain ⟨-, -, hlines₁⟩ := setLine_ok hnum.le hset
      have hlength : buffer₁.lines.length = buffer.lines.length + 1 := by
        rw [hlines₁, hnum, List.take_length, List.length_append, List.length_singleton]
      have ih : (∃ buffer', setLines buffer₁ (lineNum + 1) lines = .ok buffer') ↔ _ :=
        setLines_isOk_iff lines (by rw [toNat_succ hsucc, hlength, hnum])
      rw [toNat_succ hsucc] at ih
      rw [setLines, except_bind_of_ok hset, ih]
      omega
    · refine iff_of_false ?_ (by omega)
      rintro ⟨buffer', h⟩
      obtain ⟨buffer₁, hset, -⟩ := except_bind_ok h
      exact hsucc (setLine_ok hnum.le hset).1

/-! ### The file -/

/-- Lines with a newline behind each. -/
def unlines (lines : List (List UInt8)) : List UInt8 := lines.flatMap fun line => line ++ [10]

/-- A text that is empty, or ends with a newline. -/
def Terminated (text : List UInt8) : Prop := text = [] ∨ text.getLast? = some 10

instance (text : List UInt8) : Decidable (Terminated text) := inferInstanceAs (Decidable (_ ∨ _))

/-- What is missing behind the last line. -/
def missing (text : List UInt8) : List UInt8 := if Terminated text then [] else [10]

theorem missing_cons (line cs : List UInt8) : missing (line ++ 10 :: cs) = missing cs := by
  refine if_congr ?_ rfl rfl
  unfold Terminated
  rw [List.getLast?_append]
  cases cs with
  | nil => simp
  | cons c cs => simp [List.getLast?_cons_cons]

theorem missing_of_not_mem {line : List UInt8} (h : 10 ∉ line) (hne : line ≠ []) :
    missing line = [10] := by
  refine if_neg ?_
  rintro (hnil | hlast)
  · exact hne hnil
  · exact h (List.mem_of_getLast? hlast)

theorem newline_not_mem_concat {line : List UInt8} {c : UInt8} (h : 10 ∉ line) (hc : c ≠ 10) :
    10 ∉ line ++ [c] := by
  intro hmem
  rcases List.mem_append.mp hmem with hmem | hmem
  · exact h hmem
  · exact hc (List.mem_singleton.mp hmem).symm

/-- The lines of a text have no newlines. -/
theorem newline_not_mem_getlines : ∀ {cs line shown : List UInt8}, 10 ∉ line →
    shown ∈ getlines cs line → 10 ∉ shown
  | [], line, shown, h, hshown => by
    rw [getlines] at hshown
    split at hshown
    · cases hshown
    · rwa [List.mem_singleton.mp hshown]
  | c :: cs, line, shown, h, hshown => by
    rw [getlines] at hshown
    split at hshown
    · rcases List.mem_cons.mp hshown with rfl | hshown
      · exact h
      · exact newline_not_mem_getlines List.not_mem_nil hshown
    · rename_i hc
      exact newline_not_mem_getlines (newline_not_mem_concat h hc) hshown

/-- **The lines of a text**, read back. -/
theorem unlines_getlines : ∀ cs line : List UInt8, 10 ∉ line →
    unlines (getlines cs line) = line ++ cs ++ missing (line ++ cs)
  | [], line, h => by
    rw [getlines, List.append_nil]
    split
    · rename_i hnil
      subst hnil
      rfl
    · rename_i hne
      rw [missing_of_not_mem h hne]
      exact List.append_nil _
  | c :: cs, line, h => by
    rw [getlines]
    split
    · rename_i hc
      subst hc
      have ih := unlines_getlines cs [] List.not_mem_nil
      rw [List.nil_append] at ih
      rw [missing_cons, unlines, List.flatMap_cons]
      change line ++ [10] ++ unlines (getlines cs []) = _
      rw [ih]
      simp
    · rename_i hc
      have hline := newline_not_mem_concat h hc
      rw [unlines_getlines cs _ hline, List.append_assoc line [c] cs]
      rfl

/-- Their number is that of the newlines, and one more if the last one is missing. -/
theorem length_getlines : ∀ cs line : List UInt8, 10 ∉ line →
    (getlines cs line).length = cs.count 10 + (missing (line ++ cs)).length
  | [], line, h => by
    rw [getlines, List.append_nil]
    split
    · rename_i hnil
      subst hnil
      rfl
    · rename_i hne
      rw [missing_of_not_mem h hne]
      rfl
  | c :: cs, line, h => by
    rw [getlines]
    split
    · rename_i hc
      subst hc
      rw [missing_cons, List.length_cons, length_getlines cs [] List.not_mem_nil, List.nil_append,
        List.count_cons_self]
      omega
    · rename_i hc
      have hline := newline_not_mem_concat h hc
      rw [length_getlines cs _ hline, List.append_assoc line [c] cs, List.count_cons_of_ne hc]
      rfl

/-- A line is read up to its newline. -/
theorem getlines_append : ∀ (line : List UInt8) {rest current : List UInt8}, 10 ∉ line →
    getlines (line ++ 10 :: rest) current = (current ++ line) :: getlines rest []
  | [], rest, current, _ => by
    rw [List.nil_append, getlines, if_pos rfl, List.append_nil]
  | c :: line, rest, current, h => by
    have hc : c ≠ 10 := fun hc => h (hc ▸ List.mem_cons_self)
    rw [List.cons_append, getlines, if_neg hc,
      getlines_append line fun hmem => h (List.mem_cons_of_mem _ hmem), List.append_assoc]
    rfl

/-- **A text of lines** is cut into these. -/
theorem getlines_unlines : ∀ {lines : List (List UInt8)}, (∀ line ∈ lines, 10 ∉ line) →
    getlines (unlines lines) [] = lines
  | [], _ => rfl
  | line :: lines, h => by
    rw [unlines, List.flatMap_cons, List.append_assoc]
    change getlines (line ++ 10 :: unlines lines) [] = _
    rw [getlines_append line (h line List.mem_cons_self), List.nil_append,
      getlines_unlines fun line' hline' => h line' (List.mem_cons_of_mem _ hline')]

/-- A line of a text has none of its other letters. -/
theorem mem_getlines : ∀ {cs line shown : List UInt8}, shown ∈ getlines cs line →
    ∀ c ∈ shown, c ∈ line ∨ c ∈ cs
  | [], line, shown, h, c, hc => by
    rw [getlines] at h
    split at h
    · cases h
    · rw [List.mem_singleton.mp h] at hc
      exact .inl hc
  | c' :: cs, line, shown, h, c, hc => by
    rw [getlines] at h
    split at h
    · rcases List.mem_cons.mp h with rfl | h
      · exact .inl hc
      · rcases mem_getlines h c hc with hmem | hmem
        · cases hmem
        · exact .inr (List.mem_cons_of_mem _ hmem)
    · rcases mem_getlines h c hc with hmem | hmem
      · rcases List.mem_append.mp hmem with hmem | hmem
        · exact .inl hmem
        · exact .inr (List.mem_singleton.mp hmem ▸ List.mem_cons_self)
      · exact .inr (List.mem_cons_of_mem _ hmem)

theorem takeWhile_ne_zero {line : List UInt8} (h : 0 ∉ line) : line.takeWhile (· ≠ 0) = line := by
  rw [List.takeWhile_eq_self_iff]
  intro c hc
  exact decide_eq_true fun h0 : c = 0 => h (h0 ▸ hc)

/-- The file that is opened for a unit. -/
def SourceFile (files : Files) (session : DebugSession) (compUnitIndex : ℕ)
    (content : List UInt8) : Prop :=
  ∃ compUnit path, session.lineInfo.compUnits[compUnitIndex]? = some compUnit ∧
    getFilePath session.programData.sections.debugLineStr.data compUnit.header 0 =
      .ok (some path) ∧ files path = some content

/-- What `get_source_buffer` does with the file. -/
theorem getSourceBuffer_of_file {files : Files} {session : DebugSession} {compUnitIndex : ℕ}
    {content : List UInt8} (h : SourceFile files session compUnitIndex content) :
    getSourceBuffer files session compUnitIndex = (setLines {} 0 (getlines content [])).map some := by
  obtain ⟨compUnit, path, hu, hpath, hfile⟩ := h
  rw [getSourceBuffer, hu]
  dsimp only
  rw [except_bind_of_ok hpath, Option.bind_some, hfile]
  rfl

/-- There is a file, where it returns a buffer. -/
theorem exists_sourceFile {files : Files} {session : DebugSession} {compUnitIndex : ℕ}
    {buffer : LinesBuffer} (h : getSourceBuffer files session compUnitIndex = .ok (some buffer)) :
    ∃ content, SourceFile files session compUnitIndex content := by
  unfold getSourceBuffer at h
  cases hu : session.lineInfo.compUnits[compUnitIndex]? with
  | none => rw [hu] at h; cases h
  | some compUnit =>
    rw [hu] at h
    obtain ⟨path, hpath, h⟩ := except_bind_ok h
    cases path with
    | none => cases h
    | some path =>
      cases hfile : files path with
      | none =>
        rw [Option.bind_some, hfile] at h
        cases h
      | some content => exact ⟨content, compUnit, path, hu, hpath, hfile⟩

/-- **The lines of a source.** -/
theorem getSourceBuffer_lines {files : Files} {session : DebugSession} {compUnitIndex : ℕ}
    {content : List UInt8} (hfile : SourceFile files session compUnitIndex content)
    {buffer : Option LinesBuffer}
    (h : getSourceBuffer files session compUnitIndex = .ok buffer) :
    ∃ shown, buffer = some shown ∧ LinesFilled shown ∧
      shown.lines = (getlines content []).map fun line => some (line.takeWhile (· ≠ 0)) := by
  rw [getSourceBuffer_of_file hfile] at h
  obtain ⟨shown, hset, rfl⟩ := except_map_ok h
  obtain ⟨hlines, hcount, hlt⟩ := setLines_ok rfl rfl (by decide) hset
  refine ⟨shown, rfl, ⟨hcount.symm, ?_, hcount ▸ hlt⟩, hlines⟩
  rw [hlines]
  intro hmem
  obtain ⟨_, -, hnone⟩ := List.mem_map.mp hmem
  cases hnone

/-- The source of a unit is filled. -/
theorem getSourceBuffer_filled {files : Files} {session : DebugSession} {compUnitIndex : ℕ}
    {buffer : LinesBuffer} (h : getSourceBuffer files session compUnitIndex = .ok (some buffer)) :
    LinesFilled buffer := by
  obtain ⟨content, hfile⟩ := exists_sourceFile h
  obtain ⟨shown, hsome, hfilled, -⟩ := getSourceBuffer_lines hfile h
  cases hsome
  exact hfilled

/-- **The source of a unit is its file.** It is shown unless it has `2 ^ 32` lines or more: the file is
cut at its newlines, and each line at its first null byte. The lines of a file without null bytes are the
file, up to a newline at its end; and a file that is written from lines without newlines and null bytes
shows these. -/
theorem getSourceBuffer_roundTrip {files : Files} {session : DebugSession} {compUnitIndex : ℕ}
    {content : List UInt8} (hfile : SourceFile files session compUnitIndex content) :
    ((∃ buffer, getSourceBuffer files session compUnitIndex = .ok buffer) ↔
      content.count 10 + (missing content).length < 2 ^ 32) ∧
    ∀ buffer, getSourceBuffer files session compUnitIndex = .ok buffer →
      ∃ shown, buffer = some shown ∧ LinesFilled shown ∧
        (∃ lines, unlines lines = content ++ missing content ∧ (∀ line ∈ lines, 10 ∉ line) ∧
          shown.lines = lines.map fun line => some (line.takeWhile (· ≠ 0))) ∧
        (0 ∉ content →
          unlines (shown.lines.map (·.getD [])) = content ++ missing content) ∧
        ∀ lines, content = unlines lines → (∀ line ∈ lines, 10 ∉ line ∧ 0 ∉ line) →
          shown.lines = lines.map some := by
  have htext := unlines_getlines content [] List.not_mem_nil
  rw [List.nil_append] at htext
  constructor
  · have hlength := length_getlines content [] List.not_mem_nil
    rw [List.nil_append] at hlength
    have hok : (∃ shown, setLines {} 0 (getlines content []) = .ok shown) ↔ _ :=
      setLines_isOk_iff (getlines content []) rfl
    rw [UInt32.toNat_zero, Nat.zero_add, hlength] at hok
    rw [← hok, getSourceBuffer_of_file hfile]
    constructor
    · rintro ⟨_, h⟩
      obtain ⟨shown, hset, -⟩ := except_map_ok h
      exact ⟨shown, hset⟩
    · rintro ⟨shown, hset⟩
      rw [hset]
      exact ⟨_, rfl⟩
  · intro buffer h
    obtain ⟨shown, rfl, hfilled, hlines⟩ := getSourceBuffer_lines hfile h
    have hnewline : ∀ line ∈ getlines content [], 10 ∉ line := fun _ hline =>
      newline_not_mem_getlines List.not_mem_nil hline
    refine ⟨shown, rfl, hfilled, ⟨_, htext, hnewline, hlines⟩, fun hzero => ?_, ?_⟩
    · rw [← htext, hlines, List.map_map]
      refine congrArg unlines ((List.map_congr_left fun line hline => ?_).trans (List.map_id _))
      refine takeWhile_ne_zero fun hmem => ?_
      rcases mem_getlines hline 0 hmem with hnil | hmem
      · cases hnil
      · exact hzero hmem
    · rintro lines rfl hclean
      rw [hlines, getlines_unlines fun line hline => (hclean line hline).1]
      exact List.map_congr_left fun line hline =>
        congrArg some (takeWhile_ne_zero (hclean line hline).2)

/-- A file of two lines, the second without a newline. -/
theorem getSourceBuffer_roundTrip_sample : ∃ shown,
    getSourceBuffer (fun _ => some [97, 10, 98]) (sampleSession []) 0 = .ok (some shown) ∧
      unlines (shown.lines.map (·.getD [])) = [97, 10, 98, 10] := by
  have hfile : SourceFile (fun _ => some [97, 10, 98]) (sampleSession []) 0 [97, 10, 98] :=
    ⟨_, _, rfl, rfl, rfl⟩
  obtain ⟨hok, hlines⟩ := getSourceBuffer_roundTrip hfile
  obtain ⟨buffer, hbuffer⟩ := hok.mpr (by decide)
  obtain ⟨shown, rfl, -, -, htext, -⟩ := hlines buffer hbuffer
  exact ⟨shown, hbuffer, htext (by decide)⟩

/-! ### The assembly -/

section
variable {zydis : Zydis} {textSection : SectionBuffer}

/-- The inner loop of `get_assembly_buffer` fills lines that follow each other. -/
theorem disassemble_filled {endAddr : UInt64} : ∀ {n : ℕ} {instructionAddr : UInt64}
    {lineNum : UInt32} {asmBuffer asmBuffer' : AssemblyBuffer}, AssemblyFilled asmBuffer →
    lineNum.toNat ≤ asmBuffer.textBuffer.lines.length →
    disassemble zydis textSection endAddr n instructionAddr lineNum asmBuffer = .ok asmBuffer' →
      AssemblyFilled asmBuffer'
  | 0, _, _, _, _, _, _, h => by cases h
  | n + 1, instructionAddr, lineNum, asmBuffer, asmBuffer', hf, hle, h => by
    unfold disassemble at h
    obtain ⟨window, -, h⟩ := except_bind_ok h
    cases hget : zydis.disassembleIntel instructionAddr window with
    | none =>
      rw [hget] at h
      cases h
      exact hf
    | some instruction =>
      obtain ⟨text, length⟩ := instruction
      rw [hget] at h
      obtain ⟨textBuffer, hset, h⟩ := except_bind_ok h
      obtain ⟨hsucc, -⟩ := setLine_ok hle hset
      obtain ⟨hfilled, hlength⟩ := hf.text.setLine hle hset
      refine disassemble_filled ⟨hfilled, ?_⟩ ?_ h
      · rw [List.length_set, length_resize]
      · rw [toNat_succ hsucc, hlength]

theorem disassembleSequence_filled {sequence : LineInfoSequence}
    {asmBuffer asmBuffer' : AssemblyBuffer} (hf : AssemblyFilled asmBuffer)
    (h : disassembleSequence zydis textSection asmBuffer sequence = .ok asmBuffer') :
    AssemblyFilled asmBuffer' := by
  unfold disassembleSequence at h
  split at h
  · cases h
    exact hf
  · exact disassemble_filled hf (Nat.zero_le _) h

/-- **The assembly of a unit** is filled. -/
theorem getAssemblyBuffer_filled {session : DebugSession} {compUnitIndex : ℕ}
    {asmBuffer : AssemblyBuffer}
    (h : getAssemblyBuffer zydis session compUnitIndex = .ok (some asmBuffer)) :
    AssemblyFilled asmBuffer := by
  unfold getAssemblyBuffer at h
  cases hu : session.lineInfo.compUnits[compUnitIndex]? with
  | none => rw [hu] at h; cases h
  | some compUnit =>
    rw [hu] at h
    obtain ⟨asmBuffer', hfold, h⟩ := except_bind_ok h
    cases h
    exact (Run.of_foldlM hfold).invariant (fun _ _ _ hs hf => disassembleSequence_filled hf hs)
      ⟨linesFilled_empty, rfl⟩

end

end Dabugger.Debug.BufferLines
