import Dabugger.Debug.Session
import Dabugger.Lib.Keyed
import Dabugger.Lib.Runs

/-! # The breakpoint store

The two lists of breakpoints are kept in step by six operations. `StoreStep` says what any of them
can do to a session; `StoreInv` is the invariant, and follows from `StoreStep` alone. The hazard of
`remove_breakpoint`, whose loop goes on over a list that its calls shift, does nothing under the
invariant: there is at most one source breakpoint of an address (`removeBreakpoint_eq`). -/

namespace Dabugger.Debug.Store

open Dabugger.Lib.Runs Dabugger.Lib.Keyed Dabugger.Base Dabugger.Dwarf.Types Dabugger.Debug.Session

/-- The byte of the ELF `.text` at an address. -/
def textByte (session : DebugSession) (address : UInt64) : Option UInt8 :=
  session.programData.sections.text.data[
    (address - session.programData.sections.text.address).toNat]?

/-- The first row for a line that is a statement and no end of a sequence. -/
def firstStmtRow (session : DebugSession) (compUnitIndex lineNum : ℕ) : Option LineInfoEntry :=
  session.lineInfo.compUnits[compUnitIndex]?.bind fun compUnit =>
    compUnit.table.rows.find? fun row =>
      !row.endSequence && decide (row.line.toNat = lineNum) && row.isStmt

/-- The key of a source breakpoint: its unit and its line. -/
def lineKey (sb : SourceBreakpoint) : ℕ × ℕ := (sb.compUnitIndex, sb.lineNum)

/-- A line of a unit has a source breakpoint. -/
def LineListed (session : DebugSession) (compUnitIndex lineNum : ℕ) : Prop :=
  ∃ sb ∈ session.srcBreakpoints, lineKey sb = (compUnitIndex, lineNum)

instance (session : DebugSession) (compUnitIndex lineNum : ℕ) :
    Decidable (LineListed session compUnitIndex lineNum) :=
  inferInstanceAs (Decidable (∃ sb ∈ session.srcBreakpoints, lineKey sb = (compUnitIndex, lineNum)))

/-- What the two lists are keyed by. -/
structure StoreKeys (session : DebugSession) : Prop where
  addresses : KeyedBy Breakpoint.address session.breakpoints
  lines : KeyedBy lineKey session.srcBreakpoints
  srcAddresses : KeyedBy SourceBreakpoint.address session.srcBreakpoints

/-- **The invariant of the breakpoint store.** -/
structure StoreInv (session : DebugSession) : Prop extends StoreKeys session where
  src_mem : ∀ sb ∈ session.srcBreakpoints, ∃ bp ∈ session.breakpoints, bp.address = sb.address
  src_row : ∀ sb ∈ session.srcBreakpoints,
    (firstStmtRow session sb.compUnitIndex sb.lineNum).map LineInfoEntry.address = some sb.address
  originalByte : ∀ bp ∈ session.breakpoints, textByte session bp.address = some bp.originalByte

/-- The session without the breakpoints at an address. -/
def without (address : UInt64) (session : DebugSession) : DebugSession :=
  { session with
    breakpoints := session.breakpoints.filter fun bp => decide (bp.address ≠ address)
    srcBreakpoints := session.srcBreakpoints.filter fun sb => decide (sb.address ≠ address) }

/-- **What an operation of the store does**: nothing, or it adds a breakpoint at a new address, alone
or with a source breakpoint for a new line, or it removes what is at an address. -/
inductive StoreStep (session : DebugSession) : DebugSession → Prop
  | same : StoreStep session session
  | add {address : UInt64} {originalByte : UInt8}
      (hnew : ∀ bp ∈ session.breakpoints, bp.address ≠ address)
      (hbyte : textByte session address = some originalByte) :
      StoreStep session
        { session with breakpoints := session.breakpoints ++ [{ address, originalByte }] }
  | addSource {address : UInt64} {originalByte : UInt8} {compUnitIndex lineNum : ℕ}
      (hnew : ∀ bp ∈ session.breakpoints, bp.address ≠ address)
      (hbyte : textByte session address = some originalByte)
      (hline : ∀ sb ∈ session.srcBreakpoints, lineKey sb ≠ (compUnitIndex, lineNum))
      (hrow : (firstStmtRow session compUnitIndex lineNum).map LineInfoEntry.address =
        some address) :
      StoreStep session
        { session with
          breakpoints := session.breakpoints ++ [{ address, originalByte }]
          srcBreakpoints := session.srcBreakpoints ++ [{ address, compUnitIndex, lineNum }] }
  | remove (address : UInt64) : StoreStep session (without address session)

theorem StoreStep.programData {session session' : DebugSession} (h : StoreStep session session') :
    session'.programData = session.programData := by
  cases h <;> rfl

theorem StoreStep.lineInfo {session session' : DebugSession} (h : StoreStep session session') :
    session'.lineInfo = session.lineInfo := by
  cases h <;> rfl

section
variable {session : DebugSession}

theorem StoreInv.src_mem_snoc (hi : StoreInv session) {new : Breakpoint} :
    ∀ sb ∈ session.srcBreakpoints, ∃ bp ∈ session.breakpoints ++ [new], bp.address = sb.address := by
  intro sb hsb
  obtain ⟨bp, hbp, he⟩ := hi.src_mem sb hsb
  exact ⟨bp, List.mem_append_left _ hbp, he⟩

theorem StoreInv.originalByte_snoc (hi : StoreInv session) {new : Breakpoint}
    (hbyte : textByte session new.address = some new.originalByte) :
    ∀ bp ∈ session.breakpoints ++ [new], textByte session bp.address = some bp.originalByte := by
  intro bp hbp
  rcases List.mem_append.mp hbp with hbp | hbp
  · exact hi.originalByte bp hbp
  · rw [List.mem_singleton.mp hbp]
    exact hbyte

end

/-- **The invariant is kept.** -/
theorem StoreStep.inv {session session' : DebugSession} (h : StoreStep session session')
    (hi : StoreInv session) : StoreInv session' := by
  cases h with
  | same => exact hi
  | add hnew hbyte =>
    exact {
      addresses := hi.addresses.snoc hnew
      lines := hi.lines
      srcAddresses := hi.srcAddresses
      src_mem := hi.src_mem_snoc
      src_row := hi.src_row
      originalByte := hi.originalByte_snoc hbyte }
  | addSource hnew hbyte hline hrow =>
    exact {
      addresses := hi.addresses.snoc hnew
      lines := hi.lines.snoc hline
      srcAddresses := hi.srcAddresses.snoc fun sb hsb => by
        obtain ⟨bp, hbp, he⟩ := hi.src_mem sb hsb
        rw [← he]
        exact hnew bp hbp
      src_mem := fun sb hsb => by
        rcases List.mem_append.mp hsb with hsb | hsb
        · exact hi.src_mem_snoc sb hsb
        · obtain rfl := List.mem_singleton.mp hsb
          exact ⟨_, List.mem_append_right _ (List.mem_singleton_self _), rfl⟩
      src_row := fun sb hsb => by
        rcases List.mem_append.mp hsb with hsb | hsb
        · exact hi.src_row sb hsb
        · obtain rfl := List.mem_singleton.mp hsb
          exact hrow
      originalByte := hi.originalByte_snoc hbyte }
  | remove address =>
    exact {
      addresses := hi.addresses.filter _
      lines := hi.lines.filter _
      srcAddresses := hi.srcAddresses.filter _
      src_mem := fun sb hsb => by
        obtain ⟨hsb, hne⟩ := List.mem_filter.mp hsb
        obtain ⟨bp, hbp, he⟩ := hi.src_mem sb hsb
        exact ⟨bp, List.mem_filter.mpr ⟨hbp, by rw [he]; exact hne⟩, he⟩
      src_row := fun sb hsb => hi.src_row sb (List.mem_of_mem_filter hsb)
      originalByte := fun bp hbp => hi.originalByte bp (List.mem_of_mem_filter hbp) }

/-! ### Removal -/

theorem isIt_eq (compUnitIndex lineNum : ℕ) :
    (fun sb : SourceBreakpoint =>
        decide (sb.compUnitIndex = compUnitIndex ∧ sb.lineNum = lineNum)) =
      fun sb => decide (lineKey sb = (compUnitIndex, lineNum)) := by
  funext sb
  simp [lineKey]

/-- A list without a source breakpoint at the address stays as it is. -/
theorem removeSourcesAt_of_none (f : DebugSession → ℕ → ℕ → Except Fault DebugSession)
    {address : UInt64} {session : DebugSession}
    (hnone : ∀ sb ∈ session.srcBreakpoints, sb.address ≠ address) : ∀ {n i : ℕ}, 0 < n →
    session.srcBreakpoints.length < n + i →
    removeSourcesAt f address n i session = .ok session
  | n + 1, i, _, hlen => by
    rw [removeSourcesAt]
    split
    · rfl
    · rename_i sb hsb
      have hi := (List.getElem?_eq_some_iff.mp hsb).1
      rw [if_neg (hnone sb (List.mem_of_getElem? hsb))]
      exact removeSourcesAt_of_none f hnone (by omega) (by omega)

/-- If to remove a source breakpoint of the address removes all of them, the loop removes them, and
what it goes on with is a list without one. -/
theorem removeSourcesAt_of_some {f : DebugSession → ℕ → ℕ → Except Fault DebugSession}
    {address : UInt64} {session session' : DebugSession}
    (hf : ∀ sb ∈ session.srcBreakpoints, sb.address = address →
      f session sb.compUnitIndex sb.lineNum = .ok session')
    (hnone : ∀ sb ∈ session'.srcBreakpoints, sb.address ≠ address)
    (hle : session'.srcBreakpoints.length ≤ session.srcBreakpoints.length)
    {j : ℕ} {sb : SourceBreakpoint} (hj : session.srcBreakpoints[j]? = some sb)
    (ha : sb.address = address) : ∀ {n i : ℕ}, i ≤ j →
    session.srcBreakpoints.length < n + i →
    removeSourcesAt f address n i session = .ok session'
  | 0, i, hij, hlen => by
    have := (List.getElem?_eq_some_iff.mp hj).1
    omega
  | n + 1, i, hij, hlen => by
    have hjl := (List.getElem?_eq_some_iff.mp hj).1
    have hi : i < session.srcBreakpoints.length := by omega
    rw [removeSourcesAt, List.getElem?_eq_getElem hi]
    dsimp only
    by_cases hat : session.srcBreakpoints[i].address = address
    · rw [if_pos hat, hf _ (List.getElem_mem hi) hat]
      exact removeSourcesAt_of_none f hnone (by omega) (by omega)
    · rw [if_neg hat]
      have hne : i ≠ j := by
        rintro rfl
        rw [List.getElem?_eq_getElem hi] at hj
        exact hat ((Option.some.inj hj) ▸ ha)
      exact removeSourcesAt_of_some hf hnone hle hj ha (by omega) (by omega)

/-- `remove_breakpoint` where no source breakpoint has the address. -/
theorem removeBreakpointDepth_of_none {session : DebugSession} {address : UInt64}
    (hk : KeyedBy Breakpoint.address session.breakpoints)
    (hnone : ∀ sb ∈ session.srcBreakpoints, sb.address ≠ address) : ∀ {depth : ℕ}, 0 < depth →
    removeBreakpointDepth depth session address = .ok (without address session)
  | depth + 1, _ => by
    have hs : session.srcBreakpoints.filter (fun sb => decide (sb.address ≠ address)) =
        session.srcBreakpoints := List.filter_eq_self.mpr fun sb hsb => by simpa using hnone sb hsb
    rw [removeBreakpointDepth, hk.eraseP_eq_filter, without, hs]
    exact removeSourcesAt_of_none _ (by exact hnone) (Nat.succ_pos _) (by exact Nat.lt_succ_self _)

/-- To take out the source breakpoint of a line is to take out the one at its address. -/
theorem StoreKeys.eraseP_line {session : DebugSession} (hk : StoreKeys session)
    {sb : SourceBreakpoint} (hsb : sb ∈ session.srcBreakpoints) :
    session.srcBreakpoints.eraseP (fun sb' => decide (lineKey sb' = lineKey sb)) =
      session.srcBreakpoints.filter fun sb' => decide (sb'.address ≠ sb.address) := by
  rw [hk.lines.eraseP_eq_filter]
  refine List.filter_congr fun sb' hsb' => ?_
  have : lineKey sb' = lineKey sb ↔ sb'.address = sb.address :=
    ⟨fun e => by rw [hk.lines.eq_of_mem hsb' hsb e],
      fun e => by rw [hk.srcAddresses.eq_of_mem hsb' hsb e]⟩
  simp [this]

/-- `remove_source_breakpoint` of a listed source breakpoint. -/
theorem StoreKeys.removeSourceBreakpointWith_of_mem {session : DebugSession}
    (hk : StoreKeys session) {sb : SourceBreakpoint} (hsb : sb ∈ session.srcBreakpoints)
    {removeBreakpoint : DebugSession → UInt64 → Except Fault DebugSession}
    (hremove : ∀ {session' : DebugSession}, KeyedBy Breakpoint.address session'.breakpoints →
      (∀ sb' ∈ session'.srcBreakpoints, sb'.address ≠ sb.address) →
      removeBreakpoint session' sb.address = .ok (without sb.address session')) :
    removeSourceBreakpointWith removeBreakpoint session sb.compUnitIndex sb.lineNum =
      .ok (without sb.address session) := by
  have hfind : session.srcBreakpoints.find? (fun sb' =>
      decide (lineKey sb' = (sb.compUnitIndex, sb.lineNum))) = some sb :=
    hk.lines.find?_eq_some hsb
  have herase : session.srcBreakpoints.eraseP (fun sb' =>
      decide (lineKey sb' = (sb.compUnitIndex, sb.lineNum))) = _ := hk.eraseP_line hsb
  unfold removeSourceBreakpointWith
  rw [isIt_eq]
  dsimp only
  rw [hfind, herase]
  refine (hremove ?_ fun sb' hsb' => ?_).trans ?_
  · exact hk.addresses
  · simpa using (List.mem_filter.mp hsb').2
  · simp [without, List.filter_filter]

/-- `remove_breakpoint` where a source breakpoint has the address: there is one call of it inside the
other. -/
theorem StoreKeys.removeBreakpointDepth_of_mem {session : DebugSession} (hk : StoreKeys session)
    {sb : SourceBreakpoint} (hsb : sb ∈ session.srcBreakpoints) : ∀ {depth : ℕ}, 2 ≤ depth →
    removeBreakpointDepth depth session sb.address = .ok (without sb.address session)
  | depth + 1, hdepth => by
    obtain ⟨j, hj⟩ := List.getElem?_of_mem hsb
    rw [removeBreakpointDepth, hk.addresses.eraseP_eq_filter]
    have hk' : StoreKeys { session with
        breakpoints := session.breakpoints.filter fun bp => decide (bp.address ≠ sb.address) } :=
      ⟨hk.addresses.filter _, hk.lines, hk.srcAddresses⟩
    refine removeSourcesAt_of_some (fun sb' hsb' ha' => ?_) (fun sb' hsb' => ?_) ?_ (by exact hj) rfl
      (Nat.zero_le j) (by exact Nat.lt_succ_self _)
    · rw [hk'.removeSourceBreakpointWith_of_mem hsb' fun h h' =>
        removeBreakpointDepth_of_none h h' (Nat.lt_of_succ_lt_succ hdepth), ha']
      simp [without, List.filter_filter]
    · simpa using (List.mem_filter.mp hsb').2
    · exact List.length_filter_le _ _

/-- One call of `remove_breakpoint` is inside another only if there is a source breakpoint. -/
theorem StoreKeys.removeBreakpointDepth_of_le {session : DebugSession} (hk : StoreKeys session)
    (address : UInt64) {depth : ℕ} (hpos : 0 < depth)
    (hdepth : session.srcBreakpoints ≠ [] → 2 ≤ depth) :
    removeBreakpointDepth depth session address = .ok (without address session) := by
  by_cases hnone : ∀ sb ∈ session.srcBreakpoints, sb.address ≠ address
  · exact removeBreakpointDepth_of_none hk.addresses hnone hpos
  push Not at hnone
  obtain ⟨sb, hsb, rfl⟩ := hnone
  exact hk.removeBreakpointDepth_of_mem hsb (hdepth (List.ne_nil_of_mem hsb))

/-- No more than two calls of `remove_breakpoint` are inside each other. -/
theorem StoreKeys.removeBreakpointDepth_eq {session : DebugSession} (hk : StoreKeys session)
    (address : UInt64) {depth : ℕ} (hdepth : 2 ≤ depth) :
    removeBreakpointDepth depth session address = .ok (without address session) :=
  hk.removeBreakpointDepth_of_le address (by omega) fun _ => hdepth

/-- **`remove_breakpoint` removes what is at the address**, and returns. -/
theorem StoreKeys.removeBreakpoint_eq {session : DebugSession} (hk : StoreKeys session)
    (address : UInt64) : removeBreakpoint session address = .ok (without address session) :=
  hk.removeBreakpointDepth_of_le address (Nat.succ_pos _) fun hne =>
    Nat.succ_le_succ (List.length_pos_of_ne_nil hne)

/-- **`remove_source_breakpoint` removes a listed line with its breakpoint**, and does nothing for
any other line. -/
theorem StoreKeys.removeSourceBreakpoint_of_mem {session : DebugSession} (hk : StoreKeys session)
    {sb : SourceBreakpoint} (hsb : sb ∈ session.srcBreakpoints) :
    removeSourceBreakpoint session sb.compUnitIndex sb.lineNum =
      .ok (without sb.address session) :=
  hk.removeSourceBreakpointWith_of_mem hsb fun h h' =>
    removeBreakpointDepth_of_none h h' (Nat.succ_pos _)

theorem removeSourceBreakpoint_of_none {session : DebugSession} {compUnitIndex lineNum : ℕ}
    (h : ∀ sb ∈ session.srcBreakpoints, lineKey sb ≠ (compUnitIndex, lineNum)) :
    removeSourceBreakpoint session compUnitIndex lineNum = .ok session := by
  have hfind : session.srcBreakpoints.find?
      (fun sb => decide (lineKey sb = (compUnitIndex, lineNum))) = none :=
    List.find?_eq_none.mpr fun sb hsb => by simpa using h sb hsb
  unfold removeSourceBreakpoint removeSourceBreakpointWith
  rw [isIt_eq]
  dsimp only
  rw [hfind]

theorem StoreKeys.removeSourceBreakpoint_ok {session session' : DebugSession}
    (hk : StoreKeys session) {compUnitIndex lineNum : ℕ}
    (h : removeSourceBreakpoint session compUnitIndex lineNum = .ok session') :
    session' = session ∨ ∃ sb ∈ session.srcBreakpoints, lineKey sb = (compUnitIndex, lineNum) ∧
      session' = without sb.address session := by
  by_cases hnone : ∀ sb ∈ session.srcBreakpoints, lineKey sb ≠ (compUnitIndex, lineNum)
  · rw [removeSourceBreakpoint_of_none hnone] at h
    cases h
    exact .inl rfl
  push Not at hnone
  obtain ⟨sb, hsb, hkey⟩ := hnone
  cases hkey
  rw [hk.removeSourceBreakpoint_of_mem hsb] at h
  cases h
  exact .inr ⟨sb, hsb, rfl, rfl⟩

/-! ### Addition -/

/-- The addresses that the assertion of `get_text_data` lets pass. -/
def InText (session : DebugSession) (address : UInt64) : Prop :=
  address ≥ session.programData.sections.text.address ∧
    address < session.programData.sections.text.address +
      UInt64.ofNat session.programData.sections.text.size

instance (session : DebugSession) (address : UInt64) : Decidable (InText session address) :=
  inferInstanceAs (Decidable (_ ∧ _))

/-- A section that wraps around has no such address. -/
theorem inText_iff {session : DebugSession} {address : UInt64} :
    InText session address ↔
      session.programData.sections.text.address.toNat ≤ address.toNat ∧
      address.toNat < session.programData.sections.text.address.toNat +
        session.programData.sections.text.size ∧
      session.programData.sections.text.address.toNat +
        session.programData.sections.text.size < 2 ^ 64 := by
  have hsize := session.programData.sections.text.size_lt
  have hb := session.programData.sections.text.address.toNat_lt
  unfold InText
  rw [ge_iff_le, UInt64.le_iff_toNat_le, UInt64.lt_iff_toNat_lt, UInt64.toNat_add, SectionBuffer.size,
    UInt64.toNat_ofNat', Nat.mod_eq_of_lt hsize]
  by_cases hwrap : session.programData.sections.text.address.toNat +
      session.programData.sections.text.data.length < 2 ^ 64
  · rw [Nat.mod_eq_of_lt hwrap]
    omega
  · have ha := address.toNat_lt
    omega

/-- Such an address has a byte. -/
theorem InText.textByte {session : DebugSession} {address : UInt64} (h : InText session address) :
    ∃ byte, textByte session address = some byte := by
  obtain ⟨hge, hlt, -⟩ := inText_iff.mp h
  unfold SectionBuffer.size at hlt
  have hsub : (address - session.programData.sections.text.address).toNat =
      address.toNat - session.programData.sections.text.address.toNat :=
    UInt64.toNat_sub_of_le _ _ (UInt64.le_iff_toNat_le.mpr hge)
  exact ⟨_, List.getElem?_eq_getElem (by rw [hsub]; omega)⟩

theorem getTextData_ok {host : Host} {session : DebugSession} {address : UInt64} {byte : UInt8}
    (h : getTextData host session address = .ok byte) : textByte session address = some byte := by
  obtain ⟨_, -, h⟩ := except_bind_ok h
  dsimp only at h
  split at h
  · rename_i b hb
    cases h
    exact hb
  · cases h

theorem getTextData_of_inText (host : Host) {session : DebugSession} {address : UInt64}
    (h : InText session address) :
    ∃ byte, getTextData host session address = .ok byte := by
  obtain ⟨byte, hb⟩ := h.textByte
  refine ⟨byte, ?_⟩
  have hc : (decide (address ≥ session.programData.sections.text.address) &&
      decide (address < session.programData.sections.text.address +
        UInt64.ofNat session.programData.sections.text.size)) = true := by
    simpa [InText] using h
  unfold getTextData
  dsimp only
  rw [hc, cAssert_true, except_bind_of_ok rfl]
  rw [textByte] at hb
  rw [hb]
  rfl

/-- **What `add_breakpoint` does.** -/
theorem addBreakpoint_ok {host : Host} {session session' : DebugSession} {address : UInt64}
    {isSet : Bool} (h : addBreakpoint host session address = .ok (session', isSet)) :
    (isSet = false ∧ session' = session ∧ ∃ bp ∈ session.breakpoints, bp.address = address) ∨
    (isSet = true ∧ (∀ bp ∈ session.breakpoints, bp.address ≠ address) ∧
      ∃ originalByte, textByte session address = some originalByte ∧
        session' = { session with
          breakpoints := session.breakpoints ++ [{ address, originalByte }] }) := by
  unfold addBreakpoint at h
  split at h
  · rename_i hany
    cases h
    exact .inl ⟨rfl, rfl, by simpa using hany⟩
  · rename_i hany
    obtain ⟨byte, hb, h⟩ := except_bind_ok h
    cases h
    exact .inr ⟨rfl, by simpa using hany, byte, getTextData_ok hb, rfl⟩

theorem addBreakpoint_of_inText (host : Host) {session : DebugSession} {address : UInt64}
    (h : InText session address) : ∃ r, addBreakpoint host session address = .ok r := by
  unfold addBreakpoint
  split
  · exact ⟨_, rfl⟩
  · obtain ⟨byte, hb⟩ := getTextData_of_inText host h
    exact ⟨_, except_bind_of_ok hb⟩

/-- The rows of a line that are no end of a sequence. -/
def lineRows (compUnit : LineInfoCompUnit) (lineNum : ℕ) : List LineInfoEntry :=
  compUnit.table.rows.filter fun row => !row.endSequence && decide (row.line.toNat = lineNum)

theorem mem_lineRows {compUnit : LineInfoCompUnit} {lineNum : ℕ} {row : LineInfoEntry} :
    row ∈ lineRows compUnit lineNum ↔
      row ∈ compUnit.table.rows ∧ row.endSequence = false ∧ row.line.toNat = lineNum := by
  simp [lineRows]

/-- **What `get_instructions_for_line` returns.** -/
theorem getInstructionsForLine_eq (host : Host) {session : DebugSession}
    {compUnitIndex lineNum : ℕ} {compUnit : LineInfoCompUnit} (hn : lineNum ≠ 0)
    (hu : session.lineInfo.compUnits[compUnitIndex]? = some compUnit) :
    getInstructionsForLine host session compUnitIndex lineNum = .ok (lineRows compUnit lineNum) := by
  unfold getInstructionsForLine index
  rw [decide_eq_true hn, cAssert_true, hu, lineRows, LineInfoTable.rows, List.filter_flatMap]
  rfl

theorem getInstructionsForLine_ok {host : Host} {session : DebugSession}
    {compUnitIndex lineNum : ℕ} {rows : List LineInfoEntry}
    (h : getInstructionsForLine host session compUnitIndex lineNum = .ok rows) :
    ∃ compUnit, session.lineInfo.compUnits[compUnitIndex]? = some compUnit ∧
      rows = lineRows compUnit lineNum := by
  obtain ⟨_, -, h⟩ := except_bind_ok h
  obtain ⟨compUnit, hu, h⟩ := except_bind_ok h
  unfold index at hu
  split at hu
  · rename_i u hu'
    cases hu
    cases h
    exact ⟨_, hu', by rw [lineRows, LineInfoTable.rows, List.filter_flatMap]⟩
  · cases hu

/-- Searched for a statement, they give the first one of the line. -/
theorem getInstructionsForLine_find? {host : Host} {session : DebugSession}
    {compUnitIndex lineNum : ℕ} {rows : List LineInfoEntry}
    (h : getInstructionsForLine host session compUnitIndex lineNum = .ok rows) :
    rows.find? (·.isStmt) = firstStmtRow session compUnitIndex lineNum := by
  obtain ⟨compUnit, hu, rfl⟩ := getInstructionsForLine_ok h
  rw [firstStmtRow, hu, Option.bind_some, lineRows, List.find?_filter]
  congr 1
  funext row
  simp

/-- The test for a line in the list of source breakpoints. -/
theorem any_line_eq_false {session : DebugSession} {compUnitIndex lineNum : ℕ}
    (h : ¬ (session.srcBreakpoints.any fun sb =>
      decide (sb.compUnitIndex = compUnitIndex ∧ sb.lineNum = lineNum)) = true) :
    ∀ sb ∈ session.srcBreakpoints, lineKey sb ≠ (compUnitIndex, lineNum) := by
  intro sb hsb e
  refine h (List.any_eq_true.mpr ⟨sb, hsb, ?_⟩)
  rw [congrFun (isIt_eq compUnitIndex lineNum) sb, e]
  simp

/-- **What `set_source_breakpoint` does.** -/
theorem setSourceBreakpoint_ok {host : Host} {session session' : DebugSession}
    {compUnitIndex lineNum : ℕ} {isSet : Bool}
    (h : setSourceBreakpoint host session compUnitIndex lineNum = .ok (session', isSet)) :
    (isSet = false ∧ session' = session) ∨
    (isSet = true ∧ (∀ sb ∈ session.srcBreakpoints, lineKey sb ≠ (compUnitIndex, lineNum)) ∧
      ∃ row originalByte, firstStmtRow session compUnitIndex lineNum = some row ∧
        (∀ bp ∈ session.breakpoints, bp.address ≠ row.address) ∧
        textByte session row.address = some originalByte ∧
        session' = { session with
          breakpoints := session.breakpoints ++ [⟨row.address, originalByte⟩]
          srcBreakpoints := session.srcBreakpoints ++ [⟨row.address, compUnitIndex, lineNum⟩] }) := by
  unfold setSourceBreakpoint at h
  split at h
  · cases h
    exact .inl ⟨rfl, rfl⟩
  rename_i hany
  obtain ⟨rows, hrows, h⟩ := except_bind_ok h
  rw [getInstructionsForLine_find? hrows] at h
  split at h
  · cases h
    exact .inl ⟨rfl, rfl⟩
  rename_i row hrow
  obtain ⟨⟨session₁, isBreakpointSet⟩, hadd, hset⟩ := except_bind_ok h
  rcases addBreakpoint_ok hadd with ⟨rfl, rfl, -⟩ | ⟨rfl, hnew, byte, hbyte, rfl⟩
  · cases hset
    exact .inl ⟨rfl, rfl⟩
  · cases hset
    exact .inr ⟨rfl, any_line_eq_false hany, row, byte, hrow, hnew, hbyte, rfl⟩

end Dabugger.Debug.Store
