import Dabugger.Debug.Events

/-! # Sessions that can be reached

The operations of `debug.h` on the two lists of breakpoints, in every session that they and the
events of the debugger and its debuggee lead to: what is removed is removed exactly
(`removal_exact`), and a source breakpoint is set with its breakpoint or not at all
(`setSourceBreakpoint_all_or_nothing`). -/

namespace Dabugger.Debug.StoreExact

open Dabugger.Lib.Runs Dabugger.Lib.Keyed Dabugger.Base Dabugger.Dwarf.Types Dabugger.Debug.Session
  Dabugger.Debug.Store Dabugger.Debug.StoreRuns Dabugger.Debug.Inferior Dabugger.Debug.Events

/-- An operation on the breakpoints, or an event. -/
inductive SessionStep (host : Host) (w : World) : StoreOp ⊕ Event → World → Prop
  | op {op : StoreOp} {session : DebugSession} (h : op.apply host w.session = .ok session) :
      SessionStep host w (.inl op) { w with session }
  | event {e : Event} {w' : World} (h : Step host w e w') : SessionStep host w (.inr e) w'

/-- A session that operations and events lead to, from the one of any program. -/
def Reachable (host : Host) (session : DebugSession) : Prop :=
  ∃ w₀ steps tracee, Initial w₀ ∧ Run (SessionStep host) w₀ steps ⟨session, tracee⟩

/-- A step is one of the program. -/
theorem SessionStep.sameProgram {host : Host} {w w' : World} {step : StoreOp ⊕ Event}
    (h : SessionStep host w step w') (hi : StoreInv w.session) :
    SameProgram w.session w'.session := by
  cases h with
  | op h =>
    have hstep := StoreOp.apply_step hi.toStoreKeys h
    exact ⟨hstep.inv hi, hstep.programData, hstep.lineInfo⟩
  | event h => exact ⟨h.inv hi, h.programData hi, h.lineInfo hi⟩

/-- **The store invariant** holds in every session that is reached. -/
theorem Reachable.inv {host : Host} {session : DebugSession} (h : Reachable host session) :
    StoreInv session := by
  obtain ⟨w₀, steps, tracee, h₀, r⟩ := h
  exact r.invariant (I := fun w => StoreInv w.session) (fun _ _ _ hs hi => (hs.sameProgram hi).inv) h₀.inv

/-- A sequence of operations from the session of a program. -/
theorem Reachable.of_ops {host : Host} (programData : ProgramData) (lineInfo : LineInfo)
    (ops : List StoreOp) {session : DebugSession}
    (h : ops.foldlM (StoreOp.apply host) (initDebugSession programData lineInfo) = .ok session) :
    Reachable host session := by
  refine ⟨⟨_, none⟩, ops.map .inl, none, ⟨programData, lineInfo, rfl⟩, ?_⟩
  generalize initDebugSession programData lineInfo = session₀ at h
  induction ops generalizing session₀ with
  | nil =>
    cases h
    exact .refl _
  | cons op ops ih =>
    rw [List.foldlM_cons] at h
    obtain ⟨session₁, hop, h⟩ := except_bind_ok h
    exact .step (.op hop) (ih _ h)

/-! ### Removal -/

/-- A breakpoint that is listed is the only one of its address. -/
theorem exists_unique_breakpoint {session : DebugSession} (hi : StoreInv session)
    {sb : SourceBreakpoint} (hsb : sb ∈ session.srcBreakpoints) :
    ∃! bp, bp ∈ session.breakpoints ∧ bp.address = sb.address := by
  obtain ⟨bp, hbp, ha⟩ := hi.src_mem sb hsb
  refine ⟨bp, ⟨hbp, ha⟩, ?_⟩
  rintro bp' ⟨hbp', ha'⟩
  exact hi.addresses.eq_of_mem hbp' hbp (ha'.trans ha.symm)

/-- Without a breakpoint at the address there is no source breakpoint either. -/
theorem without_of_not_listed {session : DebugSession} (hi : StoreInv session) {address : UInt64}
    (h : ¬ Listed session address) : without address session = session := by
  have hb : ∀ bp ∈ session.breakpoints, bp.address ≠ address := fun bp hbp e => h ⟨bp, hbp, e⟩
  have hs : ∀ sb ∈ session.srcBreakpoints, sb.address ≠ address := by
    intro sb hsb e
    obtain ⟨bp, hbp, ha⟩ := hi.src_mem sb hsb
    exact hb bp hbp (ha.trans e)
  have hbf : session.breakpoints.filter (fun bp => decide (bp.address ≠ address)) =
      session.breakpoints := List.filter_eq_self.mpr fun bp hbp => by simpa using hb bp hbp
  have hsf : session.srcBreakpoints.filter (fun sb => decide (sb.address ≠ address)) =
      session.srcBreakpoints := List.filter_eq_self.mpr fun sb hsb => by simpa using hs sb hsb
  rw [without, hbf, hsf]

/-- The source breakpoints at other addresses are those of other lines. -/
theorem filter_address_eq_filter_line {session : DebugSession} (hk : StoreKeys session)
    {sb : SourceBreakpoint} (hsb : sb ∈ session.srcBreakpoints) :
    session.srcBreakpoints.filter (fun sb' => decide (sb'.address ≠ sb.address)) =
      session.srcBreakpoints.filter fun sb' => decide (lineKey sb' ≠ lineKey sb) := by
  rw [← hk.eraseP_line hsb, hk.lines.eraseP_eq_filter]

/-- **Removal is exact.** In every session that is reached, `remove_breakpoint` returns, within two
calls of it inside each other; it takes the breakpoint and the source breakpoint of the address out
of the two lists, and nothing else. `remove_source_breakpoint` takes out the source breakpoint of the
line and the one breakpoint at its address. Where there is nothing to remove they do nothing. -/
theorem removal_exact {host : Host} {session : DebugSession} (h : Reachable host session) :
    (∀ address, removeBreakpoint session address = .ok { session with
      breakpoints := session.breakpoints.filter fun bp => decide (bp.address ≠ address)
      srcBreakpoints := session.srcBreakpoints.filter fun sb => decide (sb.address ≠ address) }) ∧
    (∀ address depth, 2 ≤ depth →
      removeBreakpointDepth depth session address = removeBreakpoint session address) ∧
    (∀ address, (∀ bp ∈ session.breakpoints, bp.address ≠ address) →
      removeBreakpoint session address = .ok session) ∧
    (∀ sb ∈ session.srcBreakpoints,
      (∃! bp, bp ∈ session.breakpoints ∧ bp.address = sb.address) ∧
      removeSourceBreakpoint session sb.compUnitIndex sb.lineNum = .ok { session with
        breakpoints := session.breakpoints.filter fun bp => decide (bp.address ≠ sb.address)
        srcBreakpoints := session.srcBreakpoints.filter fun sb' =>
          decide (lineKey sb' ≠ lineKey sb) }) ∧
    ∀ compUnitIndex lineNum,
      (∀ sb ∈ session.srcBreakpoints, lineKey sb ≠ (compUnitIndex, lineNum)) →
      removeSourceBreakpoint session compUnitIndex lineNum = .ok session := by
  have hi := h.inv
  have hk := hi.toStoreKeys
  refine ⟨hk.removeBreakpoint_eq, ?_, ?_, ?_, fun _ _ => removeSourceBreakpoint_of_none⟩
  · intro address depth hdepth
    rw [hk.removeBreakpoint_eq, hk.removeBreakpointDepth_eq address hdepth]
  · intro address hnone
    have hnl : ¬ Listed session address := by
      rintro ⟨bp, hbp, e⟩
      exact hnone bp hbp e
    rw [hk.removeBreakpoint_eq, without_of_not_listed hi hnl]
  · intro sb hsb
    refine ⟨exists_unique_breakpoint hi hsb, ?_⟩
    rw [hk.removeSourceBreakpoint_of_mem hsb, without, filter_address_eq_filter_line hk hsb]

/-- A session with a breakpoint at `0x1008`, and one of line 7 at `0x1000`. -/
def sampleSet : DebugSession := { sampleSession [sampleRow 0x1000 0 7] with
  breakpoints := [⟨0x1008, 0x90⟩, ⟨0x1000, 0x90⟩], srcBreakpoints := [⟨0x1000, 0, 7⟩] }

theorem sampleSet_reachable : Reachable (.zeroed true) sampleSet :=
  .of_ops (sampleSession []).programData (sampleSession [sampleRow 0x1000 0 7]).lineInfo
    [.addBreakpoint 0x1008, .setSourceBreakpoint 0 7] rfl

/-- The breakpoint of the line is removed by its address. -/
theorem removal_exact_sample : removeBreakpoint sampleSet 0x1000 =
    .ok { sampleSession [sampleRow 0x1000 0 7] with breakpoints := [⟨0x1008, 0x90⟩] } :=
  (removal_exact sampleSet_reachable).1 0x1000

/-! ### Setting a source breakpoint -/

/-- The rows that are no end of a sequence are in `.text`. -/
def RowsInText (session : DebugSession) : Prop :=
  ∀ compUnit ∈ session.lineInfo.compUnits, ∀ row ∈ compUnit.table.rows, row.endSequence = false →
    InText session row.address

theorem firstStmtRow_mem {session : DebugSession} {compUnitIndex lineNum : ℕ} {row : LineInfoEntry}
    (h : firstStmtRow session compUnitIndex lineNum = some row) :
    ∃ compUnit ∈ session.lineInfo.compUnits, row ∈ compUnit.table.rows ∧
      row.endSequence = false := by
  obtain ⟨compUnit, hu, hfind⟩ := Option.bind_eq_some_iff.mp h
  have hprop := List.find?_some hfind
  simp only [Bool.and_eq_true, Bool.not_eq_true'] at hprop
  exact ⟨compUnit, List.mem_of_getElem? hu, List.mem_of_find?_eq_some hfind, hprop.1.1⟩

theorem RowsInText.lineInText {session : DebugSession} (h : RowsInText session)
    {compUnitIndex lineNum : ℕ} (hu : compUnitIndex < session.lineInfo.compUnits.length)
    (hn : 1 ≤ lineNum) : LineInText session compUnitIndex lineNum := by
  refine ⟨by omega, hu, fun row hrow => ?_⟩
  obtain ⟨compUnit, hmem, hr, hend⟩ := firstStmtRow_mem hrow
  exact h compUnit hmem row hr hend

/-- A source breakpoint can be set at a line that has none, if the line has a first statement and
there is no breakpoint at its address. -/
def CanSet (session : DebugSession) (compUnitIndex lineNum : ℕ) : Prop :=
  (∀ sb ∈ session.srcBreakpoints, lineKey sb ≠ (compUnitIndex, lineNum)) ∧
    ∃ row, firstStmtRow session compUnitIndex lineNum = some row ∧
      ∀ bp ∈ session.breakpoints, bp.address ≠ row.address

/-- It is then set. -/
theorem CanSet.isSet {host : Host} {session session' : DebugSession} {compUnitIndex lineNum : ℕ}
    {isSet : Bool} (hc : CanSet session compUnitIndex lineNum)
    (h : setSourceBreakpoint host session compUnitIndex lineNum = .ok (session', isSet)) :
    isSet = true := by
  obtain ⟨hline, row, hrow, hnew⟩ := hc
  have hany : ¬ (session.srcBreakpoints.any fun sb =>
      decide (sb.compUnitIndex = compUnitIndex ∧ sb.lineNum = lineNum)) = true := by
    rw [List.any_eq_true]
    rintro ⟨sb, hsb, e⟩
    exact hline sb hsb (by simpa [lineKey] using e)
  unfold setSourceBreakpoint at h
  rw [if_neg hany] at h
  obtain ⟨rows, hrows, h⟩ := except_bind_ok h
  rw [getInstructionsForLine_find? hrows, hrow] at h
  obtain ⟨⟨session₁, isBreakpointSet⟩, hadd, hset⟩ := except_bind_ok h
  rcases addBreakpoint_ok hadd with ⟨-, -, bp, hbp, ha⟩ | ⟨rfl, -⟩
  · exact absurd ha (hnew bp hbp)
  · cases hset
    rfl

/-- **A source breakpoint is set with its breakpoint, or not at all.** In every session, reached or not,
`set_source_breakpoint` returns; it returns true exactly if the line is not in the list, has a row that
is a statement, and no breakpoint is at the address of the first such row. It has then added one entry
of this address to each list; else both are as before. -/
theorem setSourceBreakpoint_all_or_nothing (host : Host) {session : DebugSession}
    (hrows : RowsInText session) {compUnitIndex lineNum : ℕ}
    (hu : compUnitIndex < session.lineInfo.compUnits.length) (hn : 1 ≤ lineNum) :
    ∃ session' isSet, setSourceBreakpoint host session compUnitIndex lineNum =
        .ok (session', isSet) ∧
      (isSet = true ↔ CanSet session compUnitIndex lineNum) ∧
      (isSet = true → ∃ row originalByte, firstStmtRow session compUnitIndex lineNum = some row ∧
        textByte session row.address = some originalByte ∧
        session' = { session with
          breakpoints := session.breakpoints ++ [⟨row.address, originalByte⟩]
          srcBreakpoints :=
            session.srcBreakpoints ++ [⟨row.address, compUnitIndex, lineNum⟩] }) ∧
      (isSet = false → session' = session) := by
  obtain ⟨⟨session', isSet⟩, hset⟩ := setSourceBreakpoint_returns host (hrows.lineInText hu hn)
  refine ⟨session', isSet, hset, ⟨fun ht => ?_, fun hc => hc.isSet hset⟩, fun ht => ?_, fun hf => ?_⟩
  · rcases setSourceBreakpoint_ok hset with ⟨hf, -⟩ | ⟨-, hline, row, -, hrow, hnew, -, -⟩
    · rw [hf] at ht
      cases ht
    · exact ⟨hline, row, hrow, hnew⟩
  · rcases setSourceBreakpoint_ok hset with ⟨hf, -⟩ | ⟨-, -, row, byte, hrow, -, hbyte, he⟩
    · rw [hf] at ht
      cases ht
    · exact ⟨row, byte, hrow, hbyte, he⟩
  · rcases setSourceBreakpoint_ok hset with ⟨-, he⟩ | ⟨ht, -⟩
    · exact he
    · rw [hf] at ht
      cases ht

theorem sampleSet_rowsInText : RowsInText sampleSet := by
  unfold RowsInText
  decide

/-- Line 7 is set already, and nothing is set; in a session without breakpoints it is set with its
breakpoint. -/
theorem setSourceBreakpoint_all_or_nothing_sample :
    (∃ session' isSet, setSourceBreakpoint (.zeroed true) sampleSet 0 7 = .ok (session', isSet) ∧
      isSet = false ∧ session' = sampleSet) ∧
    ∃ session' isSet, setSourceBreakpoint (.zeroed true) (sampleSession [sampleRow 0x1000 0 7]) 0 7 =
        .ok (session', isSet) ∧ isSet = true ∧
      session'.breakpoints = [⟨0x1000, 0x90⟩] ∧ session'.srcBreakpoints = [⟨0x1000, 0, 7⟩] := by
  have hn : 1 ≤ 7 := by decide
  constructor
  · have hu : 0 < sampleSet.lineInfo.compUnits.length := by decide
    obtain ⟨session', isSet, hset, hcan, -, hf⟩ :=
      setSourceBreakpoint_all_or_nothing (.zeroed true) sampleSet_rowsInText hu hn
    have hlisted : ¬ CanSet sampleSet 0 7 := fun h => h.1 _ List.mem_cons_self rfl
    have hfalse : isSet = false := Bool.eq_false_iff.mpr fun ht => hlisted (hcan.mp ht)
    exact ⟨session', isSet, hset, hfalse, hf hfalse⟩
  · have hrows : RowsInText (sampleSession [sampleRow 0x1000 0 7]) := by
      unfold RowsInText
      decide
    have hu : 0 < (sampleSession [sampleRow 0x1000 0 7]).lineInfo.compUnits.length := by decide
    obtain ⟨session', isSet, hset, hcan, ht, -⟩ :=
      setSourceBreakpoint_all_or_nothing (.zeroed true) hrows hu hn
    have htrue : isSet = true := hcan.mpr ⟨nofun, _, rfl, nofun⟩
    obtain ⟨row, byte, ⟨⟩, hbyte, rfl⟩ := ht htrue
    cases hbyte
    exact ⟨_, isSet, hset, htrue, rfl, rfl⟩

end Dabugger.Debug.StoreExact
