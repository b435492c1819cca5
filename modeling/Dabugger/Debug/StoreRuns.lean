import Dabugger.Debug.Store

/-! # Runs of the breakpoint store

Each operation of the store is a `StoreStep`, and returns where its arguments make sense. Hence the
invariant holds after any sequence of operations (`run_storeInv`). -/

namespace Dabugger.Debug.StoreRuns

open Dabugger.Lib.Runs Dabugger.Lib.Keyed Dabugger.Base Dabugger.Dwarf.Types Dabugger.Debug.Session
  Dabugger.Debug.Store

/-- The operations of `debug.h` on the breakpoint store. -/
inductive StoreOp where
  | addBreakpoint (address : UInt64)
  | removeBreakpoint (address : UInt64)
  | toggleBreakpoint (address : UInt64)
  | setSourceBreakpoint (compUnitIndex lineNum : ℕ)
  | removeSourceBreakpoint (compUnitIndex lineNum : ℕ)
  | toggleSourceBreakpoint (compUnitIndex lineNum : ℕ)

/-- The session after an operation. -/
def StoreOp.apply (host : Host) (session : DebugSession) :
    StoreOp → Except Fault DebugSession
  | .addBreakpoint address => Prod.fst <$> Session.addBreakpoint host session address
  | .removeBreakpoint address => Session.removeBreakpoint session address
  | .toggleBreakpoint address => Session.toggleBreakpoint host session address
  | .setSourceBreakpoint compUnitIndex lineNum =>
    Prod.fst <$> Session.setSourceBreakpoint host session compUnitIndex lineNum
  | .removeSourceBreakpoint compUnitIndex lineNum =>
    Session.removeSourceBreakpoint session compUnitIndex lineNum
  | .toggleSourceBreakpoint compUnitIndex lineNum =>
    Session.toggleSourceBreakpoint host session compUnitIndex lineNum

/-! ### Each operation is a step -/

theorem addBreakpoint_step {host : Host} {session session' : DebugSession} {address : UInt64}
    {isSet : Bool} (h : addBreakpoint host session address = .ok (session', isSet)) :
    StoreStep session session' := by
  rcases addBreakpoint_ok h with ⟨-, rfl, -⟩ | ⟨-, hnew, byte, hbyte, rfl⟩
  · exact .same
  · exact .add hnew hbyte

theorem removeSourceBreakpoint_step {session session' : DebugSession} (hk : StoreKeys session)
    {compUnitIndex lineNum : ℕ}
    (h : removeSourceBreakpoint session compUnitIndex lineNum = .ok session') :
    StoreStep session session' := by
  rcases hk.removeSourceBreakpoint_ok h with rfl | ⟨sb, -, -, rfl⟩
  · exact .same
  · exact .remove _

theorem toggleBreakpoint_step {host : Host} {session session' : DebugSession}
    (hk : StoreKeys session) {address : UInt64}
    (h : toggleBreakpoint host session address = .ok session') : StoreStep session session' := by
  unfold toggleBreakpoint at h
  split at h
  · rw [hk.removeBreakpoint_eq] at h
    cases h
    exact .remove _
  · obtain ⟨⟨_, _⟩, ha, h⟩ := except_bind_ok h
    cases h
    exact addBreakpoint_step ha

theorem setSourceBreakpoint_step {host : Host} {session session' : DebugSession}
    {compUnitIndex lineNum : ℕ} {isSet : Bool}
    (h : setSourceBreakpoint host session compUnitIndex lineNum = .ok (session', isSet)) :
    StoreStep session session' := by
  rcases setSourceBreakpoint_ok h with ⟨-, rfl⟩ | ⟨-, hline, row, byte, hrow, hnew, hbyte, rfl⟩
  · exact .same
  · exact .addSource hnew hbyte hline (by rw [hrow]; rfl)

theorem toggleSourceBreakpoint_step {host : Host} {session session' : DebugSession}
    (hk : StoreKeys session) {compUnitIndex lineNum : ℕ}
    (h : toggleSourceBreakpoint host session compUnitIndex lineNum = .ok session') :
    StoreStep session session' := by
  unfold toggleSourceBreakpoint at h
  split at h
  · exact removeSourceBreakpoint_step hk h
  · obtain ⟨⟨_, _⟩, hs, h⟩ := except_bind_ok h
    cases h
    exact setSourceBreakpoint_step hs

/-- **Each operation is a step of the store.** -/
theorem StoreOp.apply_step {host : Host} {session session' : DebugSession} (hk : StoreKeys session)
    {op : StoreOp} (h : op.apply host session = .ok session') : StoreStep session session' := by
  cases op with
  | addBreakpoint address =>
    obtain ⟨⟨_, _⟩, ha, h⟩ := except_bind_ok h
    cases h
    exact addBreakpoint_step ha
  | removeBreakpoint address =>
    rw [StoreOp.apply, hk.removeBreakpoint_eq] at h
    cases h
    exact .remove _
  | toggleBreakpoint address => exact toggleBreakpoint_step hk h
  | setSourceBreakpoint compUnitIndex lineNum =>
    obtain ⟨⟨_, _⟩, hs, h⟩ := except_bind_ok h
    cases h
    exact setSourceBreakpoint_step hs
  | removeSourceBreakpoint compUnitIndex lineNum => exact removeSourceBreakpoint_step hk h
  | toggleSourceBreakpoint compUnitIndex lineNum => exact toggleSourceBreakpoint_step hk h

/-! ### Where the operations return -/

/-- Where a source line has a first statement, its address is in `.text`. -/
def LineInText (session : DebugSession) (compUnitIndex lineNum : ℕ) : Prop :=
  lineNum ≠ 0 ∧ compUnitIndex < session.lineInfo.compUnits.length ∧
    ∀ row, firstStmtRow session compUnitIndex lineNum = some row → InText session row.address

/-- The arguments of an operation are inside `.text`. -/
def StoreOp.Inside (session : DebugSession) : StoreOp → Prop
  | .addBreakpoint address | .toggleBreakpoint address => InText session address
  | .setSourceBreakpoint compUnitIndex lineNum
  | .toggleSourceBreakpoint compUnitIndex lineNum => LineInText session compUnitIndex lineNum
  | .removeBreakpoint _ | .removeSourceBreakpoint _ _ => True

theorem setSourceBreakpoint_returns (host : Host) {session : DebugSession}
    {compUnitIndex lineNum : ℕ} (h : LineInText session compUnitIndex lineNum) :
    ∃ r, setSourceBreakpoint host session compUnitIndex lineNum = .ok r := by
  obtain ⟨hn, hu, hrow⟩ := h
  unfold setSourceBreakpoint
  split
  · exact ⟨_, rfl⟩
  have hrows := getInstructionsForLine_eq host hn (List.getElem?_eq_getElem hu)
  rw [except_bind_of_ok hrows, getInstructionsForLine_find? hrows]
  split
  · exact ⟨_, rfl⟩
  rename_i entry hentry
  obtain ⟨⟨_, isSet⟩, hadd⟩ := addBreakpoint_of_inText host (hrow entry hentry)
  dsimp only
  rw [except_bind_of_ok hadd]
  cases isSet <;> exact ⟨_, rfl⟩

theorem removeSourceBreakpoint_returns {session : DebugSession} (hk : StoreKeys session)
    (compUnitIndex lineNum : ℕ) :
    ∃ session', removeSourceBreakpoint session compUnitIndex lineNum = .ok session' := by
  by_cases hnone : ∀ sb ∈ session.srcBreakpoints, lineKey sb ≠ (compUnitIndex, lineNum)
  · exact ⟨_, removeSourceBreakpoint_of_none hnone⟩
  push Not at hnone
  obtain ⟨sb, hsb, hkey⟩ := hnone
  cases hkey
  exact ⟨_, hk.removeSourceBreakpoint_of_mem hsb⟩

/-- **An operation inside `.text` returns.** -/
theorem StoreOp.apply_returns (host : Host) {session : DebugSession} (hk : StoreKeys session)
    {op : StoreOp} (h : op.Inside session) :
    ∃ session', op.apply host session = .ok session' := by
  cases op with
  | addBreakpoint address =>
    obtain ⟨⟨_, _⟩, ha⟩ := addBreakpoint_of_inText host h
    exact ⟨_, except_bind_of_ok ha⟩
  | removeBreakpoint address => exact ⟨_, hk.removeBreakpoint_eq address⟩
  | toggleBreakpoint address =>
    change ∃ session', Session.toggleBreakpoint host session address = .ok session'
    unfold Session.toggleBreakpoint
    split
    · exact ⟨_, hk.removeBreakpoint_eq address⟩
    · obtain ⟨⟨_, _⟩, ha⟩ := addBreakpoint_of_inText host h
      exact ⟨_, except_bind_of_ok ha⟩
  | setSourceBreakpoint compUnitIndex lineNum =>
    obtain ⟨⟨_, _⟩, hs⟩ := setSourceBreakpoint_returns host h
    exact ⟨_, except_bind_of_ok hs⟩
  | removeSourceBreakpoint compUnitIndex lineNum =>
    exact removeSourceBreakpoint_returns hk compUnitIndex lineNum
  | toggleSourceBreakpoint compUnitIndex lineNum =>
    change ∃ session', Session.toggleSourceBreakpoint host session compUnitIndex lineNum =
      .ok session'
    unfold Session.toggleSourceBreakpoint
    split
    · exact removeSourceBreakpoint_returns hk compUnitIndex lineNum
    · obtain ⟨⟨_, _⟩, hs⟩ := setSourceBreakpoint_returns host h
      exact ⟨_, except_bind_of_ok hs⟩

/-! ### Runs -/

/-- One operation, as a step. -/
def OpStep (host : Host) (session : DebugSession) (op : StoreOp) (session' : DebugSession) : Prop :=
  op.apply host session = .ok session'

/-- Two empty lists satisfy the invariant. -/
theorem StoreInv.of_empty {session : DebugSession} (hb : session.breakpoints = [])
    (hs : session.srcBreakpoints = []) : StoreInv session where
  addresses := by rw [hb]; exact List.nodup_nil
  lines := by rw [hs]; exact List.nodup_nil
  srcAddresses := by rw [hs]; exact List.nodup_nil
  src_mem := by rw [hs]; nofun
  src_row := by rw [hs]; nofun
  originalByte := by rw [hb]; nofun

/-- **The breakpoint store.** After any sequence of operations on the empty store the invariant
holds, over the `.text` and the rows the session started with, and every further operation whose
arguments are inside `.text` returns. -/
theorem run_storeInv (host : Host) {session₀ session : DebugSession} {ops : List StoreOp}
    (hb : session₀.breakpoints = []) (hs : session₀.srcBreakpoints = [])
    (r : Run (OpStep host) session₀ ops session) :
    StoreInv session ∧ session.programData = session₀.programData ∧
      session.lineInfo = session₀.lineInfo ∧
      ∀ op : StoreOp, op.Inside session → ∃ session', op.apply host session = .ok session' := by
  obtain ⟨hi, hp, hl⟩ : StoreInv session ∧ session.programData = session₀.programData ∧
      session.lineInfo = session₀.lineInfo := by
    refine r.invariant (I := fun s => StoreInv s ∧ s.programData = session₀.programData ∧
      s.lineInfo = session₀.lineInfo) (fun s op s' h hi => ?_) ⟨StoreInv.of_empty hb hs, rfl, rfl⟩
    obtain ⟨hi, hp, hl⟩ := hi
    have step := op.apply_step hi.toStoreKeys h
    exact ⟨step.inv hi, step.programData.trans hp, step.lineInfo.trans hl⟩
  exact ⟨hi, hp, hl, fun op hop => op.apply_returns host hi.toStoreKeys hop⟩

/-- A line is toggled, its address is tried again, another line is toggled, the first one is
removed by its address. -/
theorem run_storeInv_sample :
    let rows := [sampleRow 0x1000 0 7, sampleRow 0x1004 0 8]
    StoreInv { sampleSession rows with
      breakpoints := [⟨0x1004, 0x90⟩], srcBreakpoints := [⟨0x1004, 0, 8⟩] } :=
  have r : Run (OpStep (Host.zeroed true))
    (sampleSession [sampleRow 0x1000 0 7, sampleRow 0x1004 0 8])
    [.toggleSourceBreakpoint 0 7, .addBreakpoint 0x1000, .toggleSourceBreakpoint 0 8,
      .removeBreakpoint 0x1000] _ := Run.of_foldlM rfl
  (run_storeInv (Host.zeroed true) rfl rfl r).1

end Dabugger.Debug.StoreRuns
