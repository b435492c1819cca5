import Dabugger.Debug.Inferior
import Dabugger.Debug.StoreRuns

/-! # Runs of the debugger and its debuggee

`Step` is one event of the main loop (a key that toggles a breakpoint or runs the debuggee, a
`SIGCHLD`, output of the debuggee) or of the debuggee, which executes any code and traps at a `0xcc`. In
a `CodeStep` this code is that of the ELF, and the debuggee does not write to it.

The store invariant holds in every state (`run_inv`), and a hit is undone exactly
(`handleInferiorSignal_hit`). -/

namespace Dabugger.Debug.Events

open Dabugger.Lib.Runs Dabugger.Lib.Words Dabugger.Lib.Keyed Dabugger.Base Dabugger.Dwarf.Types
  Dabugger.Debug.Session Dabugger.Debug.Store Dabugger.Debug.StoreRuns Dabugger.Debug.Inferior

/-! ### Events -/

/-- What can happen. -/
inductive Event where
  | toggleBreakpoint (address : UInt64)
  | toggleSourceBreakpoint (compUnitIndex lineNum : ℕ)
  /-- `on_run_inferior`; a spawn has this child -/
  | runInferior (child : Child)
  /-- `handle_inferior_signal` -/
  | signalChild
  /-- `read_inferior_output` -/
  | output (pending : List UInt8)
  /-- the debuggee executes an instruction, and has these registers and this memory after it -/
  | execute (regs : UserRegs) (memory : Memory)
  /-- the debuggee executes a `0xcc` -/
  | trap
  /-- the debuggee is stopped by a signal -/
  | stop (signal : ℕ)
  /-- the debuggee executes its exit -/
  | exit
  | kill

/-- One event. -/
inductive Step (host : Host) (w : World) : Event → World → Prop
  | toggleBreakpoint {address : UInt64} {session : DebugSession}
      (h : Session.toggleBreakpoint host w.session address = .ok session) :
      Step host w (.toggleBreakpoint address) { w with session }
  | toggleSourceBreakpoint {compUnitIndex lineNum : ℕ} {session : DebugSession}
      (h : Session.toggleSourceBreakpoint host w.session compUnitIndex lineNum = .ok session) :
      Step host w (.toggleSourceBreakpoint compUnitIndex lineNum) { w with session }
  | runInferior {child : Child} {w' : World} (h : onRunInferior host w child = .ok w') :
      Step host w (.runInferior child) w'
  | signalChild {w' : World} (h : handleInferiorSignal w = .ok w') :
      Step host w .signalChild w'
  | output (pending : List UInt8) :
      Step host w (.output pending) { w with session := readInferiorOutput w.session pending }
  | execute {tracee : Tracee} {regs : UserRegs} {memory : Memory} (ht : w.tracee = some tracee)
      (hs : tracee.state = .running) (hrip : tracee.memory tracee.regs.rip ≠ int3) :
      Step host w (.execute regs memory) { w with tracee := some { tracee with regs, memory } }
  | trap {tracee : Tracee} (ht : w.tracee = some tracee) (hs : tracee.state = .running)
      (hrip : tracee.memory tracee.regs.rip = int3) :
      Step host w .trap { w with tracee := some { tracee with
        regs := { tracee.regs with rip := tracee.regs.rip + 1 }
        state := .stopped sigtrap false } }
  | stop {tracee : Tracee} {signal : ℕ} (ht : w.tracee = some tracee)
      (hs : tracee.state = .running) :
      Step host w (.stop signal)
        { w with tracee := some { tracee with state := .stopped signal false } }
  | exit {tracee : Tracee} (ht : w.tracee = some tracee) (hs : tracee.state = .running)
      (hrip : tracee.memory tracee.regs.rip ≠ int3) :
      Step host w .exit { w with tracee := some { tracee with state := .exited } }
  | kill {tracee : Tracee} (ht : w.tracee = some tracee)
      (hs : tracee.state = .running ∨ tracee.isStopped = true) :
      Step host w .kill { w with tracee := some { tracee with state := .signaled } }

/-- The program's code is at its real addresses. -/
def Loaded (session : DebugSession) (memory : Memory) : Prop :=
  ∀ address byte, textByte session address = some byte →
    memory (realAddress session address) = byte

/-- The code of a process that is spawned is that of the ELF, and no instruction changes the code. -/
structure KeepsCode (w : World) (e : Event) (w' : World) : Prop where
  spawned : ∀ process, e = .runInferior (.stopped process) → w.session.state = .dead →
    Loaded w'.session process.memory
  executed : ∀ regs memory, e = .execute regs memory → ∀ tracee, w.tracee = some tracee →
    ∀ address byte, textByte w.session address = some byte →
      memory (realAddress w.session address) = tracee.memory (realAddress w.session address)

/-- An event that keeps the code. -/
def CodeStep (host : Host) (w : World) (e : Event) (w' : World) : Prop :=
  Step host w e w' ∧ KeepsCode w e w'

/-- The state after `init_debug_session`. -/
def Initial (w : World) : Prop :=
  ∃ programData lineInfo, w = ⟨initDebugSession programData lineInfo, none⟩

theorem KeepsCode.loaded {w w' : World} {child : Child} (h : KeepsCode w (.runInferior child) w')
    (process : Process) (hdead : w.session.state = .dead) (hchild : child = .stopped process) :
    Loaded w'.session process.memory := h.spawned process (congrArg _ hchild) hdead

/-! ### What a step does to the session -/

/-- Two sessions with the same program and the same breakpoints. -/
structure SameStore (session session' : DebugSession) : Prop where
  programData : session'.programData = session.programData
  lineInfo : session'.lineInfo = session.lineInfo
  breakpoints : session'.breakpoints = session.breakpoints
  srcBreakpoints : session'.srcBreakpoints = session.srcBreakpoints

theorem SameStore.refl (session : DebugSession) : SameStore session session := ⟨rfl, rfl, rfl, rfl⟩

/-- The invariant is about the program and the breakpoints only. -/
theorem SameStore.inv {session session' : DebugSession} (h : SameStore session session')
    (hi : StoreInv session) : StoreInv session' where
  addresses := by rw [h.breakpoints]; exact hi.addresses
  lines := by rw [h.srcBreakpoints]; exact hi.lines
  srcAddresses := by rw [h.srcBreakpoints]; exact hi.srcAddresses
  src_mem := by rw [h.srcBreakpoints, h.breakpoints]; exact hi.src_mem
  src_row := by rw [h.srcBreakpoints]; unfold firstStmtRow; rw [h.lineInfo]; exact hi.src_row
  originalByte := by rw [h.breakpoints]; unfold textByte; rw [h.programData]; exact hi.originalByte

theorem started_sameStore {w w' : World} {child : Child} (h : Started w child w') :
    SameStore w.session w'.session := by
  cases h with
  | spawned _ _ hsession => subst hsession; exact ⟨rfl, rfl, rfl, rfl⟩
  | continued | nothing => exact .refl _

theorem handled_sameStore {w w' : World} (h : Handled w w') :
    SameStore w.session w'.session := by
  cases h <;> exact ⟨rfl, rfl, rfl, rfl⟩

theorem output_sameStore (session : DebugSession) (pending : List UInt8) :
    SameStore session (readInferiorOutput session pending) := ⟨rfl, rfl, rfl, rfl⟩

/-- **A step keeps the store invariant.** -/
theorem Step.inv {host : Host} {w w' : World} {e : Event} (h : Step host w e w')
    (hi : StoreInv w.session) : StoreInv w'.session := by
  cases h with
  | toggleBreakpoint h => exact (toggleBreakpoint_step hi.toStoreKeys h).inv hi
  | toggleSourceBreakpoint h => exact (toggleSourceBreakpoint_step hi.toStoreKeys h).inv hi
  | runInferior h => exact (started_sameStore (onRunInferior_started h)).inv hi
  | signalChild h => exact (handled_sameStore (handleInferiorSignal_handled h)).inv hi
  | output pending => exact (output_sameStore w.session pending).inv hi
  | execute | trap | stop | exit | kill => exact hi

/-- It does not change the program. -/
theorem Step.programData {host : Host} {w w' : World} {e : Event} (h : Step host w e w')
    (hi : StoreInv w.session) : w'.session.programData = w.session.programData := by
  cases h with
  | toggleBreakpoint h => exact (toggleBreakpoint_step hi.toStoreKeys h).programData
  | toggleSourceBreakpoint h => exact (toggleSourceBreakpoint_step hi.toStoreKeys h).programData
  | runInferior h => exact (started_sameStore (onRunInferior_started h)).programData
  | signalChild h => exact (handled_sameStore (handleInferiorSignal_handled h)).programData
  | output | execute | trap | stop | exit | kill => rfl

/-- Nor its line information. -/
theorem Step.lineInfo {host : Host} {w w' : World} {e : Event} (h : Step host w e w')
    (hi : StoreInv w.session) : w'.session.lineInfo = w.session.lineInfo := by
  cases h with
  | toggleBreakpoint h => exact (toggleBreakpoint_step hi.toStoreKeys h).lineInfo
  | toggleSourceBreakpoint h => exact (toggleSourceBreakpoint_step hi.toStoreKeys h).lineInfo
  | runInferior h => exact (started_sameStore (onRunInferior_started h)).lineInfo
  | signalChild h => exact (handled_sameStore (handleInferiorSignal_handled h)).lineInfo
  | output | execute | trap | stop | exit | kill => rfl

/-- Two sessions of one program, with the store invariant in the second. -/
structure SameProgram (session session' : DebugSession) : Prop where
  inv : StoreInv session'
  programData : session'.programData = session.programData
  lineInfo : session'.lineInfo = session.lineInfo

theorem SameProgram.trans {session session' session'' : DebugSession}
    (h : SameProgram session session') (h' : SameProgram session' session'') :
    SameProgram session session'' :=
  ⟨h'.inv, h'.programData.trans h.programData, h'.lineInfo.trans h.lineInfo⟩

/-- **A run is of one program.** -/
theorem run_sameProgram {host : Host} {w w' : World} {es : List Event}
    (r : Run (Step host) w es w') (hi : StoreInv w.session) :
    SameProgram w.session w'.session :=
  r.invariant (I := fun w' => SameProgram w.session w'.session)
    (fun _ _ _ hs h => h.trans ⟨hs.inv h.inv, hs.programData h.inv, hs.lineInfo h.inv⟩)
    ⟨hi, rfl, rfl⟩

theorem Initial.inv {w : World} (h : Initial w) : StoreInv w.session := by
  obtain ⟨programData, lineInfo, rfl⟩ := h
  exact StoreInv.of_empty rfl rfl

/-- **The store invariant holds in every state**, and the program is the one of the first. -/
theorem run_inv {host : Host} {w₀ w : World} {es : List Event} (h₀ : Initial w₀)
    (r : Run (Step host) w₀ es w) :
    StoreInv w.session ∧ w.session.programData = w₀.session.programData := by
  refine r.invariant (I := fun w => StoreInv w.session ∧
    w.session.programData = w₀.session.programData) ?_ ⟨h₀.inv, rfl⟩
  rintro w e w' h ⟨hi, hp⟩
  exact ⟨h.inv hi, (h.programData hi).trans hp⟩

/-! ### What a step leaves as it is -/

/-- There is a breakpoint at the address. -/
def Listed (session : DebugSession) (address : UInt64) : Prop :=
  ∃ bp ∈ session.breakpoints, bp.address = address

instance (session : DebugSession) (address : UInt64) : Decidable (Listed session address) :=
  inferInstanceAs (Decidable (∃ bp ∈ session.breakpoints, bp.address = address))

theorem listed_without {session : DebugSession} {address a : UInt64} :
    Listed (without address session) a ↔ Listed session a ∧ a ≠ address := by
  constructor
  · rintro ⟨bp, hbp, rfl⟩
    obtain ⟨hbp, hne⟩ := List.mem_filter.mp hbp
    exact ⟨⟨bp, hbp, rfl⟩, by simpa using hne⟩
  · rintro ⟨⟨bp, hbp, rfl⟩, hne⟩
    exact ⟨bp, List.mem_filter.mpr ⟨hbp, by simpa using hne⟩, rfl⟩

/-- The traps of `inject_breakpoints` are the breakpoints that are listed, but for the one at
`rip`. -/
theorem realAddress_mem_injectedAddresses {session : DebugSession} {rip address : UInt64} :
    realAddress session address ∈ injectedAddresses session rip session.breakpoints ↔
      Listed session address ∧ realAddress session address ≠ rip := by
  rw [mem_injectedAddresses]
  refine and_congr_left fun _ => exists_congr fun bp => and_congr_right fun _ => ?_
  exact (realAddress_injective session).eq_iff

theorem storeStep_realAddress {session session' : DebugSession} (h : StoreStep session session')
    (address : UInt64) : realAddress session' address = realAddress session address := by
  cases h <;> rfl

theorem storeStep_textByte {session session' : DebugSession} (h : StoreStep session session')
    (address : UInt64) : textByte session' address = textByte session address := by
  cases h <;> rfl

theorem Listed.textByte {session : DebugSession} (hi : StoreInv session) {address : UInt64}
    (h : Listed session address) : ∃ byte, Store.textByte session address = some byte := by
  obtain ⟨bp, hbp, rfl⟩ := h
  exact ⟨_, hi.originalByte bp hbp⟩

/-! ### A hit -/

/-- Under the invariant the handler finds the breakpoint that was hit. -/
theorem find?_realAddress {session : DebugSession} (hi : StoreInv session) {bp : Breakpoint}
    (hbp : bp ∈ session.breakpoints) :
    session.breakpoints.find? (fun bp' =>
      decide (realAddress session bp'.address = realAddress session bp.address)) = some bp :=
  (hi.addresses.comp (realAddress_injective session)).find?_eq_some hbp

/-- The handler on a trap of a listed breakpoint. -/
theorem handleInferiorSignal_of_hit {w : World} (hi : StoreInv w.session) {tracee : Tracee}
    (ht : w.tracee = some tracee) (hs : tracee.state = .stopped sigtrap false) {bp : Breakpoint}
    (hbp : bp ∈ w.session.breakpoints)
    (hrip : tracee.regs.rip - 1 = realAddress w.session bp.address) :
    handleInferiorSignal w = .ok
      { session := { w.session with
          inferiorRegisters := { tracee.regs with rip := realAddress w.session bp.address } }
        tracee := some
          { memory := Function.update tracee.memory (realAddress w.session bp.address)
              bp.originalByte
            regs := { tracee.regs with rip := realAddress w.session bp.address }
            state := .stopped sigtrap true } } := by
  have hw : waitpid w = some (.stopped sigtrap,
      { w with tracee := some { tracee with state := .stopped sigtrap true } }) := by
    rw [waitpid, ht]
    dsimp only
    rw [hs]
  rw [handleInferiorSignal_eq, hw]
  dsimp only
  rw [handleStatus, if_pos rfl]
  have ht' : ({ w with tracee := some { tracee with
    state := .stopped sigtrap true } } : World).tracee = some _ := rfl
  have hfind := find?_realAddress hi hbp
  rw [← hrip] at hfind ⊢
  rw [handleTrap_of_find ht' rfl hfind]

/-- **A hit is undone exactly.** In every run, when the process is stopped by a trap right behind a
listed breakpoint, the handler puts the ELF's byte back and changes no other byte, sets `rip` and no
other register to the breakpoint, and copies the registers; the session then shows the ELF's address
of the breakpoint. -/
theorem handleInferiorSignal_hit (host : Host) {w₀ w : World} {es : List Event} (h₀ : Initial w₀)
    (r : Run (Step host) w₀ es w) {tracee : Tracee} (ht : w.tracee = some tracee)
    (hs : tracee.state = .stopped sigtrap false) {bp : Breakpoint}
    (hbp : bp ∈ w.session.breakpoints)
    (hrip : tracee.regs.rip - 1 = realAddress w.session bp.address) :
    ∃ w' tracee' byte, handleInferiorSignal w = .ok w' ∧ w'.tracee = some tracee' ∧
      textByte w₀.session bp.address = some byte ∧
      tracee'.memory = Function.update tracee.memory (realAddress w.session bp.address) byte ∧
      tracee'.regs = { tracee.regs with rip := realAddress w.session bp.address } ∧
      w'.session.inferiorRegisters = tracee'.regs ∧
      getInstructionPointerVma w'.session = bp.address := by
  obtain ⟨hi, hp⟩ := run_inv h₀ r
  have hbyte : textByte w₀.session bp.address = some bp.originalByte := by
    rw [textByte, ← hp]
    exact hi.originalByte bp hbp
  exact ⟨_, _, _, handleInferiorSignal_of_hit hi ht hs hbp hrip, rfl, hbyte, rfl, rfl, rfl,
    getInstructionPointerVma_of_rip rfl⟩

/-! ### A small run -/

/-- The process of `sampleSession`, loaded `0x5000` above the ELF. -/
def sampleProcess : Process where
  pid := 1
  masterFd := 3
  loadAddress := some 0x5000
  memory := fun _ => 0x90
  regs := { rip := 0x6000 }

/-- The session and its process, once it is spawned. -/
def sampleWorld (breakpoints : List Breakpoint) (tracee : Tracee)
    (inferiorRegisters : UserRegs := {}) : World where
  session := { sampleSession [] with
    inferiorRegisters
    breakpoints
    inferiorMasterFd := 3
    inferiorPid := 1
    state := .running
    procLoadAddress := 0x5000 }
  tracee := some tracee

/-- The memory with a trap at `0x1008`. -/
def sampleMemory : Memory := overlay [0x6008] int3 fun _ => 0x90

/-- The breakpoint at `0x1008` is set. -/
theorem sample_toggle : CodeStep (Host.zeroed true) ⟨sampleSession [], none⟩
    (.toggleBreakpoint 0x1008)
    ⟨{ sampleSession [] with breakpoints := [⟨0x1008, 0x90⟩] }, none⟩ :=
  ⟨.toggleBreakpoint rfl, nofun, nofun⟩

/-- The process is spawned. -/
theorem sample_start : CodeStep (Host.zeroed true)
    ⟨{ sampleSession [] with breakpoints := [⟨0x1008, 0x90⟩] }, none⟩
    (.runInferior (.stopped sampleProcess))
    (sampleWorld [⟨0x1008, 0x90⟩] ⟨sampleMemory, { rip := 0x6000 }, .stopped sigtrap true⟩) := by
  refine ⟨.runInferior (spawnInferior_stopped _ rfl sampleProcess), ?_, nofun⟩
  rintro process ⟨⟩ - address byte h
  exact (List.eq_of_mem_replicate (List.mem_of_getElem? h)).symm

theorem sample_spawn : Run (Step (Host.zeroed true)) ⟨sampleSession [], none⟩
    [.toggleBreakpoint 0x1008, .runInferior (.stopped sampleProcess)]
    (sampleWorld [⟨0x1008, 0x90⟩] ⟨sampleMemory, { rip := 0x6000 }, .stopped sigtrap true⟩) :=
  .step sample_toggle.1 (.single sample_start.1)

section
variable (breakpoints : List Breakpoint) (memory : Memory) (regs shown : UserRegs)

/-- The process is continued from where it is stopped. -/
theorem sample_continue :
    continueInferior (sampleWorld breakpoints ⟨memory, regs, .stopped sigtrap true⟩ shown) =
      sampleWorld breakpoints
        ⟨overlay (injectedAddresses (sampleWorld [] ⟨memory, regs, .running⟩).session regs.rip
          breakpoints) int3 memory, regs, .running⟩ shown :=
  continueInferior_eq _

theorem sample_run : CodeStep (Host.zeroed true)
    (sampleWorld breakpoints ⟨memory, regs, .stopped sigtrap true⟩ shown)
    (.runInferior (.stopped sampleProcess))
    (continueInferior (sampleWorld breakpoints ⟨memory, regs, .stopped sigtrap true⟩ shown)) :=
  ⟨.runInferior rfl, nofun, nofun⟩

/-- It executes one instruction. -/
theorem sample_execute (regs' : UserRegs) (h : memory regs.rip ≠ int3) :
    CodeStep (Host.zeroed true) (sampleWorld breakpoints ⟨memory, regs, .running⟩ shown)
      (.execute regs' memory) (sampleWorld breakpoints ⟨memory, regs', .running⟩ shown) := by
  have ht : (sampleWorld breakpoints ⟨memory, regs, .running⟩ shown).tracee =
    some ⟨memory, regs, .running⟩ := rfl
  refine ⟨.execute ht rfl h, nofun, ?_⟩
  rintro _ _ ⟨⟩ _ ⟨⟩ address byte -
  rfl

/-- It traps. -/
theorem sample_trap (h : memory regs.rip = int3) :
    CodeStep (Host.zeroed true) (sampleWorld breakpoints ⟨memory, regs, .running⟩ shown) .trap
      (sampleWorld breakpoints
        ⟨memory, { regs with rip := regs.rip + 1 }, .stopped sigtrap false⟩ shown) :=
  have ht : (sampleWorld breakpoints ⟨memory, regs, .running⟩ shown).tracee =
    some ⟨memory, regs, .running⟩ := rfl
  ⟨.trap ht rfl h, nofun, nofun⟩

end

/-- The process is continued, and runs to the trap. -/
theorem sample_hit : Run (Step (Host.zeroed true)) ⟨sampleSession [], none⟩
    [.toggleBreakpoint 0x1008, .runInferior (.stopped sampleProcess),
      .runInferior (.stopped sampleProcess),
      .execute { rip := 0x6008 } (overlay [0x6008] int3 sampleMemory), .trap]
    (sampleWorld [⟨0x1008, 0x90⟩]
      ⟨overlay [0x6008] int3 sampleMemory, { rip := 0x6009 }, .stopped sigtrap false⟩) :=
  sample_spawn.trans (.step (sample_run _ _ _ _).1 (by
    rw [sample_continue]
    exact .step (sample_execute _ _ _ _ _ (by decide)).1
      (.single (sample_trap _ _ { rip := 0x6008 } _ (by decide)).1)))

/-- The memory after the hit. -/
def restoredMemory : Memory := Function.update (overlay [0x6008] int3 sampleMemory) 0x6008 0x90

/-- The hit is handled. -/
theorem sample_restored : CodeStep (Host.zeroed true)
    (sampleWorld [⟨0x1008, 0x90⟩]
      ⟨overlay [0x6008] int3 sampleMemory, { rip := 0x6009 }, .stopped sigtrap false⟩) .signalChild
    (sampleWorld [⟨0x1008, 0x90⟩] ⟨restoredMemory, { rip := 0x6008 }, .stopped sigtrap true⟩
      { rip := 0x6008 }) :=
  ⟨.signalChild (handleInferiorSignal_of_hit (run_inv ⟨_, _, rfl⟩ sample_hit).1 rfl rfl
    (List.mem_singleton_self _) rfl), nofun, nofun⟩

theorem handleInferiorSignal_hit_sample :
    ∃ w', handleInferiorSignal (sampleWorld [⟨0x1008, 0x90⟩]
      ⟨overlay [0x6008] int3 sampleMemory, { rip := 0x6009 }, .stopped sigtrap false⟩) = .ok w' ∧
        getInstructionPointerVma w'.session = 0x1008 := by
  obtain ⟨w', _, _, h, -, -, -, -, -, hrip⟩ :=
    handleInferiorSignal_hit (Host.zeroed true) ⟨_, _, rfl⟩ sample_hit rfl rfl
      (List.mem_singleton_self (⟨0x1008, 0x90⟩ : Breakpoint)) rfl
  exact ⟨w', h, hrip⟩

end Dabugger.Debug.Events
