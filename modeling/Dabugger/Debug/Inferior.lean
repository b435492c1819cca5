import Dabugger.Debug.Session
import Dabugger.Lib.Words

/-! # The inferior

The process that is debugged, and the functions of `debug.c` that reach it through `ptrace` and
`waitpid`. A request to a process that is not stopped fails and does nothing; `ptrace` is ideal
otherwise: a byte memory and a register file.

What the kernel gives to `spawn_inferior` is a parameter: the process that `forkpty` and `execv`
make, with the address that `get_load_address` finds for it. -/

namespace Dabugger.Debug.Inferior

open Dabugger.Lib.Words Dabugger.Base Dabugger.Dwarf.Types Dabugger.Debug.Session

/-! ### Types -/

/-- `SIGTRAP`. -/
def sigtrap : ℕ := 5

/-- `INT3`. -/
def int3 : UInt8 := 0xcc

/-- The state of a process. A stop is reported once `waitpid` has returned it. -/
inductive ProcState where
  | running
  | stopped (signal : ℕ) (reported : Bool)
  | exited
  | signaled
  deriving DecidableEq

/-- The traced process. -/
structure Tracee where
  memory : Memory
  regs : UserRegs
  state : ProcState

def Tracee.isStopped (tracee : Tracee) : Bool :=
  match tracee.state with
  | .stopped _ _ => true
  | _ => false

/-- The session and the process `inferior_pid`, up to when its end has been waited for. -/
structure World where
  session : DebugSession
  tracee : Option Tracee

/-- What `waitpid` reports. -/
inductive WaitStatus where
  | exited
  | stopped (signal : ℕ)
  | signaled
  deriving DecidableEq

/-- A process that `execv` has made, stopped at its first instruction. -/
structure Process where
  pid : ℕ
  masterFd : ℤ
  /-- what `get_load_address` finds -/
  loadAddress : Option UInt64
  memory : Memory
  regs : UserRegs

/-- What becomes of the child of `forkpty`. -/
inductive Child where
  | execFailed
  | stopped (process : Process)

/-! ### Requests -/

/-- A `ptrace` request. -/
def ptrace (world : World) (request : Tracee → Tracee) : World :=
  match world.tracee with
  | some tracee =>
    if tracee.isStopped then { world with tracee := some (request tracee) } else world
  | none => world

/-- `PTRACE_PEEKTEXT`. -/
def peekText (world : World) (address : UInt64) : UInt64 :=
  match world.tracee with
  | some tracee => if tracee.isStopped then readWord tracee.memory address else -1
  | none => -1

/-- `PTRACE_POKETEXT`. -/
def pokeText (world : World) (address word : UInt64) : World :=
  ptrace world fun tracee => { tracee with memory := writeWord tracee.memory address word }

/-- `PTRACE_GETREGS`, into zeros. A failing request leaves uninitialised registers; nothing depends
on them, as the requests that follow fail too. -/
def getRegs (world : World) : UserRegs :=
  match world.tracee with
  | some tracee => if tracee.isStopped then tracee.regs else {}
  | none => {}

/-- `PTRACE_SETREGS`. -/
def setRegs (world : World) (regs : UserRegs) : World :=
  ptrace world fun tracee => { tracee with regs }

/-- `PTRACE_CONT`. A stop that was not waited for is not reported any more. -/
def cont (world : World) : World :=
  ptrace world fun tracee => { tracee with state := .running }

/-- `waitpid(..., __WALL | WNOHANG)`, where it returns more than zero. -/
def waitpid (world : World) : Option (WaitStatus × World) :=
  match world.tracee with
  | none => none
  | some tracee =>
    match tracee.state with
    | .running => none
    | .stopped _ true => none
    | .stopped signal false =>
      some (.stopped signal,
        { world with tracee := some { tracee with state := .stopped signal true } })
    | .exited => some (.exited, { world with tracee := none })
    | .signaled => some (.signaled, { world with tracee := none })

/-! ### Injection -/

/-- The address in the process of an address in the ELF. -/
def realAddress (session : DebugSession) (address : UInt64) : UInt64 :=
  getAddressFromVma address session.programData.loadAddress session.procLoadAddress

/-- `inject_byte`. -/
def injectByte (world : World) (address : UInt64) (byte : UInt8) : World :=
  let word := peekText world address
  let patchedWord := (word &&& ~~~0xff) ||| byte.toUInt64
  pokeText world address patchedWord

/-- `inject_breakpoints`. -/
def injectBreakpoints (world : World) : World :=
  let regs := getRegs world
  world.session.breakpoints.foldl (fun world breakpoint =>
    let realAddress := realAddress world.session breakpoint.address
    if realAddress = regs.rip then world else injectByte world realAddress int3) world

/-! ### Starting and continuing -/

/-- `spawn_inferior`. If `execv` fails, the child is gone before `get_load_address` opens its
maps, and `getline` is given a null stream. -/
def spawnInferior (host : Host) (world : World) (child : Child) : Except Fault World := do
  cAssert host (world.session.state = .dead)
  match child with
  | .execFailed => throw .outOfBounds
  | .stopped process =>
    let session := { world.session with
      inferiorMasterFd := process.masterFd
      inferiorPid := process.pid
      state := .running
      procLoadAddress := process.loadAddress.getD world.session.procLoadAddress }
    let tracee := ⟨process.memory, process.regs, .stopped sigtrap true⟩
    return injectBreakpoints { session, tracee := some tracee }

/-- `continue_inferior`. -/
def continueInferior (world : World) : World := cont (injectBreakpoints world)

/-- `on_run_inferior`. -/
def onRunInferior (host : Host) (world : World) (child : Child) : Except Fault World :=
  match world.session.state with
  | .dead => spawnInferior host world child
  | .running => .ok (continueInferior world)
  | .breakpoint => .ok (continueInferior world)

/-! ### Signals -/

/-- What `handle_inferior_signal` does about a `SIGTRAP`. -/
def handleTrap (world : World) : World :=
  let regs := getRegs world
  let regs := { regs with rip := regs.rip - 1 }
  let world :=
    match world.session.breakpoints.find? fun breakpoint =>
        realAddress world.session breakpoint.address = regs.rip with
    | some breakpoint => setRegs (injectByte world regs.rip breakpoint.originalByte) regs
    | none => world
  { world with session := { world.session with inferiorRegisters := regs } }

/-- The body of the loop of `handle_inferior_signal`. -/
def handleStatus (world : World) : WaitStatus → World
  | .exited =>
    { world with session := { world.session with
        state := .dead
        inferiorPid := 0
        inferiorMasterFd := -1
        output := {}
        inferiorRegisters := {} } }
  | .stopped signal => if signal = sigtrap then handleTrap world else world
  | .signaled => world

/-- The loop of `handle_inferior_signal`; the first argument bounds the iterations. -/
def handleStatuses : ℕ → World → Except Fault World
  | 0, _ => .error .diverges
  | n + 1, world =>
    match waitpid world with
    | none => .ok world
    | some (status, world) => handleStatuses n (handleStatus world status)

/-- `handle_inferior_signal`; it has read its `signalfd_siginfo`. -/
def handleInferiorSignal (world : World) : Except Fault World := handleStatuses 2 world

/-! ### Requests one after another -/

section
variable {world : World} {tracee : Tracee}

theorem ptrace_of_stopped (ht : world.tracee = some tracee) (hs : tracee.isStopped = true)
    (request : Tracee → Tracee) :
    ptrace world request = { world with tracee := some (request tracee) } := by
  rw [ptrace, ht]
  exact if_pos hs

/-- A request that fails does nothing. -/
theorem ptrace_of_not_stopped (h : ∀ tracee, world.tracee = some tracee → tracee.isStopped = false)
    (request : Tracee → Tracee) : ptrace world request = world := by
  unfold ptrace
  split
  · rename_i tracee ht
    rw [h tracee ht, if_neg Bool.false_ne_true]
  · rfl

@[simp] theorem session_ptrace (world : World) (request : Tracee → Tracee) :
    (ptrace world request).session = world.session := by
  unfold ptrace
  split
  · split <;> rfl
  · rfl

theorem ptrace_id (world : World) : ptrace world (fun tracee => tracee) = world := by
  unfold ptrace
  split
  · rename_i tracee ht
    rw [← ht, ite_self]
  · rfl

theorem ptrace_ptrace {request : Tracee → Tracee}
    (h : ∀ tracee, (request tracee).isStopped = tracee.isStopped) (request' : Tracee → Tracee) :
    ptrace (ptrace world request) request' =
      ptrace world fun tracee => request' (request tracee) := by
  obtain ⟨session, _ | tracee⟩ := world
  · rfl
  · have ht : (⟨session, some tracee⟩ : World).tracee = some tracee := rfl
    cases hs : tracee.isStopped with
    | true =>
      rw [ptrace_of_stopped ht hs request]
      exact (ptrace_of_stopped rfl ((h tracee).trans hs) _).trans
        (ptrace_of_stopped ht hs fun tracee => request' (request tracee)).symm
    | false =>
      have hn : ∀ t, (⟨session, some tracee⟩ : World).tracee = some t → t.isStopped = false := by
        rintro _ ⟨⟩
        exact hs
      rw [ptrace_of_not_stopped hn request, ptrace_of_not_stopped hn, ptrace_of_not_stopped hn]

theorem ptrace_congr {request request' : Tracee → Tracee}
    (h : ∀ tracee, world.tracee = some tracee → tracee.isStopped = true →
      request tracee = request' tracee) : ptrace world request = ptrace world request' := by
  unfold ptrace
  split
  · rename_i tracee ht
    split
    · rename_i hs
      rw [h tracee ht hs]
    · rfl
  · rfl

theorem getRegs_of_stopped (ht : world.tracee = some tracee) (hs : tracee.isStopped = true) :
    getRegs world = tracee.regs := by
  rw [getRegs, ht]
  exact if_pos hs

end

/-- **`inject_byte` changes one byte.** -/
theorem injectByte_eq (world : World) (address : UInt64) (byte : UInt8) :
    injectByte world address byte = ptrace world fun tracee =>
      { tracee with memory := Function.update tracee.memory address byte } := by
  unfold injectByte pokeText ptrace peekText
  split
  · rename_i tracee ht
    dsimp only
    rw [← writeWord_patch]
    split <;> rfl
  · rfl

/-- The addresses where `inject_breakpoints` sets a trap. -/
def injectedAddresses (session : DebugSession) (rip : UInt64) (breakpoints : List Breakpoint) :
    List UInt64 :=
  (breakpoints.map fun breakpoint => realAddress session breakpoint.address).filter
    fun address => decide (address ≠ rip)

theorem mem_injectedAddresses {session : DebugSession} {rip a : UInt64}
    {breakpoints : List Breakpoint} :
    a ∈ injectedAddresses session rip breakpoints ↔
      (∃ bp ∈ breakpoints, realAddress session bp.address = a) ∧ a ≠ rip := by
  simp [injectedAddresses]

/-- The loop of `inject_breakpoints`. -/
theorem foldl_injectByte (rip : UInt64) : ∀ (breakpoints : List Breakpoint) (world : World),
    breakpoints.foldl (fun world breakpoint =>
      if realAddress world.session breakpoint.address = rip then world
      else injectByte world (realAddress world.session breakpoint.address) int3) world =
    ptrace world fun tracee =>
      { tracee with
        memory := overlay (injectedAddresses world.session rip breakpoints) int3 tracee.memory }
  | [], world => by
    simp only [List.foldl_nil, injectedAddresses, List.map_nil, List.filter_nil, overlay_nil]
    exact (ptrace_id world).symm
  | breakpoint :: breakpoints, world => by
    rw [List.foldl_cons, foldl_injectByte rip breakpoints]
    by_cases h : realAddress world.session breakpoint.address = rip
    · simp only [if_pos h, injectedAddresses, List.map_cons]
      rw [List.filter_cons_of_neg (by simpa using h)]
    · simp only [if_neg h, injectByte_eq, session_ptrace, injectedAddresses, List.map_cons]
      rw [List.filter_cons_of_pos (by simpa using h)]
      refine (ptrace_ptrace ?_ _).trans ?_
      · exact fun _ => rfl
      · simp only [overlay_cons]

/-- **What `inject_breakpoints` does.** -/
theorem injectBreakpoints_eq (world : World) :
    injectBreakpoints world = ptrace world fun tracee => { tracee with
      memory := overlay (injectedAddresses world.session tracee.regs.rip world.session.breakpoints)
        int3 tracee.memory } := by
  refine (foldl_injectByte _ _ _).trans (ptrace_congr fun tracee ht hs => ?_)
  rw [getRegs_of_stopped ht hs]

/-- **What `continue_inferior` does.** -/
theorem continueInferior_eq (world : World) :
    continueInferior world = ptrace world fun tracee => { tracee with
      memory := overlay (injectedAddresses world.session tracee.regs.rip world.session.breakpoints)
        int3 tracee.memory
      state := .running } := by
  rw [continueInferior, injectBreakpoints_eq, cont]
  refine ptrace_ptrace ?_ _
  exact fun _ => rfl

/-- **What `spawn_inferior` makes of a process.** -/
theorem spawnInferior_stopped (host : Host) {world : World} (h : world.session.state = .dead)
    (process : Process) :
    spawnInferior host world (.stopped process) =
      let session := { world.session with
        inferiorMasterFd := process.masterFd
        inferiorPid := process.pid
        state := .running
        procLoadAddress := process.loadAddress.getD world.session.procLoadAddress }
      .ok { session, tracee := some {
        memory := overlay (injectedAddresses session process.regs.rip session.breakpoints) int3
          process.memory
        regs := process.regs
        state := .stopped sigtrap true } } := by
  unfold spawnInferior
  rw [decide_eq_true h, cAssert_true]
  dsimp only
  rw [injectBreakpoints_eq]
  rfl

/-- The outcomes of `on_run_inferior`. -/
inductive Started (world : World) (child : Child) : World → Prop
  | spawned {process : Process} {session : DebugSession} (h : world.session.state = .dead)
      (hchild : child = .stopped process)
      (hsession : session = { world.session with
        inferiorMasterFd := process.masterFd
        inferiorPid := process.pid
        state := .running
        procLoadAddress := process.loadAddress.getD world.session.procLoadAddress }) :
      Started world child { session, tracee := some {
        memory := overlay (injectedAddresses session process.regs.rip session.breakpoints) int3
          process.memory
        regs := process.regs
        state := .stopped sigtrap true } }
  | continued {tracee : Tracee} (ht : world.tracee = some tracee)
      (hs : tracee.isStopped = true) :
      Started world child { world with tracee := some { tracee with
        memory := overlay
          (injectedAddresses world.session tracee.regs.rip world.session.breakpoints) int3
          tracee.memory
        state := .running } }
  | nothing (hs : ∀ tracee, world.tracee = some tracee → tracee.isStopped = false) :
      Started world child world

theorem continueInferior_started (world : World) (child : Child) :
    Started world child (continueInferior world) := by
  rw [continueInferior_eq]
  by_cases hs : ∃ tracee, world.tracee = some tracee ∧ tracee.isStopped = true
  · obtain ⟨tracee, ht, hs⟩ := hs
    rw [ptrace_of_stopped ht hs]
    exact .continued ht hs
  · have hn : ∀ tracee, world.tracee = some tracee → tracee.isStopped = false := by
      intro tracee ht
      rw [Bool.eq_false_iff]
      exact fun h => hs ⟨tracee, ht, h⟩
    rw [ptrace_of_not_stopped hn]
    exact .nothing hn

/-- **What `on_run_inferior` does.** -/
theorem onRunInferior_started {host : Host} {world world' : World} {child : Child}
    (h : onRunInferior host world child = .ok world') : Started world child world' := by
  unfold onRunInferior at h
  split at h
  · rename_i hstate
    cases child with
    | execFailed =>
      unfold spawnInferior at h
      rw [decide_eq_true hstate, cAssert_true] at h
      cases h
    | stopped process =>
      rw [spawnInferior_stopped host hstate] at h
      cases h
      exact .spawned hstate rfl rfl
  · cases h
    exact continueInferior_started world child
  · cases h
    exact continueInferior_started world child

/-! ### Addresses -/

theorem realAddress_injective (session : DebugSession) :
    Function.Injective (realAddress session) := by
  intro a b h
  unfold realAddress getAddressFromVma at h
  grind

/-- The two translations of addresses undo each other. -/
theorem getInstructionPointerVma_of_rip {session : DebugSession} {address : UInt64}
    (h : session.inferiorRegisters.rip = realAddress session address) :
    getInstructionPointerVma session = address := by
  rw [getInstructionPointerVma, h, realAddress, getAddressFromVma]
  grind

/-! ### The handler -/

section
variable {world : World} {tracee : Tracee}

/-- A trap at a breakpoint: its byte and `rip` are put back. -/
theorem handleTrap_of_find {breakpoint : Breakpoint} (ht : world.tracee = some tracee)
    (hs : tracee.isStopped = true)
    (hf : world.session.breakpoints.find? (fun bp =>
      decide (realAddress world.session bp.address = tracee.regs.rip - 1)) = some breakpoint) :
    handleTrap world =
      { session := { world.session with
          inferiorRegisters := { tracee.regs with rip := tracee.regs.rip - 1 } }
        tracee := some { tracee with
          memory := Function.update tracee.memory (tracee.regs.rip - 1) breakpoint.originalByte
          regs := { tracee.regs with rip := tracee.regs.rip - 1 } } } := by
  unfold handleTrap
  rw [getRegs_of_stopped ht hs]
  dsimp only
  rw [hf]
  dsimp only
  rw [injectByte_eq, setRegs, ptrace_of_stopped ht hs]
  rw [ptrace_of_stopped rfl]
  exact hs

/-- A trap elsewhere: only the session's copy of the registers changes. -/
theorem handleTrap_of_find_none (ht : world.tracee = some tracee) (hs : tracee.isStopped = true)
    (hf : world.session.breakpoints.find? (fun bp =>
      decide (realAddress world.session bp.address = tracee.regs.rip - 1)) = none) :
    handleTrap world =
      { world with session := { world.session with
          inferiorRegisters := { tracee.regs with rip := tracee.regs.rip - 1 } } } := by
  unfold handleTrap
  rw [getRegs_of_stopped ht hs]
  dsimp only
  rw [hf]

/-- The state of the process stays as it was. -/
theorem handleTrap_tracee (ht : world.tracee = some tracee) (hs : tracee.isStopped = true) :
    ∃ tracee', (handleTrap world).tracee = some tracee' ∧ tracee'.state = tracee.state := by
  cases hf : world.session.breakpoints.find? (fun bp =>
      decide (realAddress world.session bp.address = tracee.regs.rip - 1)) with
  | some breakpoint =>
    rw [handleTrap_of_find ht hs hf]
    exact ⟨_, rfl, rfl⟩
  | none =>
    rw [handleTrap_of_find_none ht hs hf]
    exact ⟨_, ht, rfl⟩

end

theorem waitpid_of_none {world : World} (h : world.tracee = none) : waitpid world = none := by
  rw [waitpid, h]

theorem waitpid_of_reported {world : World} {tracee : Tracee} {signal : ℕ}
    (ht : world.tracee = some tracee) (hs : tracee.state = .stopped signal true) :
    waitpid world = none := by
  rw [waitpid, ht]
  dsimp only
  rw [hs]

/-- A stop that `waitpid` has nothing to say about was reported. -/
theorem reported_of_waitpid {world : World} {tracee : Tracee} (hw : waitpid world = none)
    (ht : world.tracee = some tracee) (hs : tracee.isStopped = true) :
    ∃ signal, tracee.state = .stopped signal true := by
  rw [waitpid, ht] at hw
  dsimp only at hw
  unfold Tracee.isStopped at hs
  split at hs
  · rename_i signal reported hstate
    rw [hstate] at hw
    cases reported with
    | true => exact ⟨signal, hstate⟩
    | false => cases hw
  · cases hs

/-- A status that is handled leaves no other one to wait for. -/
theorem waitpid_handleStatus {world world' : World} {status : WaitStatus}
    (h : waitpid world = some (status, world')) : waitpid (handleStatus world' status) = none := by
  unfold waitpid at h
  split at h
  · cases h
  rename_i tracee ht
  split at h <;> cases h
  · rename_i signal hs
    rw [handleStatus]
    split
    · have ht' : ({ world with tracee := some { tracee with
          state := .stopped signal true } } : World).tracee = some _ := rfl
      obtain ⟨tracee', ht', hs'⟩ := handleTrap_tracee ht' rfl
      exact waitpid_of_reported ht' hs'
    · exact waitpid_of_reported rfl rfl
  · exact waitpid_of_none rfl
  · exact waitpid_of_none rfl

/-- The loop of `handle_inferior_signal` handles one status, if there is one. -/
theorem handleInferiorSignal_eq (world : World) :
    handleInferiorSignal world = .ok (match waitpid world with
      | none => world
      | some (status, world') => handleStatus world' status) := by
  unfold handleInferiorSignal handleStatuses
  split
  · rfl
  · rename_i status world' h
    unfold handleStatuses
    rw [waitpid_handleStatus h]

/-- The outcomes of `handle_inferior_signal`. -/
inductive Handled (world : World) : World → Prop
  | nothing (h : waitpid world = none) : Handled world world
  | hit {tracee : Tracee} {breakpoint : Breakpoint} (ht : world.tracee = some tracee)
      (hs : tracee.state = .stopped sigtrap false)
      (hf : world.session.breakpoints.find? (fun bp =>
        decide (realAddress world.session bp.address = tracee.regs.rip - 1)) = some breakpoint) :
      Handled world
        { session := { world.session with
            inferiorRegisters := { tracee.regs with rip := tracee.regs.rip - 1 } }
          tracee := some {
            memory := Function.update tracee.memory (tracee.regs.rip - 1) breakpoint.originalByte
            regs := { tracee.regs with rip := tracee.regs.rip - 1 }
            state := .stopped sigtrap true } }
  | miss {tracee : Tracee} (ht : world.tracee = some tracee)
      (hs : tracee.state = .stopped sigtrap false)
      (hf : world.session.breakpoints.find? (fun bp =>
        decide (realAddress world.session bp.address = tracee.regs.rip - 1)) = none) :
      Handled world
        { session := { world.session with
            inferiorRegisters := { tracee.regs with rip := tracee.regs.rip - 1 } }
          tracee := some { tracee with state := .stopped sigtrap true } }
  | other {tracee : Tracee} {signal : ℕ} (ht : world.tracee = some tracee)
      (hs : tracee.state = .stopped signal false) (hne : signal ≠ sigtrap) :
      Handled world { world with tracee := some { tracee with state := .stopped signal true } }
  | exited {tracee : Tracee} (ht : world.tracee = some tracee) (hs : tracee.state = .exited) :
      Handled world
        { session := { world.session with
            state := .dead
            inferiorPid := 0
            inferiorMasterFd := -1
            output := {}
            inferiorRegisters := {} }
          tracee := none }
  | signaled {tracee : Tracee} (ht : world.tracee = some tracee)
      (hs : tracee.state = .signaled) : Handled world { world with tracee := none }

/-- **What `handle_inferior_signal` does.** -/
theorem handleInferiorSignal_handled {world world' : World}
    (h : handleInferiorSignal world = .ok world') : Handled world world' := by
  rw [handleInferiorSignal_eq] at h
  cases h
  split
  · rename_i hw
    exact .nothing hw
  rename_i status world' hw
  unfold waitpid at hw
  split at hw
  · cases hw
  rename_i tracee ht
  split at hw <;> cases hw
  · rename_i signal hs
    rw [handleStatus]
    by_cases hsig : signal = sigtrap
    · subst hsig
      rw [if_pos rfl]
      have ht' : ({ world with tracee := some { tracee with
        state := .stopped sigtrap true } } : World).tracee = some _ := rfl
      cases hf : world.session.breakpoints.find? (fun bp =>
          decide (realAddress world.session bp.address = tracee.regs.rip - 1)) with
      | some breakpoint =>
        have hhit := Handled.hit ht hs hf
        rw [handleTrap_of_find ht' rfl hf]
        exact hhit
      | none =>
        have hmiss := Handled.miss ht hs hf
        rw [handleTrap_of_find_none ht' rfl hf]
        exact hmiss
    · rw [if_neg hsig]
      exact .other ht hs hsig
  · rename_i hs
    exact .exited ht hs
  · rename_i hs
    exact .signaled ht hs

end Dabugger.Debug.Inferior
