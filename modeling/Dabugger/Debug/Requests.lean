import Dabugger.Debug.Events
import Dabugger.Lib.Log

/-! # The requests to the process

The functions of `Dabugger.Debug.Inferior` once more, each with the `ptrace` requests that it issues;
they compute the same (`onRunInferior_result`, `handleInferiorSignal_result`). `ptrace` serves a
process that is stopped.

`on_run_inferior` goes by the state of the session, and that is running from the spawn on, whether the
process is stopped or not. Hence requests are issued outside a stop exactly where a run is requested
of a process that is not stopped (`run_stopped_iff`). -/

namespace Dabugger.Debug.Requests

open Dabugger.Lib.Runs Dabugger.Lib.Log Dabugger.Lib.Words Dabugger.Base Dabugger.Debug.Session
  Dabugger.Debug.Inferior Dabugger.Debug.Events

/-! ### Requests -/

/-- The requests of `debug.c` to a process it traces. -/
inductive RequestKind where
  | getRegs
  | peekText
  | pokeText
  | setRegs
  | cont
  deriving DecidableEq

/-- A request, and whether the process is in a stop when it is issued. -/
structure Request where
  kind : RequestKind
  stopped : Bool
  deriving DecidableEq

/-- The process is in a stop. -/
def Stopped (world : World) : Bool := world.tracee.any Tracee.isStopped

/-- A computation that issues requests. -/
abbrev Issuing := Logged Request Fault

/-- Issue a request. -/
def request (world : World) (kind : RequestKind) : Issuing Unit := emit ⟨kind, Stopped world⟩

/-- `inject_byte`. -/
def injectByte (world : World) (address : UInt64) (byte : UInt8) : Issuing World := do
  request world .peekText
  let word := peekText world address
  let patchedWord := (word &&& ~~~0xff) ||| byte.toUInt64
  request world .pokeText
  return pokeText world address patchedWord

/-- `inject_breakpoints`. -/
def injectBreakpoints (world : World) : Issuing World := do
  request world .getRegs
  let regs := getRegs world
  world.session.breakpoints.foldlM (fun world breakpoint =>
    let realAddress := realAddress world.session breakpoint.address
    if realAddress = regs.rip then pure world else injectByte world realAddress int3) world

/-- `spawn_inferior`. -/
def spawnInferior (host : Host) (world : World) (child : Child) : Issuing World := do
  cAssert host (world.session.state = .dead)
  match child with
  | .execFailed => fail .outOfBounds
  | .stopped process =>
    let session := { world.session with
      inferiorMasterFd := process.masterFd
      inferiorPid := process.pid
      state := .running
      procLoadAddress := process.loadAddress.getD world.session.procLoadAddress }
    let tracee := ⟨process.memory, process.regs, .stopped sigtrap true⟩
    injectBreakpoints { session, tracee := some tracee }

/-- `continue_inferior`. -/
def continueInferior (world : World) : Issuing World := do
  let world ← injectBreakpoints world
  request world .cont
  return cont world

/-- `on_run_inferior`. -/
def onRunInferior (host : Host) (world : World) (child : Child) : Issuing World :=
  match world.session.state with
  | .dead => spawnInferior host world child
  | .running => continueInferior world
  | .breakpoint => continueInferior world

/-- What `handle_inferior_signal` does about a `SIGTRAP`. -/
def handleTrap (world : World) : Issuing World := do
  request world .getRegs
  let regs := getRegs world
  let regs := { regs with rip := regs.rip - 1 }
  let world ←
    match world.session.breakpoints.find? fun breakpoint =>
        realAddress world.session breakpoint.address = regs.rip with
    | some breakpoint => do
      let world ← injectByte world regs.rip breakpoint.originalByte
      request world .setRegs
      pure (setRegs world regs)
    | none => pure world
  return { world with session := { world.session with inferiorRegisters := regs } }

/-- The body of the loop of `handle_inferior_signal`. -/
def handleStatus (world : World) (status : WaitStatus) : Issuing World :=
  match status with
  | .stopped signal => if signal = sigtrap then handleTrap world else pure world
  | .exited | .signaled => pure (Inferior.handleStatus world status)

/-- The loop of `handle_inferior_signal`; the first argument bounds the iterations. -/
def handleStatuses : ℕ → World → Issuing World
  | 0, _ => fail .diverges
  | n + 1, world =>
    match waitpid world with
    | none => pure world
    | some (status, world) => do
      let world ← handleStatus world status
      handleStatuses n world

/-- `handle_inferior_signal`. -/
def handleInferiorSignal (world : World) : Issuing World := handleStatuses 2 world

/-- The requests of an event; the other functions of the session issue none. -/
def issue (host : Host) (world : World) : Event → List Request
  | .runInferior child => (onRunInferior host world child).log
  | .signalChild => (handleInferiorSignal world).log
  | _ => []

/-! ### The same results, and requests in the state of the process -/

/-- The computation ends in a world, and the process is in a stop, or not, at all its requests. -/
structure Issues (stopped : Bool) (x : Issuing World) (world' : World) : Prop where
  result : x.result = .ok world'
  requests : Emits (fun q => q.stopped = stopped) x

theorem stopped_ptrace (world : World) {request : Tracee → Tracee}
    (h : ∀ tracee, (request tracee).isStopped = tracee.isStopped) :
    Stopped (ptrace world request) = Stopped world := by
  obtain ⟨session, _ | tracee⟩ := world
  · rfl
  · unfold ptrace
    dsimp only
    split
    · exact h tracee
    · rfl

theorem stopped_injectByte (world : World) (address : UInt64) (byte : UInt8) :
    Stopped (Inferior.injectByte world address byte) = Stopped world := by
  rw [injectByte_eq]
  exact stopped_ptrace world fun _ => rfl

theorem issues_pure (stopped : Bool) (world : World) : Issues stopped (pure world) world :=
  ⟨rfl, .pure world⟩

theorem Issues.bind {stopped : Bool} {x : Issuing World} {f : World → Issuing World}
    {world' world'' : World} (hx : Issues stopped x world') (hf : Issues stopped (f world') world'') :
    Issues stopped (x >>= f) world'' where
  result := by rw [bind_of_ok hx.result]; exact hf.result
  requests := hx.requests.bind fun a ha => by
    cases hx.result.symm.trans ha
    exact hf.requests

theorem Issues.request {world world' : World} {kind : RequestKind} {f : Unit → Issuing World}
    (hf : Issues (Stopped world) (f ()) world') :
    Issues (Stopped world) (request world kind >>= f) world' where
  result := by rw [Requests.request, emit_bind]; exact hf.result
  requests := Emits.bind (.emit rfl) fun _ _ => hf.requests

theorem issues_injectByte (world : World) (address : UInt64) (byte : UInt8) :
    Issues (Stopped world) (injectByte world address byte)
      (Inferior.injectByte world address byte) :=
  .request (.request (issues_pure _ _))

/-- The loop of `inject_breakpoints`. -/
theorem issues_foldlM (rip : UInt64) {stopped : Bool} : ∀ (breakpoints : List Breakpoint)
    (world : World), Stopped world = stopped →
    Issues stopped (breakpoints.foldlM (fun world breakpoint =>
        if realAddress world.session breakpoint.address = rip then pure world
        else injectByte world (realAddress world.session breakpoint.address) int3) world)
      (breakpoints.foldl (fun world breakpoint =>
        if realAddress world.session breakpoint.address = rip then world
        else Inferior.injectByte world (realAddress world.session breakpoint.address) int3) world)
  | [], world, _ => issues_pure _ world
  | breakpoint :: breakpoints, world, h => by
    rw [List.foldlM_cons, List.foldl_cons]
    split
    · exact (issues_pure _ _).bind (issues_foldlM rip breakpoints world h)
    · have hb := issues_injectByte world (realAddress world.session breakpoint.address) int3
      rw [h] at hb
      exact hb.bind (issues_foldlM rip breakpoints _ ((stopped_injectByte _ _ _).trans h))

theorem issues_injectBreakpoints (world : World) :
    Issues (Stopped world) (injectBreakpoints world) (Inferior.injectBreakpoints world) :=
  .request (issues_foldlM _ _ world rfl)

theorem stopped_injectBreakpoints (world : World) :
    Stopped (Inferior.injectBreakpoints world) = Stopped world := by
  rw [injectBreakpoints_eq]
  exact stopped_ptrace world fun _ => rfl

theorem issues_continueInferior (world : World) :
    Issues (Stopped world) (continueInferior world) (Inferior.continueInferior world) := by
  have hs := stopped_injectBreakpoints world
  refine (issues_injectBreakpoints world).bind ?_
  rw [← hs]
  exact .request (issues_pure _ _)

theorem issues_handleTrap (world : World) :
    Issues (Stopped world) (handleTrap world) (Inferior.handleTrap world) := by
  refine .request ?_
  unfold Inferior.handleTrap
  dsimp only
  cases world.session.breakpoints.find? fun breakpoint =>
      decide (realAddress world.session breakpoint.address = (getRegs world).rip - 1) with
  | some breakpoint =>
    have hs := stopped_injectByte world ((getRegs world).rip - 1) breakpoint.originalByte
    refine (issues_injectByte _ _ _).bind ?_
    rw [← hs]
    refine .request (.bind (issues_pure _ _) (issues_pure _ _))
  | none => exact (issues_pure _ _).bind (issues_pure _ _)

/-- A status that is reported of a process in a stop is handled in that stop. -/
theorem issues_handleStatus {world world' : World} {status : WaitStatus}
    (h : waitpid world = some (status, world')) :
    Issues true (handleStatus world' status) (Inferior.handleStatus world' status) := by
  unfold waitpid at h
  split at h
  · cases h
  rename_i tracee _
  split at h <;> cases h
  · rename_i signal _
    have htrap := issues_handleTrap
      { world with tracee := some { tracee with state := .stopped signal true } }
    unfold handleStatus Inferior.handleStatus
    dsimp only
    split
    · exact htrap
    · exact issues_pure _ _
  · exact issues_pure _ _
  · exact issues_pure _ _

theorem issues_handleInferiorSignal (world : World) :
    ∃ world', Inferior.handleInferiorSignal world = .ok world' ∧
      Issues true (handleInferiorSignal world) world' := by
  refine ⟨_, handleInferiorSignal_eq world, ?_⟩
  unfold handleInferiorSignal handleStatuses
  cases h : waitpid world with
  | none => exact issues_pure _ _
  | some r =>
    obtain ⟨status, world'⟩ := r
    refine (issues_handleStatus h).bind ?_
    unfold handleStatuses
    rw [waitpid_handleStatus h]
    exact issues_pure _ _

/-- The requests of `spawn_inferior` are all in a stop, whether it returns or not. -/
theorem spawnInferior_requests (host : Host) (world : World) (child : Child) :
    (spawnInferior host world child).result = Inferior.spawnInferior host world child ∧
      Emits (fun q => q.stopped = true) (spawnInferior host world child) := by
  unfold spawnInferior Inferior.spawnInferior
  cases hc : cAssert host (world.session.state = .dead) with
  | error e => exact ⟨rfl, nofun⟩
  | ok u =>
    rw [lift_bind_of_ok rfl]
    cases child with
    | execFailed => exact ⟨rfl, nofun⟩
    | stopped process =>
      have h := issues_injectBreakpoints
        { session := { world.session with
            inferiorMasterFd := process.masterFd
            inferiorPid := process.pid
            state := .running
            procLoadAddress := process.loadAddress.getD world.session.procLoadAddress }
          tracee := some ⟨process.memory, process.regs, .stopped sigtrap true⟩ }
      exact ⟨h.result, h.requests⟩

theorem onRunInferior_result (host : Host) (world : World) (child : Child) :
    (onRunInferior host world child).result = Inferior.onRunInferior host world child := by
  unfold onRunInferior Inferior.onRunInferior
  cases world.session.state with
  | dead => exact (spawnInferior_requests host world child).1
  | running | breakpoint => exact (issues_continueInferior world).result

theorem handleInferiorSignal_result (world : World) :
    (handleInferiorSignal world).result = Inferior.handleInferiorSignal world := by
  obtain ⟨world', h, hi⟩ := issues_handleInferiorSignal world
  rw [h, hi.result]

/-! ### Requests outside a stop -/

/-- `continue_inferior` issues requests, whatever the process does. -/
theorem continueInferior_stopped_iff (world : World) :
    (∀ q ∈ (continueInferior world).log, q.stopped = true) ↔ Stopped world = true := by
  have hmem : (⟨.cont, Stopped world⟩ : Request) ∈ (continueInferior world).log := by
    unfold continueInferior
    rw [bind_of_ok (issues_injectBreakpoints world).result, request, emit_bind,
      stopped_injectBreakpoints]
    exact List.mem_append_right _ (List.mem_cons_self ..)
  constructor
  · exact fun h => h _ hmem
  · intro h q hq
    rw [(issues_continueInferior world).requests q hq, h]

/-- A run of a live debuggee is requested in a stop. -/
def RunsInStop (world : World) (e : Event) : Prop :=
  ∀ child, e = .runInferior child → world.session.state ≠ .dead → Stopped world = true

/-- **The requests of an event** are all issued in a stop exactly if it is no run request to a
process that is not stopped. -/
theorem issue_stopped_iff (host : Host) (world : World) (e : Event) :
    (∀ q ∈ issue host world e, q.stopped = true) ↔ RunsInStop world e := by
  cases e with
  | runInferior child =>
    have hruns : RunsInStop world (.runInferior child) ↔
        (world.session.state ≠ .dead → Stopped world = true) := by
      refine ⟨fun h => h child rfl, fun h child' hc => ?_⟩
      cases hc
      exact h
    rw [hruns]
    unfold issue onRunInferior
    dsimp only
    cases world.session.state with
    | dead => exact iff_of_true (spawnInferior_requests host world child).2 (absurd rfl)
    | running | breakpoint =>
      rw [continueInferior_stopped_iff]
      exact ⟨fun h _ => h, fun h => h nofun⟩
  | signalChild =>
    obtain ⟨_, -, h⟩ := issues_handleInferiorSignal world
    exact iff_of_true h.requests (by rintro _ ⟨⟩)
  | toggleBreakpoint | toggleSourceBreakpoint | output | execute | trap | stop | exit | kill =>
    exact iff_of_true nofun (by rintro _ ⟨⟩)

/-- What main's loop delivers in a world, and the requests that are issued for it. -/
structure Delivery where
  world : World
  event : Event
  requests : List Request

/-- One event, with its requests. -/
structure Delivered (host : Host) (w : World) (d : Delivery) (w' : World) : Prop where
  world : d.world = w
  step : Step host w d.event w'
  requests : d.requests = issue host w d.event

/-- **Requests are issued in a stop.** In every run all requests are issued while the process is in a
stop exactly if no run is requested of a process that is not stopped. -/
theorem run_stopped_iff (host : Host) {w₀ w : World} {ds : List Delivery}
    (r : Run (Delivered host) w₀ ds w) :
    (∀ d ∈ ds, ∀ q ∈ d.requests, q.stopped = true) ↔ ∀ d ∈ ds, RunsInStop d.world d.event := by
  induction r with
  | refl _ => simp
  | step h _ ih =>
    rw [List.forall_mem_cons, List.forall_mem_cons, ih, h.requests, h.world, issue_stopped_iff]

/-- A breakpoint is set, and the process is spawned: all requests of the spawn are issued in a stop. -/
theorem run_stopped_iff_sample : ∃ ds w,
    Run (Delivered (Host.zeroed true)) ⟨sampleSession [], none⟩ ds w ∧
      (∃ d ∈ ds, d.requests ≠ []) ∧ ∀ d ∈ ds, ∀ q ∈ d.requests, q.stopped = true := by
  have r : Run (Delivered (Host.zeroed true)) ⟨sampleSession [], none⟩
      [⟨_, .toggleBreakpoint 0x1008, _⟩, ⟨_, .runInferior (.stopped sampleProcess), _⟩] _ :=
    .step ⟨rfl, sample_toggle.1, rfl⟩ (.single ⟨rfl, sample_start.1, rfl⟩)
  refine ⟨_, _, r, ⟨_, .tail _ (.head _), nofun⟩, ?_⟩
  refine (run_stopped_iff (Host.zeroed true) r).mpr ?_
  rintro _ (_ | ⟨_, _ | ⟨_, ⟨⟩⟩⟩) _ ⟨⟩ hne
  exact absurd rfl hne

/-- A run that is requested again while the process is running. -/
theorem not_run_stopped_running :
    ¬ ∀ (w₀ w : World) (ds : List Delivery), Initial w₀ →
      Run (Delivered (Host.zeroed true)) w₀ ds w →
      ∀ d ∈ ds, ∀ q ∈ d.requests, q.stopped = true := by
  intro h
  have r : Run (Delivered (Host.zeroed true)) ⟨sampleSession [], none⟩
      [⟨_, .toggleBreakpoint 0x1008, _⟩, ⟨_, .runInferior (.stopped sampleProcess), _⟩,
        ⟨_, .runInferior (.stopped sampleProcess), _⟩,
        ⟨_, .runInferior (.stopped sampleProcess), _⟩] _ :=
    .step ⟨rfl, sample_toggle.1, rfl⟩ (.step ⟨rfl, sample_start.1, rfl⟩
      (.step ⟨rfl, (sample_run _ _ _ _).1, rfl⟩ (.single ⟨rfl, .runInferior rfl, rfl⟩)))
  have hstop := (issue_stopped_iff (Host.zeroed true) (Inferior.continueInferior
    (sampleWorld [⟨0x1008, 0x90⟩] ⟨sampleMemory, { rip := 0x6000 }, .stopped sigtrap true⟩))
    (.runInferior (.stopped sampleProcess))).mp
      (h _ _ _ ⟨_, _, rfl⟩ r _ (.tail _ (.tail _ (.tail _ (.head _)))))
  exact absurd (hstop _ rfl nofun) (by decide)

end Dabugger.Debug.Requests
