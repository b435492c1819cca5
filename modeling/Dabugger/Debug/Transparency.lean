import Dabugger.Debug.Traps
import Dabugger.Lib.Patches

/-! # The debuggee does not notice

Without its traps, the debuggee is a process that runs by itself: `native` starts it, and executes its
instructions. Toggles, stops, hits and continues are not seen there (`seen`): in a clean run in which no
instruction reads or writes a byte that has a trap, the debuggee is at any time where it would be without
the debugger (`run_transparent`). And it gets on: between two hits it executes an instruction
(`executes_between_hits`). -/

namespace Dabugger.Debug.Transparency

open Dabugger.Lib.Runs Dabugger.Lib.Words Dabugger.Lib.Patches Dabugger.Base Dabugger.Dwarf.Types
  Dabugger.Debug.Session Dabugger.Debug.Store Dabugger.Debug.StoreRuns Dabugger.Debug.Inferior
  Dabugger.Debug.Events Dabugger.Debug.Traps

/-! ### A process by itself -/

/-- What happens to a process. -/
inductive NativeEvent where
  | start (regs : UserRegs) (memory : Memory)
  | execute
  | finish

/-- A process that runs by itself: its registers and its memory. -/
def native (cpu : Instruction UserRegs UInt64 UInt8) (process : Option (UserRegs × Memory)) :
    NativeEvent → Option (UserRegs × Memory)
  | .start regs memory => some (regs, memory)
  | .execute => process.map fun (regs, memory) => cpu.step regs memory
  | .finish => none

/-! ### The debuggee without its traps -/

/-- The address in the ELF of an address in the process. -/
def elfAddress (session : DebugSession) (address : UInt64) : UInt64 :=
  address + (session.programData.loadAddress - session.procLoadAddress)

/-- The code of the ELF, at its addresses in the process. -/
def elfCode (session : DebugSession) (address : UInt64) : Option UInt8 :=
  textByte session (elfAddress session address)

/-- The registers of the debuggee; behind a trap that is not handled, those before it. -/
def nativeRegs (tracee : Tracee) : UserRegs :=
  if tracee.state = .stopped sigtrap false then { tracee.regs with rip := tracee.regs.rip - 1 }
  else tracee.regs

/-- **The debuggee as a process by itself**: with the code of the ELF. -/
def seen (w : World) : Option (UserRegs × Memory) :=
  match w.tracee with
  | none => none
  | some tracee =>
    if tracee.state = .exited ∨ tracee.state = .signaled then none
    else some (nativeRegs tracee, patch (elfCode w.session) tracee.memory)

/-- What is seen of an event. -/
def observed (w : World) : Event → List NativeEvent
  | .runInferior (.stopped process) =>
    if w.session.state = .dead then [.start process.regs process.memory] else []
  | .execute _ _ => [.execute]
  | .exit => [.finish]
  | .kill => [.finish]
  | _ => []

/-- The debuggee executes what the processor does next, and this touches no byte with a trap. -/
def ByCpu (cpu : Instruction UserRegs UInt64 UInt8) (w : World) : Event → Prop
  | .execute regs memory => ∀ tracee, w.tracee = some tracee →
    (regs, memory) = cpu.step tracee.regs tracee.memory ∧
    ∀ address byte, textByte w.session address = some byte →
      realAddress w.session address ∈ cpu.touched tracee.regs tracee.memory →
      tracee.memory (realAddress w.session address) = byte
  | _ => True

/-- A clean step of a processor, and what is seen of it. -/
def ObservedStep (cpu : Instruction UserRegs UInt64 UInt8) (host : Host) (w : World)
    (es : List NativeEvent) (w' : World) : Prop :=
  ∃ e, CleanStep host w e w' ∧ ByCpu cpu w e ∧ es = observed w e

/-! ### Addresses -/

section
variable {session session' : DebugSession} {address : UInt64} {byte : UInt8}

theorem elfAddress_realAddress (session : DebugSession) (address : UInt64) :
    elfAddress session (realAddress session address) = address := by
  rw [elfAddress, realAddress, getAddressFromVma]
  grind

theorem realAddress_elfAddress (session : DebugSession) (address : UInt64) :
    realAddress session (elfAddress session address) = address := by
  rw [elfAddress, realAddress, getAddressFromVma]
  grind

theorem elfCode_realAddress (session : DebugSession) (address : UInt64) :
    elfCode session (realAddress session address) = textByte session address := by
  rw [elfCode, elfAddress_realAddress]

/-- The code is at real addresses of `.text`. -/
theorem exists_of_elfCode (h : elfCode session address = some byte) :
    ∃ a, realAddress session a = address ∧ textByte session a = some byte :=
  ⟨_, realAddress_elfAddress session address, h⟩

theorem storeStep_elfCode (h : StoreStep session session') :
    elfCode session' = elfCode session := by
  cases h <;> rfl

/-- The traps of `inject_breakpoints` are in the code. -/
theorem patch_overlay (hi : StoreInv session) (rip : UInt64) (memory : Memory) :
    patch (elfCode session)
        (overlay (injectedAddresses session rip session.breakpoints) int3 memory) =
      patch (elfCode session) memory := by
  refine patch_congr fun a hcode => overlay_of_notMem fun hmem => ?_
  obtain ⟨⟨bp, hbp, rfl⟩, -⟩ := mem_injectedAddresses.mp hmem
  rw [elfCode_realAddress, hi.originalByte bp hbp] at hcode
  cases hcode

end

/-! ### One step -/

section
variable {host : Host} {cpu : Instruction UserRegs UInt64 UInt8} {w w' : World}

/-- What is seen of a process that has not ended. -/
theorem seen_of_alive {tracee : Tracee} (ht : w.tracee = some tracee)
    (hexited : tracee.state ≠ .exited) (hsignaled : tracee.state ≠ .signaled) :
    seen w = some (nativeRegs tracee, patch (elfCode w.session) tracee.memory) := by
  rw [seen, ht]
  exact if_neg fun h => h.elim hexited hsignaled

theorem seen_of_running {tracee : Tracee} (ht : w.tracee = some tracee)
    (hs : tracee.state = .running) :
    seen w = some (tracee.regs, patch (elfCode w.session) tracee.memory) := by
  rw [seen_of_alive ht (by rw [hs]; nofun) (by rw [hs]; nofun), nativeRegs,
    if_neg (by rw [hs]; nofun)]

theorem seen_of_reported {tracee : Tracee} {signal : ℕ} (ht : w.tracee = some tracee)
    (hs : tracee.state = .stopped signal true) :
    seen w = some (tracee.regs, patch (elfCode w.session) tracee.memory) := by
  rw [seen_of_alive ht (by rw [hs]; nofun) (by rw [hs]; nofun), nativeRegs,
    if_neg (by rw [hs]; simp)]

theorem seen_of_pending {tracee : Tracee} (ht : w.tracee = some tracee)
    (hs : tracee.state = .stopped sigtrap false) :
    seen w = some ({ tracee.regs with rip := tracee.regs.rip - 1 },
      patch (elfCode w.session) tracee.memory) := by
  rw [seen_of_alive ht (by rw [hs]; nofun) (by rw [hs]; nofun), nativeRegs, if_pos hs]

theorem seen_of_ended {tracee : Tracee} (ht : w.tracee = some tracee)
    (hs : tracee.state = .exited ∨ tracee.state = .signaled) : seen w = none := by
  rw [seen, ht]
  exact if_pos hs

/-- A process is spawned where the state is dead. -/
theorem spawned_of_dead {child : Child} (hstate : w.session.state = .dead)
    (h : onRunInferior host w child = .ok w') : ∃ process, child = .stopped process := by
  unfold onRunInferior at h
  rw [hstate] at h
  cases child with
  | execFailed =>
    unfold spawnInferior at h
    rw [decide_eq_true hstate, cAssert_true] at h
    cases h
  | stopped process => exact ⟨process, rfl⟩

/-- **A run request**: a process is started, or nothing is seen. -/
theorem seen_runInferior {child : Child} (hi : TrapInv w) (hw : waitpid w = none)
    (h : onRunInferior host w child = .ok w')
    (hload : ∀ process, w.session.state = .dead → child = .stopped process →
      Loaded w'.session process.memory) :
    seen w' = (observed w (.runInferior child)).foldl (native cpu) (seen w) := by
  have hstarted := onRunInferior_started h
  have hinv := (started_sameStore hstarted).inv hi.store
  by_cases hstate : w.session.state = .dead
  · obtain ⟨process, rfl⟩ := spawned_of_dead hstate h
    unfold onRunInferior at h
    rw [hstate] at h
    dsimp only at h
    rw [spawnInferior_stopped host hstate] at h
    cases h
    rw [observed, if_pos hstate, seen_of_reported rfl rfl, patch_overlay hinv, patch_eq_self]
    · rfl
    · intro a byte hcode
      obtain ⟨address, rfl, hbyte⟩ := exists_of_elfCode hcode
      exact hload process hstate rfl address byte hbyte
  · have hobserved : observed w (.runInferior child) = [] := by
      cases child with
      | execFailed => rfl
      | stopped process => exact if_neg hstate
    rw [hobserved, List.foldl_nil]
    cases hstarted with
    | spawned hdead => exact absurd hdead hstate
    | @continued tracee ht hs =>
      obtain ⟨signal, hreported⟩ := reported_of_waitpid hw ht hs
      rw [seen_of_running rfl rfl, seen_of_reported ht hreported, patch_overlay hi.store]
    | nothing => rfl

/-- **The handler** is not seen. -/
theorem seen_handled (hi : TrapInv w) (h : Handled w w') : seen w' = seen w := by
  cases h with
  | nothing => rfl
  | @hit tracee bp ht hs hf =>
    have hbp := List.mem_of_find?_eq_some hf
    have hreal : realAddress w.session bp.address = tracee.regs.rip - 1 := by
      simpa using List.find?_some hf
    rw [seen_of_reported rfl rfl, seen_of_pending ht hs]
    refine congrArg some (Prod.ext rfl (patch_congr fun a hcode => Function.update_of_ne ?_ _ _))
    rintro rfl
    change elfCode w.session _ = none at hcode
    rw [← hreal, elfCode_realAddress, hi.store.originalByte bp hbp] at hcode
    cases hcode
  | @miss tracee ht hs hf =>
    obtain ⟨-, bp, hbp, hreal⟩ := hi.pending tracee _ ht hs
    exact absurd hreal (by simpa using List.find?_eq_none.mp hf bp hbp)
  | other ht hs hne => exact absurd (hi.pending _ _ ht hs).1 hne
  | exited ht hs => rw [seen_of_ended ht (.inl hs)]; rfl
  | signaled ht hs => rw [seen_of_ended ht (.inr hs)]; rfl

/-- Other breakpoints are not seen. -/
theorem seen_storeStep {session : DebugSession} (h : StoreStep w.session session) :
    seen { w with session } = seen w := by
  unfold seen
  rw [storeStep_elfCode h]

/-- **An instruction** is seen as what it does to the process by itself. -/
theorem seen_execute {tracee : Tracee} {regs : UserRegs} {memory : Memory}
    (ht : w.tracee = some tracee) (hs : tracee.state = .running)
    (hcode : ∀ address byte, textByte w.session address = some byte →
      memory (realAddress w.session address) = tracee.memory (realAddress w.session address))
    (hcpu : ByCpu cpu w (.execute regs memory)) :
    seen { w with tracee := some { tracee with regs, memory } } =
      native cpu (seen w) .execute := by
  obtain ⟨hstep, htouched⟩ := hcpu tracee ht
  have hpatch : cpu.step tracee.regs (patch (elfCode w.session) tracee.memory) = _ :=
    Instruction.step_patch
      (fun a byte ha hmem => by
        obtain ⟨address, rfl, hbyte⟩ := exists_of_elfCode ha
        exact htouched address byte hbyte hmem)
      (fun a byte ha => by
        obtain ⟨address, rfl, hbyte⟩ := exists_of_elfCode ha
        rw [← hstep]
        exact hcode address byte hbyte)
  have hs' : ({ tracee with regs, memory } : Tracee).state = .running := hs
  rw [seen_of_running ht hs, seen_of_running rfl hs']
  change some (regs, patch (elfCode w.session) memory) =
    some (cpu.step tracee.regs (patch (elfCode w.session) tracee.memory))
  rw [hpatch, ← hstep]

/-- **Every clean step** is seen as what happens to a process by itself. -/
theorem seen_step {e : Event} (hi : TrapInv w) (h : CleanStep host w e w') (hcpu : ByCpu cpu w e) :
    seen w' = (observed w e).foldl (native cpu) (seen w) := by
  obtain ⟨⟨⟨h, hcode⟩, ho⟩, -⟩ := h
  cases h with
  | toggleBreakpoint h => exact seen_storeStep (toggleBreakpoint_step hi.store.toStoreKeys h)
  | toggleSourceBreakpoint h =>
    exact seen_storeStep (toggleSourceBreakpoint_step hi.store.toStoreKeys h)
  | runInferior h => exact seen_runInferior hi (ho.waitpid_eq nofun) h hcode.loaded
  | signalChild h => exact seen_handled hi (handleInferiorSignal_handled h)
  | output pending => rfl
  | @execute tracee regs memory ht hs hrip =>
    exact seen_execute ht hs (hcode.executed regs memory rfl tracee ht) hcpu
  | @trap tracee ht hs hrip =>
    rw [seen_of_pending rfl rfl, seen_of_running ht hs]
    dsimp only
    rw [UInt64.add_sub_cancel]
    rfl
  | stop => exact absurd rfl (ho.noStop _)
  | exit => exact seen_of_ended rfl (.inl rfl)
  | kill => exact seen_of_ended rfl (.inr rfl)

end

/-! ### Runs -/

theorem trapInv_of_initial {w : World} (h : Initial w) : TrapInv w := by
  obtain ⟨programData, lineInfo, rfl⟩ := h
  exact ⟨StoreInv.of_empty rfl rfl, nofun, nofun, nofun⟩

/-- **The debugger is transparent.** In every clean run of a processor whose instructions touch no
trap: without its traps the debuggee has the registers and the memory of a process that was started and
executed as many instructions by itself; and the registers that the session shows at a hit are those of
this process, which is at the breakpoint. -/
theorem run_transparent (cpu : Instruction UserRegs UInt64 UInt8) (host : Host) {w₀ w : World}
    {ess : List (List NativeEvent)} (h₀ : Initial w₀) (r : Run (ObservedStep cpu host) w₀ ess w) :
    seen w = ess.flatten.foldl (native cpu) none ∧
      ∀ tracee bp, w.tracee = some tracee → tracee.state = .stopped sigtrap false →
        bp ∈ w.session.breakpoints → tracee.regs.rip - 1 = realAddress w.session bp.address →
        ∃ w' regs memory, handleInferiorSignal w = .ok w' ∧
          ess.flatten.foldl (native cpu) none = some (regs, memory) ∧
          w'.session.inferiorRegisters = regs ∧
          regs.rip = realAddress w.session bp.address := by
  have hstep : ∀ w ess w', ObservedStep cpu host w ess w' → TrapInv w → TrapInv w' :=
    fun _ _ _ ⟨_, h, _⟩ hi => hi.step h
  have hi := trapInv_of_initial h₀
  have hview : seen w = ess.flatten.foldl (native cpu) (seen w₀) :=
    r.foldl_eq hstep (fun _ _ _ ⟨_, h, hcpu, hes⟩ hi => hes ▸ seen_step hi h hcpu) hi
  have hstart : seen w₀ = none := by
    obtain ⟨programData, lineInfo, rfl⟩ := h₀
    rfl
  rw [hstart] at hview
  refine ⟨hview, fun tracee bp ht hs hbp hrip => ?_⟩
  have hinv := (r.invariant hstep hi).store
  refine ⟨_, _, _, handleInferiorSignal_of_hit hinv ht hs hbp hrip,
    hview.symm.trans (seen_of_pending ht hs), ?_, hrip⟩
  rw [hrip]

/-- A processor that knows an instruction of eight bytes, which does nothing. -/
def sampleCpu : Instruction UserRegs UInt64 UInt8 where
  step regs memory := ({ regs with rip := regs.rip + 8 }, memory)
  touched regs _ := {regs.rip}
  agree h := ⟨rfl, rfl, h⟩
  frame _ := rfl

/-- The debuggee is at its breakpoint, which a process by itself passes. -/
theorem run_transparent_sample : ∃ w', handleInferiorSignal (sampleWorld [⟨0x1008, 0x90⟩]
      ⟨overlay [0x6008] int3 sampleMemory, { rip := 0x6009 }, .stopped sigtrap false⟩) = .ok w' ∧
    [.start { rip := 0x6000 } fun _ => 0x90, .execute].foldl (native sampleCpu) none =
      some (w'.session.inferiorRegisters, fun _ => 0x90) := by
  have hstart : Run (ObservedStep sampleCpu (Host.zeroed true)) ⟨sampleSession [], none⟩ _
      (sampleWorld [⟨0x1008, 0x90⟩] ⟨sampleMemory, { rip := 0x6000 }, .stopped sigtrap true⟩) :=
    .step ⟨_, ⟨⟨sample_toggle, .of_quiet rfl nofun nofun⟩, fun _ => nofun⟩, trivial, rfl⟩
      (.single ⟨_, ⟨⟨sample_start, .of_quiet rfl nofun nofun⟩, trivial⟩, trivial, rfl⟩)
  have hcontinue := sample_run [⟨0x1008, 0x90⟩] sampleMemory { rip := 0x6000 } {}
  rw [sample_continue] at hcontinue
  have hrun : Run (ObservedStep sampleCpu (Host.zeroed true))
      (sampleWorld [⟨0x1008, 0x90⟩] ⟨sampleMemory, { rip := 0x6000 }, .stopped sigtrap true⟩) _
      (sampleWorld [⟨0x1008, 0x90⟩]
        ⟨overlay [0x6008] int3 sampleMemory, { rip := 0x6000 }, .running⟩) :=
    .single ⟨_, ⟨⟨hcontinue, .of_quiet rfl nofun nofun⟩, trivial⟩, trivial, rfl⟩
  have htouched : ByCpu sampleCpu (sampleWorld [⟨0x1008, 0x90⟩]
      ⟨overlay [0x6008] int3 sampleMemory, { rip := 0x6000 }, .running⟩)
      (.execute { rip := 0x6008 } (overlay [0x6008] int3 sampleMemory)) := by
    rintro _ ⟨⟩
    refine ⟨rfl, fun address byte hb hmem => ?_⟩
    rw [Set.mem_singleton_iff.mp hmem]
    exact (List.eq_of_mem_replicate (List.mem_of_getElem? hb)).symm
  have hatBreakpoint : Orderly (sampleWorld [⟨0x1008, 0x90⟩]
      ⟨overlay [0x6008] int3 sampleMemory, { rip := 0x6008 }, .running⟩) .trap :=
    .of_running rfl rfl (List.mem_singleton_self _) rfl
  have r := (hstart.trans hrun).trans (.step
    ⟨_, ⟨⟨sample_execute _ _ _ _ { rip := 0x6008 } (by decide), .of_quiet rfl nofun nofun⟩,
      trivial⟩, htouched, rfl⟩
    (.single ⟨_, ⟨⟨sample_trap _ _ { rip := 0x6008 } _ (by decide), hatBreakpoint⟩, trivial⟩,
      trivial, rfl⟩))
  obtain ⟨-, hhit⟩ := run_transparent sampleCpu _ ⟨_, _, rfl⟩ r
  obtain ⟨w', regs, memory, hw', hnative, hregs, -⟩ :=
    hhit _ _ rfl rfl (List.mem_singleton_self (⟨0x1008, 0x90⟩ : Breakpoint)) rfl
  refine ⟨w', hw', ?_⟩
  rw [hregs]
  cases hnative
  rfl

/-! ### Progress -/

/-- The next byte that a running debuggee executes is not that of the ELF. -/
def AtTrap (w : World) : Prop :=
  ∃ tracee byte, w.tracee = some tracee ∧ tracee.state = .running ∧
    elfCode w.session tracee.regs.rip = some byte ∧ tracee.memory tracee.regs.rip ≠ byte

section
variable {host : Host} {w w' : World}

/-- It is running. -/
theorem not_atTrap_of_state {tracee : Tracee} (ht : w.tracee = some tracee)
    (hs : tracee.state ≠ .running) : ¬ AtTrap w := by
  rintro ⟨tracee', byte, ht', hs', -⟩
  cases ht.symm.trans ht'
  exact hs hs'

/-- Only a trap of a listed breakpoint stops it. -/
theorem atTrap_of_trap (hi : TrapInv w) (h : CleanStep host w .trap w')
    (hcode : ∀ tracee, w.tracee = some tracee →
      elfCode w.session tracee.regs.rip ≠ some int3) : AtTrap w := by
  obtain ⟨⟨⟨h, -⟩, ho⟩, -⟩ := h
  cases h with
  | @trap tracee ht hs hrip =>
    obtain ⟨bp, hbp, hat⟩ := ho.atBreakpoint rfl tracee ht
    have hbyte : elfCode w.session tracee.regs.rip = some bp.originalByte := by
      rw [← hat, elfCode_realAddress]
      exact hi.store.originalByte bp hbp
    refine ⟨tracee, bp.originalByte, ht, hs, hbyte, ?_⟩
    rw [hrip]
    intro hint3
    rw [← hint3] at hbyte
    exact hcode tracee ht hbyte

/-- A process is continued with the ELF's byte at `rip`. -/
theorem not_atTrap_started {child : Child} (hi : TrapInv w) (hw : waitpid w = none)
    (h : Started w child w') (hnot : ¬ AtTrap w) : ¬ AtTrap w' := by
  cases h with
  | spawned => exact not_atTrap_of_state rfl nofun
  | @continued tracee ht hs =>
    obtain ⟨signal, hreported⟩ := reported_of_waitpid hw ht hs
    rintro ⟨_, byte, ⟨⟩, -, hbyte, hne⟩
    obtain ⟨address, hat, hbyte⟩ := exists_of_elfCode hbyte
    refine hne ?_
    change overlay _ _ _ tracee.regs.rip = byte
    change realAddress w.session address = tracee.regs.rip at hat
    rw [overlay_of_notMem fun hmem => (mem_injectedAddresses.mp hmem).2 rfl, ← hat]
    exact hi.atRip tracee signal ht hreported address byte hbyte hat
  | nothing => exact hnot

/-- **Only an instruction** brings it to a trap. -/
theorem execute_of_atTrap {e : Event} (hi : TrapInv w) (h : CleanStep host w e w')
    (hnot : ¬ AtTrap w) (hat : AtTrap w') : ∃ regs memory, e = .execute regs memory := by
  obtain ⟨⟨⟨h, -⟩, ho⟩, -⟩ := h
  have hstore : ∀ {session : DebugSession}, StoreStep w.session session →
      ¬ AtTrap { w with session } := by
    rintro session h ⟨tracee, byte, ht, hs, hbyte, hne⟩
    change elfCode session _ = _ at hbyte
    rw [storeStep_elfCode h] at hbyte
    exact hnot ⟨tracee, byte, ht, hs, hbyte, hne⟩
  cases h with
  | toggleBreakpoint h => exact absurd hat (hstore (toggleBreakpoint_step hi.store.toStoreKeys h))
  | toggleSourceBreakpoint h =>
    exact absurd hat (hstore (toggleSourceBreakpoint_step hi.store.toStoreKeys h))
  | runInferior h =>
    exact absurd hat
      (not_atTrap_started hi (ho.waitpid_eq nofun) (onRunInferior_started h) hnot)
  | signalChild h =>
    cases handleInferiorSignal_handled h with
    | nothing => exact absurd hat hnot
    | hit | miss | other => exact absurd hat (not_atTrap_of_state rfl nofun)
    | exited | signaled => obtain ⟨_, _, ⟨⟩, -⟩ := hat
  | output => exact absurd hat hnot
  | execute => exact ⟨_, _, rfl⟩
  | trap | stop | exit | kill => exact absurd hat (not_atTrap_of_state rfl nofun)

end

/-- **The debuggee gets on.** In every clean run: between two traps, the second of them not at a `0xcc`
of the ELF, the debuggee executes an instruction. -/
theorem executes_between_hits (host : Host) {w₀ w₁ w₂ w₃ w₄ : World} {es₀ es : List Event}
    (h₀ : Initial w₀) (r₀ : Run (CleanStep host) w₀ es₀ w₁) (h₁ : CleanStep host w₁ .trap w₂)
    (r : Run (CleanStep host) w₂ es w₃) (h₃ : CleanStep host w₃ .trap w₄)
    (hcode : ∀ tracee, w₃.tracee = some tracee →
      elfCode w₃.session tracee.regs.rip ≠ some int3) :
    ∃ regs memory, Event.execute regs memory ∈ es := by
  have hstep : ∀ w e w', CleanStep host w e w' → TrapInv w → TrapInv w' := fun _ _ _ h hi => hi.step h
  have hi₂ := (r₀.invariant hstep (trapInv_of_initial h₀)).step h₁
  have hnot : ¬ AtTrap w₂ := by
    obtain ⟨⟨⟨h₁, -⟩, -⟩, -⟩ := h₁
    cases h₁
    exact not_atTrap_of_state rfl nofun
  obtain ⟨_, he, regs, memory, rfl⟩ :=
    r.exists_of_gained hstep (fun _ _ _ h hi hnot hat => execute_of_atTrap hi h hnot hat) hi₂ hnot
      (atTrap_of_trap (r.invariant hstep hi₂) h₃ hcode)
  exact ⟨regs, memory, he⟩

/-- The debuggee is stopped at its breakpoint, another one is set right behind, and the debuggee is
continued to it. -/
theorem executes_between_hits_sample : ∃ w₂ w₃ w₄ es,
    CleanStep (Host.zeroed true) (sampleWorld [⟨0x1008, 0x90⟩]
      ⟨overlay [0x6008] int3 sampleMemory, { rip := 0x6008 }, .running⟩) .trap w₂ ∧
    Run (CleanStep (Host.zeroed true)) w₂ es w₃ ∧
    CleanStep (Host.zeroed true) w₃ .trap w₄ ∧
    ∃ regs memory, Event.execute regs memory ∈ es := by
  have hstart : Run (CleanStep (Host.zeroed true)) ⟨sampleSession [], none⟩ _
      (sampleWorld [⟨0x1008, 0x90⟩] ⟨sampleMemory, { rip := 0x6000 }, .stopped sigtrap true⟩) :=
    .step ⟨⟨sample_toggle, .of_quiet rfl nofun nofun⟩, fun _ => nofun⟩
      (.single ⟨⟨sample_start, .of_quiet rfl nofun nofun⟩, trivial⟩)
  have hcontinue := sample_run [⟨0x1008, 0x90⟩] sampleMemory { rip := 0x6000 } {}
  rw [sample_continue] at hcontinue
  have r₀ := hstart.trans (.step ⟨⟨hcontinue, .of_quiet rfl nofun nofun⟩, trivial⟩
    (.single ⟨⟨sample_execute _ _ _ _ { rip := 0x6008 } (by decide), .of_quiet rfl nofun nofun⟩,
      trivial⟩))
  have h₁ : CleanStep (Host.zeroed true) _ .trap _ :=
    ⟨⟨sample_trap [⟨0x1008, 0x90⟩] (overlay [0x6008] int3 sampleMemory) { rip := 0x6008 } {}
      (by decide), .of_running rfl rfl (List.mem_singleton_self _) rfl⟩, trivial⟩
  -- a second breakpoint is set once the hit is handled
  have hset : CodeStep (Host.zeroed true)
      (sampleWorld [⟨0x1008, 0x90⟩]
        ⟨restoredMemory, { rip := 0x6008 }, .stopped sigtrap true⟩ { rip := 0x6008 })
      (.toggleBreakpoint 0x1009)
      (sampleWorld [⟨0x1008, 0x90⟩, ⟨0x1009, 0x90⟩]
        ⟨restoredMemory, { rip := 0x6008 }, .stopped sigtrap true⟩ { rip := 0x6008 }) :=
    ⟨.toggleBreakpoint rfl, nofun, nofun⟩
  have hagain : CodeStep (Host.zeroed true)
      (sampleWorld [⟨0x1008, 0x90⟩, ⟨0x1009, 0x90⟩]
        ⟨restoredMemory, { rip := 0x6008 }, .stopped sigtrap true⟩ { rip := 0x6008 })
      (.runInferior (.stopped sampleProcess))
      (sampleWorld [⟨0x1008, 0x90⟩, ⟨0x1009, 0x90⟩]
        ⟨overlay [0x6009] int3 restoredMemory, { rip := 0x6008 }, .running⟩ { rip := 0x6008 }) := by
    have h := sample_run [⟨0x1008, 0x90⟩, ⟨0x1009, 0x90⟩] restoredMemory { rip := 0x6008 }
      { rip := 0x6008 }
    rwa [sample_continue] at h
  have r : Run (CleanStep (Host.zeroed true)) _ _ _ :=
    .step ⟨⟨sample_restored, ⟨fun _ => rfl, nofun, nofun⟩⟩, trivial⟩
      (.step ⟨⟨hset, .of_quiet rfl nofun nofun⟩, fun hl => absurd hl (by decide)⟩
        (.step ⟨⟨hagain, .of_quiet rfl nofun nofun⟩, trivial⟩
          (.single ⟨⟨sample_execute _ _ _ _ { rip := 0x6009 } (by decide),
            .of_quiet rfl nofun nofun⟩, trivial⟩)))
  have h₃ : CleanStep (Host.zeroed true) _ .trap _ :=
    ⟨⟨sample_trap [⟨0x1008, 0x90⟩, ⟨0x1009, 0x90⟩]
      (overlay [0x6009] int3 restoredMemory) { rip := 0x6009 } { rip := 0x6008 } (by decide),
      .of_running rfl rfl (List.mem_cons_of_mem _ (List.mem_singleton_self _)) rfl⟩, trivial⟩
  refine ⟨_, _, _, _, h₁, r, h₃, ?_⟩
  refine executes_between_hits _ ⟨_, _, rfl⟩ r₀ h₁ r h₃ ?_
  rintro _ ⟨⟩
  decide

end Dabugger.Debug.Transparency
