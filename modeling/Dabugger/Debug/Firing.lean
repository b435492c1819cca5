import Dabugger.Debug.Events

/-! # When a breakpoint fires

`inject_breakpoints` leaves out the breakpoint at `rip`, so that the process gets off it. Hence a
process that is continued from a breakpoint may come back to it and pass
(`not_fires_at_rip`). A breakpoint that is not at `rip` when the process is continued is armed, and
stays armed until it is hit (`Armed.step`): it fires (`continueInferior_fires`). -/

namespace Dabugger.Debug.Firing

open Dabugger.Lib.Runs Dabugger.Lib.Words Dabugger.Base Dabugger.Dwarf.Types
  Dabugger.Debug.Session Dabugger.Debug.Store Dabugger.Debug.StoreRuns Dabugger.Debug.Inferior
  Dabugger.Debug.Events

/-! ### Arriving and stopping -/

/-- The process is about to execute what is at the address. -/
def Arrived (w : World) (address : UInt64) : Prop :=
  ∃ tracee, w.tracee = some tracee ∧ tracee.state = .running ∧
    tracee.regs.rip = realAddress w.session address

/-- A step on the way to the next arrival at a breakpoint: the breakpoint stays listed and is not
hit, no `SIGTRAP` comes from elsewhere, and a process that is spawned does not start at it. -/
structure Kept (address : UInt64) (w : World) (e : Event) (w' : World) : Prop where
  listed : Listed w'.session address
  notHit : e = .trap → ¬ Arrived w address
  noStop : e ≠ .stop sigtrap
  spawn : ∀ process, e = .runInferior (.stopped process) → w.session.state = .dead →
    process.regs.rip ≠ realAddress w'.session address

/-- All the process can do is to trap, and then it is stopped right behind the address. -/
def StopsAt (host : Host) (w : World) (address : UInt64) : Prop :=
  (∀ regs memory w', ¬ Step host w (.execute regs memory) w') ∧
    ∃ w' tracee, Step host w .trap w' ∧ w'.tracee = some tracee ∧
      tracee.state = .stopped sigtrap false ∧
      tracee.regs.rip - 1 = realAddress w'.session address

/-- When the process, continued now, has executed an instruction and arrives at the address, it
stops there. -/
def Fires (host : Host) (w : World) (address : UInt64) : Prop :=
  ∀ es w', Run (fun w e w' => CodeStep host w e w' ∧ Kept address w e w') (continueInferior w) es w' →
    (∃ regs memory, .execute regs memory ∈ es) → Arrived w' address → StopsAt host w' address

/-! ### Armed breakpoints -/

/-- The breakpoint is listed and has its trap, and no hit of it is waiting to be handled. -/
structure Armed (address : UInt64) (w : World) : Prop where
  inv : StoreInv w.session
  listed : Listed w.session address
  trap : ∀ tracee, w.tracee = some tracee →
    tracee.memory (realAddress w.session address) = int3
  elsewhere : ∀ tracee, w.tracee = some tracee → tracee.state = .stopped sigtrap false →
    tracee.regs.rip - 1 ≠ realAddress w.session address

section
variable {address : UInt64} {w w' : World}

/-- The breakpoints change, and the process does not. -/
theorem Armed.storeStep {session : DebugSession} (ha : Armed address w)
    (h : StoreStep w.session session) (hl : Listed session address) :
    Armed address { w with session } where
  inv := h.inv ha.inv
  listed := hl
  trap tracee ht := by rw [storeStep_realAddress h]; exact ha.trap tracee ht
  elsewhere tracee ht hs := by rw [storeStep_realAddress h]; exact ha.elsewhere tracee ht hs

theorem Armed.started {child : Child} (ha : Armed address w) (h : Started w child w')
    (hl : Listed w'.session address)
    (hspawn : ∀ process, child = .stopped process → w.session.state = .dead →
      process.regs.rip ≠ realAddress w'.session address) : Armed address w' := by
  have hinv := (started_sameStore h).inv ha.inv
  cases h with
  | spawned hstate hchild =>
    refine ⟨hinv, hl, ?_, ?_⟩
    · rintro _ ⟨⟩
      exact overlay_of_mem
        (realAddress_mem_injectedAddresses.mpr ⟨hl, (hspawn _ hchild hstate).symm⟩)
    · rintro _ ⟨⟩ ⟨⟩
  | @continued tracee ht hs =>
    refine ⟨hinv, hl, ?_, ?_⟩
    · rintro _ ⟨⟩
      by_cases hm : realAddress w.session address ∈
          injectedAddresses w.session tracee.regs.rip w.session.breakpoints
      · exact overlay_of_mem hm
      · exact (overlay_of_notMem hm).trans (ha.trap tracee ht)
    · rintro _ ⟨⟩ ⟨⟩
  | nothing => exact ha

theorem Armed.handled (ha : Armed address w) (h : Handled w w') : Armed address w' := by
  have hinv := (handled_sameStore h).inv ha.inv
  cases h with
  | nothing => exact ha
  | @hit tracee breakpoint ht hs hf =>
    refine ⟨hinv, ha.listed, ?_, by rintro _ ⟨⟩ ⟨⟩⟩
    rintro _ ⟨⟩
    exact (Function.update_of_ne (ha.elsewhere tracee ht hs).symm _ _).trans (ha.trap tracee ht)
  | @miss tracee ht hs hf =>
    refine ⟨hinv, ha.listed, ?_, by rintro _ ⟨⟩ ⟨⟩⟩
    rintro _ ⟨⟩
    exact ha.trap tracee ht
  | @other tracee signal ht hs hne =>
    refine ⟨hinv, ha.listed, ?_, by rintro _ ⟨⟩ ⟨⟩⟩
    rintro _ ⟨⟩
    exact ha.trap tracee ht
  | exited | signaled => exact ⟨hinv, ha.listed, nofun, nofun⟩

/-- **An armed breakpoint stays armed** until it is hit. -/
theorem Armed.step {host : Host} {e : Event} (ha : Armed address w) (h : CodeStep host w e w')
    (hk : Kept address w e w') : Armed address w' := by
  obtain ⟨h, hcode⟩ := h
  cases h with
  | toggleBreakpoint h =>
    exact ha.storeStep (toggleBreakpoint_step ha.inv.toStoreKeys h) hk.listed
  | toggleSourceBreakpoint h =>
    exact ha.storeStep (toggleSourceBreakpoint_step ha.inv.toStoreKeys h) hk.listed
  | runInferior h =>
    refine ha.started (onRunInferior_started h) hk.listed fun process hchild hstate => ?_
    subst hchild
    exact hk.spawn process rfl hstate
  | signalChild h => exact ha.handled (handleInferiorSignal_handled h)
  | output pending =>
    exact ⟨(output_sameStore w.session pending).inv ha.inv, ha.listed, ha.trap,
      ha.elsewhere⟩
  | @execute tracee regs memory ht hs hrip =>
    refine ⟨ha.inv, ha.listed, ?_, ?_⟩
    · rintro _ ⟨⟩
      obtain ⟨byte, hb⟩ := ha.listed.textByte ha.inv
      exact (hcode.executed regs memory rfl tracee ht address byte hb).trans (ha.trap tracee ht)
    · rintro _ ⟨⟩ hstop
      rw [hs] at hstop
      cases hstop
  | @trap tracee ht hs hrip =>
    refine ⟨ha.inv, ha.listed, ?_, ?_⟩
    · rintro _ ⟨⟩
      exact ha.trap tracee ht
    · rintro _ ⟨⟩ -
      change tracee.regs.rip + 1 - 1 ≠ _
      rw [UInt64.add_sub_cancel]
      exact fun hat => hk.notHit rfl ⟨tracee, ht, hs, hat⟩
  | @stop tracee signal ht hs =>
    refine ⟨ha.inv, ha.listed, ?_, ?_⟩
    · rintro _ ⟨⟩
      exact ha.trap tracee ht
    · rintro _ ⟨⟩ hstop
      cases hstop
      exact absurd rfl hk.noStop
  | @exit tracee ht | @kill tracee ht =>
    refine ⟨ha.inv, ha.listed, ?_, by rintro _ ⟨⟩ ⟨⟩⟩
    rintro _ ⟨⟩
    exact ha.trap tracee ht

/-- A process that arrives at an armed breakpoint stops. -/
theorem Armed.stopsAt (host : Host) (ha : Armed address w) (h : Arrived w address) :
    StopsAt host w address := by
  obtain ⟨tracee, ht, hs, hat⟩ := h
  have hrip : tracee.memory tracee.regs.rip = int3 := by rw [hat]; exact ha.trap tracee ht
  refine ⟨?_, ⟨_, _, .trap ht hs hrip, rfl, rfl, ?_⟩⟩
  · rintro regs memory w' ⟨⟩
    rename_i tracee' ht' _ hrip'
    rw [ht] at ht'
    cases ht'
    exact hrip' hrip
  · change tracee.regs.rip + 1 - 1 = _
    rw [UInt64.add_sub_cancel]
    exact hat

end

/-- **Every listed breakpoint fires** that is not at `rip` when the process is continued. The byte at
`rip` is left as it is. -/
theorem continueInferior_fires (host : Host) {w₀ w : World} {es : List Event} (h₀ : Initial w₀)
    (r : Run (Step host) w₀ es w) {tracee : Tracee} (ht : w.tracee = some tracee)
    (hs : tracee.isStopped = true) {address : UInt64} (hl : Listed w.session address) :
    (tracee.regs.rip ≠ realAddress w.session address → Fires host w address) ∧
      ∀ tracee', (continueInferior w).tracee = some tracee' →
        tracee'.memory tracee.regs.rip = tracee.memory tracee.regs.rip := by
  have hi := (run_inv h₀ r).1
  rw [Fires, continueInferior_eq, ptrace_of_stopped ht hs]
  constructor
  · intro hrip es' w' r' _ harr
    refine Armed.stopsAt host (r'.invariant (fun _ _ _ hstep ha => ha.step hstep.1 hstep.2) ?_) harr
    refine ⟨hi, hl, ?_, by rintro _ ⟨⟩ ⟨⟩⟩
    rintro _ ⟨⟩
    exact overlay_of_mem (realAddress_mem_injectedAddresses.mpr ⟨hl, hrip.symm⟩)
  · rintro _ ⟨⟩
    exact overlay_of_notMem fun hm => (mem_injectedAddresses.mp hm).2 rfl

/-- The breakpoint of `sample_spawn` fires when the process is continued. -/
theorem continueInferior_fires_sample :
    Fires (Host.zeroed true)
      (sampleWorld [⟨0x1008, 0x90⟩] ⟨sampleMemory, { rip := 0x6000 }, .stopped sigtrap true⟩)
      0x1008 :=
  (continueInferior_fires _ ⟨_, _, rfl⟩ sample_spawn rfl rfl
    ⟨_, List.mem_singleton_self _, rfl⟩).1 (by decide)

/-- A process that was stopped at its breakpoint loops back to it, and passes. -/
theorem not_fires_at_rip :
    ¬ ∀ (w₀ w : World) (es : List Event) (tracee : Tracee) (address : UInt64), Initial w₀ →
      Run (Step (Host.zeroed true)) w₀ es w → w.tracee = some tracee →
      tracee.isStopped = true → Listed w.session address →
      Fires (Host.zeroed true) w address := by
  intro h
  have hl : ∀ tracee, Listed (sampleWorld [⟨0x1008, 0x90⟩] tracee { rip := 0x6008 }).session
      0x1008 := fun _ => ⟨_, List.mem_singleton_self _, rfl⟩
  have hfires := h _ _ _ _ 0x1008 ⟨_, _, rfl⟩ (sample_hit.trans (.single sample_restored.1)) rfl rfl
    (hl _)
  rw [Fires, sample_continue] at hfires
  have hloop := (hfires _ _ (.step
    ⟨sample_execute _ _ _ _ { rip := 0x6000 } (by decide), hl _, nofun, nofun, nofun⟩
    (.single ⟨sample_execute _ _ _ _ { rip := 0x6008 } (by decide), hl _, nofun, nofun, nofun⟩))
    ⟨_, _, List.mem_cons_self ..⟩ ⟨_, rfl, rfl, rfl⟩).1
  exact hloop _ _ _ (sample_execute _ _ _ _ {} (by decide)).1

end Dabugger.Debug.Firing
