import Dabugger.Debug.Events

/-! # The registers that are shown

`view_registers_buffer` shows `inferior_registers`, a copy that only `handle_inferior_signal` takes,
and only at a `SIGTRAP`. There it moves `rip` back before it knows of a breakpoint, and gives the
moved `rip` to the process at a breakpoint only. Hence a stop is shown with the process's registers
exactly if it is a hit, or is not read and the copy agreed before (`agreesInStop_iff`). -/

namespace Dabugger.Debug.Registers

open Dabugger.Lib.Runs Dabugger.Lib.Words Dabugger.Base Dabugger.Dwarf.Types Dabugger.Debug.Session
  Dabugger.Debug.Store Dabugger.Debug.StoreRuns Dabugger.Debug.Inferior Dabugger.Debug.Events

/-- A process that is stopped has the registers that are shown. -/
def ShowsRegisters (w : World) : Prop :=
  ∀ tracee, w.tracee = some tracee → tracee.isStopped = true →
    w.session.inferiorRegisters = tracee.regs

/-- A step in which nothing continues the process. -/
def HeldStep (host : Host) (w : World) (e : Event) (w' : World) : Prop :=
  Step host w e w' ∧ ∀ child, e ≠ .runInferior child

/-- From when the stop is handled to when the process is continued, the registers of the process are
shown. -/
def AgreesInStop (host : Host) (w : World) : Prop :=
  ∀ w₁, handleInferiorSignal w = .ok w₁ →
    ∀ es w₂, Run (HeldStep host) w₁ es w₂ → ShowsRegisters w₂

/-- The stop is a trap right behind a listed breakpoint, or `handle_inferior_signal` does not read
the registers and the copy has them already. -/
def HitOrAgreed (session : DebugSession) (tracee : Tracee) : Prop :=
  if tracee.state = .stopped sigtrap false then
    ∃ bp ∈ session.breakpoints, realAddress session bp.address = tracee.regs.rip - 1
  else session.inferiorRegisters = tracee.regs

/-! ### While the process is stopped -/

/-- A stop that was handled, and whose registers are shown. -/
structure Held (w : World) : Prop where
  inv : StoreInv w.session
  shows : ShowsRegisters w
  notRunning : ∀ tracee, w.tracee = some tracee → tracee.state ≠ .running
  reported : ∀ tracee signal, w.tracee = some tracee → tracee.state ≠ .stopped signal false

/-- The breakpoints change, and the process does not. -/
theorem Held.storeStep {w : World} {session : DebugSession} (hw : Held w)
    (h : StoreStep w.session session) : Held { w with session } where
  inv := h.inv hw.inv
  shows tracee ht hs := by
    have hregs : session.inferiorRegisters = w.session.inferiorRegisters := by cases h <;> rfl
    exact hregs.trans (hw.shows tracee ht hs)
  notRunning := hw.notRunning
  reported := hw.reported

/-- **The registers stay shown** while nothing continues the process. -/
theorem Held.step {host : Host} {w w' : World} {e : Event} (hw : Held w)
    (h : HeldStep host w e w') : Held w' := by
  obtain ⟨h, hrun⟩ := h
  have hinv := h.inv hw.inv
  cases h with
  | toggleBreakpoint h => exact hw.storeStep (toggleBreakpoint_step hw.inv.toStoreKeys h)
  | toggleSourceBreakpoint h =>
    exact hw.storeStep (toggleSourceBreakpoint_step hw.inv.toStoreKeys h)
  | runInferior => exact absurd rfl (hrun _)
  | signalChild h =>
    cases handleInferiorSignal_handled h with
    | nothing => exact hw
    | hit ht hs | miss ht hs | other ht hs => exact absurd hs (hw.reported _ _ ht)
    | exited | signaled => exact ⟨hinv, nofun, nofun, nofun⟩
  | output pending => exact ⟨hinv, hw.shows, hw.notRunning, hw.reported⟩
  | execute ht hs | trap ht hs | stop ht hs | exit ht hs => exact absurd hs (hw.notRunning _ ht)
  | kill => exact ⟨hinv, by rintro _ ⟨⟩ ⟨⟩, by rintro _ ⟨⟩ ⟨⟩, by rintro _ _ ⟨⟩ ⟨⟩⟩

/-! ### When the stop is handled -/

/-- A world whose process is stopped with these registers. -/
theorem showsRegisters_iff {w : World} {tracee : Tracee} (ht : w.tracee = some tracee)
    (hs : tracee.isStopped = true) :
    ShowsRegisters w ↔ w.session.inferiorRegisters = tracee.regs := by
  refine ⟨fun h => h tracee ht hs, fun h tracee' ht' _ => ?_⟩
  rw [ht] at ht'
  cases ht'
  exact h

/-- Moving `rip` back changes the registers. -/
theorem regs_ne_back (regs : UserRegs) : { regs with rip := regs.rip - 1 } ≠ regs := by
  intro h
  have hrip : regs.rip - 1 = regs.rip := congrArg UserRegs.rip h
  grind

/-- The handler shows the process's registers exactly at a hit, or where it reads none and they
agreed before. -/
theorem handled_shows_iff {w w' : World} (h : Handled w w') {tracee : Tracee}
    (ht : w.tracee = some tracee) (hs : tracee.isStopped = true) :
    ShowsRegisters w' ↔ HitOrAgreed w.session tracee := by
  cases h with
  | nothing hw =>
    obtain ⟨signal, hstate⟩ := reported_of_waitpid hw ht hs
    rw [showsRegisters_iff ht hs, HitOrAgreed, if_neg (by rw [hstate]; simp)]
  | @hit _ breakpoint ht' hs' hf =>
    cases ht.symm.trans ht'
    have hmem := List.mem_of_find?_eq_some hf
    have hat : realAddress w.session breakpoint.address = tracee.regs.rip - 1 := by
      simpa using List.find?_some hf
    rw [showsRegisters_iff rfl rfl, HitOrAgreed, if_pos hs']
    exact iff_of_true rfl ⟨_, hmem, hat⟩
  | miss ht' hs' hf =>
    cases ht.symm.trans ht'
    rw [showsRegisters_iff rfl rfl, HitOrAgreed, if_pos hs']
    refine iff_of_false (regs_ne_back _) ?_
    rintro ⟨bp, hbp, hat⟩
    exact List.find?_eq_none.mp hf bp hbp (decide_eq_true hat)
  | other ht' hs' hne =>
    cases ht.symm.trans ht'
    rw [showsRegisters_iff rfl rfl, HitOrAgreed, if_neg]
    rw [hs']
    rintro ⟨⟩
    exact hne rfl
  | exited ht' hs' | signaled ht' hs' =>
    cases ht.symm.trans ht'
    unfold Tracee.isStopped at hs
    rw [hs'] at hs
    cases hs

/-- After the handler no stop is left to report, and a process that was stopped is not running. -/
theorem Held.of_handled {w w' : World} (h : Handled w w') (hi : StoreInv w'.session)
    {tracee : Tracee} (ht : w.tracee = some tracee) (hs : tracee.isStopped = true)
    (hshows : ShowsRegisters w') : Held w' := by
  refine ⟨hi, hshows, ?_, ?_⟩
  · cases h with
    | nothing hw =>
      obtain ⟨signal, hstate⟩ := reported_of_waitpid hw ht hs
      rintro tracee' ht' hrun
      cases ht.symm.trans ht'
      rw [hstate] at hrun
      cases hrun
    | hit | miss | other => rintro _ ⟨⟩ ⟨⟩
    | exited | signaled => nofun
  · cases h with
    | nothing hw =>
      obtain ⟨signal, hstate⟩ := reported_of_waitpid hw ht hs
      rintro tracee' _ ht' hrun
      cases ht.symm.trans ht'
      rw [hstate] at hrun
      cases hrun
    | hit | miss | other => rintro _ _ ⟨⟩ ⟨⟩
    | exited | signaled => nofun

theorem AgreesInStop.hitOrAgreed {host : Host} {w : World} (h : AgreesInStop host w)
    {tracee : Tracee} (ht : w.tracee = some tracee) (hs : tracee.isStopped = true) :
    HitOrAgreed w.session tracee :=
  have hw := handleInferiorSignal_eq w
  (handled_shows_iff (handleInferiorSignal_handled hw) ht hs).mp (h _ hw [] _ (.refl _))

/-- **The registers that are shown.** At every stop of every run, the process's registers are shown
from when the handler returns to when the process is continued exactly if the stop is a hit, or is
not read and the copy agreed before. -/
theorem agreesInStop_iff (host : Host) {w₀ w : World} {es : List Event} (h₀ : Initial w₀)
    (r : Run (Step host) w₀ es w) {tracee : Tracee} (ht : w.tracee = some tracee)
    (hs : tracee.isStopped = true) :
    AgreesInStop host w ↔ HitOrAgreed w.session tracee := by
  refine ⟨fun h => h.hitOrAgreed ht hs, fun h w₁ hw₁ es' w₂ r' => ?_⟩
  have hh := handleInferiorSignal_handled hw₁
  have hi := (handled_sameStore hh).inv (run_inv h₀ r).1
  have held := Held.of_handled hh hi ht hs ((handled_shows_iff hh ht hs).mpr h)
  exact (r'.invariant (fun _ _ _ hstep hw => hw.step hstep) held).shows

/-- The hit of `sample_hit` is shown. -/
theorem agreesInStop_iff_sample : AgreesInStop (Host.zeroed true)
    (sampleWorld [⟨0x1008, 0x90⟩]
      ⟨overlay [0x6008] int3 sampleMemory, { rip := 0x6009 }, .stopped sigtrap false⟩) :=
  (agreesInStop_iff _ ⟨_, _, rfl⟩ sample_hit rfl rfl).mpr
    (by rw [HitOrAgreed, if_pos rfl]; exact ⟨_, List.mem_singleton_self _, rfl⟩)

/-- A `SIGTRAP` that comes from elsewhere is shown one byte before where the process is. -/
theorem not_agreesInStop_trap :
    ¬ ∀ (w₀ w : World) (es : List Event) (tracee : Tracee), Initial w₀ →
      Run (Step (Host.zeroed true)) w₀ es w → w.tracee = some tracee →
      tracee.isStopped = true → AgreesInStop (Host.zeroed true) w := by
  intro h
  have r := sample_spawn.trans (.single (sample_run [⟨0x1008, 0x90⟩] sampleMemory
    { rip := 0x6000 } {}).1)
  rw [sample_continue] at r
  have r' := r.trans (.single (@Step.stop _ _ _ sigtrap rfl rfl))
  have hagrees := (h _ _ _ _ ⟨_, _, rfl⟩ r' rfl rfl).hitOrAgreed rfl rfl
  rw [HitOrAgreed, if_pos rfl] at hagrees
  obtain ⟨bp, hbp, hat⟩ := hagrees
  obtain rfl := List.mem_singleton.mp hbp
  exact absurd hat (by decide)

end Dabugger.Debug.Registers
