import Dabugger.Debug.Events

/-! # The state of the session and the life of the debuggee

`on_run_inferior` spawns a process only where the state is dead. `handle_inferior_signal` sets the
state at a normal exit and leaves it at a death by a signal: up to such a death the state says whether
a process lives, and after it never again (`state_dead_iff`). -/

namespace Dabugger.Debug.Lifetime

open Dabugger.Lib.Runs Dabugger.Lib.Words Dabugger.Base Dabugger.Debug.Session Dabugger.Debug.Store
  Dabugger.Debug.StoreRuns Dabugger.Debug.Inferior Dabugger.Debug.Events

/-- There is a process that has not ended. -/
def Live (w : World) : Prop :=
  ∃ tracee, w.tracee = some tracee ∧ (tracee.state = .running ∨ tracee.isStopped = true)

/-- The state is dead where there is no process, and running where there is one. -/
structure Tracked (w : World) : Prop where
  dead : w.tracee = none → w.session.state = .dead
  running : ∀ tracee, w.tracee = some tracee →
    w.session.state = .running ∧ tracee.state ≠ .signaled

/-- The process was killed, and the state is running. -/
structure Killed (w : World) : Prop where
  state : w.session.state = .running
  signaled : ∀ tracee, w.tracee = some tracee → tracee.state = .signaled

section
variable {host : Host} {w w' : World} {e : Event}

theorem storeStep_state {session session' : DebugSession} (h : StoreStep session session') :
    session'.state = session.state := by
  cases h <;> rfl

theorem Tracked.storeStep {session : DebugSession} (hw : Tracked w)
    (h : StoreStep w.session session) : Tracked { w with session } where
  dead ht := (storeStep_state h).trans (hw.dead ht)
  running tracee ht := ⟨(storeStep_state h).trans (hw.running tracee ht).1, (hw.running tracee ht).2⟩

theorem Killed.storeStep {session : DebugSession} (hw : Killed w)
    (h : StoreStep w.session session) : Killed { w with session } where
  state := (storeStep_state h).trans hw.state
  signaled := hw.signaled

/-- **The state keeps track of the process** in every step but a kill. -/
theorem Tracked.step (hi : StoreInv w.session) (hw : Tracked w) (h : Step host w e w')
    (he : e ≠ .kill) : Tracked w' := by
  cases h with
  | toggleBreakpoint h => exact hw.storeStep (toggleBreakpoint_step hi.toStoreKeys h)
  | toggleSourceBreakpoint h => exact hw.storeStep (toggleSourceBreakpoint_step hi.toStoreKeys h)
  | runInferior h =>
    cases onRunInferior_started h with
    | spawned _ _ hsession =>
      subst hsession
      exact ⟨nofun, by rintro _ ⟨⟩; exact ⟨rfl, nofun⟩⟩
    | continued ht => exact ⟨nofun, by rintro _ ⟨⟩; exact ⟨(hw.running _ ht).1, nofun⟩⟩
    | nothing => exact hw
  | signalChild h =>
    cases handleInferiorSignal_handled h with
    | nothing => exact hw
    | hit ht | miss ht | other ht =>
      exact ⟨nofun, by rintro _ ⟨⟩; exact ⟨(hw.running _ ht).1, nofun⟩⟩
    | exited => exact ⟨fun _ => rfl, nofun⟩
    | signaled ht hs => exact absurd hs (hw.running _ ht).2
  | output => exact ⟨hw.dead, hw.running⟩
  | execute ht =>
    obtain ⟨hstate, hne⟩ := hw.running _ ht
    exact ⟨nofun, by rintro _ ⟨⟩; exact ⟨hstate, hne⟩⟩
  | trap ht | stop ht | exit ht =>
    exact ⟨nofun, by rintro _ ⟨⟩; exact ⟨(hw.running _ ht).1, nofun⟩⟩
  | kill => exact absurd rfl he

theorem Tracked.kill (hw : Tracked w) (h : Step host w .kill w') : Killed w' := by
  cases h with
  | kill ht => exact ⟨(hw.running _ ht).1, by rintro _ ⟨⟩; rfl⟩

/-- **A kill is never made up for.** -/
theorem Killed.step (hi : StoreInv w.session) (hw : Killed w) (h : Step host w e w') :
    Killed w' := by
  cases h with
  | toggleBreakpoint h => exact hw.storeStep (toggleBreakpoint_step hi.toStoreKeys h)
  | toggleSourceBreakpoint h => exact hw.storeStep (toggleSourceBreakpoint_step hi.toStoreKeys h)
  | runInferior h =>
    cases onRunInferior_started h with
    | spawned hstate => rw [hw.state] at hstate; cases hstate
    | continued ht hs =>
      unfold Tracee.isStopped at hs
      rw [hw.signaled _ ht] at hs
      cases hs
    | nothing => exact hw
  | signalChild h =>
    cases handleInferiorSignal_handled h with
    | nothing => exact hw
    | hit ht hs | miss ht hs | other ht hs | exited ht hs =>
      rw [hw.signaled _ ht] at hs
      cases hs
    | signaled => exact ⟨hw.state, nofun⟩
  | output => exact ⟨hw.state, hw.signaled⟩
  | execute ht hs | trap ht hs | stop ht hs | exit ht hs =>
    rw [hw.signaled _ ht] at hs
    cases hs
  | kill ht => exact ⟨hw.state, by rintro _ ⟨⟩; rfl⟩

/-- **A run** keeps track of the process as long as nothing is killed. -/
theorem run_tracked {es : List Event} (r : Run (Step host) w es w') :
    StoreInv w.session →
      (Tracked w → Event.kill ∉ es → Tracked w') ∧ (Killed w → Killed w') ∧
        (Tracked w → Event.kill ∈ es → Killed w') := by
  induction r with
  | refl _ => exact fun _ => ⟨fun hw _ => hw, fun hw => hw, fun _ hk => absurd hk List.not_mem_nil⟩
  | @step _ _ _ e _ h _ ih =>
    intro hi
    obtain ⟨htracked, hkilled, hkill⟩ := ih (h.inv hi)
    refine ⟨fun hw hk => ?_, fun hw => hkilled (hw.step hi h), fun hw hk => ?_⟩
    · rw [List.mem_cons, not_or] at hk
      exact htracked (hw.step hi h (Ne.symm hk.1)) hk.2
    · by_cases he : e = .kill
      · subst he
        exact hkilled (hw.kill h)
      · exact hkill (hw.step hi h he) ((List.mem_cons.mp hk).resolve_left (Ne.symm he))

theorem Tracked.of_initial (h : Initial w) : Tracked w := by
  obtain ⟨programData, lineInfo, rfl⟩ := h
  exact ⟨fun _ => rfl, nofun⟩

/-- With nothing to wait for, a process that is there lives. -/
theorem live_of_tracee (hw : waitpid w = none) {tracee : Tracee} (ht : w.tracee = some tracee) :
    Live w := by
  refine ⟨tracee, ht, ?_⟩
  rw [waitpid, ht] at hw
  dsimp only at hw
  unfold Tracee.isStopped
  cases hstate : tracee.state with
  | running => exact .inl rfl
  | stopped signal reported => exact .inr rfl
  -- the end would be waited for
  | exited | signaled =>
    rw [hstate] at hw
    cases hw

theorem Tracked.dead_iff (h : Tracked w) (hw : waitpid w = none) :
    w.session.state = .dead ↔ ¬ Live w := by
  cases ht : w.tracee with
  | none =>
    refine iff_of_true (h.dead ht) ?_
    rintro ⟨tracee, ht', -⟩
    rw [ht] at ht'
    cases ht'
  | some tracee =>
    refine iff_of_false ?_ (not_not_intro (live_of_tracee hw ht))
    rw [(h.running tracee ht).1]
    nofun

theorem Killed.not_dead_iff (h : Killed w) : ¬ (w.session.state = .dead ↔ ¬ Live w) := by
  intro hiff
  have hdead : w.session.state = .dead := by
    rw [hiff]
    rintro ⟨tracee, ht, hlive⟩
    unfold Tracee.isStopped at hlive
    rw [h.signaled tracee ht] at hlive
    simp at hlive
  rw [h.state] at hdead
  cases hdead

/-- A run request does not return only where it spawns a process whose `execv` fails. -/
theorem onRunInferior_returns_iff (host : Host) (w : World) (child : Child) :
    (∃ w', onRunInferior host w child = .ok w') ↔
      (w.session.state = .dead → child ≠ .execFailed) := by
  unfold onRunInferior
  cases hstate : w.session.state with
  | dead =>
    cases child with
    | execFailed =>
      refine iff_of_false ?_ (by simp)
      rintro ⟨w', h⟩
      unfold spawnInferior at h
      rw [decide_eq_true hstate, cAssert_true] at h
      cases h
    | stopped process =>
      exact iff_of_true ⟨_, spawnInferior_stopped host hstate process⟩ (by simp)
  | running => exact iff_of_true ⟨_, rfl⟩ nofun
  | breakpoint => exact iff_of_true ⟨_, rfl⟩ nofun

end

/-- **The state of the session.** In every state of a run with nothing left to wait for, the state is
dead exactly where no process lives, if and only if no process of the run was killed; and a run
request returns unless it spawns a process whose `execv` fails. -/
theorem state_dead_iff (host : Host) {w₀ w : World} {es : List Event} (h₀ : Initial w₀)
    (r : Run (Step host) w₀ es w) (hw : waitpid w = none) :
    ((w.session.state = .dead ↔ ¬ Live w) ↔ Event.kill ∉ es) ∧
      ∀ child, (∃ w', onRunInferior host w child = .ok w') ↔
        (w.session.state = .dead → child ≠ .execFailed) := by
  refine ⟨?_, onRunInferior_returns_iff host w⟩
  obtain ⟨htracked, -, hkill⟩ := run_tracked r h₀.inv
  by_cases hk : Event.kill ∈ es
  · exact iff_of_false (hkill (.of_initial h₀) hk).not_dead_iff (not_not_intro hk)
  · exact iff_of_true ((htracked (.of_initial h₀) hk).dead_iff hw) hk

theorem state_dead_iff_sample :
    let w := sampleWorld [⟨0x1008, 0x90⟩] ⟨sampleMemory, { rip := 0x6000 }, .stopped sigtrap true⟩
    w.session.state = .dead ↔ ¬ Live w :=
  (state_dead_iff _ ⟨_, _, rfl⟩ sample_spawn rfl).1.mpr (by simp)

/-- A process is spawned, killed and waited for: the state stays running. -/
theorem not_state_dead_killed :
    ¬ ∀ (w₀ w : World) (es : List Event), Initial w₀ →
      Run (Step (Host.zeroed true)) w₀ es w → waitpid w = none →
      (w.session.state = .dead ↔ ¬ Live w) := by
  intro h
  have r := (sample_spawn.trans (.single (.kill rfl (.inr rfl)))).trans
    (.single (.signalChild (handleInferiorSignal_eq _)))
  have hk := (run_tracked r (Initial.inv ⟨_, _, rfl⟩)).2.2 (.of_initial ⟨_, _, rfl⟩) (by simp)
  exact hk.not_dead_iff (h _ _ _ ⟨_, _, rfl⟩ r rfl)

end Dabugger.Debug.Lifetime
