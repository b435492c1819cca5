import Dabugger.Main.Phases
import Dabugger.Tui.KeyBuffer

/-! # The keys of a run

The key buffer of a run of the loop is one that calls of its functions leave, and no message in the
queue asks for a motion to the start (`Keyed.step`). The assertion of `update_tui` thus holds wherever
the loop reaches it (`keyBuffer_safe`). -/

namespace Dabugger.Main.KeyBuffer

open Dabugger.Lib.Runs Dabugger.Lib.Log Dabugger.Debug.Events Dabugger.Tui.Types Dabugger.Tui.Input
  Dabugger.Tui.Update Dabugger.Tui.KeyBuffer Dabugger.Main.Queue Dabugger.Main.Loop
  Dabugger.Main.Delivery Dabugger.Main.Phases

/-- What holds of the keys in every state of a run. -/
structure Keyed (s : MainState) : Prop where
  input : ∃ calls, s.input = after calls
  pending : ∀ msg ∈ s.msgQueue.pending, NotToStart msg

section
variable {m : Machine} {around : Surroundings} {s s' t : MainState} {log : List Effect}

/-! ### Keys -/

theorem pollSignalChild_input {signalChild : Bool}
    (h : (pollSignalChild s signalChild).result = .ok s') : s'.input = s.input := by
  cases signalChild with
  | false => cases h; rfl
  | true =>
    obtain ⟨world, -, h, -⟩ := bind_ok h
    cases h
    rfl

theorem pollInferiorMaster_input {inferiorMaster : Option (List UInt8)}
    (h : (pollInferiorMaster s inferiorMaster).result = .ok s') : s'.input = s.input := by
  cases inferiorMaster with
  | none => cases h; rfl
  | some pending => cases h; rfl

/-- A key that is read. -/
theorem pollFds_input {ready : Ready} (h : (pollFds ready s).result = .ok s') :
    s'.input = s.input ∨ ∃ ch, s'.input = (onStdinInput s.model s.input ch).2 := by
  unfold pollFds at h
  rw [emit_bind] at h
  obtain ⟨s₁, h₁, h, -⟩ := bind_ok h
  obtain ⟨s₂, h₂, h₃, -⟩ := bind_ok h
  rw [pollInferiorMaster_input h₃, pollSignalChild_input h₂]
  cases hstdin : ready.stdin with
  | none =>
    rw [hstdin] at h₁
    cases h₁
    exact .inl rfl
  | some ch =>
    rw [hstdin] at h₁
    cases h₁
    exact .inr ⟨ch, rfl⟩

theorem commanded_input {cmd : TuiCmd} (h : Commanded m s cmd log s') : s'.input = s.input := by
  cases h with
  | select => rfl
  | other => rfl

/-- **One turn**: at most one key is read. -/
theorem turn_input (h : (turn m around s).result = .ok s') :
    s'.input = s.input ∨ ∃ ch, s'.input = (onStdinInput s.model s.input ch).2 := by
  cases hp : s.msgQueue.pending with
  | nil =>
    obtain ⟨msgQueue, -, hturn⟩ := turn_poll m around hp
    rw [hturn] at h
    obtain ⟨s₁, h₁, h, -⟩ := bind_ok h
    obtain ⟨log, -, ha⟩ := pollFds_arrived (m := m) h₁
    rw [handle_none ha.currentMsg] at h
    cases h
    have hinput := pollFds_input h₁
    exact hinput
  | cons msg msgs =>
    obtain ⟨msgQueue, -, hturn⟩ := turn_deliver m around hp
    rw [hturn] at h
    obtain ⟨model, cmd, -, h, -⟩ := handle_ok h
    have hinput := commanded_input (runCmd_commanded h)
    exact .inl hinput

/-! ### Messages -/

theorem notToStart_arrivals (h : ∃ calls, s.input = after calls) {ready : Ready} {msg : TuiMsg}
    (hmsg : msg ∈ arrivals ready s) : NotToStart msg := by
  obtain ⟨calls, hinput⟩ := h
  obtain ⟨window, hkeeps⟩ := after_keeps calls
  rw [← hinput] at hkeeps
  unfold arrivals at hmsg
  rw [List.mem_append, List.mem_append] at hmsg
  rcases hmsg with (hmsg | hmsg) | hmsg
  · rw [Option.mem_toList, Option.map_eq_some_iff] at hmsg
    obtain ⟨ch, -, rfl⟩ := hmsg
    exact hkeeps.onStdinInput_notToStart s.model ch
  · split at hmsg
    · rw [List.mem_singleton.mp hmsg]
      nofun
    · cases hmsg
  · rw [Option.mem_toList, Option.map_eq_some_iff] at hmsg
    obtain ⟨pending, -, rfl⟩ := hmsg
    nofun

/-- **One turn** enqueues nothing that asks for the start. -/
theorem notToStart_enqueued (h : ∃ calls, s.input = after calls) (ht : Turned m around s log t) :
    ∀ msg ∈ enqueued log, NotToStart msg := by
  intro msg hmsg
  obtain ⟨e, he, henq⟩ := List.mem_filterMap.mp (List.mem_filter.mp hmsg).1
  obtain rfl : e = .enqueueMsg msg := by
    cases e <;> cases henq
    rfl
  cases ht with
  | @poll msgQueue log _ hp hq ha =>
    rw [ha.log, List.cons_append, List.mem_cons, List.mem_append, List.mem_singleton] at he
    rcases he with he | he | he
    · cases he
    · obtain ⟨_, harrived, heq⟩ := List.mem_map.mp he
      cases heq
      exact notToStart_arrivals h harrived
    · cases he
  | @deliver _ _ _ model cmd log _ hp hq hu hc =>
    rw [List.cons_append, List.mem_cons, List.mem_append] at he
    rcases he with he | he | he
    · cases he
    · exact absurd (updateTui_calls _ _ _ _ _ _ he) not_false
    · cases hc with
      | select =>
        rw [List.mem_cons, List.mem_cons, List.mem_singleton] at he
        rcases he with heq | heq | heq
        · cases heq
          nofun
        · cases heq
          nofun
        · cases heq
          nofun
      | other _ hlog =>
        obtain ⟨_, _, heq⟩ := hlog _ he
        cases heq

/-! ### Runs -/

/-- **One step.** -/
theorem Keyed.step (h : Keyed s) (hs : Step m s log t) : Keyed t := by
  have haccounts := step_accounts hs
  cases hs with
  | debuggee _ _ => exact ⟨h.input, h.pending⟩
  | turn around _ hturn =>
    constructor
    · obtain ⟨calls, hinput⟩ := h.input
      rcases turn_input hturn with heq | ⟨ch, heq⟩
      · exact ⟨calls, heq.trans hinput⟩
      · rw [heq, hinput]
        exact exists_after_onStdinInput s.model calls ch
    · intro msg hmsg
      have hmem := List.mem_append_right (passed (turn m around s).log) hmsg
      rw [← haccounts, List.mem_append] at hmem
      rcases hmem with hmem | hmem
      · exact h.pending msg hmem
      · exact notToStart_enqueued h.input (turn_turned hturn) msg hmem

theorem Keyed.of_initial (h : Initial s) : Keyed s := by
  obtain ⟨world, picker, -, -, rfl⟩ := h
  refine ⟨⟨[], rfl⟩, ?_⟩
  rw [show (initialMsgQueue).pending = [] from rfl]
  nofun

end

/-- Whatever calls were made before: a key that is read is the last one in the key buffer and there are
zeros behind it, `on_motion_input` stays inside of the array, and the number that it finds is too small
for a relative amount to come out of the union. In a run of the loop the key buffer is one of these,
and whatever message comes next, the assertion of `update_tui` holds. -/
theorem keyBuffer_safe :
    (∀ calls : List Call, Safe (after calls)) ∧
    ∀ (m : Machine) (s₀ s : MainState) (logs : List (List Effect)),
      Initial s₀ → Run (Step m) s₀ logs s →
        (∃ calls, s.input = after calls) ∧
        ∀ msg ∈ s.msgQueue.pending, ∀ getmaxy,
          updateTui m.host s.world.session getmaxy msg s.model ≠ fail .assertFailed := by
  constructor
  · intro calls
    obtain ⟨window, h⟩ := after_keeps calls
    exact h.safe
  · intro m s₀ s logs h₀ r
    have h : Keyed s := r.invariant (fun _ _ _ hs h => h.step hs) (.of_initial h₀)
    exact ⟨h.input, fun msg hmsg _ => updateTui_ne_fail (h.pending msg hmsg)⟩

/-- `12j` is typed. -/
theorem keyBuffer_safe_sample : ∃ logs s, Run (Step sampleMachine) (sampleStart []) logs s ∧
    .bufferMotion ⟨.down, 12⟩ ∈ s.msgQueue.pending ∧
    ∀ getmaxy, updateTui sampleMachine.host s.world.session getmaxy (.bufferMotion ⟨.down, 12⟩)
      s.model ≠ fail .assertFailed := by
  have r : Run (Step sampleMachine) (sampleStart []) _ _ :=
    .step (.turn (key 49) nofun rfl)
      (.step (.turn (key 50) nofun rfl)
        (.single (.turn (key 106) nofun rfl)))
  have hsafe := (keyBuffer_safe.2 _ _ _ _ (sampleStart_initial []) r).2
  exact ⟨_, _, r, List.mem_singleton_self _, hsafe _ (List.mem_singleton_self _)⟩

end Dabugger.Main.KeyBuffer
