import Dabugger.Main.Phases

/-! # The descriptors are served

While messages wait, `main` does not call `poll`. Of these there are few: a batch of descriptors brings
at most two that are not `MSG_NONE`, and `MSG_CONFIRM` three more. `work` counts the turns that they
take: it is at most five, and a turn without `poll` leaves one less. Hence `poll` is called at least
once in six turns (`run_polls`). -/

namespace Dabugger.Main.Polls

open Dabugger.Lib.Runs Dabugger.Base Dabugger.Debug.Session Dabugger.Debug.Buffers
  Dabugger.Tui.Types Dabugger.Tui.Input Dabugger.Tui.Update Dabugger.Tui.Frame Dabugger.Main.Queue
  Dabugger.Main.Loop Dabugger.Main.Delivery Dabugger.Main.Phases

/-- How many turns the messages that wait take. -/
def work (s : MainState) : ℕ :=
  s.msgQueue.pending.length + 3 * s.msgQueue.pending.count .confirm

section
variable {m : Machine} {around : Surroundings} {s s' t : MainState} {log : List Effect}

/-! ### One turn -/

/-- What a batch of descriptors brings. -/
theorem arrivals_work (ready : Ready) (s : MainState) :
    ((arrivals ready s).filter (· ≠ .none)).length +
      3 * ((arrivals ready s).filter (· ≠ .none)).count .confirm ≤ 5 := by
  obtain ⟨stdin, signalChild, inferiorMaster⟩ := ready
  have hkey : ∀ stdin : Option ℤ,
      (((stdin.map fun ch => (onStdinInput s.model s.input ch).1).toList).filter
        (· ≠ .none)).length ≤ 1 := by
    rintro (_ | ch)
    · exact Nat.zero_le 1
    · exact (List.length_filter_le _ _).trans le_rfl
  have hsignal : (if signalChild then [TuiMsg.none] else []).filter (· ≠ .none) = [] := by
    cases signalChild <;> rfl
  have houtput : ∀ inferiorMaster : Option (List UInt8),
      (((inferiorMaster.map fun _ => TuiMsg.outputUpdate).toList).filter (· ≠ .none)).length ≤ 1 ∧
      (((inferiorMaster.map fun _ => TuiMsg.outputUpdate).toList).filter
        (· ≠ .none)).count .confirm = 0 := by
    rintro (_ | pending)
    · exact ⟨Nat.zero_le 1, rfl⟩
    · exact ⟨le_refl 1, rfl⟩
  unfold arrivals
  rw [List.filter_append, List.filter_append, hsignal, List.append_nil, List.length_append,
    List.count_append, (houtput inferiorMaster).2]
  have hlength := hkey stdin
  have hcount := (List.count_le_length (a := TuiMsg.confirm)).trans hlength
  have hlength' := (houtput inferiorMaster).1
  dsimp only at hlength hcount hlength' ⊢
  omega

/-- A unit is selected by `MSG_CONFIRM` only. -/
theorem msg_of_selectCompUnit {host : Host} {session : DebugSession}
    {getmaxy : TuiWindow → UInt32} {msg : TuiMsg} {model model' : TuiModel} {index : UInt64}
    (h : (updateTui host session getmaxy msg model).result =
      .ok (model', .selectCompUnit index)) : msg = .confirm := by
  cases updateTui_updated h with
  | same hcmd => exact absurd rfl (hcmd index)
  | confirm => rfl

/-- **A turn without a message** leaves five turns at most to do. -/
theorem poll_work (hp : s.msgQueue.pending = []) (h : Turned m around s log t) : work t ≤ 5 := by
  cases h with
  | @poll msgQueue log _ _ hq ha =>
    have hcontents : msgQueue.contents = [] := by
      rw [← List.length_eq_zero_iff, length_contents, hq]
    have ht : t.msgQueue.contents = _ := ha.contents
    rw [hcontents, List.nil_append] at ht
    rw [work, TuiMsgQueue.pending, ht]
    exact arrivals_work _ _
  | deliver hp' => rw [hp] at hp'; cases hp'

/-- What a command enqueues is paid for by its message. -/
theorem commanded_work {msg : TuiMsg} {cmd : TuiCmd} {model : TuiModel}
    (hu : (updateTui m.host s.world.session around.getmaxy msg s.model).result =
      .ok (model, cmd)) (hc : Commanded m s' cmd log t) :
    (enqueued log).length + 3 * (enqueued log).count .confirm ≤ if msg = .confirm then 3 else 0 := by
  cases hc with
  | select =>
    rw [if_pos (msg_of_selectCompUnit hu)]
    exact le_refl 3
  | other hcmd hlog =>
    have hnone : enqueued log = [] := enqueued_of_calls fun e he => by
      obtain ⟨_, _, rfl⟩ := hlog e he
      trivial
    rw [hnone]
    exact Nat.zero_le _

/-- **A turn with a message** leaves one turn less to do. -/
theorem deliver_work (hp : s.msgQueue.pending ≠ []) (h : Turned m around s log t) :
    work t + 1 ≤ work s := by
  cases h with
  | poll hp' => exact absurd hp' hp
  | @deliver msg msgs msgQueue model cmd log _ hp' hq hu hc =>
    have hpaid := commanded_work hu hc
    have hpending : t.msgQueue.pending = msgQueue.pending ++ enqueued log :=
      (commanded_enqueued hc).1
    rw [hq] at hpending
    rw [work, work, hp', hpending, List.length_append, List.count_append, List.length_cons,
      List.count_cons]
    by_cases hmsg : msg = .confirm
    · rw [if_pos hmsg] at hpaid
      rw [if_pos (beq_iff_eq.mpr hmsg)]
      omega
    · rw [if_neg hmsg] at hpaid
      rw [if_neg (mt beq_iff_eq.mp hmsg)]
      omega

/-! ### Runs -/

/-- No `poll` is called. -/
def Unpolled (log : List Effect) : Prop := ∀ model, .poll model 0 ∉ log

/-- **One step** leaves five turns at most to do before the next `poll`. -/
theorem step_work (h : Step m s log t) (hs : work s ≤ 5) : work t ≤ 5 := by
  cases h with
  | turn _ _ hr =>
    by_cases hp : s.msgQueue.pending = []
    · exact poll_work hp (turn_turned hr)
    · have := deliver_work hp (turn_turned hr)
      omega
  | debuggee => exact hs

/-- A step in which `poll` is not called. -/
theorem step_unpolled (h : Step m s log t) (hlog : Unpolled log) :
    turns log + work t ≤ work s := by
  cases h with
  | turn around _ hr =>
    have ht := turn_turned hr
    rw [turned_turns ht, Nat.add_comm]
    refine deliver_work (fun hp => ?_) ht
    obtain ⟨_, hpoll, -⟩ := turn_log_poll m around hp
    rw [hpoll] at hlog
    exact hlog _ List.mem_cons_self
  | debuggee => exact (Nat.zero_add _).le

/-- **A run** in which `poll` is not called. -/
theorem run_unpolled {logs : List (List Effect)} (r : Run (Step m) s logs t)
    (hlogs : Unpolled logs.flatten) : turns logs.flatten + work t ≤ work s := by
  induction r with
  | refl s => exact (Nat.zero_add _).le
  | @step s s' t log logs h _ ih =>
    rw [List.flatten_cons] at hlogs
    have hstep := step_unpolled h fun model hmem => hlogs model (List.mem_append_left _ hmem)
    have hrest := ih fun model hmem => hlogs model (List.mem_append_right _ hmem)
    rw [List.flatten_cons, turns_append]
    omega

end

/-- **`poll` is called.** In every run of the loop, with any order and batches of events: among any
six turns there is one that calls `poll`, with an empty queue, so that neither the keys nor the
debuggee are kept waiting by messages. -/
theorem run_polls (m : Machine) {s₀ s t : MainState} {logs logs' : List (List Effect)}
    (h₀ : Initial s₀) (r : Run (Step m) s₀ logs s) (r' : Run (Step m) s logs' t)
    (hturns : 6 ≤ turns logs'.flatten) : ∃ model, .poll model 0 ∈ logs'.flatten := by
  have hwork : work s ≤ 5 := by
    refine r.invariant (fun _ _ _ hs h => step_work hs h) ?_
    obtain ⟨world, picker, -, -, rfl⟩ := h₀
    exact Nat.zero_le 5
  by_contra hnone
  have hrun := run_unpolled r' fun model hmem => hnone ⟨model, hmem⟩
  omega

/-- After the unit of `sampleSession` is confirmed, five turns deliver messages; the sixth polls. -/
theorem run_polls_sample : ∃ logs s logs' t, Run (Step sampleMachine) (sampleStart []) logs s ∧
    .confirm ∈ passed logs.flatten ∧ Run (Step sampleMachine) s logs' t ∧
      turns logs'.flatten = 6 ∧ ∃ model, .poll model 0 ∈ logs'.flatten := by
  have hruns : ∃ logs s logs' t, Run (Step sampleMachine) (sampleStart []) logs s ∧
      .confirm ∈ passed logs.flatten ∧ Run (Step sampleMachine) s logs' t ∧
        turns logs'.flatten = 6 := by
    exact ⟨_, _, _, _, .step (.turn (key 10) nofun rfl)
        (.single (.turn {} nofun rfl)), List.mem_cons_self,
      .step (.turn {} nofun rfl) (.step (.turn {} nofun rfl)
        (.step (.turn {} nofun rfl) (.step (.turn {} nofun rfl)
          (.step (.turn {} nofun rfl) (.single (.turn {} nofun rfl)))))), rfl⟩
  obtain ⟨logs, s, logs', t, r, hconfirm, r', hturns⟩ := hruns
  exact ⟨logs, s, logs', t, r, hconfirm, r', hturns,
    run_polls sampleMachine (sampleStart_initial []) r r' hturns.ge⟩

end Dabugger.Main.Polls
