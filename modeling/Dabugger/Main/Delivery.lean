import Dabugger.Main.Loop

/-! # The messages are delivered

Every message goes from the queue to `update_tui` once and in order (`run_accounts`), and the oldest
ones are never kept waiting (`run_progress`). What a turn logs is known also if it does not return
(`turn_log_poll`, `mem_turn_deliver`). -/

namespace Dabugger.Main.Delivery

open Dabugger.Lib.Runs Dabugger.Lib.Log Dabugger.Tui.Types Dabugger.Tui.Update
  Dabugger.Main.Queue Dabugger.Main.Loop

/-! ### What a log says of messages -/

/-- The message that is enqueued. -/
def enqueued? : Effect → Option TuiMsg
  | .enqueueMsg msg => some msg
  | _ => none

/-- The message that is passed to `update_tui`. -/
def passed? : Effect → Option TuiMsg
  | .updateTui _ msg => some msg
  | _ => none

/-- The messages other than `MSG_NONE` that are enqueued. -/
def enqueued (log : List Effect) : List TuiMsg := (log.filterMap enqueued?).filter (· ≠ .none)

/-- The messages other than `MSG_NONE` that are passed to `update_tui`. -/
def passed (log : List Effect) : List TuiMsg := (log.filterMap passed?).filter (· ≠ .none)

/-- The number of turns. -/
def turns (log : List Effect) : ℕ := (log.filterMap passed?).length

section
variable {log log' : List Effect}

theorem enqueued_append (log log' : List Effect) :
    enqueued (log ++ log') = enqueued log ++ enqueued log' := by
  rw [enqueued, List.filterMap_append, List.filter_append]
  rfl

theorem passed_append (log log' : List Effect) :
    passed (log ++ log') = passed log ++ passed log' := by
  rw [passed, List.filterMap_append, List.filter_append]
  rfl

theorem turns_append (log log' : List Effect) : turns (log ++ log') = turns log + turns log' := by
  rw [turns, List.filterMap_append, List.length_append]
  rfl

/-- Calls are no messages. -/
theorem filterMap_of_calls (h : ∀ e ∈ log, e.IsCall) :
    log.filterMap enqueued? = [] ∧ log.filterMap passed? = [] := by
  constructor <;>
  · rw [List.filterMap_eq_nil_iff]
    intro e he
    have hcall := h e he
    cases e with
    | poll | enqueueMsg | updateTui => cases hcall
    | getInstructionsForLine | readAddress | setSourceBreakpoint => rfl

theorem enqueued_of_calls (h : ∀ e ∈ log, e.IsCall) : enqueued log = [] := by
  rw [enqueued, (filterMap_of_calls h).1, List.filter_nil]

theorem passed_of_calls (h : ∀ e ∈ log, e.IsCall) : log.filterMap passed? = [] :=
  (filterMap_of_calls h).2

theorem filterMap_map_enqueueMsg (msgs : List TuiMsg) :
    (msgs.map Effect.enqueueMsg).filterMap enqueued? = msgs ∧
      (msgs.map Effect.enqueueMsg).filterMap passed? = [] := by
  induction msgs with
  | nil => exact ⟨rfl, rfl⟩
  | cons msg msgs ih =>
    rw [List.map_cons, List.filterMap_cons, List.filterMap_cons]
    exact ⟨congrArg (msg :: ·) ih.1, ih.2⟩

end

/-! ### One turn -/

section
variable {m : Machine} {around : Surroundings} {s s' : MainState} {log : List Effect}

/-- What a command enqueues. -/
theorem commanded_enqueued {cmd : TuiCmd} (h : Commanded m s cmd log s') :
    s'.msgQueue.pending = s.msgQueue.pending ++ enqueued log ∧
      log.filterMap passed? = [] := by
  cases h with
  | select =>
    refine ⟨?_, rfl⟩
    rw [TuiMsgQueue.pending, contents_enqueueMsg, contents_enqueueMsg, contents_enqueueMsg,
      List.append_assoc, List.append_assoc, List.filter_append]
    rfl
  | other hcmd hlog r =>
    have hcalls : ∀ e ∈ log, e.IsCall := fun e he => by
      obtain ⟨_, _, rfl⟩ := hlog e he
      trivial
    rw [enqueued_of_calls hcalls, List.append_nil]
    exact ⟨rfl, passed_of_calls hcalls⟩

/-- **One turn** passes the first message, or none if there is none, and enqueues behind the
others. -/
theorem turned_accounts (h : Turned m around s log s') :
    log.filterMap passed? = [s.msgQueue.pending.headD .none] ∧
      s'.msgQueue.pending = s.msgQueue.pending.tail ++ enqueued log := by
  cases h with
  | @poll msgQueue log _ hp hq ha =>
    have hcontents : msgQueue.contents = [] := by
      rw [← List.length_eq_zero_iff, length_contents, hq]
    obtain ⟨henq, hpassed⟩ := filterMap_map_enqueueMsg
      (arrivals around.ready { s with msgQueue, currentMsg := .none })
    have hc : s'.msgQueue.contents = _ := ha.contents
    rw [hcontents, List.nil_append] at hc
    rw [← ha.log] at henq hpassed
    rw [hp, TuiMsgQueue.pending, hc, List.tail_nil, List.nil_append]
    constructor
    · change (log ++ [Effect.updateTui s.model .none]).filterMap passed? = [.none]
      rw [List.filterMap_append, hpassed]
      rfl
    · change _ = ((log ++ [Effect.updateTui s.model .none]).filterMap enqueued?).filter _
      rw [List.filterMap_append, henq]
      exact congrArg (List.filter _) (List.append_nil _).symm
  | @deliver msg msgs msgQueue model cmd log _ hp hq hu hc =>
    obtain ⟨hpending, hpassed⟩ := commanded_enqueued hc
    have hcalls := updateTui_calls m.host s.world.session around.getmaxy msg s.model
    have henq := enqueued_of_calls hcalls
    rw [hp, hpending, enqueued_append, List.filterMap_append, List.filterMap_cons, hpassed,
      passed_of_calls hcalls]
    refine ⟨rfl, ?_⟩
    change msgQueue.pending ++ enqueued log = msgs ++
      (enqueued (updateTui m.host s.world.session around.getmaxy msg s.model).log ++ enqueued log)
    rw [henq, List.nil_append, hq]

/-! ### Turns that need not return -/

/-- Neither a `poll` nor a message that is passed. -/
def Quiet : Effect → Prop
  | .poll _ _ | .updateTui _ _ => False
  | _ => True

theorem quiet_of_isCall {e : Effect} (h : e.IsCall) : Quiet e := by
  cases e with
  | poll | updateTui => cases h
  | _ => trivial

theorem passed?_of_quiet {e : Effect} (h : Quiet e) : passed? e = none := by
  cases e with
  | poll | updateTui => cases h
  | _ => rfl

theorem passed_of_quiet (h : ∀ e ∈ log, Quiet e) : log.filterMap passed? = [] :=
  List.filterMap_eq_nil_iff.mpr fun e he => passed?_of_quiet (h e he)

/-- What a command logs. -/
def OfCmd (cmd : TuiCmd) (e : Effect) : Prop :=
  (∃ msg, e = .enqueueMsg msg) ∨
    ∃ compUnitIndex lineNum, cmd = .toggleSourceBreakpoint compUnitIndex lineNum ∧
      e = .setSourceBreakpoint compUnitIndex lineNum

theorem enqueue_emits (s : MainState) (msg : TuiMsg) :
    Emits (fun e => ∃ msg, e = .enqueueMsg msg) (enqueue s msg) :=
  Emits.bind (.emit ⟨_, rfl⟩) fun _ _ => .pure _

theorem runCmd_log (cmd : TuiCmd) : Emits (OfCmd cmd) (runCmd m around s cmd) := by
  have henqueue : ∀ s msg, Emits (OfCmd cmd) (enqueue s msg) := fun s msg e he =>
    .inl (enqueue_emits s msg e he)
  cases cmd with
  | none => exact .pure _
  | selectCompUnit index =>
    exact .bind (.lift _) fun _ _ => .bind (henqueue _ _) fun _ _ =>
      .bind (.lift _) fun _ _ => .bind (henqueue _ _) fun _ _ => henqueue _ _
  | toggleBreakpoint | runDebuggee => exact .bind (.lift _) fun _ _ => .pure _
  | toggleSourceBreakpoint compUnitIndex lineNum =>
    refine .bind (fun e he => ?_) fun _ _ => .bind (.lift _) fun _ _ => .pure _
    exact .inr ⟨_, _, rfl, callSetSourceBreakpoint_log he⟩

/-- A message is passed, and its command is run. -/
theorem mem_handle_log {e : Effect} : e ∈ (handle m around s).log ↔
    e = .updateTui s.model s.currentMsg ∨
    e ∈ (updateTui m.host s.world.session around.getmaxy s.currentMsg s.model).log ∨
    ∃ model cmd, (updateTui m.host s.world.session around.getmaxy s.currentMsg s.model).result =
      .ok (model, cmd) ∧ e ∈ (runCmd m around { s with model } cmd).log := by
  rw [handle, emit_bind, List.mem_cons, mem_log_bind, Prod.exists]

/-- `poll` is called, and then the descriptors are served. -/
theorem pollFds_log (ready : Ready) :
    ∃ log, (pollFds ready s).log = .poll s.model s.msgQueue.count :: log ∧
      ∀ e ∈ log, ∃ msg, e = .enqueueMsg msg := by
  have hstdin : ∀ s stdin, Emits (fun e => ∃ msg, e = .enqueueMsg msg) (pollStdin s stdin) := by
    rintro s (_ | ch)
    · exact .pure _
    · exact enqueue_emits _ _
  have hsignal : ∀ s signalChild,
      Emits (fun e => ∃ msg, e = .enqueueMsg msg) (pollSignalChild s signalChild) := by
    rintro s (_ | _)
    · exact .pure _
    · exact .bind (.lift _) fun _ _ => enqueue_emits _ _
  have hmaster : ∀ s inferiorMaster,
      Emits (fun e => ∃ msg, e = .enqueueMsg msg) (pollInferiorMaster s inferiorMaster) := by
    rintro s (_ | pending)
    · exact .pure _
    · exact enqueue_emits _ _
  rw [pollFds, emit_bind]
  exact ⟨_, rfl, Emits.bind (hstdin _ _) fun _ _ => Emits.bind (hsignal _ _) fun _ _ =>
    hmaster _ _⟩

/-- **A turn without a message**, whether it returns or not. -/
theorem turn_log_poll (m : Machine) (around : Surroundings) (hp : s.msgQueue.pending = []) :
    ∃ log, (turn m around s).log = .poll s.model 0 :: log ∧
      ∀ e ∈ log, (∃ model, e = .updateTui model .none) ∨ ∃ msg, e = .enqueueMsg msg := by
  obtain ⟨msgQueue, hcount, hturn⟩ := turn_poll m around hp
  obtain ⟨log, hlog, hall⟩ := pollFds_log (s := { s with msgQueue, currentMsg := .none })
    around.ready
  rw [hturn]
  cases hr : (pollFds around.ready { s with msgQueue, currentMsg := .none }).result with
  | error f =>
    rw [bind_of_error hr, hlog, hcount]
    exact ⟨log, rfl, fun e he => .inr (hall e he)⟩
  | ok s₁ =>
    obtain ⟨log₁, -, ha⟩ := pollFds_arrived (m := m) hr
    rw [bind_of_ok hr, hlog, hcount, handle_none ha.currentMsg]
    refine ⟨log ++ [.updateTui s₁.model .none], rfl, fun e he => ?_⟩
    rcases List.mem_append.mp he with he | he
    · exact .inr (hall e he)
    · exact .inl ⟨_, List.mem_singleton.mp he⟩

/-- **A turn with a message**, whether it returns or not. -/
theorem mem_turn_deliver (m : Machine) (around : Surroundings) {msg : TuiMsg} {msgs : List TuiMsg}
    (hp : s.msgQueue.pending = msg :: msgs) : ∃ msgQueue, ∀ e, e ∈ (turn m around s).log ↔
      e = .updateTui s.model msg ∨
      e ∈ (updateTui m.host s.world.session around.getmaxy msg s.model).log ∨
      ∃ model cmd, (updateTui m.host s.world.session around.getmaxy msg s.model).result =
        .ok (model, cmd) ∧
          e ∈ (runCmd m around { s with msgQueue, currentMsg := msg, model } cmd).log := by
  obtain ⟨msgQueue, -, hturn⟩ := turn_deliver m around hp
  refine ⟨msgQueue, fun e => ?_⟩
  rw [hturn, mem_handle_log]

/-- In such a turn the message is passed first, and then no other. -/
theorem turn_log_deliver (m : Machine) (around : Surroundings) {msg : TuiMsg} {msgs : List TuiMsg}
    (hp : s.msgQueue.pending = msg :: msgs) :
    ∃ log, (turn m around s).log = .updateTui s.model msg :: log ∧ ∀ e ∈ log, Quiet e := by
  obtain ⟨msgQueue, -, hturn⟩ := turn_deliver m around hp
  rw [hturn, handle, emit_bind]
  refine ⟨_, rfl, Emits.bind (fun _ he => quiet_of_isCall (updateTui_calls _ _ _ _ _ _ he))
    fun _ _ e he => ?_⟩
  rcases runCmd_log _ e he with ⟨msg, rfl⟩ | ⟨_, _, -, rfl⟩ <;> trivial

/-- **`poll`** is called only in a turn without a message, and with an empty queue. -/
theorem poll_of_mem {model : TuiModel} {queued : ℕ}
    (h : .poll model queued ∈ (turn m around s).log) :
    s.msgQueue.pending = [] ∧ model = s.model ∧ queued = 0 := by
  cases hp : s.msgQueue.pending with
  | nil =>
    obtain ⟨log, hlog, hall⟩ := turn_log_poll m around hp
    rw [hlog] at h
    rcases List.mem_cons.mp h with he | he
    · cases he
      exact ⟨rfl, rfl, rfl⟩
    · rcases hall _ he with ⟨_, he⟩ | ⟨_, he⟩ <;> cases he
  | cons msg msgs =>
    obtain ⟨log, hlog, hall⟩ := turn_log_deliver m around hp
    rw [hlog] at h
    rcases List.mem_cons.mp h with he | he
    · cases he
    · cases hall _ he

theorem headD_pending {msg : TuiMsg} {msgs : List TuiMsg} (hp : s.msgQueue.pending = msg :: msgs) :
    [msg].filter (· ≠ .none) = [msg] := by
  have hmem : msg ∈ s.msgQueue.pending := by rw [hp]; exact List.mem_cons_self
  exact List.filter_cons_of_pos (List.mem_filter.mp hmem).2

/-- **The first message is passed** in the next turn. -/
theorem passed_turn (m : Machine) (around : Surroundings) (s : MainState) :
    passed (turn m around s).log = s.msgQueue.pending.take 1 := by
  cases hp : s.msgQueue.pending with
  | nil =>
    obtain ⟨log, hlog, hall⟩ := turn_log_poll m around hp
    rw [hlog, passed, List.take_nil, List.filter_eq_nil_iff]
    intro msg hmsg
    obtain ⟨e, he, hpassed⟩ := List.mem_filterMap.mp hmsg
    rcases List.mem_cons.mp he with rfl | he
    · cases hpassed
    · rcases hall e he with ⟨model, rfl⟩ | ⟨_, rfl⟩
      · cases hpassed
        decide
      · cases hpassed
  | cons msg msgs =>
    obtain ⟨log, hlog, hall⟩ := turn_log_deliver m around hp
    rw [hlog, passed, List.filterMap_cons]
    change (msg :: log.filterMap passed?).filter _ = [msg]
    rw [passed_of_quiet hall]
    exact headD_pending hp

end

/-! ### Runs -/

section
variable {m : Machine} {s t : MainState} {log : List Effect} {logs : List (List Effect)}

/-- A turn passes the first message. -/
theorem turned_passed {around : Surroundings} (h : Turned m around s log t) :
    passed log = s.msgQueue.pending.take 1 := by
  rw [passed, (turned_accounts h).1]
  cases hp : s.msgQueue.pending with
  | nil => rfl
  | cons msg msgs => exact headD_pending hp

theorem turned_turns {around : Surroundings} (h : Turned m around s log t) :
    turns log = 1 := by
  rw [turns, (turned_accounts h).1]
  rfl

/-- **One step**: what was in the queue or came in has been passed or is still there, in order. -/
theorem step_accounts (h : Step m s log t) :
    s.msgQueue.pending ++ enqueued log = passed log ++ t.msgQueue.pending := by
  cases h with
  | turn _ _ h =>
    have ht := turn_turned h
    rw [turned_passed ht, (turned_accounts ht).2, ← List.append_assoc, ← List.drop_one,
      List.take_append_drop]
  | debuggee => exact List.append_nil _

/-- **A run**: every message is passed once and in order, or is still in the queue. -/
theorem run_accounts (r : Run (Step m) s logs t) :
    s.msgQueue.pending ++ enqueued logs.flatten =
      passed logs.flatten ++ t.msgQueue.pending := by
  induction r with
  | refl s => exact List.append_nil _
  | step h _ ih =>
    rw [List.flatten_cons, enqueued_append, passed_append, ← List.append_assoc, step_accounts h,
      List.append_assoc, ih, List.append_assoc]

/-- **The messages do not wait**: after so many turns, so many of them have been passed. -/
theorem run_progress (r : Run (Step m) s logs t) :
    s.msgQueue.pending.take (turns logs.flatten) <+: passed logs.flatten := by
  induction r with
  | refl s => exact List.nil_prefix
  | @step s s' t log logs h _ ih =>
    rw [List.flatten_cons, turns_append, passed_append]
    cases h with
    | turn _ _ h =>
      have ht := turn_turned h
      rw [turned_turns ht, turned_passed ht]
      rw [(turned_accounts ht).2] at ih
      cases hp : s.msgQueue.pending with
      | nil =>
        rw [List.take_nil]
        exact List.nil_prefix
      | cons msg msgs =>
        rw [hp, List.tail_cons] at ih
        rw [Nat.add_comm, List.take_succ_cons, List.take_one, List.head?_cons]
        refine (List.prefix_cons_inj msg).mpr (.trans ?_ ih)
        exact (List.prefix_append _ _).take _
    | debuggee => exact (Nat.zero_add _).symm ▸ ih

end

end Dabugger.Main.Delivery
