import Dabugger.Debug.Events
import Dabugger.Main.Queue
import Dabugger.Tui.Input
import Dabugger.Tui.Update

/-! # The loop of `main`

`turn` is one iteration: the next message is taken from the queue, or `poll` is called and all ready
descriptors are served; then a message goes to `update_tui`, and its command is run. `Step` lets the
debuggee run between the turns. The screen is not part of it.

A run of the loop is a run of the debugger's events (`Step.events`), and every message that is passed
to `update_tui` comes out of the queue (`turn_poll`, `turn_deliver`). -/

namespace Dabugger.Main.Loop

open Dabugger.Lib.Runs Dabugger.Lib.Log Dabugger.Base Dabugger.Dwarf.Types Dabugger.Debug.Session
  Dabugger.Debug.Inferior Dabugger.Debug.Events Dabugger.Debug.Buffers Dabugger.Tui.Types
  Dabugger.Tui.Input Dabugger.Tui.Update Dabugger.Main.Queue

/-! ### State -/

/-- What is there besides the program. -/
structure Machine where
  host : Host
  zydis : Zydis
  files : Files

/-- The queue at the start. -/
def initialMsgQueue : TuiMsgQueue := enqueueMsg {} .none

/-- The variables of `main`, and the keys of `on_stdin_input`. -/
structure MainState where
  world : World
  model : TuiModel
  input : InputBuffer := {}
  msgQueue : TuiMsgQueue := initialMsgQueue
  currentMsg : TuiMsg := .none

/-- The state at the start of the loop. -/
def Initial (s : MainState) : Prop :=
  ∃ world picker, Debug.Events.Initial world ∧ getFilePickerBuffer world.session = .ok picker ∧
    s = { world, model := initialModel picker }

/-- The descriptors that `poll` reports, with what there is to read. -/
structure Ready where
  stdin : Option ℤ := none
  signalChild : Bool := false
  inferiorMaster : Option (List UInt8) := none

/-- What one turn of the loop meets. -/
structure Surroundings where
  ready : Ready := {}
  child : Child := .execFailed
  getmaxy : TuiWindow → UInt32 := fun _ => 0

/-! ### One turn -/

/-- `enqueue_msg(&msg_queue, msg)`. -/
def enqueue (s : MainState) (msg : TuiMsg) : Effectful MainState := do
  emit (.enqueueMsg msg)
  return { s with msgQueue := enqueueMsg s.msgQueue msg }

/-- `POLL_FD_STDIN`: the message of `on_stdin_input`. -/
def pollStdin (s : MainState) : Option ℤ → Effectful MainState
  | none => return s
  | some ch =>
    let (msg, input) := onStdinInput s.model s.input ch
    enqueue { s with input } msg

/-- `POLL_FD_SIGNAL_CHILD`: the message of `on_signal_child`. -/
def pollSignalChild (s : MainState) : Bool → Effectful MainState
  | false => return s
  | true => do
    let world ← handleInferiorSignal s.world
    enqueue { s with world } .none

/-- `POLL_FD_INFERIOR_MASTER`: the message of `on_inferior_pty_update`. -/
def pollInferiorMaster (s : MainState) : Option (List UInt8) → Effectful MainState
  | none => return s
  | some pending =>
    let session := readInferiorOutput s.world.session pending
    enqueue { s with world := { s.world with session } } .outputUpdate

/-- `poll`, and the loop over its descriptors. -/
def pollFds (ready : Ready) (s : MainState) : Effectful MainState := do
  emit (.poll s.model s.msgQueue.count)
  let s ← pollStdin s ready.stdin
  let s ← pollSignalChild s ready.signalChild
  pollInferiorMaster s ready.inferiorMaster

/-- The call of `set_source_breakpoint`, in `toggle_source_breakpoint` where the line is not
listed. -/
def callSetSourceBreakpoint (session : DebugSession) (compUnitIndex lineNum : UInt64) :
    Effectful Unit :=
  if session.srcBreakpoints.any fun srcBreakpoint =>
      srcBreakpoint.compUnitIndex = compUnitIndex.toNat ∧
        srcBreakpoint.lineNum = lineNum.toNat then
    return ()
  else emit (.setSourceBreakpoint compUnitIndex lineNum)

/-- The `switch` over the command. -/
def runCmd (m : Machine) (around : Surroundings) (s : MainState) : TuiCmd → Effectful MainState
  | .selectCompUnit index => do
    let newSourceBuffer ← getSourceBuffer m.files s.world.session index.toNat
    let s ← enqueue s (.setSourceBuffer newSourceBuffer)
    let newAssemblyBuffer ← getAssemblyBuffer m.zydis s.world.session index.toNat
    let s ← enqueue s (.setAssemblyBuffer newAssemblyBuffer)
    enqueue s (.showPicker false)
  | .toggleBreakpoint breakpointAddress => do
    let session ← toggleBreakpoint m.host s.world.session breakpointAddress
    return { s with world := { s.world with session } }
  | .toggleSourceBreakpoint compUnitIndex lineNum => do
    callSetSourceBreakpoint s.world.session compUnitIndex lineNum
    let session ← toggleSourceBreakpoint m.host s.world.session compUnitIndex.toNat lineNum.toNat
    return { s with world := { s.world with session } }
  | .runDebuggee => do
    let world ← onRunInferior m.host s.world around.child
    return { s with world }
  | .none => return s

/-- The current message is passed to `update_tui`, and its command is run. -/
def handle (m : Machine) (around : Surroundings) (s : MainState) : Effectful MainState := do
  emit (.updateTui s.model s.currentMsg)
  let (model, cmd) ← updateTui m.host s.world.session around.getmaxy s.currentMsg s.model
  runCmd m around { s with model } cmd

/-- `poll` is called if there is no message. -/
def pollIfIdle (ready : Ready) (s : MainState) : Effectful MainState :=
  if s.currentMsg = .none then pollFds ready s else return s

/-- The body of the loop. -/
def turn (m : Machine) (around : Surroundings) (s : MainState) : Effectful MainState := do
  let (currentMsg, msgQueue) ← nextMsg (s.msgQueue.count + 1) s.msgQueue
  let s ← pollIfIdle around.ready { s with currentMsg, msgQueue }
  handle m around s

/-! ### Runs -/

/-- What the debuggee does. -/
def OfDebuggee : Event → Prop
  | .execute _ _ | .trap | .stop _ | .exit | .kill => True
  | _ => False

/-- A turn of the loop, or a step of the debuggee. -/
inductive Step (m : Machine) (s : MainState) : List Effect → MainState → Prop
  | turn (around : Surroundings) {s' : MainState} (hgo : s.currentMsg ≠ .quit)
      (h : (Loop.turn m around s).result = .ok s') :
      Step m s (Loop.turn m around s).log s'
  | debuggee {e : Event} {world : World} (he : OfDebuggee e)
      (h : Debug.Events.Step m.host s.world e world) : Step m s [] { s with world }

/-! ### What the descriptors bring -/

/-- The messages that are put into the queue. -/
def arrivals (ready : Ready) (s : MainState) : List TuiMsg :=
  (ready.stdin.map fun ch => (onStdinInput s.model s.input ch).1).toList ++
    (if ready.signalChild then [.none] else []) ++
    (ready.inferiorMaster.map fun _ => TuiMsg.outputUpdate).toList

/-- Messages have come in, and nothing is done about them yet. -/
structure Arrived (m : Machine) (s : MainState) (msgs : List TuiMsg) (log : List Effect)
    (s' : MainState) : Prop where
  contents : s'.msgQueue.contents = s.msgQueue.contents ++ msgs
  log : log = msgs.map .enqueueMsg
  model : s'.model = s.model
  currentMsg : s'.currentMsg = s.currentMsg
  world : ∃ es, Run (Debug.Events.Step m.host) s.world es s'.world

section
variable {m : Machine} {s s' s'' : MainState} {msgs msgs' : List TuiMsg} {log log' : List Effect}

theorem Arrived.refl (m : Machine) (s : MainState) : Arrived m s [] [] s :=
  ⟨(List.append_nil _).symm, rfl, rfl, rfl, [], .refl _⟩

theorem Arrived.trans (h : Arrived m s msgs log s') (h' : Arrived m s' msgs' log' s'') :
    Arrived m s (msgs ++ msgs') (log ++ log') s'' where
  contents := by rw [h'.contents, h.contents, List.append_assoc]
  log := by rw [h.log, h'.log, List.map_append]
  model := h'.model.trans h.model
  currentMsg := h'.currentMsg.trans h.currentMsg
  world := by
    obtain ⟨es, r⟩ := h.world
    obtain ⟨es', r'⟩ := h'.world
    exact ⟨_, r.trans r'⟩

theorem pollStdin_arrived {stdin : Option ℤ} (h : (pollStdin s stdin).result = .ok s') :
    Arrived m s (stdin.map fun ch => (onStdinInput s.model s.input ch).1).toList
      (pollStdin s stdin).log s' := by
  cases stdin with
  | none => cases h; exact .refl m s
  | some ch =>
    cases h
    exact ⟨contents_enqueueMsg _ _, rfl, rfl, rfl, [], .refl _⟩

theorem pollSignalChild_arrived {signalChild : Bool}
    (h : (pollSignalChild s signalChild).result = .ok s') :
    Arrived m s (if signalChild then [.none] else []) (pollSignalChild s signalChild).log s' := by
  cases signalChild with
  | false => cases h; exact .refl m s
  | true =>
    unfold pollSignalChild at h ⊢
    obtain ⟨world, hworld, h, hlog⟩ := bind_ok h
    cases h
    rw [hlog]
    exact ⟨contents_enqueueMsg _ _, rfl, rfl, rfl, _, .single (.signalChild hworld)⟩

theorem pollInferiorMaster_arrived {inferiorMaster : Option (List UInt8)}
    (h : (pollInferiorMaster s inferiorMaster).result = .ok s') :
    Arrived m s (inferiorMaster.map fun _ => TuiMsg.outputUpdate).toList
      (pollInferiorMaster s inferiorMaster).log s' := by
  cases inferiorMaster with
  | none => cases h; exact .refl m s
  | some pending =>
    cases h
    exact ⟨contents_enqueueMsg _ _, rfl, rfl, rfl, _, .single (.output pending)⟩

/-- **`poll`**, and what it brings. -/
theorem pollFds_arrived {ready : Ready} (h : (pollFds ready s).result = .ok s') :
    ∃ log, (pollFds ready s).log = .poll s.model s.msgQueue.count :: log ∧
      Arrived m s (arrivals ready s) log s' := by
  unfold pollFds at h ⊢
  rw [emit_bind] at h ⊢
  obtain ⟨s₁, h₁, h, hlog⟩ := bind_ok h
  obtain ⟨s₂, h₂, h₃, hlog'⟩ := bind_ok h
  refine ⟨_, rfl, ?_⟩
  rw [hlog, hlog', ← List.append_assoc]
  exact ((pollStdin_arrived h₁).trans (pollSignalChild_arrived h₂)).trans
    (pollInferiorMaster_arrived h₃)

end

/-! ### What a turn does -/

/-- A command has been run. -/
inductive Commanded (m : Machine) (s : MainState) : TuiCmd → List Effect → MainState → Prop
  | select {index : UInt64} {source : Option LinesBuffer} {assembly : Option AssemblyBuffer}
      (hsource : getSourceBuffer m.files s.world.session index.toNat = .ok source)
      (hassembly : getAssemblyBuffer m.zydis s.world.session index.toNat = .ok assembly) :
      Commanded m s (.selectCompUnit index)
        [.enqueueMsg (.setSourceBuffer source), .enqueueMsg (.setAssemblyBuffer assembly),
          .enqueueMsg (.showPicker false)]
        { s with msgQueue := enqueueMsg (enqueueMsg (enqueueMsg s.msgQueue
          (.setSourceBuffer source)) (.setAssemblyBuffer assembly)) (.showPicker false) }
  | other {cmd : TuiCmd} {log : List Effect} {es : List Event} {world : World}
      (hcmd : ∀ index, cmd ≠ .selectCompUnit index)
      (hlog : ∀ e ∈ log, ∃ compUnitIndex lineNum, e = .setSourceBreakpoint compUnitIndex lineNum)
      (r : Run (Debug.Events.Step m.host) s.world es world) :
      Commanded m s cmd log { s with world }

section
variable {m : Machine} {around : Surroundings} {s s' : MainState}

theorem callSetSourceBreakpoint_log {session : DebugSession} {compUnitIndex lineNum : UInt64}
    {e : Effect} (h : e ∈ (callSetSourceBreakpoint session compUnitIndex lineNum).log) :
    e = .setSourceBreakpoint compUnitIndex lineNum := by
  unfold callSetSourceBreakpoint at h
  split at h
  · cases h
  · exact List.mem_singleton.mp h

/-- A command that has no effect but on the world. -/
theorem Commanded.world {cmd : TuiCmd} {es : List Event} {world : World}
    (hcmd : ∀ index, cmd ≠ .selectCompUnit index)
    (r : Run (Debug.Events.Step m.host) s.world es world) :
    Commanded m s cmd [] { s with world } :=
  .other hcmd (fun _ he => absurd he List.not_mem_nil) r

/-- **A command.** -/
theorem runCmd_commanded {cmd : TuiCmd} (h : (runCmd m around s cmd).result = .ok s') :
    Commanded m s cmd (runCmd m around s cmd).log s' := by
  unfold runCmd at h ⊢
  cases cmd with
  | none =>
    cases h
    exact .world (by nofun) (.refl _)
  | selectCompUnit index =>
    dsimp only at h ⊢
    obtain ⟨source, hsource, h, hlog⟩ := bind_ok h
    obtain ⟨s₁, h₁, h, hlog₁⟩ := bind_ok h
    obtain ⟨assembly, hassembly, h, hlog₂⟩ := bind_ok h
    obtain ⟨s₂, h₂, h, hlog₃⟩ := bind_ok h
    rw [hlog, hlog₁, hlog₂, hlog₃]
    cases h₁
    cases h₂
    cases h
    exact .select hsource hassembly
  | toggleBreakpoint address =>
    dsimp only at h ⊢
    obtain ⟨session, hsession, h, hlog⟩ := bind_ok h
    rw [hlog, log_lift, log_pure, List.append_nil]
    cases h
    exact .world (by nofun) (.single (.toggleBreakpoint hsession))
  | toggleSourceBreakpoint compUnitIndex lineNum =>
    dsimp only at h ⊢
    obtain ⟨_, -, h, hlog⟩ := bind_ok h
    obtain ⟨session, hsession, h, hlog'⟩ := bind_ok h
    rw [hlog, hlog', log_lift, log_pure, List.append_nil, List.append_nil]
    cases h
    exact .other (by nofun) (fun e he => ⟨_, _, callSetSourceBreakpoint_log he⟩)
      (.single (.toggleSourceBreakpoint hsession))
  | runDebuggee =>
    dsimp only at h ⊢
    obtain ⟨world, hworld, h, hlog⟩ := bind_ok h
    rw [hlog, log_lift, log_pure, List.append_nil]
    cases h
    exact .world (by nofun) (.single (.runInferior hworld))

/-- A turn has been made. -/
inductive Turned (m : Machine) (around : Surroundings) (s : MainState) :
    List Effect → MainState → Prop
  | poll {msgQueue : TuiMsgQueue} {log : List Effect} {s' : MainState}
      (hp : s.msgQueue.pending = []) (hq : msgQueue.count = 0)
      (ha : Arrived m { s with msgQueue, currentMsg := .none }
        (arrivals around.ready { s with msgQueue, currentMsg := .none }) log s') :
      Turned m around s (.poll s.model 0 :: log ++ [.updateTui s.model .none]) s'
  | deliver {msg : TuiMsg} {msgs : List TuiMsg} {msgQueue : TuiMsgQueue} {model : TuiModel}
      {cmd : TuiCmd} {log : List Effect} {s' : MainState}
      (hp : s.msgQueue.pending = msg :: msgs) (hq : msgQueue.pending = msgs)
      (hu : (updateTui m.host s.world.session around.getmaxy msg s.model).result =
        .ok (model, cmd))
      (hc : Commanded m { s with msgQueue, currentMsg := msg, model } cmd log s') :
      Turned m around s (.updateTui s.model msg ::
        (updateTui m.host s.world.session around.getmaxy msg s.model).log ++ log) s'

/-- A message that is handled. -/
theorem handle_ok (h : (handle m around s).result = .ok s') :
    ∃ model cmd, (updateTui m.host s.world.session around.getmaxy s.currentMsg s.model).result =
        .ok (model, cmd) ∧ (runCmd m around { s with model } cmd).result = .ok s' ∧
      (handle m around s).log = .updateTui s.model s.currentMsg ::
        (updateTui m.host s.world.session around.getmaxy s.currentMsg s.model).log ++
          (runCmd m around { s with model } cmd).log := by
  unfold handle at h ⊢
  rw [emit_bind] at h ⊢
  obtain ⟨⟨model, cmd⟩, hu, h, hlog⟩ := bind_ok h
  exact ⟨model, cmd, hu, h, congrArg (_ :: ·) hlog⟩

/-- No message is handled. -/
theorem handle_none (hs : s.currentMsg = .none) :
    handle m around s = ⟨[.updateTui s.model .none], .ok s⟩ := by
  obtain ⟨world, model, input, msgQueue, currentMsg⟩ := s
  obtain rfl : currentMsg = .none := hs
  rfl

/-- **A turn without a message**: `poll` is called, and no message is passed. -/
theorem turn_poll (m : Machine) (around : Surroundings) (hp : s.msgQueue.pending = []) :
    ∃ msgQueue : TuiMsgQueue, msgQueue.count = 0 ∧
      turn m around s = pollFds around.ready { s with msgQueue, currentMsg := .none } >>=
        handle m around := by
  obtain ⟨msgQueue, hnext, -, hcount⟩ := nextMsg_eq (Nat.lt_succ_self s.msgQueue.count)
  refine ⟨msgQueue, hcount hp, ?_⟩
  rw [hp] at hnext
  exact lift_bind_of_ok hnext

/-- **A turn with a message.** -/
theorem turn_deliver (m : Machine) (around : Surroundings) {msg : TuiMsg} {msgs : List TuiMsg}
    (hp : s.msgQueue.pending = msg :: msgs) :
    ∃ msgQueue : TuiMsgQueue, msgQueue.pending = msgs ∧
      turn m around s = handle m around { s with msgQueue, currentMsg := msg } := by
  obtain ⟨msgQueue, hnext, htail, -⟩ := nextMsg_eq (Nat.lt_succ_self s.msgQueue.count)
  rw [hp] at hnext htail
  refine ⟨msgQueue, htail, ?_⟩
  have hmsg : msg ≠ .none := by
    have hmem : msg ∈ s.msgQueue.pending := by rw [hp]; exact List.mem_cons_self
    simpa using (List.mem_filter.mp hmem).2
  refine (lift_bind_of_ok hnext).trans ?_
  change pollIfIdle around.ready { s with currentMsg := msg, msgQueue } >>= handle m around = _
  rw [pollIfIdle, if_neg hmsg, pure_bind]

/-- **One turn.** -/
theorem turn_turned (h : (turn m around s).result = .ok s') :
    Turned m around s (turn m around s).log s' := by
  cases hp : s.msgQueue.pending with
  | nil =>
    obtain ⟨msgQueue, hcount, hturn⟩ := turn_poll m around hp
    rw [hturn] at h ⊢
    obtain ⟨s₁, h₁, h, hlog⟩ := bind_ok h
    obtain ⟨log, hlog₁, ha⟩ := pollFds_arrived (m := m) h₁
    rw [handle_none ha.currentMsg] at h hlog
    cases h
    rw [hlog, hlog₁, hcount, ha.model]
    exact .poll hp hcount ha
  | cons msg msgs =>
    obtain ⟨msgQueue, htail, hturn⟩ := turn_deliver m around hp
    rw [hturn] at h ⊢
    obtain ⟨model, cmd, hu, h, hlog⟩ := handle_ok h
    rw [hlog]
    exact .deliver hp htail hu (runCmd_commanded h)

/-- The world of a turn. -/
theorem Turned.events {log : List Effect} (h : Turned m around s log s') :
    ∃ es, Run (Debug.Events.Step m.host) s.world es s'.world := by
  cases h with
  | poll _ _ ha => exact ha.world
  | deliver _ _ _ hc =>
    cases hc with
    | select => exact ⟨[], .refl _⟩
    | other _ _ r => exact ⟨_, r⟩

end

/-- **A step of the loop** is a run of the debugger's events. -/
theorem Step.events {m : Machine} {s s' : MainState} {log : List Effect} (h : Step m s log s') :
    ∃ es, Run (Debug.Events.Step m.host) s.world es s'.world := by
  cases h with
  | turn _ _ h => exact (turn_turned h).events
  | debuggee _ h => exact ⟨_, .single h⟩

/-- A run of the loop is one of the debugger's events. -/
theorem run_events {m : Machine} {s t : MainState} {logs : List (List Effect)}
    (r : Run (Step m) s logs t) : ∃ es, Run (Debug.Events.Step m.host) s.world es t.world := by
  induction r with
  | refl s => exact ⟨[], .refl _⟩
  | step h _ ih =>
    obtain ⟨es, r⟩ := h.events
    obtain ⟨es', r'⟩ := ih
    exact ⟨_, r.trans r'⟩

end Dabugger.Main.Loop
