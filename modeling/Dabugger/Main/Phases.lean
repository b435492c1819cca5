import Dabugger.Main.Delivery
import Dabugger.Tui.Frame

/-! # What is on its way

`MSG_CONFIRM` selects a unit at once; its buffers and the picker follow with three messages. `Advanced`
says what a turn does to the model and to the messages that change it, and `Phase` which of these can
be on their way: none, that of one key, or what is left of the three. By the next `poll` all of them
have arrived (`delivered_consistent`). -/

namespace Dabugger.Main.Phases

open Dabugger.Lib.Runs Dabugger.Lib.Log Dabugger.Base Dabugger.Dwarf.Types Dabugger.Debug.Session
  Dabugger.Debug.Store Dabugger.Debug.Inferior Dabugger.Debug.Events Dabugger.Debug.Buffers
  Dabugger.Tui.Types Dabugger.Tui.Input Dabugger.Tui.Update Dabugger.Tui.Frame Dabugger.Main.Queue
  Dabugger.Main.Loop Dabugger.Main.Delivery

/-! ### What is on its way -/

/-- The messages in the queue that change the model. -/
def significant (s : MainState) : List TuiMsg := s.msgQueue.pending.filter (· ≠ .outputUpdate)

theorem significant_cons {s : MainState} {msg : TuiMsg} {msgs : List TuiMsg}
    (hp : s.msgQueue.pending = msg :: msgs) (hout : msg ≠ .outputUpdate) :
    significant s = msg :: msgs.filter (· ≠ .outputUpdate) := by
  rw [significant, hp, List.filter_cons_of_pos (by simp [hout])]

/-- The message of a key is no reply, and no output. -/
theorem onStdinInput_msg (model : TuiModel) (input : InputBuffer) (ch : ℤ) :
    ¬ IsReply (onStdinInput model input ch).1 ∧
      (onStdinInput model input ch).1 ≠ .outputUpdate := by
  have hcounted : ∀ input direction, ¬ IsReply (countedMotion input direction) ∧
      countedMotion input direction ≠ .outputUpdate := by
    intro input direction
    unfold countedMotion
    dsimp only
    split_ifs <;> exact ⟨nofun, nofun⟩
  have hmotion : ∀ input, ¬ IsReply (motionMsg input) ∧ motionMsg input ≠ .outputUpdate := by
    intro input
    unfold motionMsg
    dsimp only
    split_ifs
    all_goals first | exact hcounted _ _ | exact ⟨nofun, nofun⟩
  unfold onStdinInput
  dsimp only
  split_ifs
  all_goals first | exact hmotion _ | exact ⟨nofun, nofun⟩

/-- Of the messages that come in, that of a key is the only one that changes the model. -/
theorem filter_arrivals (ready : Ready) (s : MainState) :
    ((arrivals ready s).filter (· ≠ .none)).filter (· ≠ .outputUpdate) = [] ∨
      ∃ msg, ¬ IsReply msg ∧
        ((arrivals ready s).filter (· ≠ .none)).filter (· ≠ .outputUpdate) = [msg] := by
  obtain ⟨stdin, signalChild, inferiorMaster⟩ := ready
  have hsignal : ((if signalChild then [TuiMsg.none] else []).filter (· ≠ .none)).filter
      (· ≠ .outputUpdate) = [] := by
    cases signalChild <;> rfl
  have hmaster : (((inferiorMaster.map fun _ => TuiMsg.outputUpdate).toList).filter
      (· ≠ .none)).filter (· ≠ .outputUpdate) = [] := by
    cases inferiorMaster <;> rfl
  unfold arrivals
  rw [List.filter_append, List.filter_append, List.filter_append, List.filter_append, hsignal,
    hmaster, List.append_nil, List.append_nil]
  cases stdin with
  | none => exact .inl rfl
  | some ch =>
    obtain ⟨hreply, houtput⟩ := onStdinInput_msg s.model s.input ch
    by_cases hnone : (onStdinInput s.model s.input ch).1 = .none
    · left
      simp [hnone]
    · exact .inr ⟨_, hreply, by simp [hnone, houtput]⟩

/-! ### What a turn does about it -/

/-- What a turn does to the model, and to the messages that change it. -/
inductive Advanced (m : Machine) (around : Surroundings) (s : MainState) (log : List Effect)
    (s' : MainState) : Prop
  | waits (hc : .confirm ∉ passed log) (hmodel : s'.model = s.model)
      (hs' : significant s' = significant s)
  | arrives (hc : .confirm ∉ passed log) (hs : significant s = []) (hmodel : s'.model = s.model)
      (hs' : significant s' = [] ∨ ∃ msg, ¬ IsReply msg ∧ significant s' = [msg])
  | key {msg : TuiMsg} {rest : List TuiMsg} {cmd : TuiCmd} (hc : .confirm ∉ passed log)
      (hs : significant s = msg :: rest) (hreply : ¬ IsReply msg) (hconfirm : msg ≠ .confirm)
      (hu : (updateTui m.host s.world.session around.getmaxy msg s.model).result =
        .ok (s'.model, cmd))
      (hs' : significant s' = rest)
  | confirm {rest : List TuiMsg} {source : Option LinesBuffer} {assembly : Option AssemblyBuffer}
      (hp : s.msgQueue.pending.head? = some .confirm) (hs : significant s = .confirm :: rest)
      (hmodel : s'.model = { s.model with selectedCompUnitIndex := s.model.picker.selectedLine })
      (hsource : getSourceBuffer m.files s.world.session s.model.picker.selectedLine.toNat =
        .ok source)
      (hassembly : getAssemblyBuffer m.zydis s.world.session s.model.picker.selectedLine.toNat =
        .ok assembly)
      (hs' : significant s' =
        rest ++ [.setSourceBuffer source, .setAssemblyBuffer assembly, .showPicker false])
  | source {buffer : LinesBuffer} {rest : List TuiMsg} (hc : .confirm ∉ passed log)
      (hs : significant s = .setSourceBuffer (some buffer) :: rest)
      (hmodel : s'.model = { s.model with source :=
        { linePos := 0, selectedLine := 0, buffer := some buffer,
          lineCount := buffer.lineCount } })
      (hs' : significant s' = rest)
  | assembly {buffer : AssemblyBuffer} {rest : List TuiMsg} (hc : .confirm ∉ passed log)
      (hs : significant s = .setAssemblyBuffer (some buffer) :: rest)
      (hmodel : s'.model = { s.model with assembly :=
        { linePos := 0, selectedLine := 0, buffer := some buffer,
          lineCount := buffer.textBuffer.lineCount } })
      (hs' : significant s' = rest)

section
variable {m : Machine} {around : Surroundings} {s s' : MainState} {log : List Effect}

theorem advanced_of_poll {msgQueue : TuiMsgQueue} (hp : s.msgQueue.pending = [])
    (hq : msgQueue.count = 0) {arrived : List Effect}
    (ha : Arrived m { s with msgQueue, currentMsg := .none }
      (arrivals around.ready { s with msgQueue, currentMsg := .none }) arrived s')
    (hc : .confirm ∉ passed log) : Advanced m around s log s' := by
  have hcontents : msgQueue.contents = [] := by
    rw [← List.length_eq_zero_iff, length_contents, hq]
  have hsig : s'.msgQueue.contents = _ := ha.contents
  rw [hcontents, List.nil_append] at hsig
  refine .arrives hc (by rw [significant, hp, List.filter_nil]) ha.model ?_
  rw [significant, TuiMsgQueue.pending, hsig]
  exact filter_arrivals around.ready { s with msgQueue, currentMsg := .none }

/-- A command that selects no unit enqueues nothing. -/
theorem commanded_other {cmd : TuiCmd} (h : Commanded m s cmd log s')
    (hcmd : ∀ index, cmd ≠ .selectCompUnit index) : enqueued log = [] ∧ s'.model = s.model := by
  cases h with
  | select => exact absurd rfl (hcmd _)
  | other _ hlog =>
    refine ⟨enqueued_of_calls fun e he => ?_, rfl⟩
    obtain ⟨_, _, rfl⟩ := hlog e he
    trivial

/-- **What a turn does**, by the message that it passes. -/
theorem turned_advanced (ht : Turned m around s log s') : Advanced m around s log s' := by
  have hpassed := turned_passed ht
  cases ht with
  | poll hp hq ha =>
    refine advanced_of_poll hp hq ha ?_
    rw [hpassed, hp, List.take_nil]
    exact List.not_mem_nil
  | @deliver msg msgs msgQueue model cmd log _ hp hq hu hc =>
    rw [hp, List.take_one, List.head?_cons, Option.toList_some] at hpassed
    obtain ⟨hpending, -⟩ := commanded_enqueued hc
    change s'.msgQueue.pending = msgQueue.pending ++ enqueued log at hpending
    have hsig' : significant s' = msgs.filter (· ≠ .outputUpdate) ++
        (enqueued log).filter (· ≠ .outputUpdate) := by
      rw [significant, hpending, hq, List.filter_append]
    have hother : (∀ index, cmd ≠ .selectCompUnit index) →
        significant s' = msgs.filter (· ≠ .outputUpdate) ∧ s'.model = model := by
      intro hcmd
      obtain ⟨henq, hmodel⟩ := commanded_other hc hcmd
      rw [hsig', henq, List.filter_nil, List.append_nil]
      exact ⟨rfl, hmodel⟩
    have hsig := significant_cons hp
    have hmem : msg ≠ .confirm → .confirm ∉ passed (Effect.updateTui s.model msg ::
        (updateTui m.host s.world.session around.getmaxy msg s.model).log ++ log) := by
      rw [hpassed, List.mem_singleton]
      exact Ne.symm
    cases msg with
    | outputUpdate =>
      cases hu
      obtain ⟨hs', hmodel⟩ := hother (by nofun)
      refine .waits (hmem nofun) hmodel (hs'.trans ?_)
      rw [significant, hp]
      rfl
    | confirm =>
      cases hu
      cases hc with
      | select hsource hassembly =>
        exact .confirm (by rw [hp]; rfl) (hsig nofun) rfl hsource hassembly hsig'
      | other hcmd => exact absurd rfl (hcmd _)
    | setSourceBuffer source =>
      cases source with
      | none => cases hu
      | some buffer =>
        cases hu
        obtain ⟨hs', hmodel⟩ := hother (by nofun)
        exact .source (hmem nofun) (hsig nofun) hmodel hs'
    | setAssemblyBuffer assembly =>
      cases assembly with
      | none => cases hu
      | some buffer =>
        cases hu
        obtain ⟨hs', hmodel⟩ := hother (by nofun)
        exact .assembly (hmem nofun) (hsig nofun) hmodel hs'
    | none | quit | showPicker | bufferMotion | goToBufferLine | changeSection | toggleBreakpoint
      | runDebuggee | stepInstruction | stepOver =>
      obtain ⟨hs', hmodel⟩ := hother (updateTui_kept (by nofun) (by nofun) hu).2
      exact .key (hmem nofun) (hsig nofun) (by nofun) (by nofun) (hmodel ▸ hu) hs'

end

/-! ### The buffers of the selected unit -/

/-- The source of a unit is shown. -/
def ShowsSource (m : Machine) (session : DebugSession) (model : TuiModel) : Prop :=
  ∃ buffer, getSourceBuffer m.files session model.selectedCompUnitIndex.toNat =
    .ok (some buffer) ∧ model.source.buffer = some buffer ∧
      model.source.lineCount = buffer.lineCount

/-- The assembly of a unit is shown. -/
def ShowsAssembly (m : Machine) (session : DebugSession) (model : TuiModel) : Prop :=
  ∃ buffer, getAssemblyBuffer m.zydis session model.selectedCompUnitIndex.toNat =
    .ok (some buffer) ∧ model.assembly.buffer = some buffer ∧
      model.assembly.lineCount = buffer.textBuffer.lineCount

/-- The buffers of the selected unit are shown, if one was confirmed. -/
def Consistent (m : Machine) (confirmed : Prop) (session : DebugSession) (model : TuiModel) : Prop :=
  confirmed → ShowsSource m session model ∧ ShowsAssembly m session model

/-- What is on its way between two confirmations: nothing, a message of a key, or what is left of the
three messages of a confirmation. -/
inductive Phase (m : Machine) (confirmed : Prop) (session : DebugSession) (model : TuiModel) :
    List TuiMsg → Prop
  | idle (h : Consistent m confirmed session model) : Phase m confirmed session model []
  | typed {msg : TuiMsg} (hmsg : ¬ IsReply msg) (h : Consistent m confirmed session model) :
      Phase m confirmed session model [msg]
  | source {source : Option LinesBuffer} {assembly : Option AssemblyBuffer}
      (hsource : getSourceBuffer m.files session model.selectedCompUnitIndex.toNat = .ok source)
      (hassembly : getAssemblyBuffer m.zydis session model.selectedCompUnitIndex.toNat =
        .ok assembly) :
      Phase m confirmed session model
        [.setSourceBuffer source, .setAssemblyBuffer assembly, .showPicker false]
  | assembly {assembly : Option AssemblyBuffer} (hsource : ShowsSource m session model)
      (hassembly : getAssemblyBuffer m.zydis session model.selectedCompUnitIndex.toNat =
        .ok assembly) :
      Phase m confirmed session model [.setAssemblyBuffer assembly, .showPicker false]

section
variable {m : Machine} {confirmed : Prop} {session session' : DebugSession}
  {model model' : TuiModel}

theorem getSourceBuffer_congr (h : SameProgram session session') (files : Files) (index : ℕ) :
    getSourceBuffer files session' index = getSourceBuffer files session index := by
  rw [getSourceBuffer, getSourceBuffer, h.lineInfo, h.programData]

theorem getAssemblyBuffer_congr (h : SameProgram session session') (zydis : Zydis) (index : ℕ) :
    getAssemblyBuffer zydis session' index = getAssemblyBuffer zydis session index := by
  rw [getAssemblyBuffer, getAssemblyBuffer, h.lineInfo, h.programData]

/-- Another session of the program, and another model with the same buffers. -/
theorem Consistent.kept (h : Consistent m confirmed session model)
    (hs : SameProgram session session') (hk : Kept model model') :
    Consistent m confirmed session' model' := by
  intro hc
  obtain ⟨⟨source, hsource, hbuffer, hcount⟩, assembly, hassembly, habuffer, hacount⟩ := h hc
  refine ⟨⟨source, ?_, hk.sourceBuffer.trans hbuffer, hk.sourceCount.trans hcount⟩,
    assembly, ?_, hk.assemblyBuffer.trans habuffer, hk.assemblyCount.trans hacount⟩
  · rw [getSourceBuffer_congr hs, hk.compUnitIndex]
    exact hsource
  · rw [getAssemblyBuffer_congr hs, hk.compUnitIndex]
    exact hassembly

/-- Another session of the program. -/
theorem Phase.sameProgram {msgs : List TuiMsg} (h : Phase m confirmed session model msgs)
    (hs : SameProgram session session') : Phase m confirmed session' model msgs := by
  cases h with
  | idle h => exact .idle (h.kept hs (.refl model))
  | typed hmsg h => exact .typed hmsg (h.kept hs (.refl model))
  | source hsource hassembly =>
    exact .source ((getSourceBuffer_congr hs _ _).trans hsource)
      ((getAssemblyBuffer_congr hs _ _).trans hassembly)
  | assembly hsource hassembly =>
    obtain ⟨buffer, hbuffer, hshown⟩ := hsource
    exact .assembly ⟨buffer, (getSourceBuffer_congr hs _ _).trans hbuffer, hshown⟩
      ((getAssemblyBuffer_congr hs _ _).trans hassembly)

end

section
variable {m : Machine} {around : Surroundings} {s s' : MainState} {log : List Effect}
  {confirmed : Prop}

/-- **What is on its way**, after a turn. -/
theorem turned_phase (ha : Advanced m around s log s')
    (hprogram : SameProgram s.world.session s'.world.session)
    (h : Phase m confirmed s.world.session s.model (significant s)) :
    Phase m (confirmed ∨ .confirm ∈ passed log) s'.world.session s'.model (significant s') := by
  have h := h.sameProgram hprogram
  cases ha with
  | waits hc hmodel hs' =>
    rw [or_iff_left hc, hmodel, hs']
    exact h
  | arrives hc hs hmodel hs' =>
    rw [hs] at h
    rw [or_iff_left hc, hmodel]
    cases h with
    | idle h =>
      rcases hs' with hs' | ⟨msg, hreply, hs'⟩
      · rw [hs']; exact .idle h
      · rw [hs']; exact .typed hreply h
  | key hc hs hreply hconfirm hu hs' =>
    rw [hs] at h
    rw [or_iff_left hc, hs']
    cases h with
    | typed _ h =>
      exact .idle (h.kept ⟨hprogram.inv, rfl, rfl⟩ (updateTui_kept hreply hconfirm hu).1)
    | source | assembly => exact absurd trivial hreply
  | confirm hp hs hmodel hsource hassembly hs' =>
    rw [hs] at h
    rw [hmodel, hs']
    cases h with
    | typed =>
      exact .source ((getSourceBuffer_congr hprogram _ _).trans hsource)
        ((getAssemblyBuffer_congr hprogram _ _).trans hassembly)
  | source hc hs hmodel hs' =>
    rw [hs] at h
    rw [hmodel, hs']
    cases h with
    | typed hreply => exact absurd trivial hreply
    | source hsource hassembly => exact .assembly ⟨_, hsource, rfl, rfl⟩ hassembly
  | assembly hc hs hmodel hs' =>
    rw [hs] at h
    rw [hmodel, hs']
    cases h with
    | typed hreply => exact absurd trivial hreply
    | assembly hsource hassembly =>
      exact .typed nofun fun _ => ⟨hsource, _, hassembly, rfl, rfl⟩

theorem turned_pickerFocused (ht : Turned m around s log s') (h : PickerFocused s.model) :
    PickerFocused s'.model := by
  cases ht with
  | poll _ _ ha =>
    rw [show s'.model = s.model from ha.model]
    exact h
  | deliver _ _ hu hc =>
    have hpicker := updateTui_pickerFocused h hu
    cases hc <;> exact hpicker

/-- What holds in every state of a run. -/
structure Delivered (m : Machine) (confirmed : Prop) (s : MainState) : Prop where
  inv : StoreInv s.world.session
  phase : Phase m confirmed s.world.session s.model (significant s)
  picker : PickerFocused s.model

/-- **One step.** -/
theorem Delivered.step {t : MainState} (h : Delivered m confirmed s) (hs : Step m s log t) :
    Delivered m (confirmed ∨ .confirm ∈ passed log) t := by
  obtain ⟨es, r⟩ := hs.events
  have hprogram := run_sameProgram r h.inv
  cases hs with
  | turn _ _ hr =>
    have ht := turn_turned hr
    exact ⟨hprogram.inv, turned_phase (turned_advanced ht) hprogram h.phase,
      turned_pickerFocused ht h.picker⟩
  | debuggee _ _ =>
    refine ⟨hprogram.inv, ?_, h.picker⟩
    rw [or_iff_left (by nofun)]
    exact h.phase.sameProgram hprogram

/-- **A run.** -/
theorem Delivered.run {t : MainState} {logs : List (List Effect)} (r : Run (Step m) s logs t)
    (h : Delivered m confirmed s) : Delivered m (confirmed ∨ .confirm ∈ passed logs.flatten) t := by
  induction r generalizing confirmed with
  | refl s => rw [List.flatten_nil, or_iff_left (by nofun)]; exact h
  | step hs _ ih =>
    rw [List.flatten_cons, passed_append, List.mem_append, ← or_assoc]
    exact ih (h.step hs)

theorem Delivered.of_initial (h : Initial s) : Delivered m False s := by
  obtain ⟨world, picker, hworld, -, rfl⟩ := h
  exact ⟨hworld.inv, .idle (absurd · id), ⟨nofun, nofun⟩⟩

end

/-- **The messages and the model.** In every run of the loop, with any order and batches of events:
every message is passed once and in order, or is still in the queue, and the next turn passes the
first of them; `poll` is called with an empty queue, when all messages have been passed, the buffers
of the selected unit are shown if one was confirmed, and the picker has the focus exactly while it is
open. -/
theorem delivered_consistent (m : Machine) {s₀ s : MainState} {logs : List (List Effect)}
    (h₀ : Initial s₀) (r : Run (Step m) s₀ logs s) :
    enqueued logs.flatten = passed logs.flatten ++ s.msgQueue.pending ∧
    (∀ logs' t, Run (Step m) s logs' t →
      s.msgQueue.pending.take (turns logs'.flatten) <+: passed logs'.flatten) ∧
    (∀ around, passed (turn m around s).log = s.msgQueue.pending.take 1) ∧
    ∀ around model queued, .poll model queued ∈ (turn m around s).log →
      queued = 0 ∧ passed logs.flatten = enqueued logs.flatten ∧
      (.confirm ∈ passed logs.flatten →
        ShowsSource m s.world.session model ∧ ShowsAssembly m s.world.session model) ∧
      (model.isPickerOpen = true ↔ model.focusedWin = .picker) := by
  have haccounts := run_accounts r
  have hdelivered := (Delivered.of_initial h₀).run r
  rw [false_or] at hdelivered
  obtain ⟨world, picker, -, -, rfl⟩ := h₀
  have hstart : initialMsgQueue.pending = [] := rfl
  rw [hstart, List.nil_append] at haccounts
  refine ⟨haccounts, fun _ _ => run_progress, fun around => passed_turn m around s, ?_⟩
  intro around model queued hpoll
  obtain ⟨hp, rfl, rfl⟩ := poll_of_mem hpoll
  have hphase := hdelivered.phase
  have hsig : significant s = [] := by rw [significant, hp, List.filter_nil]
  rw [hsig] at hphase
  rw [hp, List.append_nil] at haccounts
  cases hphase with
  | idle h => exact ⟨rfl, haccounts.symm, h, hdelivered.picker⟩

/-! ### A small run -/

/-- The files and the disassembler of a small program. -/
def sampleMachine : Machine where
  host := Host.zeroed true
  zydis :=
    { disassembleIntel := fun _ _ => none
      length_pos := nofun
      length_le := nofun }
  files := fun _ => some [97, 10]

/-- The state at the start, with the session of `sampleSession`. -/
def sampleStart (rows : List LineInfoEntry) : MainState where
  world := ⟨sampleSession rows, none⟩
  model := initialModel { lineCount := 1, lines := [some [47, 115, 47, 97, 46, 99]] }

theorem sampleStart_initial (rows : List LineInfoEntry) : Initial (sampleStart rows) :=
  ⟨_, _, ⟨_, _, rfl⟩, rfl, rfl⟩

/-- A turn in which `ch` can be read. -/
def key (ch : ℤ) : Surroundings := { ready := { stdin := some ch } }

/-- The unit of `sampleSession` is confirmed: it is shown at the next `poll`. -/
theorem delivered_consistent_sample : ∃ logs s model,
    Run (Step sampleMachine) (sampleStart []) logs s ∧
      .poll model 0 ∈ (turn sampleMachine {} s).log ∧
        ShowsSource sampleMachine s.world.session model := by
  have r : Run (Step sampleMachine) (sampleStart []) _ _ :=
    .step (.turn (key 10) nofun rfl)
      (.step (.turn {} nofun rfl)
        (.step (.turn {} nofun rfl)
          (.step (.turn {} nofun rfl)
            (.single (.turn {} nofun rfl)))))
  have hpolls := (delivered_consistent sampleMachine (sampleStart_initial []) r).2.2.2
  refine ⟨_, _, _, r, List.mem_cons_self, ?_⟩
  exact ((hpolls {} _ 0 List.mem_cons_self).2.2.1 List.mem_cons_self).1

end Dabugger.Main.Phases
