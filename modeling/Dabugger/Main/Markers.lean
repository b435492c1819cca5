import Dabugger.Debug.Registers
import Dabugger.Main.Screen
import Dabugger.Tui.Rows

/-! # What the panes say

In every run the source pane is the file of the unit that was confirmed, from the line at its top on,
with a marker at the lines that have a breakpoint (`run_source_pane`); the assembly pane has one at the
instructions that have, and the two agree (`run_assembly_pane`). A hit is shown in every view from when
it is handled to when the process is continued, whatever keys are pressed (`run_hit_pane`). -/

namespace Dabugger.Main.Markers

open Dabugger.Lib.Runs Dabugger.Lib.Log Dabugger.Base Dabugger.Dwarf.Types Dabugger.Debug.Session
  Dabugger.Debug.Store Dabugger.Debug.StoreRuns Dabugger.Debug.Inferior Dabugger.Debug.Events
  Dabugger.Debug.Registers Dabugger.Debug.Buffers Dabugger.Debug.BufferLines Dabugger.Tui.Types
  Dabugger.Tui.Update Dabugger.Tui.Frame Dabugger.Tui.OutputPane Dabugger.Tui.View
  Dabugger.Tui.Drawn Dabugger.Tui.Panes Dabugger.Tui.Rows Dabugger.Main.Queue Dabugger.Main.Loop
  Dabugger.Main.Delivery Dabugger.Main.Phases Dabugger.Main.Instructions Dabugger.Main.Screen

/-! ### The source -/

/-- A line of a file, as it is read. -/
def fileLine (content : List UInt8) (n : UInt64) : List UInt8 :=
  ((getlines content [])[n.toNat]?.getD []).takeWhile (· ≠ 0)

/-- The lines of the buffer are those of the file. -/
theorem sourceText_eq {files : Files} {session : DebugSession} {model : TuiModel}
    {buffer : LinesBuffer} {content : List UInt8}
    (hfile : SourceFile files session model.selectedCompUnitIndex.toNat content)
    (hget : getSourceBuffer files session model.selectedCompUnitIndex.toNat = .ok (some buffer))
    (hbuffer : model.source.buffer = some buffer) :
    sourceText model = fileLine content ∧
      buffer.lineCount.toNat = (getlines content []).length := by
  obtain ⟨shown, hsome, hfilled, hlines⟩ := getSourceBuffer_lines hfile hget
  cases hsome
  constructor
  · funext n
    rw [sourceText, hbuffer, Option.bind_some, hlines, List.getElem?_map, fileLine]
    cases (getlines content [])[n.toNat]? <;> rfl
  · rw [← hfilled.length, hlines, List.length_map]

/-- **The source pane.** In every run, when no message is on its way and a unit was confirmed: a view
shows, from the top of the window on, the lines of the unit's file from the one at `line_pos` on, as far
as there are rows and lines. A line has a marker if it has a breakpoint in this unit, and the arrow if
the instruction pointer is then at its first statement. -/
theorem run_source_pane (m : Machine) (isprint : UInt8 → Bool) {s₀ s : ScreenState}
    {labels : List (List Call × List Effect)} (h₀ : Initial s₀)
    (r : Run (Screen.Step m isprint) s₀ labels s) (hempty : s.main.msgQueue.pending = [])
    (hconfirmed : .confirm ∈ passed (labels.map Prod.snd).flatten) {terminal : Terminal}
    (hbig : ¬ TooSmall terminal) {windows : Windows}
    (h : (viewTui isprint terminal s.main.world.session s.main.model s.windows).result =
      .ok windows) :
    let session := s.main.world.session
    let model := s.main.model
    ∃ content, SourceFile m.files session model.selectedCompUnitIndex.toNat content ∧
      model.source.lineCount.toNat = (getlines content []).length ∧
      Displays .source (viewTui isprint terminal session model s.windows).log
        ((inView (paneRows (placed terminal) .source) model.source.toTuiBuffer).map
          (sourceShown session model terminal (fileLine content))) := by
  have rm := run_main r
  have hdelivered := (Delivered.of_initial h₀.1).run rm
  rw [false_or] at hdelivered
  have hphase := hdelivered.phase
  have hsig : significant s.main = [] := by rw [significant, hempty, List.filter_nil]
  rw [hsig] at hphase
  cases hphase with
  | idle hconsistent =>
    obtain ⟨⟨buffer, hget, hbuffer, hcount⟩, -⟩ := hconsistent hconfirmed
    obtain ⟨content, hfile⟩ := exists_sourceFile hget
    obtain ⟨htext, hlength⟩ := sourceText_eq hfile hget hbuffer
    refine ⟨content, hfile, by rw [hcount, hlength], ?_⟩
    exact htext ▸ displays_source hdelivered.inv (run_displayed h₀.1 rm).viewable hbig h

/-- Both lines of the file are shown, the second one selected. -/
theorem run_source_pane_sample : ∃ labels s,
    Run (Screen.Step twoLines fun _ => true) ⟨sampleStart [secondLine], noWindows⟩ labels s ∧
      Displays .source
        (viewTui (fun _ => true) sampleTerminal s.main.world.session s.main.model s.windows).log
        [⟨2, false, false, {}, [32, 97]⟩,
          ⟨3, false, false, { standout := true, colorPair := activeColor }, [32, 98]⟩] := by
  obtain ⟨labels, s, r, hconfirmed, hempty, hwindows, hworld, hmodel⟩ := sample_selected
  have r : Run (Screen.Step twoLines fun _ => true) ⟨sampleStart [secondLine], noWindows⟩ labels s :=
    r.mono fun _ _ _ hs => hs.1
  have hview : Succeeds (viewTui (fun _ => true) sampleTerminal s.main.world.session s.main.model
      s.windows) := by
    rw [hworld, hmodel, hwindows]
    exact ⟨_, rfl⟩
  obtain ⟨content, hfile, -, hshown⟩ := run_source_pane twoLines _ ⟨sampleStart_initial _, rfl⟩ r
    hempty hconfirmed (by decide) (viewTui_placed (by decide) hview)
  obtain ⟨compUnit, path, -, -, hcontent⟩ := hfile
  cases hcontent
  refine ⟨labels, s, r, hshown.trans ?_⟩
  rw [hworld, hmodel]
  rfl

/-! ### The assembly -/

/-- **The assembly pane.** In every run: an instruction in view has a marker if there is a breakpoint at
its address, and the arrow if the instruction pointer is there. Where a line of the source has a
breakpoint, so has the instruction at which it was set; and the arrow is at both or at none. -/
theorem run_assembly_pane (m : Machine) (isprint : UInt8 → Bool) {s₀ s : ScreenState}
    {labels : List (List Call × List Effect)} (h₀ : Initial s₀)
    (r : Run (Screen.Step m isprint) s₀ labels s) {terminal : Terminal} (hbig : ¬ TooSmall terminal)
    {windows : Windows}
    (h : (viewTui isprint terminal s.main.world.session s.main.model s.windows).result =
      .ok windows) :
    let session := s.main.world.session
    let model := s.main.model
    Displays .assembly (viewTui isprint terminal session model s.windows).log
        ((inView (paneRows (placed terminal) .assembly) model.assembly.toTuiBuffer).map
          (assemblyShown session model terminal)) ∧
      ∀ text i j row,
        (sourceShown session model terminal text i).isBreakpoint = true →
        firstStmtRow session model.selectedCompUnitIndex.toNat
          (model.source.linePos + i + 1).toNat = some row →
        assemblyAddress model (model.assembly.linePos + j) = row.address →
        (assemblyShown session model terminal j).isBreakpoint = true ∧
        (assemblyShown session model terminal j).isCurrentInstruction =
          (sourceShown session model terminal text i).isCurrentInstruction := by
  have hdisplayed := run_displayed h₀.1 (run_main r)
  obtain ⟨confirmed, hd⟩ := hdisplayed.loaded.delivered
  refine ⟨displays_assembly hdisplayed.viewable hbig h, fun text i j row hmarked hrow haddress => ?_⟩
  have hlisted := of_decide_eq_true hmarked
  obtain ⟨sb, hsb, hkey⟩ := hlisted
  have hsrc := firstStmtRow_of_listed hd.inv hsb hkey
  rw [hrow, Option.map_some, Option.some.injEq] at hsrc
  obtain ⟨bp, hbp, hbpaddress⟩ := hd.inv.src_mem sb hsb
  constructor
  · refine decide_eq_true ⟨bp, hbp, ?_⟩
    rw [hbpaddress, haddress, hsrc]
  · refine decide_eq_decide.mpr ?_
    rw [haddress, AtLine, hrow, Option.map_some, Option.some.injEq, eq_comm]
    exact (and_iff_right ⟨sb, hsb, hkey⟩).symm

/-- A disassembler that knows one instruction, of one byte. -/
def oneByte : Zydis where
  disassembleIntel _ window := if window = [] then none else some ([110], 1)
  length_pos := by
    intro address window text length h
    split at h <;> cases h
    decide
  length_le := by
    intro address window text length h
    split at h <;> cases h
    rename_i hne
    exact List.length_pos_of_ne_nil hne

/-- A source with two lines, and the disassembler. -/
def nops : Machine := { twoLines with zydis := oneByte }

/-- Code of the first line, of two bytes. -/
def firstLine : List LineInfoEntry :=
  [sampleRow 0x1008 0 1, { sampleRow 0x100a 0 1 with endSequence := true }]

/-- The breakpoint of the first line is set, and shown at its instruction. -/
theorem run_assembly_pane_sample : ∃ labels s,
    Run (Screen.Step nops fun _ => true) ⟨sampleStart firstLine, noWindows⟩ labels s ∧
      Displays .assembly
        (viewTui (fun _ => true) sampleTerminal s.main.world.session s.main.model s.windows).log
        [⟨2, true, false, { standout := true, colorPair := inactiveColor }, [32, 110]⟩,
          ⟨3, false, false, {}, [32, 110]⟩] := by
  have r : Run (Screen.Step nops fun _ => true) ⟨sampleStart firstLine, noWindows⟩ _ _ :=
    .step (sample_turn (key 10) nofun ⟨_, rfl⟩ rfl)
      (.step (sample_turn {} nofun ⟨_, rfl⟩ rfl)
      (.step (sample_turn {} nofun ⟨_, rfl⟩ rfl)
      (.step (sample_turn {} nofun ⟨_, rfl⟩ rfl)
      (.step (sample_turn {} nofun ⟨_, rfl⟩ rfl)
      (.step (sample_turn (key 32) nofun ⟨_, rfl⟩ rfl)
      (.single (sample_turn {} nofun ⟨_, rfl⟩ rfl)))))))
  obtain ⟨hassembly, -⟩ := run_assembly_pane nops _ ⟨sampleStart_initial _, rfl⟩ r
    (by decide : ¬ TooSmall sampleTerminal) (viewTui_placed (by decide) ⟨_, rfl⟩)
  exact ⟨_, _, r, hassembly.trans rfl⟩

/-! ### While the process is stopped -/

/-- The process is stopped where the session shows it, or was killed there. -/
structure Halted (address : UInt64) (w : World) : Prop where
  inv : StoreInv w.session
  state : ∀ tracee, w.tracee = some tracee →
    tracee.state = .stopped sigtrap true ∨ tracee.state = .signaled
  vma : getInstructionPointerVma w.session = address

section
variable {address : UInt64} {w w' : World} {host : Host}

theorem Halted.storeStep {session : DebugSession} (hw : Halted address w)
    (h : StoreStep w.session session) : Halted address { w with session } where
  inv := h.inv hw.inv
  state := hw.state
  vma := by
    have hvma : getInstructionPointerVma session = getInstructionPointerVma w.session := by
      cases h <;> rfl
    exact hvma.trans hw.vma

/-- A hit that is handled. -/
theorem Halted.of_hit (hi : StoreInv w.session) {tracee : Tracee} (ht : w.tracee = some tracee)
    (hs : tracee.state = .stopped sigtrap false) {bp : Breakpoint}
    (hbp : bp ∈ w.session.breakpoints)
    (hrip : tracee.regs.rip - 1 = realAddress w.session bp.address)
    (h : handleInferiorSignal w = .ok w') : Halted bp.address w' := by
  have hinv := (handled_sameStore (handleInferiorSignal_handled h)).inv hi
  rw [handleInferiorSignal_of_hit hi ht hs hbp hrip] at h
  cases h
  exact ⟨hinv, by rintro _ ⟨⟩; exact .inl rfl, getInstructionPointerVma_of_rip rfl⟩

/-- **It stays there** while nothing continues the process. -/
theorem Halted.step {e : Event} (hw : Halted address w) (h : HeldStep host w e w') :
    Halted address w' := by
  obtain ⟨h, hrun⟩ := h
  have hinv := h.inv hw.inv
  have hnot : ∀ tracee, w.tracee = some tracee → tracee.state ≠ .running := by
    intro tracee ht hs
    rcases hw.state tracee ht with hstate | hstate <;> rw [hs] at hstate <;> cases hstate
  cases h with
  | toggleBreakpoint h => exact hw.storeStep (toggleBreakpoint_step hw.inv.toStoreKeys h)
  | toggleSourceBreakpoint h =>
    exact hw.storeStep (toggleSourceBreakpoint_step hw.inv.toStoreKeys h)
  | runInferior => exact absurd rfl (hrun _)
  | signalChild h =>
    cases handleInferiorSignal_handled h with
    | nothing => exact hw
    | hit ht hs | miss ht hs | other ht hs | exited ht hs =>
      rcases hw.state _ ht with hstate | hstate <;> rw [hs] at hstate <;> cases hstate
    | signaled => exact ⟨hinv, nofun, hw.vma⟩
  | output pending => exact ⟨hinv, hw.state, hw.vma⟩
  | execute ht hs | trap ht hs | stop ht hs | exit ht hs => exact absurd hs (hnot _ ht)
  | kill => exact ⟨hinv, by rintro _ ⟨⟩; exact .inr rfl, hw.vma⟩

end

/-! ### Turns in which nothing is continued -/

/-- An event of `main` that continues nothing. -/
def QuietStep (host : Host) (w : World) (e : Event) (w' : World) : Prop :=
  HeldStep host w e w' ∧ ¬ OfDebuggee e

/-- It keeps the code. -/
theorem QuietStep.code {host : Host} {w w' : World} {e : Event} (h : QuietStep host w e w') :
    CodeStep host w e w' := by
  obtain ⟨⟨h, hrun⟩, hmain⟩ := h
  refine ⟨h, fun process he => absurd he (hrun _), ?_⟩
  rintro regs memory rfl
  exact absurd trivial hmain

section
variable {m : Machine} {around : Surroundings} {s t : MainState} {log : List Effect}

/-- Only `MSG_RUN_DEBUGGEE` runs the debuggee. -/
theorem msg_of_runDebuggee {host : Host} {session : DebugSession} {getmaxy : TuiWindow → UInt32}
    {msg : TuiMsg} {model model' : TuiModel}
    (h : (updateTui host session getmaxy msg model).result = .ok (model', .runDebuggee)) :
    msg = .runDebuggee := by
  have hmotion : ¬ IsMotion msg := fun hm => by
    obtain ⟨hcmd, -⟩ := updateTui_motion_ok hm h
    cases hcmd
  cases msg with
  | bufferMotion | goToBufferLine => exact absurd trivial hmotion
  | toggleBreakpoint =>
    cases hfocus : model.focusedWin with
    | assembly =>
      obtain ⟨-, address, haddress⟩ := updateTui_toggleBreakpoint_assembly hfocus h
      cases haddress
    | source | output | registers | picker =>
      rw [updateTui, hfocus] at h
      cases h
  | setSourceBuffer buffer => cases buffer <;> cases h
  | setAssemblyBuffer buffer => cases buffer <;> cases h
  | runDebuggee => rfl
  | changeSection | showPicker | confirm | outputUpdate | quit | none | stepInstruction
    | stepOver => cases h

/-- **What `poll` brings** continues nothing. -/
theorem pollFds_quiet {host : Host} {ready : Ready} (h : (pollFds ready s).result = .ok t) :
    ∃ es, Run (QuietStep host) s.world es t.world := by
  unfold pollFds at h
  rw [emit_bind] at h
  obtain ⟨s₁, h₁, h, -⟩ := bind_ok h
  obtain ⟨s₂, h₂, h₃, -⟩ := bind_ok h
  have hstdin : s₁.world = s.world := by
    unfold pollStdin at h₁
    split at h₁ <;> cases h₁ <;> rfl
  have hsignal : ∃ es, Run (QuietStep host) s₁.world es s₂.world := by
    unfold pollSignalChild at h₂
    split at h₂
    · cases h₂
      exact ⟨[], .refl _⟩
    · obtain ⟨world, hworld, h₂, -⟩ := bind_ok h₂
      cases h₂
      exact ⟨_, .single ⟨⟨.signalChild hworld, nofun⟩, id⟩⟩
  have hmaster : ∃ es, Run (QuietStep host) s₂.world es t.world := by
    unfold pollInferiorMaster at h₃
    split at h₃
    · cases h₃
      exact ⟨[], .refl _⟩
    · rename_i pending _
      cases h₃
      exact ⟨_, .single ⟨⟨.output pending, nofun⟩, id⟩⟩
  obtain ⟨es, rs⟩ := hsignal
  obtain ⟨es', rm⟩ := hmaster
  rw [hstdin] at rs
  exact ⟨_, rs.trans rm⟩

/-- A command other than `CMD_RUN_DEBUGGEE`. -/
theorem runCmd_quiet {cmd : TuiCmd} (hcmd : cmd ≠ .runDebuggee)
    (h : (runCmd m around s cmd).result = .ok t) :
    ∃ es, Run (QuietStep m.host) s.world es t.world := by
  unfold runCmd at h
  cases cmd with
  | none => cases h; exact ⟨[], .refl _⟩
  | selectCompUnit index =>
    dsimp only at h
    obtain ⟨source, -, h, -⟩ := bind_ok h
    obtain ⟨s₁, h₁, h, -⟩ := bind_ok h
    obtain ⟨assembly, -, h, -⟩ := bind_ok h
    obtain ⟨s₂, h₂, h, -⟩ := bind_ok h
    cases h₁
    cases h₂
    cases h
    exact ⟨[], .refl _⟩
  | toggleBreakpoint address =>
    dsimp only at h
    obtain ⟨session, hsession, h, -⟩ := bind_ok h
    cases h
    exact ⟨_, .single ⟨⟨.toggleBreakpoint hsession, nofun⟩, id⟩⟩
  | toggleSourceBreakpoint compUnitIndex lineNum =>
    dsimp only at h
    obtain ⟨_, -, h, -⟩ := bind_ok h
    obtain ⟨session, hsession, h, -⟩ := bind_ok h
    cases h
    exact ⟨_, .single ⟨⟨.toggleSourceBreakpoint hsession, nofun⟩, id⟩⟩
  | runDebuggee => exact absurd rfl hcmd

/-- **A turn** that passes no `MSG_RUN_DEBUGGEE` continues nothing. -/
theorem turn_quiet (h : (turn m around s).result = .ok t)
    (hpassed : .runDebuggee ∉ passed (turn m around s).log) :
    ∃ es, Run (QuietStep m.host) s.world es t.world := by
  rw [passed_turn] at hpassed
  cases hp : s.msgQueue.pending with
  | nil =>
    obtain ⟨msgQueue, hcount, hturn⟩ := turn_poll m around hp
    rw [hturn] at h
    obtain ⟨s₁, h₁, h, -⟩ := bind_ok h
    obtain ⟨log, -, ha⟩ := pollFds_arrived (m := m) h₁
    rw [handle_none ha.currentMsg] at h
    cases h
    obtain ⟨es, rq⟩ : ∃ es, Run (QuietStep m.host) _ es _ := pollFds_quiet h₁
    exact ⟨es, rq⟩
  | cons msg msgs =>
    rw [hp, List.take_one, List.head?_cons, Option.toList_some, List.mem_singleton] at hpassed
    obtain ⟨msgQueue, -, hturn⟩ := turn_deliver m around hp
    rw [hturn] at h
    obtain ⟨model, cmd, hu, h, -⟩ := handle_ok h
    have hcmd : cmd ≠ .runDebuggee := by
      rintro rfl
      exact hpassed (msg_of_runDebuggee hu).symm
    obtain ⟨es, rq⟩ : ∃ es, Run (QuietStep m.host) _ es _ := runCmd_quiet hcmd h
    exact ⟨es, rq⟩

/-- **A hit that is handled**: the process is stopped at its breakpoint. -/
theorem turn_hit (hi : StoreInv s.world.session) (hempty : s.msgQueue.pending = [])
    (hsignal : around.ready.signalChild = true) (h : (turn m around s).result = .ok t)
    {tracee : Tracee} (ht : s.world.tracee = some tracee)
    (hs : tracee.state = .stopped sigtrap false) {bp : Breakpoint}
    (hbp : bp ∈ s.world.session.breakpoints)
    (hrip : tracee.regs.rip - 1 = realAddress s.world.session bp.address) :
    Halted bp.address t.world := by
  obtain ⟨msgQueue, -, hturn⟩ := turn_poll m around hempty
  rw [hturn] at h
  obtain ⟨s₁, hpoll, h, -⟩ := bind_ok h
  obtain ⟨log, -, ha⟩ := pollFds_arrived (m := m) hpoll
  rw [handle_none ha.currentMsg] at h
  cases h
  unfold pollFds at hpoll
  rw [emit_bind, hsignal] at hpoll
  obtain ⟨s₁, h₁, hpoll, -⟩ := bind_ok hpoll
  obtain ⟨s₂, h₂, h₃, -⟩ := bind_ok hpoll
  have hstdin : s₁.world = s.world := by
    unfold pollStdin at h₁
    split at h₁ <;> cases h₁ <;> rfl
  obtain ⟨world, hworld, h₂, -⟩ := bind_ok h₂
  cases h₂
  rw [hstdin] at hworld
  have hhalted := Halted.of_hit hi ht hs hbp hrip hworld
  unfold pollInferiorMaster at h₃
  split at h₃
  · cases h₃
    exact hhalted
  · rename_i pending _
    cases h₃
    have hstep : HeldStep m.host world (.output pending) _ := ⟨.output pending, nofun⟩
    exact hhalted.step hstep

end

/-! ### The hit on the screen -/

/-- A turn without a message, in which `poll` reports a signal of the debuggee. -/
structure SignalTurn (m : Machine) (isprint : UInt8 → Bool) (s : ScreenState)
    (label : List Call × List Effect) (t : ScreenState) : Prop where
  step : Screen.Step m isprint s label t
  idle : s.main.msgQueue.pending = []
  signal : ∃ around : Surroundings, around.ready.signalChild = true ∧
    (turn m around s.main).result = .ok t.main

/-- A step that passes no `MSG_RUN_DEBUGGEE`. -/
def HaltedStep (m : Machine) (isprint : UInt8 → Bool) (s : ScreenState)
    (label : List Call × List Effect) (t : ScreenState) : Prop :=
  Screen.Step m isprint s label t ∧ .runDebuggee ∉ passed label.2

theorem Halted.screenStep {m : Machine} {isprint : UInt8 → Bool} {s t : ScreenState}
    {label : List Call × List Effect} {address : UInt64} (hw : Halted address s.main.world)
    (h : HaltedStep m isprint s label t) : Halted address t.main.world := by
  obtain ⟨h, hpassed⟩ := h
  cases h with
  | turn _ around _ _ hr =>
    obtain ⟨es, rq⟩ := turn_quiet hr hpassed
    exact rq.invariant (fun _ _ _ hs hw => hw.step hs.1) hw
  | @debuggee e _ he h =>
    refine hw.step ⟨h, ?_⟩
    rintro child rfl
    exact he

section
variable {w : World} {address : UInt64} {model : TuiModel} {terminal : Terminal} {i : UInt64}

/-- The arrow in the assembly. -/
theorem Halted.shows_assembly (h : Halted address w) :
    assemblyShown w.session model terminal i = { assemblyShown w.session model terminal i with
      isCurrentInstruction :=
        decide (assemblyAddress model (model.assembly.linePos + i) = address) } := by
  rw [assemblyShown, h.vma]
  dsimp only
  rw [ShownRow.mk.injEq]
  exact ⟨rfl, rfl, decide_eq_decide.mpr eq_comm, rfl, rfl⟩

/-- The arrow in the source. -/
theorem Halted.shows_source {text : UInt64 → List UInt8} (h : Halted address w) :
    sourceShown w.session model terminal text i = { sourceShown w.session model terminal text i with
      isCurrentInstruction := decide (∃ sb ∈ w.session.srcBreakpoints,
        lineKey sb = (model.selectedCompUnitIndex.toNat, (model.source.linePos + i + 1).toNat) ∧
          sb.address = address) } := by
  rw [sourceShown]
  dsimp only
  rw [ShownRow.mk.injEq]
  refine ⟨rfl, rfl, decide_eq_decide.mpr ?_, rfl, rfl⟩
  rw [AtLine, h.vma]
  constructor
  · rintro ⟨⟨sb, hsb, hkey⟩, hrow⟩
    have hsrc := firstStmtRow_of_listed h.inv hsb hkey
    rw [hrow, Option.some.injEq] at hsrc
    exact ⟨sb, hsb, hkey, hsrc.symm⟩
  · rintro ⟨sb, hsb, hkey, haddress⟩
    exact ⟨⟨sb, hsb, hkey⟩, haddress ▸ firstStmtRow_of_listed h.inv hsb hkey⟩

end

/-- **A hit on the screen.** In every run, a hit of a listed breakpoint is handled in a turn; up to the
next `MSG_RUN_DEBUGGEE`, whatever else happens and wherever the panes are scrolled: every view has the
arrow at the instructions at the address of the breakpoint and at no others, and in the source at the
line that has its breakpoint there. -/
theorem run_hit_pane (m : Machine) (isprint : UInt8 → Bool) {s₀ s t u : ScreenState}
    {labels labels' : List (List Call × List Effect)} {label : List Call × List Effect}
    (h₀ : Initial s₀) (r : Run (Screen.Step m isprint) s₀ labels s) {tracee : Tracee}
    (ht : s.main.world.tracee = some tracee) (hs : tracee.state = .stopped sigtrap false)
    {bp : Breakpoint} (hbp : bp ∈ s.main.world.session.breakpoints)
    (hrip : tracee.regs.rip - 1 = realAddress s.main.world.session bp.address)
    (hturn : SignalTurn m isprint s label t) (r' : Run (HaltedStep m isprint) t labels' u)
    {terminal : Terminal} (hbig : ¬ TooSmall terminal) {windows : Windows}
    (h : (viewTui isprint terminal u.main.world.session u.main.model u.windows).result =
      .ok windows) :
    let session := u.main.world.session
    let model := u.main.model
    let calls := (viewTui isprint terminal session model u.windows).log
    Displays .assembly calls
        ((inView (paneRows (placed terminal) .assembly) model.assembly.toTuiBuffer).map
          (fun i => { assemblyShown session model terminal i with
            isCurrentInstruction :=
              decide (assemblyAddress model (model.assembly.linePos + i) = bp.address) })) ∧
      Displays .source calls
        ((inView (paneRows (placed terminal) .source) model.source.toTuiBuffer).map
          (fun i => { sourceShown session model terminal (sourceText model) i with
            isCurrentInstruction := decide (∃ sb ∈ session.srcBreakpoints,
              lineKey sb = (model.selectedCompUnitIndex.toNat,
                (model.source.linePos + i + 1).toNat) ∧ sb.address = bp.address) })) := by
  have hsafe := (run_displayed h₀.1 (run_main r)).loaded.delivered
  obtain ⟨confirmed, hd⟩ := hsafe
  obtain ⟨around, hsignal, hr⟩ := hturn.signal
  have hhalted := turn_hit hd.inv hturn.idle hsignal hr ht hs hbp hrip
  have hhalted' : Halted bp.address u.main.world :=
    r'.invariant (I := fun u => Halted bp.address u.main.world) (fun _ _ _ hs hw => hw.screenStep hs)
      hhalted
  have rall := r.trans (.step hturn.step (r'.mono fun _ _ _ hs => hs.1))
  have hviewable := (run_displayed h₀.1 (run_main rall)).viewable
  constructor
  · exact (displays_assembly hviewable hbig h).congr fun _ => hhalted'.shows_assembly
  · exact (displays_source hhalted'.inv hviewable hbig h).congr fun _ => hhalted'.shows_source

/-- The debuggee has stopped. -/
def signalled : Surroundings :=
  { ready := { signalChild := true }, getmaxy := getmaxy (placed sampleTerminal) }

/-- A turn that handles it, after a run. -/
theorem sample_signal {m : Machine} {s₀ s : ScreenState}
    {labels : List (List Call × List Effect)} {main : MainState}
    (_ : Run (Screen.Step m fun _ => true) s₀ labels s) (hgo : s.main.currentMsg ≠ .quit)
    (hempty : s.main.msgQueue.pending = [])
    (hview : Succeeds (viewTui (fun _ => true) sampleTerminal s.main.world.session s.main.model
      s.windows)) (h : (turn m signalled s.main).result = .ok main) :
    ∃ label, SignalTurn m (fun _ => true) s label ⟨main, placed sampleTerminal⟩ :=
  ⟨_, sample_turn signalled hgo hview h, hempty, signalled, rfl, h⟩

/-- The breakpoint of the first line is set, the process is spawned and continued, and stops there. -/
theorem run_hit_pane_sample : ∃ labels s label t,
    Run (Screen.Step nops fun _ => true) ⟨sampleStart firstLine, noWindows⟩ labels s ∧
      SignalTurn nops (fun _ => true) s label t ∧
      Displays .assembly
        (viewTui (fun _ => true) sampleTerminal t.main.world.session t.main.model t.windows).log
        [⟨2, true, true, { standout := true, colorPair := inactiveColor }, [32, 110]⟩,
          ⟨3, false, false, {}, [32, 110]⟩] ∧
      Displays .source
        (viewTui (fun _ => true) sampleTerminal t.main.world.session t.main.model t.windows).log
        [⟨2, true, true, { standout := true, colorPair := activeColor }, [32, 97]⟩,
          ⟨3, false, false, {}, [32, 98]⟩] := by
  have r : Run (Screen.Step nops fun _ => true) ⟨sampleStart firstLine, noWindows⟩ _ _ :=
    .step (sample_turn (key 10) nofun ⟨_, rfl⟩ rfl)
      (.step (sample_turn {} nofun ⟨_, rfl⟩ rfl)
      (.step (sample_turn {} nofun ⟨_, rfl⟩ rfl)
      (.step (sample_turn {} nofun ⟨_, rfl⟩ rfl)
      (.step (sample_turn {} nofun ⟨_, rfl⟩ rfl)
      (.step (sample_turn (key 32) nofun ⟨_, rfl⟩ rfl)
      (.step (sample_turn {} nofun ⟨_, rfl⟩ rfl)
      (.step (sample_turn (key 82) nofun ⟨_, rfl⟩ rfl)
      (.step (sample_turn { child := .stopped sampleProcess } nofun ⟨_, rfl⟩ rfl)
      (.step (sample_turn (key 82) nofun ⟨_, rfl⟩ rfl)
      (.step (sample_turn {} nofun ⟨_, rfl⟩ rfl)
      (.step (.debuggee (e := .execute { rip := 0x6008 } (Lib.Words.overlay [0x6008] int3 sampleMemory))
        trivial (.execute rfl rfl (by decide)))
      (.single (.debuggee (e := .trap) trivial (.trap rfl rfl (by decide)))))))))))))))
  obtain ⟨label, hturn⟩ := sample_signal r nofun rfl ⟨_, rfl⟩ rfl
  obtain ⟨hassembly, hsource⟩ := run_hit_pane nops _ ⟨sampleStart_initial _, rfl⟩ r rfl rfl
    (List.mem_singleton_self _) rfl hturn (.refl _) (by decide : ¬ TooSmall sampleTerminal)
    (viewTui_placed (by decide) ⟨_, rfl⟩)
  exact ⟨_, _, label, _, r, hturn, hassembly.trans rfl, hsource.trans rfl⟩

end Dabugger.Main.Markers
