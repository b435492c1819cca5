import Dabugger.Main.Phases

/-! # The instructions of the selected line

`selected_line_instructions` is computed when the selection moves in the source. `MSG_CONFIRM` selects
another unit and `MSG_SET_SOURCE_BUFFER` its first line, and neither computes it again. Hence it is
right as long as every confirmation finds it empty, or finds in it the instructions of the first line
of the new unit (`run_coherent`). -/

namespace Dabugger.Main.Instructions

open Dabugger.Lib.Runs Dabugger.Lib.Log Dabugger.Base Dabugger.Dwarf.Types Dabugger.Debug.Session
  Dabugger.Debug.Store Dabugger.Debug.Events Dabugger.Debug.Buffers Dabugger.Tui.Types
  Dabugger.Tui.Update Dabugger.Tui.Frame Dabugger.Main.Queue Dabugger.Main.Loop
  Dabugger.Main.Delivery Dabugger.Main.Phases

/-- The cache is empty, or has the instructions of a line of a unit. -/
def CachesLine (host : Host) (session : DebugSession) (model : TuiModel)
    (compUnitIndex lineNum : UInt64) : Prop :=
  ∀ instructions, model.selectedLineInstructions = some instructions →
    getInstructionsForLine host session compUnitIndex.toNat lineNum.toNat = .ok instructions

/-- **The cache is right.** -/
def Coherent (host : Host) (session : DebugSession) (model : TuiModel) : Prop :=
  CachesLine host session model model.selectedCompUnitIndex (model.source.selectedLine + 1)

/-- The next message confirms a unit only if the cache is right for its first line. -/
def ConfirmsCached (m : Machine) (s : MainState) : Prop :=
  s.msgQueue.pending.head? = some .confirm →
    CachesLine m.host s.world.session s.model s.model.picker.selectedLine 1

section
variable {host : Host} {session session' : DebugSession} {getmaxy : TuiWindow → UInt32}
  {model model' : TuiModel} {msg : TuiMsg} {cmd : TuiCmd}

theorem CachesLine.sameProgram {compUnitIndex lineNum : UInt64}
    (h : CachesLine host session model compUnitIndex lineNum)
    (hs : SameProgram session session') : CachesLine host session' model compUnitIndex lineNum := by
  intro instructions hi
  rw [← h instructions hi, getInstructionsForLine, getInstructionsForLine, hs.lineInfo]

/-- **The other messages** keep the cache right. -/
theorem updateTui_coherent (h : Coherent host session model) (hreply : ¬ IsReply msg)
    (hconfirm : msg ≠ .confirm)
    (hr : (updateTui host session getmaxy msg model).result = .ok (model', cmd)) :
    Coherent host session model' := by
  have hindex := (updateTui_kept hreply hconfirm hr).1.compUnitIndex
  intro instructions hi
  rw [hindex]
  rcases updateTui_lineKept hreply hr with ⟨hline, hcached⟩ | ⟨instructions', hget, hcached⟩
  · rw [hline]
    exact h instructions (hcached.symm.trans hi)
  · cases hcached.symm.trans hi
    exact hget

end

/-! ### Runs -/

/-- The cache is right, or will be when the new source arrives. -/
def CoherentIn (m : Machine) (session : DebugSession) (model : TuiModel) : List TuiMsg → Prop
  | .setSourceBuffer _ :: _ => CachesLine m.host session model model.selectedCompUnitIndex 1
  | _ => Coherent m.host session model

section
variable {m : Machine} {around : Surroundings} {s s' t : MainState} {log : List Effect}
  {confirmed : Prop}

theorem CoherentIn.sameProgram {session session' : DebugSession} {model : TuiModel}
    {msgs : List TuiMsg} (h : CoherentIn m session model msgs)
    (hs : SameProgram session session') : CoherentIn m session' model msgs := by
  cases msgs with
  | nil => exact CachesLine.sameProgram h hs
  | cons msg => cases msg <;> exact CachesLine.sameProgram h hs

/-- With a message of a key on its way, the cache is right. -/
theorem coherentIn_singleton {session : DebugSession} {model : TuiModel} {msg : TuiMsg}
    (hreply : ¬ IsReply msg) :
    CoherentIn m session model [msg] = Coherent m.host session model := by
  cases msg with
  | setSourceBuffer => exact absurd trivial hreply
  | _ => rfl

/-- **The cache**, after a turn. -/
theorem turned_coherent (ha : Advanced m around s log s')
    (hprogram : SameProgram s.world.session s'.world.session)
    (hphase : Phase m confirmed s.world.session s.model (significant s))
    (hcached : ConfirmsCached m s)
    (h : CoherentIn m s.world.session s.model (significant s)) :
    CoherentIn m s'.world.session s'.model (significant s') := by
  refine CoherentIn.sameProgram ?_ hprogram
  cases ha with
  | waits _ hmodel hs' =>
    rw [hmodel, hs']
    exact h
  | arrives _ hs hmodel hs' =>
    rw [hs] at h
    rw [hmodel]
    rcases hs' with hs' | ⟨msg, hreply, hs'⟩
    · rw [hs']; exact h
    · rw [hs', coherentIn_singleton hreply]; exact h
  | key _ hs hreply hconfirm hu hs' =>
    rw [hs] at h hphase
    rw [hs']
    cases hphase with
    | typed =>
      rw [coherentIn_singleton hreply] at h
      exact updateTui_coherent h hreply hconfirm hu
    | source | assembly => exact absurd trivial hreply
  | confirm hp hs hmodel _ _ hs' =>
    rw [hs] at hphase
    rw [hmodel, hs']
    cases hphase with
    | typed => exact hcached hp
  | source _ hs hmodel hs' =>
    rw [hs] at h hphase
    rw [hmodel, hs']
    cases hphase with
    | typed hreply => exact absurd trivial hreply
    | source => exact h
  | assembly _ hs hmodel hs' =>
    rw [hs] at h hphase
    rw [hmodel, hs']
    cases hphase with
    | typed hreply => exact absurd trivial hreply
    | assembly => exact h

/-- A step; a unit is confirmed only if the cache is right for its first line. -/
def CachedStep (m : Machine) (s : MainState) (log : List Effect) (s' : MainState) : Prop :=
  Step m s log s' ∧ ConfirmsCached m s

/-- What holds in every state of a run of such steps. -/
structure Highlighted (m : Machine) (s : MainState) : Prop where
  delivered : ∃ confirmed, Delivered m confirmed s
  cached : CoherentIn m s.world.session s.model (significant s)

/-- **One step.** -/
theorem Highlighted.step (h : Highlighted m s) (hs : CachedStep m s log t) :
    Highlighted m t := by
  obtain ⟨confirmed, hd⟩ := h.delivered
  obtain ⟨hs, hcached⟩ := hs
  refine ⟨⟨_, hd.step hs⟩, ?_⟩
  obtain ⟨es, r⟩ := hs.events
  have hprogram := run_sameProgram r hd.inv
  cases hs with
  | turn _ _ hr =>
    exact turned_coherent (turned_advanced (turn_turned hr)) hprogram hd.phase hcached
      h.cached
  | debuggee _ _ => exact h.cached.sameProgram hprogram

theorem Highlighted.of_initial (h : Initial s) : Highlighted m s := by
  refine ⟨⟨_, Delivered.of_initial h⟩, ?_⟩
  obtain ⟨world, picker, -, -, rfl⟩ := h
  exact nofun

end

/-- **The instructions of the selected line.** In every run of the loop in which a unit is confirmed
only while nothing is cached, or while the cache is what the first line of this unit has: whenever the
queue is empty, the cache is empty or has the instructions of the selected line. -/
theorem run_coherent (m : Machine) {s₀ s : MainState} {logs : List (List Effect)}
    (h₀ : Initial s₀) (r : Run (CachedStep m) s₀ logs s) (hempty : s.msgQueue.pending = []) :
    ∀ instructions, s.model.selectedLineInstructions = some instructions →
      getInstructionsForLine m.host s.world.session s.model.selectedCompUnitIndex.toNat
        (s.model.source.selectedLine + 1).toNat = .ok instructions := by
  have h : Highlighted m s := r.invariant (fun _ _ _ hs h => h.step hs) (.of_initial h₀)
  have hsig : significant s = [] := by rw [significant, hempty, List.filter_nil]
  have hcached := h.cached
  rw [hsig] at hcached
  exact hcached

/-! ### A unit that is confirmed twice -/

/-- A source with two lines. -/
def twoLines : Machine := { sampleMachine with files := fun _ => some [97, 10, 98, 10] }

/-- Code of the second line. -/
def secondLine : LineInfoEntry := sampleRow 0x1000 0 2

/-- The unit is confirmed, and the second line is selected: its instructions are highlighted. -/
theorem run_coherent_sample : ∃ logs s,
    Run (CachedStep twoLines) (sampleStart [secondLine]) logs s ∧
      s.model.selectedLineInstructions = some [secondLine] ∧
      getInstructionsForLine twoLines.host s.world.session 0 2 = .ok [secondLine] := by
  have r : Run (CachedStep twoLines) (sampleStart [secondLine]) _ _ :=
    .step ⟨.turn (key 10) nofun rfl, nofun⟩
      (.step ⟨.turn {} nofun rfl, fun _ => nofun⟩
        (.step ⟨.turn {} nofun rfl, nofun⟩
          (.step ⟨.turn {} nofun rfl, nofun⟩
            (.step ⟨.turn {} nofun rfl, nofun⟩
              (.step ⟨.turn (key 106) nofun rfl, nofun⟩
                (.single ⟨.turn {} nofun rfl, nofun⟩))))))
  refine ⟨_, _, r, rfl, ?_⟩
  exact run_coherent twoLines (sampleStart_initial _) r rfl _ rfl

/-- The unit is then confirmed again: the first line is selected, and the instructions of the second
line are still highlighted. -/
theorem not_run_coherent : ¬ ∀ (m : Machine) (s₀ s : MainState) (logs : List (List Effect)),
    Initial s₀ → Run (Step m) s₀ logs s → s.msgQueue.pending = [] →
      Coherent m.host s.world.session s.model := by
  intro h
  have r : Run (Step twoLines) (sampleStart [secondLine]) _ _ :=
    .step (.turn (key 10) nofun rfl)
      (.step (.turn {} nofun rfl)
        (.step (.turn {} nofun rfl)
          (.step (.turn {} nofun rfl)
            (.step (.turn {} nofun rfl)
              (.step (.turn (key 106) nofun rfl)
                (.step (.turn {} nofun rfl)
                  (.step (.turn (key 10) nofun rfl)
                    (.step (.turn {} nofun rfl)
                      (.step (.turn {} nofun rfl)
                        (.step (.turn {} nofun rfl)
                          (.single (.turn {} nofun rfl))))))))))))
  cases h twoLines _ _ _ (sampleStart_initial _) r rfl _ rfl

end Dabugger.Main.Instructions
