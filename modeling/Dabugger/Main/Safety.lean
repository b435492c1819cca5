import Dabugger.Main.Phases
import Dabugger.Tui.Bounds

/-! # Nothing is used that is not loaded

`MSG_CONFIRM` passes on what the buffers of the unit are, null pointers included; a toggle in the
source takes the unit 0 of the start for granted, and one in the assembly the buffer. A run of the loop
stays with what is there exactly if the messages need nothing else (`run_safe_iff`). -/

namespace Dabugger.Main.Safety

open Dabugger.Lib.Runs Dabugger.Lib.Log Dabugger.Base Dabugger.Dwarf.Types Dabugger.Debug.Session
  Dabugger.Debug.Store Dabugger.Debug.Events Dabugger.Debug.Buffers Dabugger.Tui.Types
  Dabugger.Tui.Input Dabugger.Tui.Update Dabugger.Tui.Frame Dabugger.Tui.Bounds Dabugger.Main.Queue
  Dabugger.Main.Loop Dabugger.Main.Delivery Dabugger.Main.Phases

/-- What the next message needs is there. -/
def NextAvailable (s : MainState) : Prop :=
  ∀ msg, s.msgQueue.pending.head? = some msg → Available s.world.session s.model msg

/-- What holds in every state of a run. -/
structure Loaded (m : Machine) (s : MainState) : Prop where
  delivered : ∃ confirmed, Delivered m confirmed s
  known : Known s.world.session s.model

section
variable {m : Machine} {around : Surroundings} {s s' t : MainState} {log : List Effect}

/-! ### One turn -/

/-- A line with a source breakpoint is one of a unit. -/
theorem lt_of_srcBreakpoint {session : DebugSession} (h : StoreInv session) {sb : SourceBreakpoint}
    (hsb : sb ∈ session.srcBreakpoints) :
    sb.compUnitIndex < session.lineInfo.compUnits.length := by
  have hrow := h.src_row sb hsb
  cases hunit : session.lineInfo.compUnits[sb.compUnitIndex]? with
  | none =>
    rw [firstStmtRow, hunit] at hrow
    cases hrow
  | some compUnit => exact (List.getElem?_eq_some_iff.mp hunit).1

/-- The call for a toggle in the source is left out only if the line has a breakpoint. -/
theorem callSetSourceBreakpoint_safe {session : DebugSession} (h : StoreInv session)
    {compUnitIndex lineNum : UInt64}
    (hsafe : Emits (Safe session) (callSetSourceBreakpoint session compUnitIndex lineNum)) :
    compUnitIndex.toNat < session.lineInfo.compUnits.length := by
  unfold callSetSourceBreakpoint at hsafe
  split at hsafe
  · next hlisted =>
    obtain ⟨sb, hsb, hkey⟩ := List.any_eq_true.mp hlisted
    rw [← (of_decide_eq_true hkey).1]
    exact lt_of_srcBreakpoint h hsb
  · exact hsafe _ (List.mem_singleton_self _)

/-- The message that comes next reaches for nothing unless there are units. -/
theorem safe_passed_iff (h : Loaded m s) {msg : TuiMsg} {msgs : List TuiMsg}
    (hp : s.msgQueue.pending = msg :: msgs) :
    Safe s.world.session (.updateTui s.model msg) ↔
      (IsReply msg → s.world.session.lineInfo.compUnits ≠ []) := by
  obtain ⟨confirmed, hd⟩ := h.delivered
  have hphase := hd.phase
  have hunit : s.model.selectedCompUnitIndex.toNat < s.world.session.lineInfo.compUnits.length ↔
      s.world.session.lineInfo.compUnits ≠ [] :=
    ⟨fun hlt => List.ne_nil_of_length_pos ((Nat.zero_le _).trans_lt hlt), h.known.compUnitIndex⟩
  cases msg with
  | setSourceBuffer buffer =>
    obtain ⟨rest, hs⟩ : ∃ rest, significant s = _ :: rest := ⟨_, significant_cons hp nofun⟩
    rw [hs] at hphase
    rw [IsReply, forall_const, ← hunit]
    cases hphase with
    | typed hreply => exact absurd trivial hreply
    | source hsource _ => exact getSourceBuffer_ne_none_iff hsource
  | setAssemblyBuffer buffer =>
    obtain ⟨rest, hs⟩ : ∃ rest, significant s = _ :: rest := ⟨_, significant_cons hp nofun⟩
    rw [hs] at hphase
    rw [IsReply, forall_const, ← hunit]
    cases hphase with
    | typed hreply => exact absurd trivial hreply
    | assembly _ hassembly => exact getAssemblyBuffer_ne_none_iff hassembly
  | _ => exact iff_of_true trivial nofun

/-- **One turn**, whether it returns or not. -/
theorem turn_safe_iff (h : Loaded m s) (around : Surroundings) :
    Emits (Safe s.world.session) (turn m around s) ↔ NextAvailable s := by
  cases hp : s.msgQueue.pending with
  | nil =>
    refine iff_of_true (fun e he => ?_) (by rw [NextAvailable, hp]; nofun)
    obtain ⟨log, hlog, hall⟩ := turn_log_poll m around hp
    rw [hlog] at he
    rcases List.mem_cons.mp he with rfl | he
    · trivial
    · rcases hall e he with ⟨_, rfl⟩ | ⟨_, rfl⟩ <;> trivial
  | cons msg msgs =>
    have hnext : NextAvailable s ↔ Available s.world.session s.model msg := by
      rw [NextAvailable, hp, List.head?_cons]
      exact ⟨fun hn => hn msg rfl, fun ha _ hmsg => Option.some.inj hmsg ▸ ha⟩
    obtain ⟨msgQueue, hlog⟩ := mem_turn_deliver m around hp
    obtain ⟨confirmed, hd⟩ := h.delivered
    have hmsg : SafeMsg m.host s.world.session around.getmaxy s.model msg ↔ _ :=
      safeMsg_iff h.known (safe_passed_iff h hp)
    rw [hnext, ← hmsg]
    constructor
    · intro hsafe
      refine ⟨hsafe _ ((hlog _).mpr (.inl rfl)),
        fun e he => hsafe e ((hlog e).mpr (.inr (.inl he))),
        fun model' compUnitIndex lineNum hr => ?_⟩
      have hcall : Emits (Safe s.world.session)
          (callSetSourceBreakpoint s.world.session compUnitIndex lineNum) := fun e he =>
        hsafe e ((hlog e).mpr (.inr (.inr ⟨model', _, hr, mem_log_bind.mpr (.inl he)⟩)))
      exact callSetSourceBreakpoint_safe hd.inv hcall
    · intro hsafe e he
      rcases (hlog e).mp he with rfl | he | ⟨model', cmd, hr, he⟩
      · exact hsafe.passed
      · exact hsafe.calls e he
      · rcases runCmd_log cmd e he with ⟨_, rfl⟩ | ⟨_, _, rfl, rfl⟩
        · trivial
        · exact hsafe.cmd model' _ _ hr

/-! ### Runs -/

theorem turned_known (h : Loaded m s) (ht : Turned m around s log t) :
    Known s.world.session t.model := by
  cases ht with
  | poll _ _ ha =>
    rw [show t.model = s.model from ha.model]
    exact h.known
  | deliver hp _ hu hc =>
    have hreply := (safe_passed_iff h hp).mp (safe_passed_of_ok hu)
    have hknown := updateTui_known h.known hreply hu
    cases hc <;> exact hknown

theorem step_lineInfo (h : Loaded m s) (hs : Step m s log t) :
    t.world.session.lineInfo = s.world.session.lineInfo := by
  obtain ⟨confirmed, hd⟩ := h.delivered
  obtain ⟨es, r⟩ := hs.events
  exact (run_sameProgram r hd.inv).lineInfo

/-- **One step.** -/
theorem Loaded.step (h : Loaded m s) (hs : Step m s log t) : Loaded m t := by
  obtain ⟨confirmed, hd⟩ := h.delivered
  refine ⟨⟨_, hd.step hs⟩, Known.congr ?_ (step_lineInfo h hs)⟩
  cases hs with
  | turn _ _ hr => exact turned_known h (turn_turned hr)
  | debuggee _ _ => exact h.known

theorem Loaded.of_initial (h : Initial s) : Loaded m s := by
  refine ⟨⟨_, Delivered.of_initial h⟩, ?_⟩
  obtain ⟨world, picker, -, hpicker, rfl⟩ := h
  exact known_initialModel hpicker

/-- A step, before which what the next message needs is there. -/
def AvailableStep (m : Machine) (s : MainState) (log : List Effect) (s' : MainState) : Prop :=
  Step m s log s' ∧ NextAvailable s

/-- **One step**, and what is there before it. -/
theorem step_safe_iff (h : Loaded m s) (hs : Step m s log t) (hnext : NextAvailable t) :
    (∀ e ∈ log, Safe s.world.session e) ↔ NextAvailable s := by
  have hlineInfo := step_lineInfo h hs
  cases hs with
  | turn around => exact turn_safe_iff h around
  | debuggee _ _ =>
    refine iff_of_true (List.forall_mem_nil _) fun msg hmsg => ?_
    rw [← available_congr hlineInfo]
    exact hnext msg hmsg

end

section
variable {m : Machine} {s t : MainState} {logs : List (List Effect)}

theorem run_lineInfo (h : Loaded m s) (r : Run (Step m) s logs t) :
    Loaded m t ∧ t.world.session.lineInfo = s.world.session.lineInfo := by
  induction r with
  | refl s => exact ⟨h, rfl⟩
  | step hs _ ih =>
    obtain ⟨ht, hlineInfo⟩ := ih (h.step hs)
    exact ⟨ht, hlineInfo.trans (step_lineInfo h hs)⟩

/-- A run in which everything is there is safe. -/
theorem run_safe (h : Loaded m s) (r : Run (AvailableStep m) s logs t) (hnext : NextAvailable t) :
    NextAvailable s ∧ ∀ e ∈ logs.flatten, Safe s.world.session e := by
  induction r with
  | refl s => exact ⟨hnext, List.forall_mem_nil _⟩
  | step hs _ ih =>
    obtain ⟨hs, havailable⟩ := hs
    obtain ⟨hnext', hsafe⟩ := ih (h.step hs) hnext
    refine ⟨havailable, ?_⟩
    rw [List.flatten_cons, List.forall_mem_append]
    refine ⟨(step_safe_iff h hs hnext').mpr havailable, fun e he => ?_⟩
    rw [← safe_congr (step_lineInfo h hs)]
    exact hsafe e he

/-- In a run that is safe everything is there. -/
theorem run_available (h : Loaded m s) (r : Run (Step m) s logs t)
    (hsafe : ∀ e ∈ logs.flatten, Safe s.world.session e) (hnext : NextAvailable t) :
    NextAvailable s ∧ Run (AvailableStep m) s logs t := by
  induction r with
  | refl s => exact ⟨hnext, .refl s⟩
  | step hs _ ih =>
    rw [List.flatten_cons, List.forall_mem_append] at hsafe
    obtain ⟨hnext', r⟩ := ih (h.step hs)
      (fun e he => safe_congr (step_lineInfo h hs) e ▸ hsafe.2 e he) hnext
    have havailable := (step_safe_iff h hs hnext').mp hsafe.1
    exact ⟨havailable, .step ⟨hs, havailable⟩ r⟩

end

/-- **Nothing is used that is not loaded.** In every run of the loop, and in the turn after it,
whether this returns or not: each unit that is asked for is there, a toggle in the assembly reads an
address of a buffer that is loaded, and no null pointer is passed on, exactly if before each step what
the next message needs is there. -/
theorem run_safe_iff (m : Machine) {s₀ s : MainState} {logs : List (List Effect)}
    (h₀ : Initial s₀) (r : Run (Step m) s₀ logs s) (around : Surroundings) :
    (∀ e ∈ logs.flatten ++ (turn m around s).log, Safe s.world.session e) ↔
      Run (AvailableStep m) s₀ logs s ∧ NextAvailable s := by
  have h : Loaded m s₀ := .of_initial h₀
  obtain ⟨hs, hlineInfo⟩ := run_lineInfo h r
  have hturn := turn_safe_iff hs around
  rw [List.forall_mem_append]
  constructor
  · rintro ⟨hsafe, hlast⟩
    have hnext := hturn.mp hlast
    refine ⟨(run_available h r (fun e he => ?_) hnext).2, hnext⟩
    rw [← safe_congr hlineInfo]
    exact hsafe e he
  · rintro ⟨r, hnext⟩
    refine ⟨fun e he => ?_, hturn.mpr hnext⟩
    rw [safe_congr hlineInfo]
    exact (run_safe h r hnext).2 e he

/-- The unit of `sampleSession` is confirmed, and a breakpoint is set on its first line. -/
theorem run_safe_iff_sample : ∃ logs s, Run (Step sampleMachine) (sampleStart []) logs s ∧
    .setSourceBreakpoint 0 1 ∈ (turn sampleMachine {} s).log ∧
    ∀ e ∈ logs.flatten ++ (turn sampleMachine {} s).log, Safe s.world.session e := by
  have r : Run (AvailableStep sampleMachine) (sampleStart []) _ _ :=
    .step ⟨.turn (key 10) nofun rfl, nofun⟩
      (.step ⟨.turn {} nofun rfl, by rintro _ ⟨⟩; trivial⟩
        (.step ⟨.turn {} nofun rfl, by rintro _ ⟨⟩; exact nofun⟩
          (.step ⟨.turn {} nofun rfl, by rintro _ ⟨⟩; exact nofun⟩
            (.step ⟨.turn {} nofun rfl, by rintro _ ⟨⟩; trivial⟩
              (.single ⟨.turn (key 32) nofun rfl, nofun⟩)))))
  have r' := r.mono fun _ _ _ hs => hs.1
  refine ⟨_, _, r', List.mem_cons_of_mem _ List.mem_cons_self, ?_⟩
  exact (run_safe_iff sampleMachine (sampleStart_initial []) r' {}).mpr
    ⟨r, by rintro _ ⟨⟩; exact ⟨fun _ => nofun, nofun⟩⟩

/-- The assembly gets the focus at the start, and space is typed: a buffer that is not there is
read. -/
theorem not_run_safe : ¬ ∀ (m : Machine) (s₀ s : MainState) (logs : List (List Effect))
    (around : Surroundings), Initial s₀ → Run (Step m) s₀ logs s →
      ∀ e ∈ (turn m around s).log, Safe s.world.session e := by
  intro h
  have r : Run (Step sampleMachine) (sampleStart []) _ _ :=
    .step (.turn (key 23) nofun rfl)
      (.step (.turn (key 108) nofun rfl)
        (.step (.turn {} nofun rfl)
          (.single (.turn (key 32) nofun rfl))))
  have hread := h sampleMachine _ _ _ {} (sampleStart_initial []) r (.readAddress _)
    (List.mem_cons_of_mem _ List.mem_cons_self)
  exact hread.1 rfl

end Dabugger.Main.Safety
