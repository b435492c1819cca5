import Dabugger.Debug.Events
import Dabugger.Lib.Log

/-! # The output pane

`read_inferior_output` fills the buffer from its start and begins again there when it is full, so that
the buffer holds up to the cursor what was received since (`Pane`). `view_output_buffer` draws one
byte more: its length is the offset of the cursor plus one. The last byte that it looks at was never
received, and lies behind the buffer when this is full (`run_outputPane`). -/

namespace Dabugger.Tui.OutputPane

open Dabugger.Lib.Runs Dabugger.Lib.Log Dabugger.Base Dabugger.Dwarf.Types Dabugger.Debug.Session
open Dabugger.Debug.Store Dabugger.Debug.StoreRuns Dabugger.Debug.Inferior Dabugger.Debug.Events

/-! ### `view_output_buffer` -/

/-- The calls that draw in the window. -/
inductive OutputOp where
  | wmove (y x : ℕ)
  | waddch (c : UInt8)
  deriving DecidableEq

/-- The character `\n`. -/
def newline : UInt8 := 10

/-- The loop of `view_output_buffer` from index `i` on, with so many iterations to go. It logs the
indices of the buffer that it reads; `isprint` is that of the locale. -/
def viewOutputLoop (isprint : UInt8 → Bool) (buffer : List UInt8) :
    ℕ → ℕ → ℕ → Logged ℕ Fault (List OutputOp)
  | 0, _, _ => pure []
  | left + 1, i, row => do
    emit i
    let c ← liftM (index buffer i)
    let row := if c = newline then row + 1 else row
    let moved := if c = newline then [.wmove row 2] else []
    let shown := if isprint c then [.waddch c] else []
    let ops ← viewOutputLoop isprint buffer left (i + 1) row
    return moved ++ shown ++ ops

/-- `view_output_buffer`. -/
def viewOutputBuffer (isprint : UInt8 → Bool) (output : OutputBuffer) :
    Logged ℕ Fault (List OutputOp) := do
  let length := output.cursor + 1
  let ops ← viewOutputLoop isprint output.buffer length 0 2
  return .wmove 2 2 :: ops

/-! ### What was received -/

/-- The offset at which `read_inferior_output` reads. -/
def readOffset (output : OutputBuffer) : ℕ :=
  if output.cursor + 1 > maxOutputSize then 0 else output.cursor

/-- The bytes that it has room for. -/
def room (output : OutputBuffer) : ℕ := maxOutputSize - readOffset output

/-- What was received since the cursor was last at the start of the buffer, after an event. -/
def receivedSince (w : World) (e : Event) (w' : World) (received : List UInt8) : List UInt8 :=
  match e with
  | .output pending =>
    (if readOffset w.session.output = 0 then [] else received) ++
      pending.take (room w.session.output)
  | _ => if w'.session.output.cursor = 0 then [] else received

/-- One event, together with what was received since the cursor was at the start. -/
def WatchedStep (host : Host) (s : World × List UInt8) (e : Event) (s' : World × List UInt8) : Prop :=
  Step host s.1 e s'.1 ∧ s'.2 = receivedSince s.1 e s'.1 s.2

/-- **The pane shows exactly what was received**: the cursor is in the buffer or at its end, the next
read has room for a byte, and `view_output_buffer` looks at bytes of the buffer only, and of these at
received ones. -/
structure ShowsReceived (isprint : UInt8 → Bool) (output : OutputBuffer) (received : List UInt8) :
    Prop where
  cursor : output.cursor ≤ maxOutputSize
  room : 1 ≤ room output
  inBounds : ∀ i ∈ (viewOutputBuffer isprint output).log, i < maxOutputSize
  received : ∀ i ∈ (viewOutputBuffer isprint output).log, ∃ byte, received[i]? = some byte ∧
    output.buffer[i]? = some byte

/-- The buffer holds what was received up to the cursor. -/
structure Pane (output : OutputBuffer) (received : List UInt8) : Prop where
  length : output.buffer.length = maxOutputSize
  cursor : output.cursor = received.length
  le : output.cursor ≤ maxOutputSize
  bytes : output.buffer.take output.cursor = received

section
variable {output : OutputBuffer} {received : List UInt8}

theorem readOffset_lt (output : OutputBuffer) : readOffset output < maxOutputSize := by
  rw [readOffset]
  split
  · decide
  · omega

theorem Pane.start : Pane {} [] := ⟨List.length_replicate, rfl, Nat.zero_le _, rfl⟩

/-- **A read** appends the bytes that it has room for, behind a full buffer from the start on. -/
theorem Pane.read {session : DebugSession} (h : Pane session.output received) (pending : List UInt8) :
    Pane (readInferiorOutput session pending).output
      ((if readOffset session.output = 0 then [] else received) ++
        pending.take (room session.output)) := by
  have hoffset := readOffset_lt session.output
  have hlength := h.length
  have htaken : (pending.take (room session.output)).length ≤ maxOutputSize - readOffset session.output :=
    List.length_take_le _ _
  have hkept : (session.output.buffer.take (readOffset session.output)).length =
      readOffset session.output := by
    rw [List.length_take, hlength]
    omega
  have hprefix : (if readOffset session.output = 0 then [] else received) =
      session.output.buffer.take (readOffset session.output) := by
    by_cases h0 : readOffset session.output = 0
    · rw [if_pos h0, h0, List.take_zero]
    · have hsame : readOffset session.output = session.output.cursor := by
        rw [readOffset] at h0 ⊢
        split
        · rename_i hfull
          rw [if_pos hfull] at h0
          exact absurd rfl h0
        · rfl
      rw [if_neg h0, hsame, h.bytes]
  have hsession : (readInferiorOutput session pending).output =
      { buffer := session.output.buffer.take (readOffset session.output) ++
          pending.take (room session.output) ++
          session.output.buffer.drop (readOffset session.output +
            (pending.take (room session.output)).length)
        cursor := readOffset session.output + (pending.take (room session.output)).length } := rfl
  rw [hsession, hprefix]
  constructor
  · simp only [List.length_append, List.length_drop, hkept, hlength]
    omega
  · rw [List.length_append, hkept]
  · show readOffset session.output + _ ≤ _
    omega
  · rw [List.take_left']
    rw [List.length_append, hkept]

end

/-! ### Runs -/

/-- An event other than a read leaves the buffer, or clears it. -/
theorem step_output {host : Host} {w w' : World} {e : Event} (h : Step host w e w')
    (hi : StoreInv w.session) : (∃ pending, e = .output pending) ∨
      w'.session.output = w.session.output ∨ w'.session.output = {} := by
  have hstore : ∀ {session : DebugSession}, StoreStep w.session session →
      session.output = w.session.output := fun h => by cases h <;> rfl
  cases h with
  | toggleBreakpoint h => exact .inr (.inl (hstore (toggleBreakpoint_step hi.toStoreKeys h)))
  | toggleSourceBreakpoint h =>
    exact .inr (.inl (hstore (toggleSourceBreakpoint_step hi.toStoreKeys h)))
  | runInferior h =>
    refine .inr (.inl ?_)
    cases onRunInferior_started h with
    | spawned _ _ hsession => rw [hsession]
    | continued | nothing => rfl
  | signalChild h =>
    cases handleInferiorSignal_handled h with
    | exited => exact .inr (.inr rfl)
    | nothing | hit | miss | other | signaled => exact .inr (.inl rfl)
  | output pending => exact .inl ⟨pending, rfl⟩
  | execute | trap | stop | exit | kill => exact .inr (.inl rfl)

/-- **One event** keeps the pane. -/
theorem WatchedStep.pane {host : Host} {s s' : World × List UInt8} {e : Event}
    (h : WatchedStep host s e s') (hi : StoreInv s.1.session) (hp : Pane s.1.session.output s.2) :
    Pane s'.1.session.output s'.2 := by
  obtain ⟨w', received'⟩ := s'
  obtain ⟨hstep, hreceived⟩ := h
  dsimp only at hstep hreceived
  subst hreceived
  have hother : w'.session.output = s.1.session.output ∨ w'.session.output = {} →
      Pane w'.session.output (if w'.session.output.cursor = 0 then [] else s.2) := by
    rintro (hsame | hclear)
    · rw [hsame]
      split
      · rename_i h0
        have hlength := hp.cursor
        rw [h0] at hlength
        rwa [List.length_eq_zero_iff.mp hlength.symm] at hp
      · exact hp
    · rw [hclear, if_pos rfl]
      exact .start
  cases e with
  | output pending =>
    cases hstep
    exact hp.read pending
  | _ =>
    refine hother ((step_output hstep hi).resolve_left ?_)
    rintro ⟨_, ⟨⟩⟩

/-- **The pane in a run.** -/
theorem run_pane {host : Host} {w₀ w : World} {es : List Event} {received : List UInt8}
    (h₀ : Initial w₀) (r : Run (WatchedStep host) (w₀, []) es (w, received)) :
    Pane w.session.output received := by
  have hstart : StoreInv w₀.session ∧ Pane w₀.session.output [] := by
    refine ⟨h₀.inv, ?_⟩
    obtain ⟨programData, lineInfo, rfl⟩ := h₀
    exact .start
  have hboth := r.invariant (I := fun s => StoreInv s.1.session ∧ Pane s.1.session.output s.2)
    (fun _ _ _ hs h => ⟨hs.1.inv h.1, hs.pane h.1 h.2⟩) hstart
  exact hboth.2

/-- The loop reads one index after another, up to one behind the buffer. -/
theorem log_viewOutputLoop (isprint : UInt8 → Bool) (buffer : List UInt8) :
    ∀ left i row : ℕ, i + left ≤ buffer.length + 1 →
      (viewOutputLoop isprint buffer left i row).log = List.range' i left
  | 0, _, _, _ => rfl
  | left + 1, i, row, h => by
    rw [viewOutputLoop, emit_bind, List.range'_succ]
    by_cases hi : i < buffer.length
    · have hread : index buffer i = .ok buffer[i] := by
        rw [index, List.getElem?_eq_getElem hi]
      rw [lift_bind_of_ok hread]
      dsimp only
      rw [log_bind_pure, log_viewOutputLoop isprint buffer left (i + 1) _ (by omega)]
    · obtain rfl : left = 0 := by omega
      have hread : index buffer i = .error .outOfBounds := by
        rw [index, List.getElem?_eq_none (by omega)]
      rw [hread]
      rfl

/-- `view_output_buffer` looks at what was received, and at one index more. -/
theorem Pane.log {output : OutputBuffer} {received : List UInt8} (hp : Pane output received)
    (isprint : UInt8 → Bool) :
    (viewOutputBuffer isprint output).log = List.range (received.length + 1) := by
  have hle := hp.le
  rw [viewOutputBuffer, log_bind_pure, List.range_eq_range', ← hp.cursor]
  exact log_viewOutputLoop _ _ _ _ _ (by rw [hp.length]; omega)

/-- **The output pane.** In every run the cursor is in the buffer or at its end, each read has room for
a byte, and what was received is in the buffer; but `view_output_buffer` looks at one index more, so
that it never shows exactly what was received. -/
theorem run_outputPane (host : Host) (isprint : UInt8 → Bool) {w₀ w : World} {es : List Event}
    {received : List UInt8} (h₀ : Initial w₀)
    (r : Run (WatchedStep host) (w₀, []) es (w, received)) :
    w.session.output.cursor ≤ maxOutputSize ∧ 1 ≤ room w.session.output ∧
      (∀ i < received.length, w.session.output.buffer[i]? = received[i]?) ∧
      (viewOutputBuffer isprint w.session.output).log = List.range (received.length + 1) ∧
      ¬ ShowsReceived isprint w.session.output received := by
  have hp := run_pane h₀ r
  have hlog := hp.log isprint
  refine ⟨hp.le, ?_, ?_, hlog, fun h => ?_⟩
  · have hoffset := readOffset_lt w.session.output
    rw [room]
    omega
  · intro i hi
    rw [← hp.bytes, List.getElem?_take_of_lt (by rw [hp.cursor]; exact hi)]
  · obtain ⟨byte, hbyte, -⟩ := h.received received.length (by rw [hlog]; exact List.self_mem_range_succ)
    rw [List.getElem?_eq_none (Nat.le_refl _)] at hbyte
    cases hbyte

/-- A world without a process, which has received these reads. -/
def readWorld (reads : List (List UInt8)) : World :=
  ⟨reads.foldl readInferiorOutput (sampleSession []), none⟩

/-- A run of one read. -/
theorem watchedRun_read (pending : List UInt8) :
    Run (WatchedStep (.zeroed true)) (readWorld [], []) [.output pending]
      (readWorld [pending], pending.take maxOutputSize) :=
  .single ⟨.output pending, rfl⟩

theorem run_outputPane_sample : (readWorld [[104, 105]]).session.output.cursor ≤ maxOutputSize ∧
    (viewOutputBuffer (fun c => decide (32 ≤ c ∧ c ≤ 126)) (readWorld [[104, 105]]).session.output).log =
      [0, 1, 2] :=
  have h := run_outputPane (.zeroed true) (fun c => decide (32 ≤ c ∧ c ≤ 126))
    ⟨_, _, rfl⟩ (watchedRun_read [104, 105])
  ⟨h.1, h.2.2.2.1⟩

/-- A read that fills the buffer: the byte behind it is looked at. -/
theorem not_showsReceived_full : ¬ ∀ (host : Host) (isprint : UInt8 → Bool) (w₀ w : World)
    (es : List Event) (received : List UInt8), Initial w₀ →
      Run (WatchedStep host) (w₀, []) es (w, received) →
        ShowsReceived isprint w.session.output received := by
  intro h
  have hrun := watchedRun_read (List.replicate maxOutputSize 97)
  have hlog := (run_pane ⟨_, _, rfl⟩ hrun).log fun _ => true
  have hshows := h _ (fun _ => true) _ _ _ _ ⟨_, _, rfl⟩ hrun
  refine absurd (hshows.inBounds maxOutputSize ?_) (lt_irrefl _)
  rw [hlog, List.take_of_length_le (by simp), List.length_replicate]
  exact List.self_mem_range_succ

end Dabugger.Tui.OutputPane
