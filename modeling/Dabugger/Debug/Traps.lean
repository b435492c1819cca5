import Dabugger.Debug.Events

/-! # The traps in the code of the debuggee

Whatever is done, the code of a debuggee that keeps it is that of the ELF but for traps
(`run_trapsOnly`). `remove_breakpoint` takes a breakpoint out of the list and leaves its trap in the
process. In a run
of toggles, run requests, hits that are handled, exits and respawns in which no breakpoint is removed
while its trap is in the process, the code is the ELF's overlaid with the listed breakpoints after
each `continue_inferior` (`run_overlaid`). A trap whose breakpoint is removed stays
(`not_overlaid_of_removed`). -/

namespace Dabugger.Debug.Traps

open Dabugger.Lib.Runs Dabugger.Lib.Words Dabugger.Base Dabugger.Dwarf.Types
  Dabugger.Debug.Session Dabugger.Debug.Store Dabugger.Debug.StoreRuns Dabugger.Debug.Inferior
  Dabugger.Debug.Events

/-! ### The code of the process -/

/-- The code is that of the ELF, with a trap exactly at the real addresses of the listed breakpoints
other than the one at `rip`. -/
def Overlaid (w : World) : Prop :=
  ∀ tracee, w.tracee = some tracee → ∀ address byte, textByte w.session address = some byte →
    tracee.memory (realAddress w.session address) =
      if Listed w.session address ∧ realAddress w.session address ≠ tracee.regs.rip then int3
      else byte

/-- The code is that of the ELF but for traps, wherever these are. -/
def TrapsOnly (w : World) : Prop :=
  ∀ tracee, w.tracee = some tracee → ∀ address byte, textByte w.session address = some byte →
    tracee.memory (realAddress w.session address) = byte ∨
      tracee.memory (realAddress w.session address) = int3

section
variable {w w' : World}

/-- What `inject_breakpoints` leaves at an address of the ELF: a trap of a listed breakpoint, or what
was there. -/
theorem overlay_injectedAddresses (session : DebugSession) (rip : UInt64) (memory : Memory)
    (address : UInt64) :
    overlay (injectedAddresses session rip session.breakpoints) int3 memory
        (realAddress session address) =
      if Listed session address ∧ realAddress session address ≠ rip then int3
      else memory (realAddress session address) :=
  if_congr realAddress_mem_injectedAddresses rfl rfl

/-- The byte that a hit puts back is the ELF's. -/
theorem originalByte_of_hit {session : DebugSession} (hi : StoreInv session) {bp : Breakpoint}
    {stop address : UInt64} {byte : UInt8}
    (hf : session.breakpoints.find? (fun bp => decide (realAddress session bp.address = stop)) =
      some bp)
    (hb : textByte session address = some byte) (hat : realAddress session address = stop) :
    bp.originalByte = byte := by
  have hreal : realAddress session bp.address = stop := by simpa using List.find?_some hf
  obtain rfl := realAddress_injective _ (hat.trans hreal.symm)
  exact Option.some.inj ((hi.originalByte bp (List.mem_of_find?_eq_some hf)).symm.trans hb)

/-- The code of the second state is from the ELF, from the listed breakpoints, or from the first
state. -/
def CodeFrom (w w' : World) : Prop :=
  ∀ tracee', w'.tracee = some tracee' → ∀ address byte, textByte w'.session address = some byte →
    tracee'.memory (realAddress w'.session address) = byte ∨
      (tracee'.memory (realAddress w'.session address) = int3 ∧ Listed w'.session address) ∨
      ∃ tracee, w.tracee = some tracee ∧ textByte w.session address = some byte ∧
        tracee'.memory (realAddress w'.session address) =
          tracee.memory (realAddress w.session address)

theorem CodeFrom.refl (w : World) : CodeFrom w w :=
  fun tracee ht _ _ hb => .inr (.inr ⟨tracee, ht, hb, rfl⟩)

theorem codeFrom_storeStep {session : DebugSession} (h : StoreStep w.session session) :
    CodeFrom w { w with session } := by
  intro tracee ht address byte hb
  rw [storeStep_textByte h] at hb
  exact .inr (.inr ⟨tracee, ht, hb, by rw [storeStep_realAddress h]⟩)

theorem codeFrom_started {child : Child} (h : Started w child w')
    (hload : ∀ process, w.session.state = .dead → child = .stopped process →
      Loaded w'.session process.memory) : CodeFrom w w' := by
  cases h with
  | @spawned process session hstate hchild =>
    rintro _ ⟨⟩ address byte hb
    dsimp only at hb ⊢
    rw [overlay_injectedAddresses]
    split
    · rename_i hl
      exact .inr (.inl ⟨rfl, hl.1⟩)
    · exact .inl (hload process hstate hchild address byte hb)
  | @continued tracee ht hs =>
    rintro _ ⟨⟩ address byte hb
    dsimp only at hb ⊢
    rw [overlay_injectedAddresses]
    split
    · rename_i hl
      exact .inr (.inl ⟨rfl, hl.1⟩)
    · exact .inr (.inr ⟨tracee, ht, hb, rfl⟩)
  | nothing => exact .refl w

theorem codeFrom_handled (hi : StoreInv w.session) (h : Handled w w') : CodeFrom w w' := by
  cases h with
  | nothing => exact .refl w
  | @hit tracee bp ht hs hf =>
    rintro _ ⟨⟩ address byte hb
    by_cases hat : realAddress w.session address = tracee.regs.rip - 1
    · refine .inl ?_
      change Function.update tracee.memory _ _ (realAddress w.session address) = byte
      rw [hat, Function.update_self]
      exact originalByte_of_hit hi hf hb hat
    · exact .inr (.inr ⟨tracee, ht, hb, Function.update_of_ne hat ..⟩)
  | @miss tracee ht | @other tracee _ ht =>
    rintro _ ⟨⟩ address byte hb
    exact .inr (.inr ⟨tracee, ht, hb, rfl⟩)
  | exited | signaled => exact nofun

/-- **What an event does to the code**: nothing but to put traps of listed breakpoints into it, or
bytes of the ELF. -/
theorem codeFrom_step {host : Host} {e : Event} (hi : StoreInv w.session)
    (h : CodeStep host w e w') : CodeFrom w w' := by
  obtain ⟨h, hcode⟩ := h
  cases h with
  | toggleBreakpoint h => exact codeFrom_storeStep (toggleBreakpoint_step hi.toStoreKeys h)
  | toggleSourceBreakpoint h =>
    exact codeFrom_storeStep (toggleSourceBreakpoint_step hi.toStoreKeys h)
  | runInferior h => exact codeFrom_started (onRunInferior_started h) hcode.loaded
  | signalChild h => exact codeFrom_handled hi (handleInferiorSignal_handled h)
  | output => exact .refl w
  | @execute tracee regs memory ht =>
    rintro _ ⟨⟩ address byte hb
    exact .inr (.inr ⟨tracee, ht, hb, hcode.executed regs memory rfl tracee ht address byte hb⟩)
  | @trap tracee ht | @stop tracee _ ht | @exit tracee ht | @kill tracee ht =>
    rintro _ ⟨⟩ address byte hb
    exact .inr (.inr ⟨tracee, ht, hb, rfl⟩)

/-- **The debuggee has no other code** than that of the ELF, and traps. -/
theorem TrapsOnly.step (hc : TrapsOnly w) (h : CodeFrom w w') : TrapsOnly w' := by
  intro tracee' ht' address byte hb
  rcases h tracee' ht' address byte hb with hcode | ⟨htrap, -⟩ | ⟨tracee, ht, hb, hmem⟩
  · exact .inl hcode
  · exact .inr htrap
  · rw [hmem]
    exact hc tracee ht address byte hb

theorem run_trapsOnly {host : Host} {es : List Event} (r : Run (CodeStep host) w es w')
    (hi : StoreInv w.session) (hc : TrapsOnly w) : TrapsOnly w' :=
  (r.invariant (I := fun w => StoreInv w.session ∧ TrapsOnly w)
    (fun _ _ _ h ⟨hi, hc⟩ => ⟨h.1.inv hi, hc.step (codeFrom_step hi h)⟩) ⟨hi, hc⟩).2

end

/-! ### The runs -/

/-- The debuggee stops at listed breakpoints only, and what it does is handled before anything
else. -/
structure Orderly (w : World) (e : Event) : Prop where
  handled : (waitpid w).isSome → e = .signalChild
  atBreakpoint : e = .trap → ∀ tracee, w.tracee = some tracee →
    ∃ bp ∈ w.session.breakpoints, realAddress w.session bp.address = tracee.regs.rip
  noStop : ∀ signal, e ≠ .stop signal

/-- A step of such a run. -/
def OrderlyStep (host : Host) (w : World) (e : Event) (w' : World) : Prop :=
  CodeStep host w e w' ∧ Orderly w e

/-- The process has the ELF's byte at the address. -/
def Untrapped (w : World) (address : UInt64) : Prop :=
  ∀ tracee, w.tracee = some tracee →
    textByte w.session address = some (tracee.memory (realAddress w.session address))

/-- A breakpoint that the event removes has no trap in the process. -/
def Clean (w : World) : Event → Prop
  | .toggleBreakpoint address => Listed w.session address → Untrapped w address
  | .toggleSourceBreakpoint compUnitIndex lineNum =>
    ∀ sb ∈ w.session.srcBreakpoints, lineKey sb = (compUnitIndex, lineNum) →
      Untrapped w sb.address
  | _ => True

/-- A step of a run in which no trap is left behind. -/
def CleanStep (host : Host) (w : World) (e : Event) (w' : World) : Prop :=
  OrderlyStep host w e w' ∧ Clean w e

section
variable {w : World} {e : Event}

/-- Where nothing is waiting to be handled, a key or an instruction is orderly. -/
theorem Orderly.of_quiet (hw : waitpid w = none) (ht : e ≠ .trap) (hs : ∀ signal, e ≠ .stop signal) :
    Orderly w e where
  handled h := by
    rw [hw] at h
    cases h
  atBreakpoint h := absurd h ht
  noStop := hs

/-- So is a trap where a running debuggee is at a breakpoint. -/
theorem Orderly.of_running {tracee : Tracee} {bp : Breakpoint} (ht : w.tracee = some tracee)
    (hs : tracee.state = .running) (hbp : bp ∈ w.session.breakpoints)
    (hrip : realAddress w.session bp.address = tracee.regs.rip) : Orderly w .trap where
  handled h := by
    rw [waitpid, ht] at h
    dsimp only at h
    rw [hs] at h
    cases h
  atBreakpoint := by
    rintro - tracee' ht'
    obtain rfl : tracee = tracee' := Option.some.inj (ht.symm.trans ht')
    exact ⟨bp, hbp, hrip⟩
  noStop := nofun

/-- Nothing is left to be handled. -/
theorem Orderly.waitpid_eq (ho : Orderly w e) (hne : e ≠ .signalChild) : waitpid w = none := by
  cases hw : waitpid w with
  | none => rfl
  | some _ => exact absurd (ho.handled (by rw [hw]; rfl)) hne

end

/-! ### What a toggle removes -/

theorem listed_of_addBreakpoint {host : Host} {session session' : DebugSession}
    {address a : UInt64} {isSet : Bool}
    (h : addBreakpoint host session address = .ok (session', isSet)) (ha : Listed session a) :
    Listed session' a := by
  obtain ⟨bp, hbp, rfl⟩ := ha
  rcases addBreakpoint_ok h with ⟨-, rfl, -⟩ | ⟨-, -, _, -, rfl⟩
  · exact ⟨bp, hbp, rfl⟩
  · exact ⟨bp, List.mem_append_left _ hbp, rfl⟩

/-- `toggle_breakpoint` removes the breakpoint at its address, or none. -/
theorem eq_of_toggleBreakpoint {host : Host} {session session' : DebugSession}
    (hk : StoreKeys session) {address a : UInt64}
    (h : toggleBreakpoint host session address = .ok session') (ha : Listed session a)
    (hn : ¬ Listed session' a) : a = address := by
  unfold toggleBreakpoint at h
  split at h
  · rw [hk.removeBreakpoint_eq] at h
    cases h
    by_contra hne
    exact hn (listed_without.mpr ⟨ha, hne⟩)
  · obtain ⟨⟨_, _⟩, hadd, h⟩ := except_bind_ok h
    cases h
    exact absurd (listed_of_addBreakpoint hadd ha) hn

/-- `toggle_source_breakpoint` removes the breakpoint of its line, or none. -/
theorem eq_of_toggleSourceBreakpoint {host : Host} {session session' : DebugSession}
    (hk : StoreKeys session) {compUnitIndex lineNum : ℕ} {a : UInt64}
    (h : toggleSourceBreakpoint host session compUnitIndex lineNum = .ok session')
    (ha : Listed session a) (hn : ¬ Listed session' a) :
    ∃ sb ∈ session.srcBreakpoints, lineKey sb = (compUnitIndex, lineNum) ∧ a = sb.address := by
  unfold toggleSourceBreakpoint at h
  split at h
  · rcases hk.removeSourceBreakpoint_ok h with rfl | ⟨sb, hsb, hkey, rfl⟩
    · exact absurd ha hn
    · refine ⟨sb, hsb, hkey, ?_⟩
      by_contra hne
      exact hn (listed_without.mpr ⟨ha, hne⟩)
  · obtain ⟨⟨_, _⟩, hset, h⟩ := except_bind_ok h
    cases h
    obtain ⟨bp, hbp, rfl⟩ := ha
    rcases setSourceBreakpoint_ok hset with ⟨-, rfl⟩ | ⟨-, -, _, _, -, -, -, rfl⟩
    · exact absurd ⟨bp, hbp, rfl⟩ hn
    · exact absurd ⟨bp, List.mem_append_left _ hbp, rfl⟩ hn

/-! ### The invariant -/

/-- **The invariant of clean runs.** The code differs from the ELF's in traps of listed breakpoints
only; where the process is stopped and its stop was reported, it has the ELF's byte; and a stop that
was not reported is that of a listed breakpoint. -/
structure TrapInv (w : World) : Prop where
  store : StoreInv w.session
  code : ∀ tracee, w.tracee = some tracee → ∀ address byte,
    textByte w.session address = some byte →
    tracee.memory (realAddress w.session address) = byte ∨
      (tracee.memory (realAddress w.session address) = int3 ∧ Listed w.session address)
  atRip : ∀ tracee signal, w.tracee = some tracee → tracee.state = .stopped signal true →
    ∀ address byte, textByte w.session address = some byte →
    realAddress w.session address = tracee.regs.rip →
    tracee.memory (realAddress w.session address) = byte
  pending : ∀ tracee signal, w.tracee = some tracee → tracee.state = .stopped signal false →
    signal = sigtrap ∧
      ∃ bp ∈ w.session.breakpoints, realAddress w.session bp.address = tracee.regs.rip - 1

section
variable {w w' : World}

/-- A breakpoint that a clean step removes has no trap in the process. -/
theorem untrapped_of_removed {host : Host} {e : Event} (hi : StoreInv w.session)
    (h : CleanStep host w e w') {a : UInt64} (ha : Listed w.session a)
    (hn : ¬ Listed w'.session a) : Untrapped w a := by
  obtain ⟨⟨⟨h, -⟩, -⟩, hclean⟩ := h
  have hsame : ¬ SameStore w.session w'.session := by
    intro hs
    rw [Listed, hs.breakpoints] at hn
    exact hn ha
  cases h with
  | toggleBreakpoint h =>
    obtain rfl := eq_of_toggleBreakpoint hi.toStoreKeys h ha hn
    exact hclean ha
  | toggleSourceBreakpoint h =>
    obtain ⟨sb, hsb, hkey, rfl⟩ := eq_of_toggleSourceBreakpoint hi.toStoreKeys h ha hn
    exact hclean sb hsb hkey
  | runInferior h => exact absurd (started_sameStore (onRunInferior_started h)) hsame
  | signalChild h => exact absurd (handled_sameStore (handleInferiorSignal_handled h)) hsame
  | output | execute | trap | stop | exit | kill => exact absurd ha hn

/-- The code after a clean step. -/
theorem TrapInv.code_step {host : Host} {e : Event} (hi : TrapInv w) (h : CleanStep host w e w')
    {tracee' : Tracee} (ht' : w'.tracee = some tracee') {address : UInt64} {byte : UInt8}
    (hb : textByte w'.session address = some byte) :
    tracee'.memory (realAddress w'.session address) = byte ∨
      (tracee'.memory (realAddress w'.session address) = int3 ∧ Listed w'.session address) := by
  rcases codeFrom_step hi.store h.1.1 tracee' ht' address byte hb with
    hcode | htrap | ⟨tracee, ht, hb, hmem⟩
  · exact .inl hcode
  · exact .inr htrap
  rw [hmem]
  rcases hi.code tracee ht address byte hb with hcode | ⟨htrap, hl⟩
  · exact .inl hcode
  by_cases hl' : Listed w'.session address
  · exact .inr ⟨htrap, hl'⟩
  · have hu := untrapped_of_removed hi.store h hl hl' tracee ht
    rw [hb] at hu
    exact .inl (Option.some.inj hu).symm

/-- The byte at `rip` of a process whose stop was reported. -/
theorem TrapInv.atRip_step {host : Host} {e : Event} (hi : TrapInv w) (h : CleanStep host w e w') :
    ∀ tracee signal, w'.tracee = some tracee → tracee.state = .stopped signal true →
      ∀ address byte, textByte w'.session address = some byte →
      realAddress w'.session address = tracee.regs.rip →
      tracee.memory (realAddress w'.session address) = byte := by
  obtain ⟨⟨⟨h, hcode⟩, ho⟩, -⟩ := h
  have hstore : ∀ {session : DebugSession}, StoreStep w.session session →
      ∀ tracee signal, w.tracee = some tracee → tracee.state = .stopped signal true →
      ∀ address byte, textByte session address = some byte →
      realAddress session address = tracee.regs.rip →
      tracee.memory (realAddress session address) = byte := by
    intro session h tracee signal ht hs address byte hb
    rw [storeStep_textByte h] at hb
    rw [storeStep_realAddress h]
    exact hi.atRip tracee signal ht hs address byte hb
  cases h with
  | toggleBreakpoint h => exact hstore (toggleBreakpoint_step hi.store.toStoreKeys h)
  | toggleSourceBreakpoint h => exact hstore (toggleSourceBreakpoint_step hi.store.toStoreKeys h)
  | runInferior h =>
    have hload := hcode.loaded
    cases onRunInferior_started h with
    | @spawned process session hstate hchild =>
      rintro _ signal ⟨⟩ - address byte hb hrip
      dsimp only at hb hrip ⊢
      rw [overlay_injectedAddresses, if_neg fun hl => hl.2 hrip]
      exact hload process hstate hchild address byte hb
    | continued => rintro _ signal ⟨⟩ ⟨⟩
    | nothing => exact hi.atRip
  | signalChild h =>
    cases handleInferiorSignal_handled h with
    | nothing => exact hi.atRip
    | @hit tracee bp ht hs hf =>
      rintro _ signal ⟨⟩ - address byte hb hat
      change realAddress w.session address = tracee.regs.rip - 1 at hat
      change Function.update tracee.memory _ _ (realAddress w.session address) = byte
      rw [hat, Function.update_self]
      exact originalByte_of_hit hi.store hf hb hat
    | @miss tracee ht hs hf =>
      obtain ⟨-, bp, hbp, hreal⟩ := hi.pending tracee _ ht hs
      exact absurd hreal (by simpa using List.find?_eq_none.mp hf bp hbp)
    | @other tracee signal ht hs hne => exact absurd (hi.pending tracee signal ht hs).1 hne
    | exited | signaled => exact nofun
  | output => exact hi.atRip
  | @execute tracee regs memory ht hs =>
    rintro _ signal ⟨⟩ hstop
    rw [hs] at hstop
    cases hstop
  | trap | exit | kill => rintro _ signal ⟨⟩ ⟨⟩
  | stop => exact absurd rfl (ho.noStop _)

/-- The stops that are not reported. -/
theorem TrapInv.pending_step {host : Host} {e : Event} (hi : TrapInv w)
    (h : CleanStep host w e w') :
    ∀ tracee signal, w'.tracee = some tracee → tracee.state = .stopped signal false →
      signal = sigtrap ∧
        ∃ bp ∈ w'.session.breakpoints, realAddress w'.session bp.address = tracee.regs.rip - 1 := by
  obtain ⟨⟨⟨h, -⟩, ho⟩, -⟩ := h
  cases h with
  | toggleBreakpoint | toggleSourceBreakpoint =>
    -- a stop would be waiting to be handled
    intro tracee signal ht hs
    have hw := ho.waitpid_eq (by rintro ⟨⟩)
    rw [waitpid, show w.tracee = some tracee from ht] at hw
    dsimp only at hw
    rw [hs] at hw
    cases hw
  | runInferior h =>
    cases onRunInferior_started h with
    | spawned | continued => rintro _ signal ⟨⟩ ⟨⟩
    | nothing => exact hi.pending
  | signalChild h =>
    cases handleInferiorSignal_handled h with
    | nothing => exact hi.pending
    | hit | miss | other => rintro _ signal ⟨⟩ ⟨⟩
    | exited | signaled => rintro _ signal ⟨⟩
  | output => exact hi.pending
  | @execute tracee regs memory ht hs =>
    rintro _ signal ⟨⟩ hstop
    rw [hs] at hstop
    cases hstop
  | @trap tracee ht hs hrip =>
    rintro _ signal ⟨⟩ ⟨⟩
    obtain ⟨bp, hbp, hat⟩ := ho.atBreakpoint rfl tracee ht
    refine ⟨rfl, bp, hbp, ?_⟩
    change _ = tracee.regs.rip + 1 - 1
    rw [UInt64.add_sub_cancel]
    exact hat
  | stop => exact absurd rfl (ho.noStop _)
  | exit | kill => rintro _ signal ⟨⟩ ⟨⟩

/-- **A clean step keeps the invariant.** -/
theorem TrapInv.step {host : Host} {e : Event} (hi : TrapInv w) (h : CleanStep host w e w') :
    TrapInv w' where
  store := h.1.1.1.inv hi.store
  code _ ht _ _ hb := hi.code_step h ht hb
  atRip := hi.atRip_step h
  pending := hi.pending_step h

/-- What the invariant gives when a stopped process is continued, or a process spawned. -/
theorem TrapInv.overlaid {child : Child} (hi : TrapInv w) (hw : waitpid w = none)
    (h : Started w child w')
    (hload : ∀ process, w.session.state = .dead → child = .stopped process →
      Loaded w'.session process.memory)
    {tracee : Tracee} (ht : w.tracee = some tracee) (hs : tracee.isStopped = true) :
    Overlaid w' := by
  cases h with
  | @spawned process session hstate hchild =>
    rintro _ ⟨⟩ address byte hb
    dsimp only at hb ⊢
    rw [overlay_injectedAddresses, hload process hstate hchild address byte hb]
  | @continued tracee' ht' _ =>
    rintro _ ⟨⟩ address byte hb
    dsimp only at hb ⊢
    rw [overlay_injectedAddresses]
    split
    · rfl
    rename_i hl
    rcases hi.code tracee' ht' address byte hb with hcode | ⟨-, hl'⟩
    · exact hcode
    -- listed, so at `rip`
    have hat : realAddress w.session address = tracee'.regs.rip := by
      by_contra hne
      exact hl ⟨hl', hne⟩
    rw [ht] at ht'
    cases ht'
    obtain ⟨signal, hstate⟩ := reported_of_waitpid hw ht hs
    exact hi.atRip tracee signal ht hstate address byte hb hat
  | nothing hn => exact absurd hs (by rw [hn tracee ht]; exact Bool.false_ne_true)

end

/-! ### The runs -/

/-- **The code after a continue.** In every run of toggles, run requests, hits that are handled,
exits and respawns that removes no breakpoint while its trap is in the process, each
`continue_inferior` on a stopped process leaves the ELF's code with a trap exactly at the listed
breakpoints other than the one at `rip`. -/
theorem run_overlaid (host : Host) {w₀ w w' : World} {es : List Event} (h₀ : Initial w₀)
    (r : Run (CleanStep host) w₀ es w) {tracee : Tracee} (ht : w.tracee = some tracee)
    (hs : tracee.isStopped = true) {child : Child}
    (h : CleanStep host w (.runInferior child) w') : Overlaid w' := by
  have hi : TrapInv w := by
    refine r.invariant (fun _ _ _ hstep hi => hi.step hstep) ?_
    obtain ⟨programData, lineInfo, rfl⟩ := h₀
    exact ⟨StoreInv.of_empty rfl rfl, nofun, nofun, nofun⟩
  obtain ⟨⟨⟨h, hcode⟩, ho⟩, -⟩ := h
  cases h with
  | runInferior h =>
    exact hi.overlaid (ho.waitpid_eq nofun) (onRunInferior_started h) hcode.loaded ht hs

/-- The process stops at its breakpoint, which is removed once the hit is handled; another one is set,
and the process is continued. -/
theorem run_overlaid_sample :
    Overlaid (sampleWorld [⟨0x1009, 0x90⟩]
      ⟨overlay [0x6009] int3 restoredMemory, { rip := 0x6008 }, .running⟩ { rip := 0x6008 }) := by
  have hstart : Run (CleanStep (Host.zeroed true)) ⟨sampleSession [], none⟩ _
      (sampleWorld [⟨0x1008, 0x90⟩] ⟨sampleMemory, { rip := 0x6000 }, .stopped sigtrap true⟩) :=
    .step ⟨⟨sample_toggle, .of_quiet rfl nofun nofun⟩, fun _ => nofun⟩
      (.single ⟨⟨sample_start, .of_quiet rfl nofun nofun⟩, trivial⟩)
  have hcontinue := sample_run [⟨0x1008, 0x90⟩] sampleMemory { rip := 0x6000 } {}
  rw [sample_continue] at hcontinue
  have htrap : Orderly (sampleWorld [⟨0x1008, 0x90⟩]
      ⟨overlay [0x6008] int3 sampleMemory, { rip := 0x6008 }, .running⟩) .trap :=
    .of_running rfl rfl (List.mem_singleton_self _) rfl
  have hhit := hstart.trans (.step ⟨⟨hcontinue, .of_quiet rfl nofun nofun⟩, trivial⟩
    (.step ⟨⟨sample_execute _ _ _ _ { rip := 0x6008 } (by decide), .of_quiet rfl nofun nofun⟩,
        trivial⟩
      (.step ⟨⟨sample_trap _ _ { rip := 0x6008 } _ (by decide), htrap⟩, trivial⟩
        (.single ⟨⟨sample_restored, ⟨fun _ => rfl, nofun, nofun⟩⟩, trivial⟩))))
  have hremove : CleanStep (Host.zeroed true)
      (sampleWorld [⟨0x1008, 0x90⟩] ⟨restoredMemory, { rip := 0x6008 }, .stopped sigtrap true⟩
        { rip := 0x6008 })
      (.toggleBreakpoint 0x1008)
      (sampleWorld [] ⟨restoredMemory, { rip := 0x6008 }, .stopped sigtrap true⟩
        { rip := 0x6008 }) := by
    refine ⟨⟨⟨.toggleBreakpoint rfl, nofun, nofun⟩, .of_quiet rfl nofun nofun⟩, fun _ => ?_⟩
    rintro _ ⟨⟩
    rfl
  have hset : CleanStep (Host.zeroed true)
      (sampleWorld [] ⟨restoredMemory, { rip := 0x6008 }, .stopped sigtrap true⟩ { rip := 0x6008 })
      (.toggleBreakpoint 0x1009)
      (sampleWorld [⟨0x1009, 0x90⟩] ⟨restoredMemory, { rip := 0x6008 }, .stopped sigtrap true⟩
        { rip := 0x6008 }) :=
    ⟨⟨⟨.toggleBreakpoint rfl, nofun, nofun⟩, .of_quiet rfl nofun nofun⟩, fun hl => absurd hl nofun⟩
  have h := run_overlaid (Host.zeroed true) ⟨_, _, rfl⟩ (hhit.trans (.step hremove (.single hset)))
    rfl rfl ⟨⟨sample_run _ _ _ _, .of_quiet rfl nofun nofun⟩, trivial⟩
  rw [sample_continue] at h
  exact h

/-- The process is spawned with the breakpoint at `0x1008`, which is removed before the process is
continued: its trap stays. -/
theorem stale_trap :
    ¬ ∀ (w₀ w w' : World) (es : List Event) (tracee : Tracee) (child : Child), Initial w₀ →
      Run (OrderlyStep (Host.zeroed true)) w₀ es w → w.tracee = some tracee →
      tracee.isStopped = true → OrderlyStep (Host.zeroed true) w (.runInferior child) w' →
      Overlaid w' := by
  intro h
  have hremove : CodeStep (Host.zeroed true)
      (sampleWorld [⟨0x1008, 0x90⟩] ⟨sampleMemory, { rip := 0x6000 }, .stopped sigtrap true⟩)
      (.toggleBreakpoint 0x1008)
      (sampleWorld [] ⟨sampleMemory, { rip := 0x6000 }, .stopped sigtrap true⟩) :=
    ⟨.toggleBreakpoint rfl, nofun, nofun⟩
  have ho := h _ _ _ _ _ _ ⟨_, _, rfl⟩
    (.step ⟨sample_toggle, .of_quiet rfl nofun nofun⟩
      (.step ⟨sample_start, .of_quiet rfl nofun nofun⟩
        (.single ⟨hremove, .of_quiet rfl nofun nofun⟩))) rfl rfl
    ⟨sample_run _ _ _ _, .of_quiet rfl nofun nofun⟩
  rw [sample_continue] at ho
  exact absurd (ho _ rfl 0x1008 0x90 rfl) (by decide)

/-- **A removed breakpoint leaves its trap.** When a listed breakpoint is toggled off while the
process is stopped and has its trap, the next continue does not leave the overlaid code. -/
theorem not_overlaid_of_removed (host : Host) {w : World} (hi : StoreInv w.session)
    {tracee : Tracee} (ht : w.tracee = some tracee) (hs : tracee.isStopped = true)
    {address : UInt64} {byte : UInt8} (hb : textByte w.session address = some byte)
    (hl : Listed w.session address)
    (htrap : tracee.memory (realAddress w.session address) ≠ byte) {session : DebugSession}
    (h : toggleBreakpoint host w.session address = .ok session) :
    ¬ Overlaid (continueInferior { w with session }) := by
  obtain rfl : without address w.session = session := by
    unfold toggleBreakpoint at h
    obtain ⟨bp, hbp, rfl⟩ := hl
    rw [if_pos (List.any_eq_true.mpr ⟨bp, hbp, by simp⟩), hi.removeBreakpoint_eq] at h
    exact Except.ok.inj h
  have ht' : ({ w with session := without address w.session } : World).tracee = some tracee := ht
  rw [continueInferior_eq, ptrace_of_stopped ht' hs]
  intro ho
  have hn : ¬ Listed (without address w.session) address := fun hl' => (listed_without.mp hl').2 rfl
  have hcode := ho _ rfl address byte hb
  dsimp only at hcode
  rw [overlay_injectedAddresses, if_neg fun h => hn h.1, if_neg fun h => hn h.1] at hcode
  exact htrap hcode

end Dabugger.Debug.Traps
