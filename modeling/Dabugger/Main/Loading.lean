import Dabugger.Debug.Maps
import Dabugger.Debug.Traps
import Dabugger.Main.Markers
import Dabugger.Main.Startup

/-! # The process is where the debugger looks for it

`Executed` is about the kernel: `execv` maps the segments of the file with a bias, and the first mapping
of the file in `/proc/pid/maps` is that of the first segment, from the start of a page on. The debugger
adds the difference of the address that `get_load_address` finds and that of the segment to the addresses
of the file. This is the bias if and only if the segment itself begins at a page and the lines of the
listing are recognised, or by accident (`spawn_placed_iff`). In a run in which this is so, the debugger
finds the code of the ELF in the debuggee, and every breakpoint is where the process that was spawned
last has the code of its line (`run_placed`). -/

namespace Dabugger.Main.Loading

open Dabugger.Lib.Runs Dabugger.Lib.Log Dabugger.Lib.Streams Dabugger.Lib.Searches
open Dabugger.Lib.Words (Memory)
open Dabugger.Base Dabugger.Dwarf.Types Dabugger.Dwarf.Section Dabugger.Elf.File Dabugger.Elf.Extraction
open Dabugger.Debug.Session Dabugger.Debug.Store Dabugger.Debug.StoreRuns Dabugger.Debug.Inferior
  Dabugger.Debug.Events Dabugger.Debug.Traps Dabugger.Debug.Registers Dabugger.Debug.Maps
open Dabugger.Tui.Types Dabugger.Tui.Update Dabugger.Main.Loop Dabugger.Main.Delivery
  Dabugger.Main.Screen Dabugger.Main.Markers Dabugger.Main.Startup

/-! ### The segments of a file -/

section
variable (image : List UInt8)

/-- `p_offset` of the program header `i`. -/
def segmentOffset (i : ℕ) : ℕ := uint image ((header image).phoff.toNat + phdrSize * i + 8) 8

/-- `p_filesz` of the program header `i`. -/
def segmentSize (i : ℕ) : ℕ := uint image ((header image).phoff.toNat + phdrSize * i + 32) 8

/-- The segment is loaded. -/
def IsLoaded (i : ℕ) : Prop := (programHeader image i).type = ptLoad

instance (i : ℕ) : Decidable (IsLoaded image i) := inferInstanceAs (Decidable (_ = _))

/-- The start of the page of an address. -/
def pageStart (address : UInt64) : UInt64 := address - address % 0x1000

/-- The file can be loaded: `first` is the first segment to be loaded, and `.text` is in one of them. -/
structure Loadable (first : ℕ) : Prop where
  isFirst : IsFirst (IsLoaded image) (header image).phnum.toNat first
  text : ∀ text, lastSection image .text = some text → ∃ i < (header image).phnum.toNat,
    IsLoaded image i ∧ segmentOffset image i ≤ text.offset.toNat ∧
      text.offset.toNat + text.size.toNat ≤ segmentOffset image i + segmentSize image i ∧
      text.addr = (programHeader image i).vaddr +
        UInt64.ofNat (text.offset.toNat - segmentOffset image i)

/-- The segments are in memory, with a bias. -/
def Mapped (bias : UInt64) (memory : Memory) : Prop :=
  ∀ i < (header image).phnum.toNat, IsLoaded image i → ∀ k < segmentSize image i, ∀ byte,
    image[segmentOffset image i + k]? = some byte →
      memory (bias + (programHeader image i).vaddr + UInt64.ofNat k) = byte

/-- A process that `execv` has made: with which bias, and how the kernel lists its mappings. -/
structure Execution where
  bias : UInt64
  listing : Listing
  process : Process

/-- **What the kernel does with the file.** The segments are in memory, everything is aligned to pages,
and the first mapping of the file is that of the first segment. -/
structure Executed (first : ℕ) (path : AbsolutePath) (x : Execution) : Prop where
  mapped : Mapped image x.bias x.process.memory
  biasAligned : x.bias % 0x1000 = 0
  startsAligned : ∀ e ∈ x.listing.entries, e.mapping.start % 0x1000 = 0
  listed : loadAddress path.bytes x.listing.entries 0 =
    (true, x.bias + pageStart (programHeader image first).vaddr)

/-- What `get_load_address` finds in the listing is the `loadAddress` of the process. -/
def Execution.Found (path : AbsolutePath) (x : Execution) : Prop :=
  getLoadAddress path.bytes (x.listing.entries.map Entry.line) 0 =
    .ok (x.process.loadAddress.isSome, x.process.loadAddress.getD 0)

end

/-! ### The addresses in the process -/

section
variable {image : List UInt8} {first : ℕ} {path : AbsolutePath} {bias : UInt64} {x : Execution}
  {session : DebugSession} {memory : Memory}

/-- The session is one of the file. -/
structure OfFile (image : List UInt8) (first : ℕ) (session : DebugSession) : Prop where
  loadAddress : session.programData.loadAddress = (programHeader image first).vaddr
  text : ∀ address, textByte session address = codeByte image address

theorem OfFile.congr {session' : DebugSession} (h : OfFile image first session)
    (hp : session'.programData = session.programData) : OfFile image first session' :=
  ⟨hp ▸ h.loadAddress, fun address => by rw [textByte, hp]; exact h.text address⟩

/-- The addresses are right if the load address is that of the segment. -/
theorem realAddress_iff (hf : OfFile image first session) :
    (∀ address, realAddress session address = bias + address) ↔
      session.procLoadAddress = bias + (programHeader image first).vaddr := by
  simp only [realAddress, getAddressFromVma, hf.loadAddress]
  constructor
  · intro h
    have hzero := h 0
    grind
  · intro h address
    grind

theorem pageStart_of_aligned {address : UInt64} (h : address % 0x1000 = 0) :
    pageStart address = address := by
  rw [pageStart, h, UInt64.sub_zero]

/-- A segment of an aligned bias begins at a page if its address in the process does. -/
theorem aligned_of_add {address : UInt64} (hbias : bias % 0x1000 = 0)
    (h : (bias + address) % 0x1000 = 0) : address % 0x1000 = 0 := by
  rw [← UInt64.toNat_inj, UInt64.toNat_mod] at hbias h ⊢
  rw [UInt64.toNat_add] at h
  change _ % 4096 = 0 at hbias h ⊢
  omega

/-- The first mapping is found if its line and those before it are recognised. -/
theorem Executed.loadAddress_iff (h : Executed image first path x) (hfound : x.Found path) :
    x.process.loadAddress = some (x.bias + pageStart (programHeader image first).vaddr) ↔
      AllRecognised path.bytes x.listing.entries := by
  rw [← getLoadAddress_finds_iff path x.listing 0, h.listed, hfound]
  cases x.process.loadAddress <;> simp

/-- **The code is where the debugger looks for it.** -/
theorem loaded_of_mapped (hl : Loadable image first) (hm : Mapped image bias memory)
    (htext : ∀ address, textByte session address = codeByte image address)
    (hreal : ∀ address, realAddress session address = bias + address) : Loaded session memory := by
  intro address byte hbyte
  rw [htext, codeByte, sectionContents, sectionAddress] at hbyte
  cases hsection : lastSection image .text with
  | none => rw [hsection] at hbyte; cases hbyte
  | some text =>
    rw [hsection] at hbyte
    obtain ⟨i, hi, hload, hle, hsize, haddr⟩ := hl.text text hsection
    simp only [Option.elim_some, contents] at hbyte
    have hlt : (address - text.addr).toNat < text.size.toNat := by
      have hlength := (List.getElem?_eq_some_iff.mp hbyte).1
      have hle := length_slice_le image text.offset.toNat text.size.toNat
      omega
    rw [getElem?_slice _ _ hlt] at hbyte
    -- the byte, counted from the start of the segment
    have hk : segmentOffset image i + (text.offset.toNat - segmentOffset image i +
        (address - text.addr).toNat) = text.offset.toNat + (address - text.addr).toNat := by omega
    have hbyte' := hm i hi hload (text.offset.toNat - segmentOffset image i +
      (address - text.addr).toNat) (by omega) byte (hk ▸ hbyte)
    rw [hreal, ← hbyte', UInt64.ofNat_add, UInt64.ofNat_toNat]
    congr 1
    grind

/-- What `spawn_inferior` does to the session. -/
theorem spawnInferior_session {host : Host} {w w' : World}
    (h : spawnInferior host w (.stopped process) = .ok w') :
    w'.session.procLoadAddress = process.loadAddress.getD w.session.procLoadAddress ∧
      w'.session.programData = w.session.programData := by
  obtain ⟨_, -, h⟩ := except_bind_ok h
  cases h
  rw [injectBreakpoints_eq, session_ptrace]
  exact ⟨rfl, rfl⟩

/-- **A process is spawned**: its addresses are those that the debugger computes if and only if the first
segment begins at a page and the lines up to its own are recognised, or nothing is found and the load
address from before is the right one. -/
theorem spawn_placed_iff {host : Host} {w w' : World} (hf : OfFile image first w.session)
    (hx : Executed image first path x) (hfound : x.Found path)
    (h : spawnInferior host w (.stopped x.process) = .ok w') :
    (∀ address, realAddress w'.session address = x.bias + address) ↔
      ((programHeader image first).vaddr % 0x1000 = 0 ∧
        AllRecognised path.bytes x.listing.entries) ∨
      (x.process.loadAddress = none ∧
        w.session.procLoadAddress = x.bias + (programHeader image first).vaddr) := by
  obtain ⟨hproc, hprogram⟩ := spawnInferior_session h
  rw [realAddress_iff (hf.congr hprogram), hproc, ← hx.loadAddress_iff hfound]
  cases hload : x.process.loadAddress with
  | none => simp
  | some start =>
    rw [Option.getD_some, Option.some.injEq, or_iff_left fun h => Option.some_ne_none _ h.1]
    constructor
    · rintro rfl
      -- a line of the listing, so the start of a page
      have hstart : getLoadAddress path.bytes (x.listing.entries.map Entry.line) 0 =
          .ok (true, x.bias + (programHeader image first).vaddr) := by
        rw [hfound, hload]
        rfl
      obtain ⟨e, he, hentry⟩ := exists_of_getLoadAddress path hstart
      have haligned := aligned_of_add hx.biasAligned (hentry ▸ hx.startsAligned e he)
      exact ⟨haligned, by rw [pageStart_of_aligned haligned]⟩
    · rintro ⟨haligned, rfl⟩
      rw [pageStart_of_aligned haligned]

end

/-! ### Runs -/

/-- Where the process of a session is has not changed, and no process has been made. -/
structure SamePlace (w w' : World) : Prop where
  inv : StoreInv w'.session
  procLoadAddress : w'.session.procLoadAddress = w.session.procLoadAddress
  programData : w'.session.programData = w.session.programData
  tracee : w.tracee = none → w'.tracee = none

section
variable {host : Host} {w w' : World}

theorem SamePlace.refl (hi : StoreInv w.session) : SamePlace w w := ⟨hi, rfl, rfl, id⟩

theorem samePlace_continueInferior (hi : StoreInv w.session) :
    SamePlace w (continueInferior w) := by
  rw [continueInferior_eq]
  refine ⟨?_, ?_, ?_, fun hnone => ?_⟩
  · rw [session_ptrace]; exact hi
  · rw [session_ptrace]
  · rw [session_ptrace]
  · rw [ptrace, hnone]
    exact hnone

theorem SamePlace.trans {w'' : World} (h : SamePlace w w') (h' : SamePlace w' w'') :
    SamePlace w w'' :=
  ⟨h'.inv, h'.procLoadAddress.trans h.procLoadAddress, h'.programData.trans h.programData,
    h'.tracee ∘ h.tracee⟩

theorem procLoadAddress_of_storeStep {session session' : DebugSession} (h : StoreStep session session') :
    session'.procLoadAddress = session.procLoadAddress := by
  cases h <;> rfl

/-- **An event** other than `on_run_inferior`. -/
theorem samePlace_of_held {e : Event} (h : HeldStep host w e w') (hi : StoreInv w.session) :
    SamePlace w w' := by
  obtain ⟨h, hrun⟩ := h
  have hinv := h.inv hi
  have hprogram := h.programData hi
  cases h with
  | toggleBreakpoint h =>
    have hs := toggleBreakpoint_step hi.toStoreKeys h
    exact ⟨hinv, procLoadAddress_of_storeStep hs, hprogram, id⟩
  | toggleSourceBreakpoint h =>
    have hs := toggleSourceBreakpoint_step hi.toStoreKeys h
    exact ⟨hinv, procLoadAddress_of_storeStep hs, hprogram, id⟩
  | runInferior => exact absurd rfl (hrun _)
  | signalChild h =>
    cases handleInferiorSignal_handled h with
    | nothing => exact .refl hi
    | hit ht | miss ht | other ht =>
      exact ⟨hinv, rfl, hprogram, fun hnone => absurd (hnone.symm.trans ht) nofun⟩
    | exited | signaled => exact ⟨hinv, rfl, hprogram, fun _ => rfl⟩
  | output => exact ⟨hinv, rfl, hprogram, id⟩
  | execute ht | trap ht | stop ht | exit ht | kill ht =>
    exact ⟨hinv, rfl, hprogram, fun hnone => absurd (hnone.symm.trans ht) nofun⟩

theorem run_samePlace {es : List Event} (r : Run (HeldStep host) w es w')
    (hi : StoreInv w.session) : SamePlace w w' :=
  r.invariant (I := fun w' => SamePlace w w') (fun _ _ _ hs h => h.trans (samePlace_of_held hs h.inv))
    (.refl hi)

end

/-- The turn spawns a process. -/
def Spawns (s : MainState) : Prop :=
  s.msgQueue.pending.head? = some .runDebuggee ∧ s.world.session.state = .dead

section
variable {m : Machine} {around : Surroundings} {s t : MainState}

/-- A turn that passes `MSG_RUN_DEBUGGEE`. -/
theorem turn_run (h : (turn m around s).result = .ok t)
    (hpassed : s.msgQueue.pending.head? = some .runDebuggee) :
    onRunInferior m.host s.world around.child = .ok t.world := by
  cases hp : s.msgQueue.pending with
  | nil =>
    rw [hp] at hpassed
    cases hpassed
  | cons msg msgs =>
    rw [hp] at hpassed
    cases hpassed
    obtain ⟨msgQueue, -, hturn⟩ := turn_deliver m around hp
    rw [hturn] at h
    obtain ⟨model, cmd, hu, h, -⟩ := handle_ok h
    cases hu
    obtain ⟨world, hworld, h, -⟩ := bind_ok h
    cases h
    exact hworld

/-- **A turn that spawns nothing** keeps the code, and where it is. -/
theorem turn_code (hi : StoreInv s.world.session) (h : (turn m around s).result = .ok t)
    (hspawns : ¬ Spawns s) :
    SamePlace s.world t.world ∧ ∃ es, Run (CodeStep m.host) s.world es t.world := by
  by_cases hpassed : s.msgQueue.pending.head? = some .runDebuggee
  · have hlive : s.world.session.state ≠ .dead := fun hdead => hspawns ⟨hpassed, hdead⟩
    have hrun := turn_run h hpassed
    refine ⟨?_, _, .single ⟨.runInferior hrun, fun _ _ hdead => absurd hdead hlive, nofun⟩⟩
    rw [onRunInferior] at hrun
    cases hs : s.world.session.state with
    | dead => exact absurd hs hlive
    | running | breakpoint =>
      rw [hs] at hrun
      have hworld : continueInferior s.world = t.world := Except.ok.inj hrun
      rw [← hworld]
      exact samePlace_continueInferior hi
  · rw [← Option.mem_toList, ← List.take_one, ← passed_turn m around] at hpassed
    obtain ⟨es, r⟩ := turn_quiet h hpassed
    exact ⟨run_samePlace (r.mono fun _ _ _ h => h.1) hi, es, r.mono fun _ _ _ h => h.code⟩

end

/-- The state of the loop, and the process that was spawned last. -/
structure KernelState where
  main : MainState
  execution : Option Execution

/-- A step of the loop with a debuggee that keeps its code; what is spawned is a process that `execv`
makes of the file, and the lines of its listing are recognised. -/
inductive KernelStep (m : Machine) (image : List UInt8) (first : ℕ) (path : AbsolutePath)
    (s : KernelState) : List Effect → KernelState → Prop
  | turn (around : Surroundings) {main : MainState} (hgo : s.main.currentMsg ≠ .quit)
      (h : (Loop.turn m around s.main).result = .ok main) (hspawns : ¬ Spawns s.main) :
      KernelStep m image first path s (Loop.turn m around s.main).log ⟨main, s.execution⟩
  | spawn (around : Surroundings) (x : Execution) {main : MainState}
      (hgo : s.main.currentMsg ≠ .quit) (h : (Loop.turn m around s.main).result = .ok main)
      (hspawns : Spawns s.main) (hchild : around.child = .stopped x.process)
      (hx : Executed image first path x) (hfound : x.Found path)
      (hrecognised : AllRecognised path.bytes x.listing.entries) :
      KernelStep m image first path s (Loop.turn m around s.main).log ⟨main, some x⟩
  | debuggee {e : Event} {world : World} (he : OfDebuggee e)
      (h : CodeStep m.host s.main.world e world) :
      KernelStep m image first path s [] ⟨{ s.main with world }, s.execution⟩

/-- What holds in every state: the process is the one that was spawned last. -/
structure Placed (image : List UInt8) (first : ℕ) (path : AbsolutePath) (w : World)
    (execution : Option Execution) : Prop where
  inv : StoreInv w.session
  file : OfFile image first w.session
  process : w.tracee ≠ none → ∃ x, execution = some x ∧ Executed image first path x ∧
    w.session.procLoadAddress = x.bias + (programHeader image first).vaddr

section
variable {m : Machine} {image : List UInt8} {first : ℕ} {path : AbsolutePath} {host : Host}
  {w w' : World} {execution : Option Execution} {s t : KernelState} {log : List Effect}

theorem KernelStep.loop (h : KernelStep m image first path s log t) : Loop.Step m s.main log t.main := by
  cases h with
  | turn around hgo h | spawn around _ hgo h => exact .turn around hgo h
  | debuggee he h => exact .debuggee he h.1

theorem run_loop {logs : List (List Effect)} (r : Run (KernelStep m image first path) s logs t) :
    Run (Loop.Step m) s.main logs t.main := by
  induction r with
  | refl s => exact .refl _
  | step h _ ih => exact .step h.loop ih

theorem Placed.samePlace (h : Placed image first path w execution) (hs : SamePlace w w') :
    Placed image first path w' execution where
  inv := hs.inv
  file := h.file.congr hs.programData
  process ht := by
    obtain ⟨x, hlast, hx, hproc⟩ := h.process fun hnone => ht (hs.tracee hnone)
    exact ⟨x, hlast, hx, hs.procLoadAddress.trans hproc⟩

/-- The code of a process that is spawned is where the debugger looks for it. -/
theorem Placed.spawn (hl : Loadable image first)
    (hpage : (programHeader image first).vaddr % 0x1000 = 0) (h : Placed image first path w execution)
    (hdead : w.session.state = .dead) {x : Execution} (hx : Executed image first path x)
    (hfound : x.Found path) (hrecognised : AllRecognised path.bytes x.listing.entries)
    (hrun : onRunInferior host w (.stopped x.process) = .ok w') :
    CodeStep host w (.runInferior (.stopped x.process)) w' ∧
      Placed image first path w' (some x) := by
  have hspawn : spawnInferior host w (.stopped x.process) = .ok w' := by
    rwa [onRunInferior, hdead] at hrun
  have hfile := h.file.congr (spawnInferior_session hspawn).2
  have hreal := (spawn_placed_iff h.file hx hfound hspawn).mpr (.inl ⟨hpage, hrecognised⟩)
  refine ⟨⟨.runInferior hrun, ?_, nofun⟩, ?_, hfile, fun _ => ⟨x, rfl, hx, ?_⟩⟩
  · rintro process ⟨⟩ -
    exact loaded_of_mapped hl hx.mapped hfile.text hreal
  · exact (started_sameStore (onRunInferior_started hrun)).inv h.inv
  · exact (realAddress_iff hfile).mp hreal

/-- **One step.** -/
theorem KernelStep.step (hl : Loadable image first)
    (hpage : (programHeader image first).vaddr % 0x1000 = 0)
    (h : KernelStep m image first path s log t) (hp : Placed image first path s.main.world s.execution) :
    Placed image first path t.main.world t.execution ∧
      ∃ es, Run (CodeStep m.host) s.main.world es t.main.world := by
  cases h with
  | turn around hgo hr hspawns =>
    obtain ⟨hplace, hcode⟩ := turn_code hp.inv hr hspawns
    exact ⟨hp.samePlace hplace, hcode⟩
  | spawn around x hgo hr hspawns hchild hx hfound hrecognised =>
    have hrun := turn_run hr hspawns.1
    rw [hchild] at hrun
    obtain ⟨hcode, hp'⟩ := hp.spawn hl hpage hspawns.2 hx hfound hrecognised hrun
    exact ⟨hp', _, .single hcode⟩
  | debuggee he h =>
    have hheld : HeldStep m.host s.main.world _ _ := ⟨h.1, by rintro _ rfl; exact he⟩
    exact ⟨hp.samePlace (samePlace_of_held hheld hp.inv), _, .single h⟩

/-- **A run.** -/
theorem run_kernel {logs : List (List Effect)} (hl : Loadable image first)
    (hpage : (programHeader image first).vaddr % 0x1000 = 0)
    (r : Run (KernelStep m image first path) s logs t)
    (hp : Placed image first path s.main.world s.execution) :
    Placed image first path t.main.world t.execution ∧
      ∃ es, Run (CodeStep m.host) s.main.world es t.main.world := by
  induction r with
  | refl s => exact ⟨hp, [], .refl _⟩
  | step h _ ih =>
    obtain ⟨hp', es, rc⟩ := h.step hl hpage hp
    obtain ⟨hp'', es', rc'⟩ := ih hp'
    exact ⟨hp'', _, rc.trans rc'⟩

end

/-- **The breakpoints are where the code is.** In every run from a file with these units, whose first
segment begins at a page: at the addresses that the debugger computes, the debuggee has the code of the
ELF but for traps; and the breakpoint of a line is at the address of the line with the bias of the
process that was spawned last, where this had the byte of the file when it was made, and the debuggee
has this byte or a trap. -/
theorem run_placed (m : Machine) {image : List UInt8} {units : List UnitValue} {first : ℕ}
    {path : AbsolutePath} {inferiorPath : String} {s₀ : MainState} {s : KernelState}
    {logs : List (List Effect)} (hw : Elf.Extraction.WellFormed image) (hu : HasUnits image units)
    (hl : Loadable image first) (hpage : (programHeader image first).vaddr % 0x1000 = 0)
    (h₀ : start m.host inferiorPath (some image) = .ok s₀)
    (r : Run (KernelStep m image first path) ⟨s₀, none⟩ logs s) :
    TrapsOnly s.main.world ∧ ∀ tracee, s.main.world.tracee = some tracee → ∃ x, s.execution = some x ∧
      Executed image first path x ∧
      ∀ sb ∈ s.main.world.session.srcBreakpoints, ∃ address byte,
        stmtAddress units sb.compUnitIndex sb.lineNum = some address ∧
          realAddress s.main.world.session sb.address = x.bias + address ∧
          codeByte image address = some byte ∧ x.process.memory (x.bias + address) = byte ∧
          (tracee.memory (x.bias + address) = byte ∨ tracee.memory (x.bias + address) = int3) := by
  obtain ⟨hopen, world, picker, hworld, -, rfl⟩ := start_ok h₀
  have hextracted := openDebugSession_extracted hw hopen
  have hnone : world.tracee = none := by
    obtain ⟨programData, lineInfo, rfl⟩ := hworld
    rfl
  obtain ⟨hp, es, rc⟩ := run_kernel hl hpage r {
    inv := hworld.inv
    file := ⟨hextracted.loadAddress.first first hl.isFirst, textByte_eq_codeByte hextracted⟩
    process := fun hne => absurd hnone hne }
  have htraps := run_trapsOnly rc hworld.inv fun tracee ht => by rw [hnone] at ht; cases ht
  refine ⟨htraps, fun tracee ht => ?_⟩
  obtain ⟨hi, hopened⟩ := run_opened hw hu h₀ (run_loop r)
  obtain ⟨x, hlast, hx, hproc⟩ := hp.process (by rw [ht]; nofun)
  have hreal := (realAddress_iff hp.file).mpr hproc
  refine ⟨x, hlast, hx, fun sb hsb => ?_⟩
  obtain ⟨bp, hbp, hbpa⟩ := hi.src_mem sb hsb
  have hbyte := hi.originalByte bp hbp
  rw [hbpa] at hbyte
  refine ⟨sb.address, bp.originalByte, ?_, hreal sb.address, hp.file.text _ ▸ hbyte, ?_, ?_⟩
  · rw [← hopened.stmtAddress]
    exact hi.src_row sb hsb
  · rw [← hreal]
    exact loaded_of_mapped hl hx.mapped hp.file.text hreal _ _ hbyte
  · rw [← hreal]
    exact htraps tracee ht _ _ hbyte

/-! ### A small process -/

theorem smallImage_loadable : Loadable smallImage 0 where
  isFirst := ⟨by decide +kernel, by decide +kernel, nofun⟩
  text := by
    intro text htext
    have hsection : lastSection smallImage .text = some (sectionHeader smallImage 0) := by
      decide +kernel
    rw [hsection] at htext
    cases htext
    exact ⟨0, by decide +kernel, by decide +kernel, by decide +kernel, by decide +kernel,
      by decide +kernel⟩

/-- The path `/a`. -/
def smallPath : AbsolutePath := ⟨[47, 97], rfl, by decide⟩

/-- The image, from `0x1000` on. -/
def smallProcess : Process where
  pid := 7
  masterFd := 3
  loadAddress := some 0x1000
  memory := fun address => (smallImage[(address - 0x1000).toNat]?).getD 0
  regs := { rip := 0x119a }

/-- Its line, `00001000-00002000 r-xp 00000000 08:02 7 /a`. -/
def smallEntry : Entry where
  mapping := {
    start := 0x1000
    stop := 0x2000
    readable := true
    writable := false
    executable := true
    shared := false
    offset := 0
    major := 8
    minor := 2
    inode := 7
    padding := 0
    pathname := smallPath.bytes
    pathname_head := by
      rintro _ ⟨⟩
      rfl
    noZero := by decide
    noLineBreak := by decide }
  lineLen := 120
  lt := by decide +kernel

/-- How it was made. -/
def smallExecution : Execution where
  bias := 0x1000
  listing := ⟨[smallEntry], List.pairwise_singleton _ _⟩
  process := smallProcess

theorem smallExecution_executed : Executed smallImage 0 smallPath smallExecution where
  mapped := by
    intro i hi hload k hk byte hbyte
    obtain rfl : i = 0 := by
      have hnum : (header smallImage).phnum.toNat = 1 := by decide +kernel
      omega
    have hsize : segmentSize smallImage 0 = 500 := by decide +kernel
    have hoffset : segmentOffset smallImage 0 = 0 := by decide +kernel
    have hvaddr : (programHeader smallImage 0).vaddr = 0 := by decide +kernel
    rw [hoffset, Nat.zero_add] at hbyte
    have hk' : (0x1000 + 0 + UInt64.ofNat k - 0x1000 : UInt64).toNat = k := by
      rw [UInt64.add_zero, UInt64.add_comm, UInt64.add_sub_cancel, UInt64.toNat_ofNat']
      omega
    rw [hvaddr]
    change (smallImage[(0x1000 + 0 + UInt64.ofNat k - 0x1000 : UInt64).toNat]?).getD 0 = byte
    rw [hk', hbyte]
    rfl
  biasAligned := by decide
  startsAligned := by
    intro e he
    obtain rfl := List.mem_singleton.mp he
    decide
  listed := by decide +kernel

theorem smallExecution_found : smallExecution.Found smallPath := by
  unfold Execution.Found
  decide +kernel

theorem smallExecution_recognised :
    AllRecognised smallPath.bytes smallExecution.listing.entries := by
  change AllRecognised smallPath.bytes [smallEntry]
  rw [allRecognised_cons]
  refine ⟨⟨by decide, fun _ => ⟨by decide +kernel, by decide +kernel⟩, fun hne => absurd rfl hne⟩,
    fun hne => absurd rfl hne⟩

/-- The small process is spawned. -/
theorem spawn_placed_iff_sample : ∃ w', spawnInferior smallMachine.host smallStart.world
    (.stopped smallProcess) = .ok w' ∧
      ∀ address, realAddress w'.session address = 0x1000 + address := by
  have hf : OfFile smallImage 0 smallStart.world.session :=
    ⟨by decide +kernel, textByte_eq_codeByte (openDebugSession_extracted smallImage_wellFormed
      (start_ok start_smallImage).1)⟩
  have h : spawnInferior smallMachine.host smallStart.world (.stopped smallExecution.process) =
    .ok _ := rfl
  have hpage : (programHeader smallImage 0).vaddr % 0x1000 = 0 := by decide +kernel
  exact ⟨_, h, (spawn_placed_iff hf smallExecution_executed smallExecution_found h).mpr
    (.inl ⟨hpage, smallExecution_recognised⟩)⟩

/-- The breakpoint of line 2 is set, and the process is spawned. -/
theorem run_placed_sample : ∃ s₀ logs s,
    start smallMachine.host "a.out" (some smallImage) = .ok s₀ ∧
      Run (KernelStep smallMachine smallImage 0 smallPath) ⟨s₀, none⟩ logs s ∧
      ∃ tracee, s.main.world.tracee = some tracee ∧
        ∃ sb ∈ s.main.world.session.srcBreakpoints, sb.lineNum = 2 ∧ ∃ address byte,
          stmtAddress [smallUnit] sb.compUnitIndex sb.lineNum = some address ∧
            codeByte smallImage address = some byte ∧
            (tracee.memory (0x1000 + address) = byte ∨
              tracee.memory (0x1000 + address) = int3) := by
  have r : Run (KernelStep smallMachine smallImage 0 smallPath) ⟨smallStart, none⟩ _ _ :=
    .step (.turn (Phases.key 10) nofun rfl fun h => nomatch h.1)
      (.step (.turn {} nofun rfl fun h => nomatch h.1)
      (.step (.turn {} nofun rfl fun h => nomatch h.1)
      (.step (.turn {} nofun rfl fun h => nomatch h.1)
      (.step (.turn {} nofun rfl fun h => nomatch h.1)
      (.step (.turn (Phases.key 106) nofun rfl fun h => nomatch h.1)
      (.step (.turn {} nofun rfl fun h => nomatch h.1)
      (.step (.turn (Phases.key 32) nofun rfl fun h => nomatch h.1)
      (.step (.turn {} nofun rfl fun h => nomatch h.1)
      (.step (.turn (Phases.key 82) nofun rfl fun h => nomatch h.1)
      (.single (.spawn { child := .stopped smallProcess } smallExecution nofun rfl ⟨rfl, rfl⟩ rfl
        smallExecution_executed smallExecution_found smallExecution_recognised)))))))))))
  obtain ⟨-, hprocess⟩ := run_placed smallMachine smallImage_wellFormed smallImage_hasUnits
    smallImage_loadable (by decide +kernel) start_smallImage r
  obtain ⟨x, hlast, -, hplaced⟩ := hprocess _ rfl
  obtain rfl : smallExecution = x := Option.some.inj hlast
  obtain ⟨address, byte, hstmt, -, hbyte, -, htrap⟩ := hplaced _ List.mem_cons_self
  exact ⟨_, _, _, start_smallImage, r, _, rfl, _, List.mem_cons_self, rfl, address, byte, hstmt, hbyte,
    htrap⟩

end Dabugger.Main.Loading
