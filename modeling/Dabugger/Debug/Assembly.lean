import Dabugger.Debug.Buffers
import Dabugger.Lib.Runs

/-! # The assembly of a unit

`listing` is what a disassembler finds in a window; `unitListing` is the assembly of a unit, sequence
after sequence. `get_assembly_buffer` numbers the lines from zero in each sequence, so it shows the
last sequence that has instructions (`getAssemblyBuffer_eq`): the assembly of the unit exactly if no
other one has any (`getAssemblyBuffer_shows_iff`). -/

namespace Dabugger.Debug.Assembly

open Dabugger.Lib.Arrays Dabugger.Lib.Runs Dabugger.Base Dabugger.Dwarf.Types
  Dabugger.Debug.Session Dabugger.Debug.Buffers

/-! ### What is to be shown -/

/-- The instructions of a window, with their addresses, up to the first failure; the first argument
bounds their number. -/
def listing (zydis : Zydis) : ℕ → UInt64 → List UInt8 → List (UInt64 × List UInt8)
  | 0, _, _ => []
  | n + 1, address, window =>
    match zydis.disassembleIntel address window with
    | none => []
    | some (text, length) =>
      (address, text) :: listing zydis n (address + UInt64.ofNat length) (window.drop length)

/-- The first address of a sequence and the bytes up to its last one. -/
def sequenceWindow (textSection : SectionBuffer) (sequence : LineInfoSequence) :
    Option (UInt64 × List UInt8) :=
  match sequence.entries with
  | [] => none
  | entry :: entries =>
    let last := (entry :: entries).getLast (List.cons_ne_nil _ _)
    some (entry.address, (textSection.data.drop (entry.address - textSection.address).toNat).take
      (last.address - entry.address).toNat)

/-- The instructions of a sequence. -/
def sequenceListing (zydis : Zydis) (textSection : SectionBuffer) (sequence : LineInfoSequence) :
    List (UInt64 × List UInt8) :=
  match sequenceWindow textSection sequence with
  | none => []
  | some (address, window) => listing zydis window.length address window

/-- **The assembly of a unit.** -/
def unitListing (zydis : Zydis) (textSection : SectionBuffer) (compUnit : LineInfoCompUnit) :
    List (UInt64 × List UInt8) :=
  compUnit.table.sequences.flatMap (sequenceListing zydis textSection)

/-- The sequence has a first instruction. -/
def Contributes (zydis : Zydis) (textSection : SectionBuffer) (sequence : LineInfoSequence) : Bool :=
  match sequenceWindow textSection sequence with
  | none => false
  | some (address, window) => (zydis.disassembleIntel address window).isSome

/-- The addresses of a sequence ascend from the first to the last one, inside `.text`. -/
def InsideText (textSection : SectionBuffer) (sequence : LineInfoSequence) : Prop :=
  ∀ entry entries, sequence.entries = entry :: entries →
    let last := (entry :: entries).getLast (List.cons_ne_nil _ _)
    textSection.address.toNat ≤ entry.address.toNat ∧
      entry.address.toNat ≤ last.address.toNat ∧
      last.address.toNat ≤ textSection.address.toNat + textSection.size

/-- The bytes from an address up to another are in the buffer of `.text`; the offset and the length are
those of `size_t`. -/
def WindowInside (textSection : SectionBuffer) (address endAddr : UInt64) : Prop :=
  (address - textSection.address).toNat + (endAddr - address).toNat ≤ textSection.size

instance (textSection : SectionBuffer) (address endAddr : UInt64) :
    Decidable (WindowInside textSection address endAddr) := inferInstanceAs (Decidable (_ ≤ _))

/-- The bytes from the first address of a sequence up to its last one are in the buffer of `.text`. -/
def SequenceInside (textSection : SectionBuffer) (sequence : LineInfoSequence) : Prop :=
  ∀ entry entries, sequence.entries = entry :: entries →
    WindowInside textSection entry.address
      ((entry :: entries).getLast (List.cons_ne_nil _ _)).address

theorem InsideText.sequenceInside {textSection : SectionBuffer} {sequence : LineInfoSequence}
    (h : InsideText textSection sequence) : SequenceInside textSection sequence := by
  intro entry entries hs
  obtain ⟨hge, hle, hend⟩ := h entry entries hs
  unfold WindowInside
  rw [UInt64.toNat_sub_of_le _ _ (UInt64.le_iff_toNat_le.mpr hge),
    UInt64.toNat_sub_of_le _ _ (UInt64.le_iff_toNat_le.mpr hle)]
  omega

/-- The buffer shows these instructions: so many lines, their texts, and the address of each. -/
structure Shows (asmBuffer : AssemblyBuffer) (instructions : List (UInt64 × List UInt8)) :
    Prop where
  lineCount : asmBuffer.textBuffer.lineCount.toNat = instructions.length
  lines : asmBuffer.textBuffer.lines = instructions.map fun instruction => some instruction.2
  addresses : asmBuffer.addresses = instructions.map Prod.fst

/-! ### Lines over lines -/

/-- The listing, written over another buffer from line `lineNum` on. -/
def writeFrom (lineNum : ℕ) (lines : List (UInt64 × List UInt8)) (asmBuffer : AssemblyBuffer) :
    AssemblyBuffer where
  textBuffer :=
    { lineCount := UInt64.ofNat (lineNum + lines.length)
      lines := asmBuffer.textBuffer.lines.take lineNum ++ lines.map fun line => some line.2 }
  addresses := asmBuffer.addresses.take lineNum ++ lines.map Prod.fst

/-- There are lines before line `lineNum`. -/
structure HasLines (lineNum : ℕ) (asmBuffer : AssemblyBuffer) : Prop where
  lines : lineNum ≤ asmBuffer.textBuffer.lines.length
  addresses : lineNum ≤ asmBuffer.addresses.length

section
variable {lineNum : ℕ} {asmBuffer : AssemblyBuffer}

theorem HasLines.writeFrom (h : HasLines lineNum asmBuffer)
    (lines : List (UInt64 × List UInt8)) :
    HasLines (lineNum + lines.length) (writeFrom lineNum lines asmBuffer) where
  lines := by simp [Assembly.writeFrom, h.lines]
  addresses := by simp [Assembly.writeFrom, h.addresses]

theorem writeFrom_writeFrom (asmBuffer : AssemblyBuffer) (lineNum : ℕ)
    (xs ys : List (UInt64 × List UInt8)) :
    writeFrom (lineNum + xs.length) ys (writeFrom lineNum xs asmBuffer) =
      writeFrom lineNum (xs ++ ys) asmBuffer := by
  have hl : (asmBuffer.textBuffer.lines.take lineNum ++
      xs.map fun line => some line.2).take (lineNum + xs.length) =
        asmBuffer.textBuffer.lines.take lineNum ++ xs.map fun line => some line.2 :=
    List.take_of_length_le (by simp)
  have ha : (asmBuffer.addresses.take lineNum ++ xs.map Prod.fst).take (lineNum + xs.length) =
      asmBuffer.addresses.take lineNum ++ xs.map Prod.fst := List.take_of_length_le (by simp)
  unfold writeFrom
  simp only [List.map_append, List.length_append, Nat.add_assoc, hl, ha, List.append_assoc]

end

/-! ### The loops -/

section
variable {lineNum : UInt32}

theorem toNat_succ (hn : lineNum.toNat + 1 < 2 ^ 32) : (lineNum + 1).toNat = lineNum.toNat + 1 := by
  rw [UInt32.toNat_add]
  exact Nat.mod_eq_of_lt hn

/-- The last line number of an `unsigned`. -/
theorem succ_eq_zero (hn : ¬ lineNum.toNat + 1 < 2 ^ 32) : lineNum + 1 = 0 := by
  have hlt := lineNum.toNat_lt
  apply UInt32.toNat_inj.mp
  rw [UInt32.toNat_add]
  change (lineNum.toNat + 1) % 2 ^ 32 = 0
  omega

/-- One instruction is written. -/
theorem setLine_eq {asmBuffer : AssemblyBuffer}
    (h : HasLines lineNum.toNat asmBuffer) (hn : lineNum.toNat + 1 < 2 ^ 32)
    (address : UInt64) (text : List UInt8) :
    ∃ textBuffer, setLine asmBuffer.textBuffer lineNum text = .ok textBuffer ∧
      ({ textBuffer
         addresses := (resize 0 textBuffer.lineCount.toNat asmBuffer.addresses).set lineNum.toNat
           address } : AssemblyBuffer) = writeFrom lineNum.toNat [(address, text)] asmBuffer := by
  have hsucc := toNat_succ hn
  have hne : lineNum + 1 ≠ 0 := by
    intro h0
    rw [h0] at hsucc
    simp at hsucc
  have hcount : (lineNum + 1).toUInt64.toNat = lineNum.toNat + 1 := by
    rw [UInt32.toNat_toUInt64, hsucc]
  unfold setLine
  rw [if_neg hne]
  refine ⟨_, rfl, ?_⟩
  dsimp only
  rw [hcount, set_resize _ h.lines, set_resize _ h.addresses]
  have hofNat : (lineNum + 1).toUInt64 = UInt64.ofNat (lineNum.toNat + 1) := by
    rw [← hcount, UInt64.ofNat_toNat]
  rw [hofNat]
  rfl

end

theorem listing_of_none {zydis : Zydis} {address : UInt64} {window : List UInt8}
    (h : zydis.disassembleIntel address window = none) :
    ∀ n, listing zydis n address window = []
  | 0 => rfl
  | n + 1 => by rw [listing, h]

theorem listing_of_some {zydis : Zydis} {address : UInt64} {window text : List UInt8} {length : ℕ}
    (h : zydis.disassembleIntel address window = some (text, length)) (n : ℕ) :
    listing zydis (n + 1) address window = (address, text) ::
      listing zydis n (address + UInt64.ofNat length) (window.drop length) := by
  rw [listing, h]

/-- To go on behind an instruction moves the offset up and leaves the rest of the length. -/
theorem toNat_sub_advance {textSection : SectionBuffer} {address endAddr : UInt64} {length : ℕ}
    (h : WindowInside textSection address endAddr) (hle : length ≤ (endAddr - address).toNat) :
    (address + UInt64.ofNat length - textSection.address).toNat =
        (address - textSection.address).toNat + length ∧
      (endAddr - (address + UInt64.ofNat length)).toNat = (endAddr - address).toNat - length := by
  have hlt := (endAddr - address).toNat_lt
  have hlen : (UInt64.ofNat length).toNat = length :=
    UInt64.toNat_ofNat_of_lt' (show length < 2 ^ 64 by omega)
  have hsize := textSection.size_lt
  unfold WindowInside SectionBuffer.size at h
  constructor
  · have hcomm : address + UInt64.ofNat length - textSection.address =
        address - textSection.address + UInt64.ofNat length := by grind
    rw [hcomm, UInt64.toNat_add, hlen]
    exact Nat.mod_eq_of_lt (by omega)
  · have hassoc : endAddr - (address + UInt64.ofNat length) =
        endAddr - address - UInt64.ofNat length := by grind
    rw [hassoc, UInt64.toNat_sub_of_le _ _ (UInt64.le_iff_toNat_le.mpr (by rw [hlen]; omega)), hlen]

theorem WindowInside.advance {textSection : SectionBuffer} {address endAddr : UInt64} {length : ℕ}
    (h : WindowInside textSection address endAddr) (hle : length ≤ (endAddr - address).toNat) :
    WindowInside textSection (address + UInt64.ofNat length) endAddr := by
  obtain ⟨hoff, hend⟩ := toNat_sub_advance h hle
  unfold WindowInside at h ⊢
  rw [hoff, hend]
  omega

/-- The bytes of a window inside the buffer. -/
def windowBytes (textSection : SectionBuffer) (address endAddr : UInt64) : List UInt8 :=
  (textSection.data.drop (address - textSection.address).toNat).take (endAddr - address).toNat

theorem WindowInside.textWindow {textSection : SectionBuffer} {address endAddr : UInt64}
    (h : WindowInside textSection address endAddr) :
    textWindow textSection address endAddr = .ok (windowBytes textSection address endAddr) := by
  unfold WindowInside at h
  unfold Buffers.textWindow windowBytes
  dsimp only
  by_cases hz : (endAddr - address).toNat = 0
  · rw [if_pos hz, hz, List.take_zero]
  · rw [if_neg hz, if_pos h]

theorem WindowInside.length_windowBytes {textSection : SectionBuffer} {address endAddr : UInt64}
    (h : WindowInside textSection address endAddr) :
    (windowBytes textSection address endAddr).length = (endAddr - address).toNat := by
  unfold WindowInside SectionBuffer.size at h
  rw [windowBytes, List.length_take, List.length_drop]
  omega

/-- The window behind an instruction. -/
theorem WindowInside.windowBytes_advance {textSection : SectionBuffer} {address endAddr : UInt64}
    {length : ℕ} (h : WindowInside textSection address endAddr)
    (hle : length ≤ (endAddr - address).toNat) :
    windowBytes textSection (address + UInt64.ofNat length) endAddr =
      (windowBytes textSection address endAddr).drop length := by
  obtain ⟨hoff, hend⟩ := toNat_sub_advance h hle
  rw [windowBytes, windowBytes, hoff, hend, List.drop_take, List.drop_drop]

/-- **The inner loop** writes the listing of its window, where the line numbers suffice. -/
theorem disassemble_eq (zydis : Zydis) {textSection : SectionBuffer} {endAddr : UInt64} :
    ∀ {n m : ℕ} {address : UInt64} {lineNum : UInt32} {asmBuffer : AssemblyBuffer},
      WindowInside textSection address endAddr → (endAddr - address).toNat < n →
      (endAddr - address).toNat ≤ m → HasLines lineNum.toNat asmBuffer →
      disassemble zydis textSection endAddr n address lineNum asmBuffer =
        if listing zydis m address (windowBytes textSection address endAddr) = [] then .ok asmBuffer
        else if lineNum.toNat +
            (listing zydis m address (windowBytes textSection address endAddr)).length < 2 ^ 32 then
          .ok (writeFrom lineNum.toNat
            (listing zydis m address (windowBytes textSection address endAddr)) asmBuffer)
        else .error .outOfBounds
  | 0, m, address, lineNum, asmBuffer, _, hn, _, _ => by omega
  | n + 1, m, address, lineNum, asmBuffer, hin, hn, hm, hlines => by
    have hlen := hin.length_windowBytes
    unfold disassemble
    rw [except_bind_of_ok hin.textWindow]
    cases hd : zydis.disassembleIntel address (windowBytes textSection address endAddr) with
    | none =>
      rw [if_pos (listing_of_none hd m)]
      rfl
    | some r =>
      obtain ⟨text, length⟩ := r
      have hpos := zydis.length_pos hd
      have hle := zydis.length_le hd
      rw [hlen] at hle
      obtain ⟨m, rfl⟩ : ∃ k, m = k + 1 := ⟨m - 1, by omega⟩
      obtain ⟨-, hend⟩ := toNat_sub_advance hin hle
      have hlist := listing_of_some hd m
      rw [← hin.windowBytes_advance hle] at hlist
      rw [if_neg (by rw [hlist]; nofun), hlist]
      dsimp only
      by_cases hnum : lineNum.toNat + 1 < 2 ^ 32
      · obtain ⟨textBuffer, hset, hwrite⟩ := setLine_eq hlines hnum address text
        have hsucc := toNat_succ hnum
        have hlines' : HasLines (lineNum + 1).toNat
            (writeFrom lineNum.toNat [(address, text)] asmBuffer) := by
          rw [hsucc]
          exact hlines.writeFrom [(address, text)]
        have hrest := writeFrom_writeFrom asmBuffer lineNum.toNat [(address, text)]
          (listing zydis m (address + UInt64.ofNat length)
            (windowBytes textSection (address + UInt64.ofNat length) endAddr))
        rw [List.length_singleton, ← hsucc, List.singleton_append] at hrest
        have ih := disassemble_eq zydis (n := n) (m := m) (hin.advance hle) (by omega) (by omega)
          hlines'
        rw [except_bind_of_ok hset, hwrite, ih, hrest, hsucc, List.length_cons]
        split
        · rename_i hnil
          rw [if_pos (by rw [hnil]; simpa using hnum), hnil]
        · rw [Nat.add_assoc, Nat.add_comm 1]
      · have hset : setLine asmBuffer.textBuffer lineNum text = .error .outOfBounds := by
          rw [setLine, if_pos (succ_eq_zero hnum)]
        rw [hset, if_neg (by rw [List.length_cons]; omega)]
        rfl

/-- **The body of the outer loop** writes the listing of its sequence over all lines. -/
theorem disassembleSequence_eq (zydis : Zydis) {textSection : SectionBuffer}
    {sequence : LineInfoSequence} (h : SequenceInside textSection sequence)
    (asmBuffer : AssemblyBuffer) :
    disassembleSequence zydis textSection asmBuffer sequence =
      if sequenceListing zydis textSection sequence = [] then .ok asmBuffer
      else if (sequenceListing zydis textSection sequence).length < 2 ^ 32 then
        .ok (writeFrom 0 (sequenceListing zydis textSection sequence) {})
      else .error .outOfBounds := by
  unfold disassembleSequence sequenceListing sequenceWindow
  cases hs : sequence.entries with
  | nil => exact (if_pos rfl).symm
  | cons entry entries =>
    have hin := h entry entries hs
    have hlines : HasLines (0 : UInt32).toNat asmBuffer := ⟨Nat.zero_le _, Nat.zero_le _⟩
    have heq := disassemble_eq zydis hin (Nat.lt_succ_self _)
      (Nat.le_of_eq hin.length_windowBytes.symm) hlines
    dsimp only
    rw [heq, UInt32.toNat_zero, Nat.zero_add]
    rfl

/-! ### The last sequence -/

/-- The last of the lists that is not empty. -/
def lastNonempty {α : Type} (xs : List α) (xss : List (List α)) : List α :=
  xss.foldl (fun last xs => if xs = [] then last else xs) xs

theorem length_lastNonempty_le {α : Type} : ∀ (xss : List (List α)) (xs : List α),
    (lastNonempty xs xss).length ≤ xs.length + xss.flatten.length
  | [], xs => by simp [lastNonempty]
  | ys :: xss, xs => by
    have ih := length_lastNonempty_le xss (if ys = [] then xs else ys)
    rw [List.flatten_cons, List.length_append]
    refine le_trans ih ?_
    split <;> omega

theorem lastNonempty_mem {α : Type} : ∀ (xss : List (List α)) (xs : List α),
    lastNonempty xs xss ∈ xs :: xss
  | [], xs => List.mem_cons_self ..
  | ys :: xss, xs => by
    have ih := lastNonempty_mem xss (if ys = [] then xs else ys)
    rcases List.mem_cons.mp ih with h | h
    · change lastNonempty (if ys = [] then xs else ys) xss ∈ _
      rw [h]
      split <;> simp
    · exact List.mem_cons_of_mem _ (List.mem_cons_of_mem _ h)

theorem lastNonempty_eq_nil_iff {α : Type} : ∀ (xss : List (List α)) (xs : List α),
    lastNonempty xs xss = [] ↔ ∀ ys ∈ xs :: xss, ys = []
  | [], xs => by simp [lastNonempty]
  | ys :: xss, xs => by
    have ih := lastNonempty_eq_nil_iff xss (if ys = [] then xs else ys)
    change lastNonempty (if ys = [] then xs else ys) xss = [] ↔ _
    rw [ih, List.forall_mem_cons, List.forall_mem_cons, List.forall_mem_cons]
    by_cases hy : ys = []
    · simp [hy]
    · simp [hy]

/-- **The last list is all of them** exactly if it is the only one that is not empty. -/
theorem lastNonempty_eq_flatten_iff {α : Type} [DecidableEq α] :
    ∀ (xss : List (List α)) (xs : List α),
      lastNonempty xs xss = xs ++ xss.flatten ↔
        ((xs :: xss).filter fun ys => decide (ys ≠ [])).length ≤ 1
  | [], xs => by
    refine iff_of_true (by simp [lastNonempty]) ?_
    exact le_trans (List.length_filter_le _ _) (Nat.le_refl 1)
  | ys :: xss, xs => by
    have hcons : lastNonempty xs (ys :: xss) = lastNonempty (if ys = [] then xs else ys) xss := rfl
    rw [hcons]
    by_cases hy : ys = []
    · subst hy
      rw [if_pos rfl, List.flatten_cons, List.nil_append, lastNonempty_eq_flatten_iff xss xs]
      simp [List.filter_cons]
    · rw [if_neg hy]
      by_cases hx : xs = []
      · subst hx
        rw [List.nil_append, List.flatten_cons, lastNonempty_eq_flatten_iff xss ys]
        simp [List.filter_cons]
      · refine iff_of_false (fun h => ?_) ?_
        · have hlen := congrArg List.length h
          have hle := length_lastNonempty_le xss ys
          have hpos := List.length_pos_iff.mpr hx
          simp only [List.flatten_cons, List.length_append] at hlen
          omega
        · simp [hx, hy]

/-- The line numbers suffice for each sequence. -/
def Numbered (zydis : Zydis) (textSection : SectionBuffer) (sequences : List LineInfoSequence) :
    Prop :=
  ∀ sequence ∈ sequences, (sequenceListing zydis textSection sequence).length < 2 ^ 32

/-- The outer loop, from the lines of some listing on. -/
theorem foldlM_disassembleSequence (zydis : Zydis) {textSection : SectionBuffer} :
    ∀ {sequences : List LineInfoSequence} (lines : List (UInt64 × List UInt8)),
      (∀ sequence ∈ sequences, SequenceInside textSection sequence) →
      (Numbered zydis textSection sequences →
        sequences.foldlM (disassembleSequence zydis textSection) (writeFrom 0 lines {}) =
          .ok (writeFrom 0 (lastNonempty lines
            (sequences.map (sequenceListing zydis textSection))) {})) ∧
      (¬ Numbered zydis textSection sequences →
        sequences.foldlM (disassembleSequence zydis textSection) (writeFrom 0 lines {}) =
          .error .outOfBounds)
  | [], lines, _ => ⟨fun _ => rfl, fun h => absurd (by simp [Numbered]) h⟩
  | sequence :: sequences, lines, hin => by
    obtain ⟨hseq, hin⟩ := List.forall_mem_cons.mp hin
    have hnum : Numbered zydis textSection (sequence :: sequences) ↔
        (sequenceListing zydis textSection sequence).length < 2 ^ 32 ∧
          Numbered zydis textSection sequences := List.forall_mem_cons
    rw [hnum, List.foldlM_cons, disassembleSequence_eq zydis hseq, List.map_cons]
    by_cases hnil : sequenceListing zydis textSection sequence = []
    · have ih := foldlM_disassembleSequence zydis lines hin
      rw [if_pos hnil, except_bind_of_ok rfl, hnil]
      refine ⟨fun h => ih.1 h.2, fun h => ih.2 fun h' => h ⟨by simp, h'⟩⟩
    · rw [if_neg hnil]
      have hlast : lastNonempty lines (sequenceListing zydis textSection sequence ::
            sequences.map (sequenceListing zydis textSection)) =
          lastNonempty (sequenceListing zydis textSection sequence)
            (sequences.map (sequenceListing zydis textSection)) := by
        rw [lastNonempty, List.foldl_cons, if_neg hnil, lastNonempty]
      have ih := foldlM_disassembleSequence zydis
        (sequenceListing zydis textSection sequence) hin
      by_cases hlt : (sequenceListing zydis textSection sequence).length < 2 ^ 32
      · rw [if_pos hlt, except_bind_of_ok rfl, hlast]
        exact ⟨fun h => ih.1 h.2, fun h => ih.2 fun h' => h ⟨hlt, h'⟩⟩
      · rw [if_neg hlt]
        exact ⟨fun h => absurd h.1 hlt, fun _ => rfl⟩

/-! ### The assembly of the unit -/

/-- A sequence has instructions if it has a first one. -/
theorem sequenceListing_ne_nil_iff (zydis : Zydis) (textSection : SectionBuffer)
    (sequence : LineInfoSequence) :
    sequenceListing zydis textSection sequence ≠ [] ↔ Contributes zydis textSection sequence := by
  unfold sequenceListing Contributes
  cases sequenceWindow textSection sequence with
  | none => simp
  | some window =>
    obtain ⟨address, window⟩ := window
    dsimp only
    cases hd : zydis.disassembleIntel address window with
    | none => simp [listing_of_none hd]
    | some r =>
      obtain ⟨text, length⟩ := r
      have hpos := zydis.length_pos hd
      have hle := zydis.length_le hd
      obtain ⟨n, hn⟩ : ∃ n, window.length = n + 1 := ⟨window.length - 1, by omega⟩
      simp [hn, listing_of_some hd]

/-- Of the listings of all sequences, as many are not empty as there are sequences with
instructions. -/
theorem length_filter_listings (zydis : Zydis) (textSection : SectionBuffer)
    (sequences : List LineInfoSequence) :
    (([] :: sequences.map (sequenceListing zydis textSection)).filter
        fun instructions => decide (instructions ≠ [])).length =
      (sequences.filter (Contributes zydis textSection)).length := by
  rw [List.filter_cons_of_neg (by simp), List.filter_map, List.length_map]
  congr 2
  funext sequence
  rw [Bool.eq_iff_iff, ← sequenceListing_ne_nil_iff]
  simp

theorem Numbered.length_lastNonempty_lt {zydis : Zydis} {textSection : SectionBuffer}
    {sequences : List LineInfoSequence} (h : Numbered zydis textSection sequences) :
    (lastNonempty [] (sequences.map (sequenceListing zydis textSection))).length < 2 ^ 32 := by
  have hmem := lastNonempty_mem (sequences.map (sequenceListing zydis textSection)) []
  rcases List.mem_cons.mp hmem with hnil | hlast
  · rw [hnil]
    exact Nat.two_pow_pos 32
  · obtain ⟨sequence, hseq, heq⟩ := List.mem_map.mp hlast
    rw [← heq]
    exact h sequence hseq

/-- The line numbers suffice if they suffice for the unit. -/
theorem numbered_of_length_lt {zydis : Zydis} {textSection : SectionBuffer}
    {compUnit : LineInfoCompUnit}
    (h : (unitListing zydis textSection compUnit).length < 2 ^ 32) :
    Numbered zydis textSection compUnit.table.sequences := by
  intro sequence hseq
  rw [unitListing, List.flatMap_def] at h
  exact (List.sublist_flatten_of_mem (List.mem_map_of_mem hseq)).length_le.trans_lt h

/-- A buffer shows one listing only. -/
theorem shows_writeFrom_iff {xs ys : List (UInt64 × List UInt8)} (h : xs.length < 2 ^ 64) :
    Shows (writeFrom 0 xs {}) ys ↔ xs = ys := by
  have hcount : (UInt64.ofNat (0 + xs.length)).toNat = xs.length := by
    rw [Nat.zero_add]
    exact UInt64.toNat_ofNat_of_lt' h
  constructor
  · rintro ⟨-, hlines, haddresses⟩
    simp only [writeFrom, List.take_zero, List.nil_append] at hlines haddresses
    have htexts : xs.map Prod.snd = ys.map Prod.snd := by
      have := congrArg (List.map (Option.getD · [])) hlines
      simpa [List.map_map, Function.comp_def] using this
    rw [← List.zip_unzip xs, ← List.zip_unzip ys, List.unzip_eq_map, List.unzip_eq_map,
      haddresses, htexts]
  · rintro rfl
    exact ⟨hcount, rfl, rfl⟩

/-- What `get_assembly_buffer` returns for a unit. -/
theorem getAssemblyBuffer_eq (zydis : Zydis) {session : DebugSession} {compUnitIndex : ℕ}
    {compUnit : LineInfoCompUnit}
    (hu : session.lineInfo.compUnits[compUnitIndex]? = some compUnit)
    (hin : ∀ sequence ∈ compUnit.table.sequences,
      SequenceInside session.programData.sections.text sequence) (asmBuffer : AssemblyBuffer) :
    getAssemblyBuffer zydis session compUnitIndex = .ok (some asmBuffer) ↔
      Numbered zydis session.programData.sections.text compUnit.table.sequences ∧
        asmBuffer = writeFrom 0 (lastNonempty [] (compUnit.table.sequences.map
          (sequenceListing zydis session.programData.sections.text))) {} := by
  obtain ⟨hok, herror⟩ := foldlM_disassembleSequence zydis [] hin
  unfold getAssemblyBuffer
  rw [hu]
  dsimp only
  change (List.foldlM _ (writeFrom 0 [] {}) _ >>= _) = _ ↔ _
  by_cases hnum : Numbered zydis session.programData.sections.text compUnit.table.sequences
  · rw [hok hnum, except_bind_of_ok rfl]
    constructor
    · rintro ⟨⟩
      exact ⟨hnum, rfl⟩
    · rintro ⟨-, rfl⟩
      rfl
  · rw [herror hnum]
    exact iff_of_false nofun fun h => hnum h.1

/-- **The assembly of a unit** is shown exactly if at most one of its sequences has instructions, and
no more than an `unsigned` counts. -/
theorem getAssemblyBuffer_shows_iff (zydis : Zydis) {session : DebugSession} {compUnitIndex : ℕ}
    {compUnit : LineInfoCompUnit}
    (hu : session.lineInfo.compUnits[compUnitIndex]? = some compUnit)
    (hin : ∀ sequence ∈ compUnit.table.sequences,
      InsideText session.programData.sections.text sequence) :
    (∃ asmBuffer, getAssemblyBuffer zydis session compUnitIndex = .ok (some asmBuffer) ∧
        Shows asmBuffer (unitListing zydis session.programData.sections.text compUnit)) ↔
      (compUnit.table.sequences.filter
          (Contributes zydis session.programData.sections.text)).length ≤ 1 ∧
        (unitListing zydis session.programData.sections.text compUnit).length < 2 ^ 32 := by
  replace hin := fun sequence hs => (hin sequence hs).sequenceInside
  have hlast := lastNonempty_eq_flatten_iff (compUnit.table.sequences.map
    (sequenceListing zydis session.programData.sections.text)) []
  rw [List.nil_append, length_filter_listings, ← List.flatMap_def] at hlast
  constructor
  · rintro ⟨asmBuffer, hget, hshows⟩
    obtain ⟨hnum, rfl⟩ := (getAssemblyBuffer_eq zydis hu hin asmBuffer).mp hget
    have hlen := hnum.length_lastNonempty_lt
    have heq := (shows_writeFrom_iff (hlen.trans (by norm_num))).mp hshows
    exact ⟨hlast.mp heq, by rwa [← heq]⟩
  · rintro ⟨hone, hlen⟩
    have heq := hlast.mpr hone
    refine ⟨_, (getAssemblyBuffer_eq zydis hu hin _).mpr ⟨numbered_of_length_lt hlen, rfl⟩,
      (shows_writeFrom_iff ?_).mpr heq⟩
    rw [heq]
    exact hlen.trans (by norm_num)

/-! ### Two sequences -/

/-- A machine that knows `nop`. -/
def sampleZydis : Zydis where
  disassembleIntel _ window := window.head?.map fun _ => ([110, 111, 112], 1)
  length_pos h := by
    obtain ⟨_, -, ⟨⟩⟩ := Option.map_eq_some_iff.mp h
    exact Nat.le_refl 1
  length_le {_ window _ _} h := by
    cases window with
    | nil => cases h
    | cons => cases h; exact Nat.succ_le_succ (Nat.zero_le _)

/-- A sequence from one address up to another. -/
def sampleSequence (first last : UInt64) : LineInfoSequence where
  entries := [sampleRow first 0 7, { sampleRow last 0 8 with endSequence := true }]

/-- The program of `sampleSession`, with these sequences in its unit. -/
def sampleAssembly (sequences : List LineInfoSequence) : DebugSession :=
  { sampleSession [] with
    lineInfo := { compUnits := [{ header := sampleFiles, table := { sequences } }] } }

theorem sampleSequence_insideText {first last : UInt64} (h : 0x1000 ≤ first.toNat)
    (h' : first.toNat ≤ last.toNat) (h'' : last.toNat ≤ 0x1010) :
    InsideText (sampleAssembly []).programData.sections.text (sampleSequence first last) := by
  rintro entry entries ⟨⟩
  exact ⟨h, h', h''⟩

/-- The instructions of one sequence are shown; the empty one behind it has none. -/
theorem getAssemblyBuffer_shows_iff_sample :
    ∃ asmBuffer, getAssemblyBuffer sampleZydis
        (sampleAssembly [sampleSequence 0x1000 0x1002, ⟨[]⟩]) 0 = .ok (some asmBuffer) ∧
      Shows asmBuffer [(0x1000, [110, 111, 112]), (0x1001, [110, 111, 112])] := by
  have hu : (sampleAssembly [sampleSequence 0x1000 0x1002, ⟨[]⟩]).lineInfo.compUnits[0]? =
    some ⟨sampleFiles, ⟨[sampleSequence 0x1000 0x1002, ⟨[]⟩]⟩⟩ := rfl
  refine (getAssemblyBuffer_shows_iff sampleZydis hu ?_).mpr (by decide)
  refine List.forall_mem_cons.mpr ⟨sampleSequence_insideText (by decide) (by decide) (by decide),
    List.forall_mem_singleton.mpr ?_⟩
  rintro entry entries ⟨⟩

/-- Of two sequences the second one is shown alone. -/
theorem not_getAssemblyBuffer_shows_two :
    ¬ ∀ (zydis : Zydis) (session : DebugSession) (compUnitIndex : ℕ)
      (compUnit : LineInfoCompUnit),
      session.lineInfo.compUnits[compUnitIndex]? = some compUnit →
      (∀ sequence ∈ compUnit.table.sequences,
        InsideText session.programData.sections.text sequence) →
      ∃ asmBuffer, getAssemblyBuffer zydis session compUnitIndex = .ok (some asmBuffer) ∧
        Shows asmBuffer (unitListing zydis session.programData.sections.text compUnit) := by
  intro h
  have hu : (sampleAssembly [sampleSequence 0x1000 0x1002,
      sampleSequence 0x1008 0x1009]).lineInfo.compUnits[0]? =
    some ⟨sampleFiles, ⟨[sampleSequence 0x1000 0x1002, sampleSequence 0x1008 0x1009]⟩⟩ := rfl
  obtain ⟨asmBuffer, hget, hshows⟩ := h sampleZydis _ 0 _ hu (List.forall_mem_cons.mpr
    ⟨sampleSequence_insideText (by decide) (by decide) (by decide), List.forall_mem_singleton.mpr
      (sampleSequence_insideText (by decide) (by decide) (by decide))⟩)
  have hone : getAssemblyBuffer sampleZydis
      (sampleAssembly [sampleSequence 0x1000 0x1002, sampleSequence 0x1008 0x1009]) 0 =
      .ok (some ⟨⟨1, [some [110, 111, 112]]⟩, [0x1008]⟩) := rfl
  cases hone.symm.trans hget
  exact absurd hshows.lineCount (by decide)

end Dabugger.Debug.Assembly
