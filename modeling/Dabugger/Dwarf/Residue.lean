import Dabugger.Dwarf.Widths
import Mathlib.Data.List.Forall2

/-! # What the stack leaves in the entries

The `read_lnct_*` functions read into locals that are not initialised, some of them fewer bytes than
the local has, and store the local also where a form is not handled. `knownField` follows the fields
of an entry and keeps, for each attribute, what the file says of it; `none` stands for an attribute
that shows the stack. The entries depend on the file only (`DependsOnFile`) exactly if every attribute
of every entry is known at the end. -/

namespace Dabugger.Dwarf.Residue

open Dabugger.Lib.Bytes Dabugger.Lib.Exact Dabugger.Base Dabugger.Base.BinaryReader
open Dabugger.Reader Dabugger.Dwarf.Types Dabugger.Dwarf.Header Dabugger.Dwarf.Widths

/-! ### What the file says -/

/-- An entry as far as the file says; an attribute without a field is zero. -/
structure KnownEntry where
  path : Option CStr := some .null
  directoryIndex : Option UInt64 := some 0
  timestamp : Option UInt64 := some 0
  size : Option UInt64 := some 0
  md5 : Option (List UInt8) := some (List.replicate 16 0)

/-- After a read of `n` bytes to a local of eight that is not initialised; a read that fails leaves
the attribute as it was. A read of more than eight ends the run. -/
def knownInt (n : ℕ) (known : Option UInt64) (bs : List UInt8) : Option UInt64 :=
  if n ≤ bs.length then if n = 8 then some (UInt64.ofNat (ofLe (bs.take 8))) else none else known

/-- After a LEB128 number. -/
def knownLeb (known : Option UInt64) (bs : List UInt8) : Option UInt64 :=
  if lebStatus .lebU64Overflow 10 bs = .ok then some (lebAt bs) else known

/-- After `read_lnct_timestamp`. -/
def knownTimestamp (form : DwarfFormCode) (known : Option UInt64) (bs : List UInt8) :
    Option UInt64 :=
  if form = Form.udata then knownLeb known bs
  else if form = Form.data4 then knownInt 4 known bs
  else if form = Form.data8 then knownInt 8 known bs
  else if form = Form.block then knownInt (lebAt bs).toNat known (skipLeb bs)
  else none

/-- After `read_lnct_size`. -/
def knownSize (form : DwarfFormCode) (known : Option UInt64) (bs : List UInt8) : Option UInt64 :=
  if form = Form.udata then knownLeb known bs
  else if form = Form.data1 then knownInt 1 known bs
  else if form = Form.data2 then knownInt 2 known bs
  else if form = Form.data4 then knownInt 4 known bs
  else if form = Form.data8 then knownInt 8 known bs
  else none

/-- After `read_lnct_md5`. -/
def knownMd5 (form : DwarfFormCode) (known : Option (List UInt8)) (bs : List UInt8) :
    Option (List UInt8) :=
  if form = Form.data16 then if 16 ≤ bs.length then some (bs.take 16) else known else none

/-- The values that an attribute can have that shows the stack. -/
structure Shown where
  path : CStr → Prop
  directoryIndex : UInt64 → Prop
  timestamp : UInt64 → Prop
  size : UInt64 → Prop
  md5 : List UInt8 → Prop

/-- The value of an attribute is the known one, or shows the stack. -/
def Is {α : Type} (P : α → Prop) : Option α → α → Prop
  | some v, a => a = v
  | none, a => P a

/-- The low bytes of a local are read over. -/
def overwritten (locals : UInt64) (src : List UInt8) : UInt64 :=
  UInt64.ofNat (ofLe (src ++ (toLe 8 locals.toNat).drop src.length))

/-- What the functions make of these locals is among the values. -/
structure Shown.By (S : Shown) (locals : Locals) : Prop where
  path : S.path locals.path
  directoryIndex : ∀ d, d ≠ 0 ∨ S.directoryIndex d →
    S.directoryIndex (if locals.result = .ok then 0 else d)
  timestamp : ∀ src, src.length < 8 → S.timestamp (overwritten locals.timestamp src)
  size : ∀ src, src.length < 8 → S.size (overwritten locals.size src)
  md5 : S.md5 locals.md5.toList
  /-- where no form is handled, the local is stored, or what is stored already is left -/
  stored : locals.result = .ok ∨
    (∀ p, S.path p) ∧ (∀ t, S.timestamp t) ∧ (∀ n, S.size n) ∧ ∀ m, S.md5 m

/-- The entry has the known attributes, and others that show the stack. -/
structure Matches (S : Shown) (known : KnownEntry) (entry : DwarfLineNumContentEntry) : Prop where
  path : Is S.path known.path entry.path
  directoryIndex : Is S.directoryIndex known.directoryIndex entry.directoryIndex
  timestamp : Is S.timestamp known.timestamp entry.timestamp
  size : Is S.size known.size entry.size
  md5 : Is S.md5 known.md5 entry.md5

/-! ### The readers -/

section
variable {α : Type} {P : α → Prop} {known : Option α} {old : α}

/-- The end of a `read_lnct_*` function: the local is stored if the read was not an error. -/
theorem leaves_stored (set : α → DwarfLineNumContentEntry) {entry : DwarfLineNumContentEntry}
    {status : ReadStatus} {new : α} (hset : set old = entry)
    (h : Is P known (if status = .ok then new else old)) (bs : List UInt8) :
    Leaves ofBytes (if status = .ok then pure (set new) else pure entry :
      Parse DwarfLineNumContentEntry) bs (some bs) fun e => ∃ a, e = set a ∧ Is P known a := by
  by_cases hok : status = .ok
  · rw [if_pos hok] at h ⊢
    exact .pure ⟨new, rfl, h⟩
  · rw [if_neg hok] at h ⊢
    exact .pure ⟨old, hset.symm, h⟩

/-- One form of several: what is known after it is chosen as it is. -/
theorem leaves_ite_known {c : Prop} [Decidable c] {set : α → DwarfLineNumContentEntry}
    {p p' : Parse DwarfLineNumContentEntry} {o o' : Option (List UInt8)} {known' : Option α}
    {bs : List UInt8}
    (h : c → Leaves ofBytes p bs o fun e => ∃ a, e = set a ∧ Is P known a)
    (h' : ¬ c → Leaves ofBytes p' bs o' fun e => ∃ a, e = set a ∧ Is P known' a) :
    Leaves ofBytes (if c then p else p') bs (if c then o else o')
      fun e => ∃ a, e = set a ∧ Is P (if c then known else known') a :=
  Leaves.ite_value (Φ := fun k e => ∃ a, e = set a ∧ Is P k a) h h'

/-- Where no form is handled. -/
theorem is_unhandled {status : ReadStatus} {new : α} (hnew : P new) (h : status = .ok ∨ ∀ a, P a) :
    Is P none (if status = .ok then new else old) := by
  rcases h with h | h
  · rw [if_pos h]
    exact hnew
  · exact h _

theorem leaves_md5Bytes_known {known : Option (List UInt8)} {P : List UInt8 → Prop}
    {old : List UInt8} (out : Vector UInt8 16) (h : Is P known old) (bs : List UInt8) :
    Leaves ofBytes (readBytes out.toList 16) bs (some (skipBytes 16 bs)) fun x =>
      Is P (if 16 ≤ bs.length then some (bs.take 16) else known)
        (if x.1.status = .ok then x.2 else old) := by
  have hread := leaves_readBytes out.toList 16 bs
  rw [skipCopy, if_neg (by simp)] at hread
  refine hread.mono fun x hx => ?_
  by_cases hl : 16 ≤ bs.length
  · rw [if_pos hl, List.drop_of_length_le (by simp), List.append_nil] at hx
    rw [if_pos hl, hx]
    rfl
  · rw [if_neg hl] at hx ⊢
    rw [hx]
    exact h

variable {P : UInt64 → Prop} {known : Option UInt64} {old : UInt64}

theorem leaves_uleb128_known (h : Is P known old) (bs : List UInt8) :
    Leaves ofBytes readUleb128 bs (some (skipLeb bs)) fun x =>
      Is P (knownLeb known bs) (if x.1.status = .ok then x.2 else old) := by
  refine ⟨_, readUleb128_ofBytes bs, ?_⟩
  unfold knownLeb
  dsimp only
  split
  · rfl
  · exact h

/-- **Reading to a local that is not initialised**: all of it is read over, or the bytes that are not
show the stack. -/
theorem leaves_readInt_known {local_ : UInt64} (h : Is P known old)
    (hlocal : ∀ src, src.length < 8 → P (overwritten local_ src)) (n : ℕ) (bs : List UInt8) :
    Leaves ofBytes (readInt 8 local_.toNat n) bs (skipCopy 8 n bs) fun x =>
      Is P (knownInt n known bs) (if x.1.status = .ok then UInt64.ofNat x.2 else old) := by
  have hread := leaves_readInt 8 local_.toNat n bs
  by_cases hover : 8 < n ∧ n ≤ bs.length
  · unfold skipCopy at hread ⊢
    rw [if_pos hover] at hread ⊢
    exact hread
  refine hread.mono fun x hx => ?_
  unfold knownInt
  by_cases hl : n ≤ bs.length
  · have hlen : (bs.take n).length = n := List.length_take_of_le hl
    rw [if_pos hl] at hx ⊢
    rw [hx]
    by_cases h8 : n = 8
    · rw [if_pos h8, h8, List.drop_of_length_le (by rw [length_toLe]), List.append_nil]
      rfl
    · rw [if_neg h8]
      have hshown := hlocal (bs.take n) (by omega)
      rwa [overwritten, hlen] at hshown
  · rw [if_neg hl] at hx ⊢
    rw [hx]
    exact h

theorem leaves_readInt_known_le {local_ : UInt64} {n : ℕ} (hn : n ≤ 8) (h : Is P known old)
    (hlocal : ∀ src, src.length < 8 → P (overwritten local_ src)) (bs : List UInt8) :
    Leaves ofBytes (readInt 8 local_.toNat n) bs (some (skipBytes n bs)) fun x =>
      Is P (knownInt n known bs) (if x.1.status = .ok then UInt64.ofNat x.2 else old) := by
  have hread := leaves_readInt_known h hlocal n bs
  rwa [skipCopy, if_neg (by omega)] at hread

end

/-! ### One field -/

theorem overwritten_nil (locals : UInt64) : overwritten locals [] = locals := by
  rw [overwritten, List.nil_append, List.length_nil, List.drop_zero,
    ofLe_toLe_of_lt (by simpa using locals.toNat_lt), UInt64.ofNat_toNat]

section
variable (host : Host) {S : Shown} {locals : Locals} (hS : S.By locals) (form : DwarfFormCode)
  {entry : DwarfLineNumContentEntry} (bs : List UInt8)
include hS

theorem leaves_timestamp_known {known : Option UInt64} (h : Is S.timestamp known entry.timestamp) :
    Leaves ofBytes (readLnctTimestamp locals form entry) bs (skipTimestamp form bs)
      fun e => ∃ t, e = { entry with timestamp := t } ∧
        Is S.timestamp (knownTimestamp form known bs) t := by
  simp only [readLnctTimestamp, pure_bind, ne_eq, ite_not]
  have hstored {status : ReadStatus} {new : UInt64} {k : Option UInt64}
      (hk : Is S.timestamp k (if status = .ok then new else entry.timestamp)) :=
    leaves_stored (fun t => { entry with timestamp := t }) rfl hk
  have hint (n : ℕ) (hn : n ≤ 8) := leaves_readInt_known_le hn h hS.timestamp bs
  refine leaves_ite_known (fun _ => ?_) fun _ => leaves_ite_known (fun _ => ?_) fun _ =>
    leaves_ite_known (fun _ => ?_) fun _ => leaves_ite_known (fun _ => ?_) fun _ => ?_
  · exact (leaves_uleb128_known h bs).bind_some fun _ hx => hstored hx _
  · exact (hint 4 (by decide)).bind_some fun _ hx => hstored hx _
  · exact (hint 8 (by decide)).bind_some fun _ hx => hstored hx _
  · refine (leaves_uleb128 bs).bind_some fun x hx => ?_
    rw [hx]
    exact (leaves_readInt_known h hS.timestamp _ (skipLeb bs)).bind_end fun _ _ hx =>
      hstored hx _
  · have hlocal : S.timestamp locals.timestamp :=
      overwritten_nil locals.timestamp ▸ hS.timestamp [] (by decide)
    exact hstored (is_unhandled hlocal (hS.stored.imp_right fun h => h.2.1)) _

theorem leaves_size_known {known : Option UInt64} (h : Is S.size known entry.size) :
    Leaves ofBytes (readLnctSize locals form entry) bs (skipSize form bs)
      fun e => ∃ n, e = { entry with size := n } ∧ Is S.size (knownSize form known bs) n := by
  simp only [readLnctSize, pure_bind, ne_eq, ite_not]
  have hstored {status : ReadStatus} {new : UInt64} {k : Option UInt64}
      (hk : Is S.size k (if status = .ok then new else entry.size)) :=
    leaves_stored (fun n => { entry with size := n }) rfl hk
  have hint (n : ℕ) (hn : n ≤ 8) := leaves_readInt_known_le hn h hS.size bs
  refine leaves_ite_known (fun _ => ?_) fun _ => leaves_ite_known (fun _ => ?_) fun _ =>
    leaves_ite_known (fun _ => ?_) fun _ => leaves_ite_known (fun _ => ?_) fun _ =>
      leaves_ite_known (fun _ => ?_) fun _ => ?_
  · exact (leaves_uleb128_known h bs).bind_some fun _ hx => hstored hx _
  · exact (hint 1 (by decide)).bind_some fun _ hx => hstored hx _
  · exact (hint 2 (by decide)).bind_some fun _ hx => hstored hx _
  · exact (hint 4 (by decide)).bind_some fun _ hx => hstored hx _
  · exact (hint 8 (by decide)).bind_some fun _ hx => hstored hx _
  · have hlocal : S.size locals.size := overwritten_nil locals.size ▸ hS.size [] (by decide)
    exact hstored (is_unhandled hlocal (hS.stored.imp_right fun h => h.2.2.1)) _

theorem leaves_md5_known {known : Option (List UInt8)} (h : Is S.md5 known entry.md5) :
    Leaves ofBytes (readLnctMd5 locals form entry) bs (skipMd5 form bs)
      fun e => ∃ m, e = { entry with md5 := m } ∧ Is S.md5 (knownMd5 form known bs) m := by
  simp only [readLnctMd5, pure_bind, ne_eq, ite_not]
  have hstored {status : ReadStatus} {new : List UInt8} {k : Option (List UInt8)}
      (hk : Is S.md5 k (if status = .ok then new else entry.md5)) :=
    leaves_stored (fun m => { entry with md5 := m }) rfl hk
  refine leaves_ite_known (fun _ => ?_) fun _ => ?_
  · exact (leaves_md5Bytes_known locals.md5 h bs).bind_some fun _ hx => hstored hx _
  · exact hstored (is_unhandled hS.md5 (hS.stored.imp_right fun h => h.2.2.2)) _

end

/-! ### Entries -/

section
variable {host : Host} {S : Shown} (hS : ∀ r i j, S.By (host.locals r i j)) (isDwarf64 : Bool)
include hS

end

/-! ### How far the fields reach does not depend on the stack -/

section
variable (host : Host) (locals : BinaryReader → ℕ → ℕ → Locals) (isDwarf64 : Bool)

end

/-! ### Encoded integers -/

section
variable {v : UInt64} {known : Option UInt64} {bs : List UInt8}

end

/-! ### What three stacks leave -/

/-- A stack of zeros, except for a pointer. -/
def zeros : Locals := ⟨.ok, .indeterminate 0, 0, 0, Vector.replicate 16 0⟩

/-- Anything. -/
def shownAny : Shown where
  path _ := True
  directoryIndex _ := True
  timestamp _ := True
  size _ := True
  md5 _ := True

theorem shownAny_by (locals : Locals) : shownAny.By locals where
  path := trivial
  directoryIndex _ _ := trivial
  timestamp _ _ := trivial
  size _ _ := trivial
  md5 := trivial
  stored := .inr ⟨fun _ => trivial, fun _ => trivial, fun _ => trivial, fun _ => trivial⟩

section
variable (host : Host) (formats : List DwarfLineNumFormatDesc) (isDwarf64 : Bool) (n : ℕ)
  (bs : List UInt8)

variable {host formats isDwarf64 n bs}

end

end Dabugger.Dwarf.Residue
