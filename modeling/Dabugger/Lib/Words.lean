import Dabugger.Lib.Bytes
import Mathlib.Logic.Function.Basic

/-! # Words in a byte memory

A memory that wraps around, read and written by little-endian words. To change the lowest byte of a
word and to write the word back is to change one byte of the memory (`writeWord_patch`). `overlay`
is a memory with one value at a list of addresses. -/

namespace Dabugger.Lib.Words

open Dabugger.Lib.Bytes

/-- A byte for each address. -/
abbrev Memory := UInt64 → UInt8

/-- The bytes from an address on. -/
def bytesAt (memory : Memory) (address : UInt64) (n : ℕ) : List UInt8 :=
  (List.range n).map fun i => memory (address + UInt64.ofNat i)

/-- The memory with bytes written from an address on. -/
def writeBytes (memory : Memory) (address : UInt64) (bs : List UInt8) : Memory :=
  fun a => bs[(a - address).toNat]?.getD (memory a)

/-- The eight bytes at an address as a number. -/
def readWord (memory : Memory) (address : UInt64) : UInt64 :=
  UInt64.ofNat (ofLe (bytesAt memory address 8))

/-- The memory with a number written on the eight bytes at an address. -/
def writeWord (memory : Memory) (address word : UInt64) : Memory :=
  writeBytes memory address (toLe 8 word.toNat)

/-- The word with another lowest byte. -/
def patch (word : UInt64) (byte : UInt8) : UInt64 := (word &&& ~~~0xff) ||| byte.toUInt64

@[simp] theorem length_bytesAt (memory : Memory) (address : UInt64) (n : ℕ) :
    (bytesAt memory address n).length = n := by simp [bytesAt]

theorem toNat_readWord (memory : Memory) (address : UInt64) :
    (readWord memory address).toNat = ofLe (bytesAt memory address 8) := by
  have h := ofLe_lt (bytesAt memory address 8)
  rw [length_bytesAt] at h
  rw [readWord, UInt64.toNat_ofNat', Nat.mod_eq_of_lt (by omega)]

/-- The mask takes away the lowest eight bits. -/
theorem toNat_and_mask (word : UInt64) :
    (word &&& ~~~(0xff : UInt64)).toNat = 2 ^ 8 * (word.toNat / 256) := by
  have h : word &&& ~~~(0xff : UInt64) = (word >>> 8) <<< 8 := by
    apply UInt64.toBitVec_inj.mp
    ext i hi
    simp only [UInt64.toBitVec_and, UInt64.toBitVec_not, UInt64.toBitVec_shiftLeft,
      UInt64.toBitVec_shiftRight]
    interval_cases i <;> simp
  have hlt := word.toNat_lt
  rw [h]
  rw [UInt64.toNat_shiftLeft, UInt64.toNat_shiftRight, Nat.shiftLeft_eq, Nat.shiftRight_eq_div_pow]
  change word.toNat / 2 ^ 8 * 2 ^ 8 % 2 ^ 64 = _
  omega

theorem toNat_patch (word : UInt64) (byte : UInt8) :
    (patch word byte).toNat = byte.toNat + 256 * (word.toNat / 256) := by
  have hb : byte.toUInt64.toNat < 2 ^ 8 := by
    rw [UInt8.toNat_toUInt64]
    exact byte.toNat_lt
  rw [patch, UInt64.toNat_or, toNat_and_mask, ← Nat.two_pow_add_eq_or_of_lt hb,
    UInt8.toNat_toUInt64]
  omega

/-- The bytes of a patched word. -/
theorem toLe_patch (memory : Memory) (address : UInt64) (byte : UInt8) :
    toLe 8 (patch (readWord memory address) byte).toNat =
      byte :: (bytesAt memory address 8).tail := by
  have hb := byte.toNat_lt
  have hdiv : (byte.toNat + 256 * ((readWord memory address).toNat / 256)) / 256 =
      (readWord memory address).toNat / 256 := by omega
  have hbyte : UInt8.ofNat (byte.toNat + 256 * ((readWord memory address).toNat / 256)) = byte := by
    apply UInt8.toNat_inj.mp
    rw [UInt8.toNat_ofNat']
    omega
  have htail : (bytesAt memory address 8).tail = toLe 7 ((readWord memory address).toNat / 256) := by
    have h := toLe_ofLe (bytesAt memory address 8)
    rw [length_bytesAt, toLe] at h
    rw [← h, List.tail_cons, toNat_readWord]
  rw [toNat_patch, toLe, hdiv, hbyte, htail]

/-- **One byte of a word.** To read a word, change its lowest byte and write it back changes one
byte of the memory. -/
theorem writeWord_patch (memory : Memory) (address : UInt64) (byte : UInt8) :
    writeWord memory address (patch (readWord memory address) byte) =
      Function.update memory address byte := by
  funext a
  rw [writeWord, toLe_patch, writeBytes]
  by_cases h : a = address
  · subst h
    simp
  · rw [Function.update_of_ne h]
    have hpos : (a - address).toNat ≠ 0 := by
      intro h0
      have hz : a - address = 0 := UInt64.toNat_inj.mp h0
      rw [← UInt64.sub_add_cancel a address, hz, UInt64.zero_add] at h
      exact h rfl
    obtain ⟨k, hk⟩ := Nat.exists_eq_succ_of_ne_zero hpos
    rw [hk, List.getElem?_cons_succ, List.getElem?_tail]
    by_cases hlt : k + 1 < 8
    · have haddr : address + UInt64.ofNat (k + 1) = a := by
        rw [← Nat.succ_eq_add_one, ← hk, UInt64.ofNat_toNat, UInt64.add_comm,
          UInt64.sub_add_cancel]
      rw [bytesAt, List.getElem?_map, List.getElem?_range hlt, Option.map_some, Option.getD_some,
        haddr]
    · rw [List.getElem?_eq_none (by rw [length_bytesAt]; omega), Option.getD_none]

/-! ### One value at many addresses -/

/-- The memory with a value at these addresses. -/
def overlay (addresses : List UInt64) (byte : UInt8) (memory : Memory) : Memory :=
  fun a => if a ∈ addresses then byte else memory a

theorem overlay_of_mem {addresses : List UInt64} {byte : UInt8} {memory : Memory} {a : UInt64}
    (h : a ∈ addresses) : overlay addresses byte memory a = byte := if_pos h

theorem overlay_of_notMem {addresses : List UInt64} {byte : UInt8} {memory : Memory} {a : UInt64}
    (h : a ∉ addresses) : overlay addresses byte memory a = memory a := if_neg h

@[simp] theorem overlay_nil (byte : UInt8) (memory : Memory) : overlay [] byte memory = memory := by
  funext a
  exact overlay_of_notMem (by simp)

/-- The addresses one after another. -/
theorem overlay_cons (address : UInt64) (addresses : List UInt64) (byte : UInt8)
    (memory : Memory) :
    overlay (address :: addresses) byte memory =
      overlay addresses byte (Function.update memory address byte) := by
  funext a
  by_cases hm : a ∈ addresses
  · rw [overlay_of_mem hm, overlay_of_mem (List.mem_cons_of_mem _ hm)]
  · rw [overlay_of_notMem hm]
    by_cases ha : a = address
    · subst ha
      rw [overlay_of_mem (List.mem_cons_self ..), Function.update_self]
    · rw [overlay_of_notMem (by simp [ha, hm]), Function.update_of_ne ha]

end Dabugger.Lib.Words
