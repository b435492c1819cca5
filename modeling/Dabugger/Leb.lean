import Dabugger.Reader

/-! # LEB128 numbers

`read_uleb128` and `read_sleb128` undo the encoding, whether it is minimal or padded.

Both count the bytes of a number, up to ten, where overflow is a matter of bits: of the tenth byte
one bit is left for the 64 bits of the result. A number with more bits there is returned with
`READ_OK` and without them. -/

namespace Dabugger.Leb

open Dabugger.Lib.Bytes Dabugger.Lib.Exact Dabugger.Base Dabugger.Base.BinaryReader Dabugger.Reader

/-! ### Decoding undoes encoding -/

theorem readUleb128_encoding {v : UInt64} {bs : List UInt8} (h : IsUleb v.toNat bs)
    (rest : List UInt8) :
    readUleb128 (ofBytes (bs ++ rest)) = .ok ((⟨bs.length, .ok⟩, v), ofBytes rest) := by
  have hread := reads_readUleb128 h rest
  rwa [UInt64.ofNat_toNat] at hread

theorem readSleb128_encoding {v : Int64} {bs : List UInt8} (h : IsSleb v.toInt bs)
    (rest : List UInt8) :
    readSleb128 (ofBytes (bs ++ rest)) = .ok ((⟨bs.length, .ok⟩, v), ofBytes rest) := by
  have hread := reads_readSleb128 h rest
  rwa [Int64.ofInt_toInt] at hread

/-- **Round trip**: each encoding of a 64-bit number on at most ten bytes, minimal or padded, is
decoded to the number, and the reader is left behind it. -/
theorem decode_encoding :
    (∀ (v : UInt64) (bs : List UInt8), IsUleb v.toNat bs → ∀ rest,
      readUleb128 (ofBytes (bs ++ rest)) = .ok ((⟨bs.length, .ok⟩, v), ofBytes rest)) ∧
    ∀ (v : Int64) (bs : List UInt8), IsSleb v.toInt bs → ∀ rest,
      readSleb128 (ofBytes (bs ++ rest)) = .ok ((⟨bs.length, .ok⟩, v), ofBytes rest) :=
  ⟨fun _ _ h => readUleb128_encoding h, fun _ _ h => readSleb128_encoding h⟩

/-- The bounds of the signed numbers on ten bytes, and a padded zero. -/
theorem decode_encoding_bounds :
    readUleb128 (ofBytes ([0x80, 0x80, 0x00] ++ [7])) =
        .ok ((⟨3, .ok⟩, 0), ofBytes [7]) ∧
      readSleb128 (ofBytes (toLeb 10 (2 ^ 63 - 1) ++ [])) =
        .ok ((⟨10, .ok⟩, Int64.maxValue), ofBytes []) ∧
      readSleb128 (ofBytes (toLeb 10 (128 ^ 10 - 2 ^ 63) ++ [])) =
        .ok ((⟨10, .ok⟩, Int64.minValue), ofBytes []) :=
  ⟨decode_encoding.1 0 _ (by decide) [7],
    decode_encoding.2 Int64.maxValue (toLeb 10 (2 ^ 63 - 1)) (by decide) [],
    decode_encoding.2 Int64.minValue (toLeb 10 (128 ^ 10 - 2 ^ 63)) (by decide) []⟩

/-- A number is read back from its groups, on any number of bytes that holds it. -/
theorem readUleb128_toLeb {v : UInt64} {n : ℕ} (hn : n < 10) (hv : v.toNat < 128 ^ (n + 1))
    (rest : List UInt8) :
    readUleb128 (ofBytes (toLeb (n + 1) v.toNat ++ rest)) =
      .ok ((⟨n + 1, .ok⟩, v), ofBytes rest) := by
  rw [readUleb128_encoding (isUleb_iff.mpr ⟨n, hn, hv, rfl⟩), length_toLeb]

theorem readSleb128_toLeb {v : Int64} {n : ℕ} (hn : n < 10) (hlow : -(64 * 128 ^ n) ≤ v.toInt)
    (hhigh : v.toInt < 64 * 128 ^ n) (rest : List UInt8) :
    readSleb128 (ofBytes (toLeb (n + 1) (v.toInt % 128 ^ (n + 1)).toNat ++ rest)) =
      .ok ((⟨n + 1, .ok⟩, v), ofBytes rest) := by
  rw [readSleb128_encoding (isSleb_iff.mpr ⟨n, hn, hlow, hhigh, rfl⟩), length_toLeb]

/-! ### Truncation -/

/-- `read_uleb128` returns the exact value of the bytes it takes, or not `READ_OK`. -/
def UlebExact (bs : List UInt8) : Prop :=
  ∃ result out reader, readUleb128 (ofBytes bs) = .ok ((result, out), reader) ∧
    (result.status = .ok → out.toNat = ulebVal (bs.take result.bytesConsumed)) ∧
    (2 ^ 64 ≤ ulebVal (bs.take result.bytesConsumed) → result.status = .lebU64Overflow)

/-- `read_sleb128` returns the exact value of the bytes it takes, or not `READ_OK`. -/
def SlebExact (bs : List UInt8) : Prop :=
  ∃ result out reader, readSleb128 (ofBytes bs) = .ok ((result, out), reader) ∧
    (result.status = .ok → out.toInt = slebVal (bs.take result.bytesConsumed)) ∧
    (slebVal (bs.take result.bytesConsumed) < -2 ^ 63 ∨
      2 ^ 63 ≤ slebVal (bs.take result.bytesConsumed) → result.status = .lebI64Overflow)

section
variable {bs : List UInt8} {b : UInt8}

theorem ulebExact_iff_value : UlebExact bs ↔
    (lebStatus .lebU64Overflow 10 bs = .ok →
      (UInt64.ofNat (ulebVal (bs.take (lebSpan 10 bs)))).toNat = ulebVal (bs.take (lebSpan 10 bs))) ∧
    (2 ^ 64 ≤ ulebVal (bs.take (lebSpan 10 bs)) →
      lebStatus .lebU64Overflow 10 bs = .lebU64Overflow) := by
  rw [UlebExact, readUleb128_ofBytes]
  constructor
  · rintro ⟨result, out, reader, h, hexact⟩
    cases h
    exact hexact
  · exact fun h => ⟨_, _, _, rfl, h⟩

theorem slebExact_iff_value : SlebExact bs ↔
    (lebStatus .lebI64Overflow 10 bs = .ok →
      (Int64.ofInt (slebVal (bs.take (lebSpan 10 bs)))).toInt = slebVal (bs.take (lebSpan 10 bs))) ∧
    (slebVal (bs.take (lebSpan 10 bs)) < -2 ^ 63 ∨ 2 ^ 63 ≤ slebVal (bs.take (lebSpan 10 bs)) →
      lebStatus .lebI64Overflow 10 bs = .lebI64Overflow) := by
  rw [SlebExact, readSleb128_ofBytes]
  constructor
  · rintro ⟨result, out, reader, h, hexact, hlarge⟩
    cases h
    refine ⟨fun hok => ?_, hlarge⟩
    have hout := hexact hok
    rwa [if_pos hok] at hout
  · rintro ⟨hexact, hlarge⟩
    refine ⟨_, _, _, rfl, fun hok => ?_, hlarge⟩
    rw [if_pos hok]
    exact hexact hok

/-- A number on at most nine bytes has 63 bits. -/
theorem ulebVal_take_lt_nine {k : ℕ} (hk : k ≤ 9) (bs : List UInt8) :
    ulebVal (bs.take k) < 2 ^ 63 := by
  have hlt := ulebVal_take_lt k bs
  have hpow : 128 ^ k ≤ 128 ^ 9 := Nat.pow_le_pow_right (by decide) hk
  omega

theorem slebVal_take_bounds_nine {k : ℕ} (hk : k ≤ 9) (bs : List UInt8) :
    -2 ^ 62 ≤ slebVal (bs.take k) ∧ slebVal (bs.take k) < 2 ^ 62 := by
  have hlen := List.length_take_le k bs
  rcases hn : (bs.take k).length with _ | n
  · rw [List.length_eq_zero_iff.mp hn]
    decide
  · obtain ⟨hlow, hhigh⟩ := slebVal_bounds hn
    have hpow : (128 : ℤ) ^ n ≤ 128 ^ 8 := pow_le_pow_right₀ (by decide) (by omega)
    constructor <;> omega

/-- **The unsigned reader is exact** exactly if a tenth byte that ends the number has one bit. -/
theorem ulebExact_iff : UlebExact bs ↔
    ∀ b, ContinuesTo 9 bs b → b.toNat < 2 ∨ 128 ≤ b.toNat := by
  rw [ulebExact_iff_value]
  constructor
  · rintro ⟨-, hlarge⟩ b hb
    by_contra hcon
    obtain ⟨hspan, hok⟩ := lebSpan_of_continuesTo hb (by omega) (show 9 < 10 by decide)
    rw [hspan, hok, ulebVal_take_succ hb.2] at hlarge
    have hover := hlarge (by omega)
    cases hover
  · intro h
    rcases lebStatus_cases .lebU64Overflow 10 bs with ⟨hs, -, -, -⟩ | ⟨hs, hspan, hlt, -⟩ |
      ⟨k, hk, b, hs, hspan, hb, hb128⟩
    · rw [hs]
      exact ⟨fun hok => (by cases hok), fun _ => rfl⟩
    · have hval := ulebVal_take_lt_nine (show bs.length ≤ 9 by omega) bs
      rw [hs, hspan]
      exact ⟨fun hok => (by cases hok), fun hlarge => by omega⟩
    · have hval : ulebVal (bs.take (k + 1)) < 2 ^ 64 := by
        by_cases hk9 : k = 9
        · subst hk9
          have hlow := ulebVal_take_lt 9 bs
          have htenth := h b hb
          rw [ulebVal_take_succ hb.2]
          omega
        · have hlow := ulebVal_take_lt_nine (show k + 1 ≤ 9 by omega) bs
          omega
      rw [hs, hspan, UInt64.toNat_ofNat', Nat.mod_eq_of_lt hval]
      exact ⟨fun _ => rfl, fun hlarge => by omega⟩

/-- **The signed reader is exact** exactly if a tenth byte that ends the number extends its sign. -/
theorem slebExact_iff : SlebExact bs ↔
    ∀ b, ContinuesTo 9 bs b → b.toNat = 0 ∨ 127 ≤ b.toNat := by
  rw [slebExact_iff_value]
  constructor
  · rintro ⟨-, hlarge⟩ b hb
    by_contra hcon
    obtain ⟨hspan, hok⟩ := lebSpan_of_continuesTo hb (by omega) (show 9 < 10 by decide)
    have hlow := ulebVal_take_lt 9 bs
    rw [hspan, hok, slebVal_take_succ hb.2] at hlarge
    have hover := hlarge (by split_ifs <;> omega)
    cases hover
  · intro h
    rcases lebStatus_cases .lebI64Overflow 10 bs with ⟨hs, -, -, -⟩ | ⟨hs, hspan, hlt, -⟩ |
      ⟨k, hk, b, hs, hspan, hb, hb128⟩
    · rw [hs]
      exact ⟨fun hok => (by cases hok), fun _ => rfl⟩
    · obtain ⟨hmin, hmax⟩ := slebVal_take_bounds_nine (show bs.length ≤ 9 by omega) bs
      rw [hs, hspan]
      exact ⟨fun hok => (by cases hok), fun hlarge => by omega⟩
    · have hval : -2 ^ 63 ≤ slebVal (bs.take (k + 1)) ∧ slebVal (bs.take (k + 1)) < 2 ^ 63 := by
        by_cases hk9 : k = 9
        · subst hk9
          have hlow := ulebVal_take_lt 9 bs
          have htenth := h b hb
          rw [slebVal_take_succ hb.2]
          split_ifs <;> omega
        · obtain ⟨hmin, hmax⟩ := slebVal_take_bounds_nine (show k + 1 ≤ 9 by omega) bs
          omega
      rw [hs, hspan, Int64.toInt_ofInt_of_le hval.1 hval.2]
      exact ⟨fun _ => rfl, fun hlarge => by omega⟩

/-- **No silent truncation**: the readers return the exact value exactly if a tenth byte that ends the
number holds no bit that is lost. -/
theorem neverTruncates_iff (bs : List UInt8) :
    (UlebExact bs ↔ ∀ b, ContinuesTo 9 bs b → b.toNat < 2 ∨ 128 ≤ b.toNat) ∧
      (SlebExact bs ↔ ∀ b, ContinuesTo 9 bs b → b.toNat = 0 ∨ 127 ≤ b.toNat) :=
  ⟨ulebExact_iff, slebExact_iff⟩

/-- Ten bytes whose last holds the bit of weight `2^64`, and for the signed reader the bit of
weight `2^63`. -/
theorem not_exact_tenByte :
    ¬ UlebExact [128, 128, 128, 128, 128, 128, 128, 128, 128, 2] ∧
      ¬ SlebExact [128, 128, 128, 128, 128, 128, 128, 128, 128, 1] := by
  rw [ulebExact_iff, slebExact_iff]
  refine ⟨fun h => ?_, fun h => ?_⟩
  · have htenth := h 2 (by decide)
    simp at htenth
  · have htenth := h 1 (by decide)
    simp at htenth

end

end Dabugger.Leb
