import Mathlib.Data.Nat.Digits.Lemmas
import Mathlib.Tactic

/-! # Numbers as bytes

`ofLe` reads bytes as a little-endian number, `toLe w` writes a number on `w` bytes.

For LEB128: `IsLeb` is the shape (all bytes but the last have the high bit), `ulebVal` and
`slebVal` the unsigned and the signed value, `lebSpan n` the bytes a reader takes that gives up
after `n` of them. `toLeb n` writes a number on `n` bytes: the encodings of a number are what it
writes on enough of them (`isUleb_iff`, `isSleb_iff`). -/

namespace Dabugger.Lib.Bytes

/-! ### Little-endian numbers -/

/-- The number with the little-endian digits `bs`. -/
def ofLe (bs : List UInt8) : ℕ := Nat.ofDigits 256 (bs.map UInt8.toNat)

/-- `v` on `w` bytes, little-endian. -/
def toLe : ℕ → ℕ → List UInt8
  | 0, _ => []
  | w + 1, v => UInt8.ofNat v :: toLe w (v / 256)

@[simp] theorem ofLe_nil : ofLe [] = 0 := rfl

theorem ofLe_cons (b : UInt8) (bs : List UInt8) : ofLe (b :: bs) = b.toNat + 256 * ofLe bs := by
  simp [ofLe, Nat.ofDigits_cons]

@[simp] theorem length_toLe : ∀ w v : ℕ, (toLe w v).length = w
  | 0, _ => rfl
  | w + 1, v => by simp [toLe, length_toLe w]

/-- **Reading back** what was written. -/
theorem ofLe_toLe : ∀ w v : ℕ, ofLe (toLe w v) = v % 256 ^ w
  | 0, v => by simp [toLe, Nat.mod_one]
  | w + 1, v => by
    have h : v % 256 ^ (w + 1) = v % 256 + 256 * (v / 256 % 256 ^ w) := by
      rw [pow_succ', Nat.mod_mul]
    rw [toLe, ofLe_cons, ofLe_toLe w, UInt8.toNat_ofNat', h]

theorem ofLe_toLe_of_lt {w v : ℕ} (h : v < 256 ^ w) : ofLe (toLe w v) = v := by
  rw [ofLe_toLe, Nat.mod_eq_of_lt h]

theorem ofLe_lt : ∀ bs : List UInt8, ofLe bs < 256 ^ bs.length
  | [] => by simp
  | b :: bs => by
    have h := ofLe_lt bs
    have hb : b.toNat < 256 := b.toNat_lt
    rw [ofLe_cons, List.length_cons, pow_succ']
    omega

/-- The bytes of a number are determined by it. -/
theorem toLe_ofLe : ∀ bs : List UInt8, toLe bs.length (ofLe bs) = bs
  | [] => rfl
  | b :: bs => by
    have hb : b.toNat < 256 := b.toNat_lt
    have hd : (b.toNat + 256 * ofLe bs) / 256 = ofLe bs := by omega
    rw [List.length_cons, toLe, ofLe_cons, hd, toLe_ofLe bs]
    congr 1
    apply UInt8.toNat_inj.mp
    rw [UInt8.toNat_ofNat']
    omega

theorem toLe_zero : ∀ w : ℕ, toLe w 0 = List.replicate w 0
  | 0 => rfl
  | w + 1 => by rw [toLe, Nat.zero_div, toLe_zero w]; rfl

theorem ofLe_append : ∀ as bs : List UInt8, ofLe (as ++ bs) = ofLe as + 256 ^ as.length * ofLe bs
  | [], bs => by simp
  | a :: as, bs => by
    rw [List.cons_append, ofLe_cons, ofLe_append as bs, ofLe_cons, List.length_cons, pow_succ']
    ring

theorem ofLe_replicate_zero : ∀ n : ℕ, ofLe (List.replicate n 0) = 0
  | 0 => rfl
  | n + 1 => by rw [List.replicate_succ, ofLe_cons, ofLe_replicate_zero n]; rfl

/-! ### LEB128 -/

/-- The shape of a LEB128 number: the high bit is set on all bytes but the last. -/
def IsLeb : List UInt8 → Prop
  | [] => False
  | b :: bs => if b.toNat < 128 then bs = [] else IsLeb bs

instance decidableIsLeb : (bs : List UInt8) → Decidable (IsLeb bs)
  | [] => isFalse id
  | b :: bs =>
    have := decidableIsLeb bs
    inferInstanceAs (Decidable (if b.toNat < 128 then bs = [] else IsLeb bs))

/-- The value of the seven-bit groups, lowest first. -/
def ulebVal (bs : List UInt8) : ℕ := Nat.ofDigits 128 (bs.map fun b => b.toNat % 128)

/-- The sign bit of the last group. -/
def signBit (bs : List UInt8) : Bool := decide (64 ≤ (bs.getLastD 0).toNat % 128)

/-- The signed value: two's complement on all the groups. -/
def slebVal (bs : List UInt8) : ℤ := ulebVal bs - if signBit bs then 128 ^ bs.length else 0

@[simp] theorem ulebVal_nil : ulebVal [] = 0 := rfl

theorem ulebVal_cons (b : UInt8) (bs : List UInt8) :
    ulebVal (b :: bs) = b.toNat % 128 + 128 * ulebVal bs := by
  simp [ulebVal, Nat.ofDigits_cons]

theorem ulebVal_append : ∀ as bs : List UInt8,
    ulebVal (as ++ bs) = ulebVal as + 128 ^ as.length * ulebVal bs
  | [], bs => by simp
  | a :: as, bs => by
    rw [List.cons_append, ulebVal_cons, ulebVal_append as bs, ulebVal_cons, List.length_cons,
      pow_succ']
    ring

theorem ulebVal_lt : ∀ bs : List UInt8, ulebVal bs < 128 ^ bs.length
  | [] => by simp
  | b :: bs => by
    have h := ulebVal_lt bs
    have hb : b.toNat % 128 < 128 := Nat.mod_lt _ (by decide)
    rw [ulebVal_cons, List.length_cons, pow_succ']
    omega

theorem IsLeb.ne_nil {bs : List UInt8} (h : IsLeb bs) : bs ≠ [] := by
  rintro rfl
  exact h

/-- `bs`, of at most ten bytes, is an unsigned LEB128 encoding of `v`; it may be padded. -/
structure IsUleb (v : ℕ) (bs : List UInt8) : Prop where
  shape : IsLeb bs
  short : bs.length ≤ 10
  val : ulebVal bs = v

/-- `bs`, of at most ten bytes, is a signed LEB128 encoding of `v`; it may be padded. -/
structure IsSleb (v : ℤ) (bs : List UInt8) : Prop where
  shape : IsLeb bs
  short : bs.length ≤ 10
  val : slebVal bs = v

instance (v : ℕ) (bs : List UInt8) : Decidable (IsUleb v bs) :=
  decidable_of_iff (IsLeb bs ∧ bs.length ≤ 10 ∧ ulebVal bs = v)
    ⟨fun ⟨a, b, c⟩ => ⟨a, b, c⟩, fun ⟨a, b, c⟩ => ⟨a, b, c⟩⟩

instance (v : ℤ) (bs : List UInt8) : Decidable (IsSleb v bs) :=
  decidable_of_iff (IsLeb bs ∧ bs.length ≤ 10 ∧ slebVal bs = v)
    ⟨fun ⟨a, b, c⟩ => ⟨a, b, c⟩, fun ⟨a, b, c⟩ => ⟨a, b, c⟩⟩

/-- The bytes a LEB128 reader takes that gives up after `n` of them. -/
def lebSpan : ℕ → List UInt8 → ℕ
  | 0, _ => 0
  | _ + 1, [] => 0
  | n + 1, b :: bs => if b.toNat < 128 then 1 else lebSpan n bs + 1

theorem lebSpan_le : ∀ (n : ℕ) (bs : List UInt8), lebSpan n bs ≤ bs.length
  | 0, _ => Nat.zero_le _
  | _ + 1, [] => Nat.le_refl _
  | n + 1, b :: bs => by
    have := lebSpan_le n bs
    simp only [lebSpan, List.length_cons]
    split <;> omega

theorem lebSpan_le_count : ∀ (n : ℕ) (bs : List UInt8), lebSpan n bs ≤ n
  | 0, _ => Nat.le_refl _
  | _ + 1, [] => Nat.zero_le _
  | n + 1, b :: bs => by
    have := lebSpan_le_count n bs
    rw [lebSpan]
    split <;> omega

theorem lt_lebSpan : ∀ {k n : ℕ} {bs : List UInt8}, (∀ c ∈ bs.take k, 128 ≤ c.toNat) →
    k < bs.length → k < n → k < lebSpan n bs
  | _, _, [], _, h, _ => by simp at h
  | 0, n + 1, c :: bs, _, _, _ => by
    rw [lebSpan]
    split <;> omega
  | k + 1, n + 1, c :: bs, h, hk, hn => by
    rw [List.take_succ_cons, List.forall_mem_cons] at h
    have ih := lt_lebSpan h.2 (n := n) (by simpa using hk) (by omega)
    rw [lebSpan, if_neg (by omega)]
    omega

/-- A number that is longer is not taken to its end. -/
theorem lebSpan_of_lt : ∀ {bs : List UInt8} {n : ℕ} (rest : List UInt8), IsLeb bs → n < bs.length →
    lebSpan n (bs ++ rest) = n
  | _, 0, _, _, _ => rfl
  | [], _ + 1, _, h, _ => h.elim
  | b :: bs, n + 1, rest, h, hn => by
    rw [IsLeb] at h
    rw [List.length_cons] at hn
    by_cases hb : b.toNat < 128
    · rw [if_pos hb] at h
      rw [h, List.length_nil] at hn
      omega
    · rw [if_neg hb] at h
      rw [List.cons_append, lebSpan, if_neg hb, lebSpan_of_lt rest h (by omega)]

/-! ### The byte that ends a number -/

/-- `n` bytes with the high bit, then `b`. -/
def ContinuesTo (n : ℕ) (bs : List UInt8) (b : UInt8) : Prop :=
  (∀ c ∈ bs.take n, 128 ≤ c.toNat) ∧ bs[n]? = some b

instance (n : ℕ) (bs : List UInt8) (b : UInt8) : Decidable (ContinuesTo n bs b) :=
  have : Decidable (∀ c ∈ bs.take n, 128 ≤ c.toNat) := List.decidableBAll _ _
  inferInstanceAs (Decidable (_ ∧ _))

theorem continuesTo_cons {n : ℕ} {bs : List UInt8} {b c : UInt8} :
    ContinuesTo (n + 1) (c :: bs) b ↔ 128 ≤ c.toNat ∧ ContinuesTo n bs b := by
  rw [ContinuesTo, ContinuesTo, List.take_succ_cons, List.forall_mem_cons,
    List.getElem?_cons_succ, and_assoc]

section
variable {n k : ℕ} {bs : List UInt8} {b : UInt8}

theorem length_take_of_getElem? (h : bs[k]? = some b) : (bs.take k).length = k := by
  obtain ⟨hlt, -⟩ := List.getElem?_eq_some_iff.mp h
  rw [List.length_take, Nat.min_eq_left hlt.le]

theorem ulebVal_take_succ (h : bs[k]? = some b) :
    ulebVal (bs.take (k + 1)) = ulebVal (bs.take k) + 128 ^ k * (b.toNat % 128) := by
  rw [List.take_add_one, h, ulebVal_append, length_take_of_getElem? h]
  rfl

theorem getLastD_take_succ (h : bs[k]? = some b) (d : UInt8) :
    (bs.take (k + 1)).getLastD d = b := by
  rw [List.take_add_one, h, Option.toList_some, List.getLastD_concat]

theorem slebVal_take_succ (h : bs[k]? = some b) :
    slebVal (bs.take (k + 1)) = ulebVal (bs.take k) + 128 ^ k * ((b.toNat % 128 : ℕ) : ℤ) -
      if 64 ≤ b.toNat % 128 then 128 ^ (k + 1) else 0 := by
  have hlen : (bs.take (k + 1)).length = k + 1 := by
    rw [List.take_add_one, h, List.length_append, length_take_of_getElem? h]
    rfl
  rw [slebVal, signBit, getLastD_take_succ h, hlen, ulebVal_take_succ h]
  push_cast
  simp only [decide_eq_true_iff]

theorem ulebVal_take_lt (k : ℕ) (bs : List UInt8) : ulebVal (bs.take k) < 128 ^ k :=
  (ulebVal_lt _).trans_le (Nat.pow_le_pow_right (by decide) (List.length_take_le k bs))

end

/-! ### LEB128 encodings -/

/-- `v` in `n` groups of seven bits, lowest first, with the high bit on all bytes but the last. -/
def toLeb : ℕ → ℕ → List UInt8
  | 0, _ => []
  | n + 1, v => UInt8.ofNat (v % 128 + if n = 0 then 0 else 128) :: toLeb n (v / 128)

@[simp] theorem length_toLeb : ∀ n v : ℕ, (toLeb n v).length = n
  | 0, _ => rfl
  | n + 1, v => by simp [toLeb, length_toLeb n]

theorem toNat_toLeb_byte (n v : ℕ) :
    (UInt8.ofNat (v % 128 + if n = 0 then 0 else 128)).toNat =
      v % 128 + if n = 0 then 0 else 128 := by
  rw [UInt8.toNat_ofNat']
  have hv : v % 128 < 128 := Nat.mod_lt _ (by decide)
  split_ifs <;> omega

theorem isLeb_toLeb : ∀ n v : ℕ, IsLeb (toLeb (n + 1) v)
  | 0, v => by
    have hv : v % 128 < 128 := Nat.mod_lt _ (by decide)
    rw [toLeb, IsLeb, toNat_toLeb_byte, if_pos rfl, Nat.add_zero, if_pos hv]
    rfl
  | n + 1, v => by
    rw [toLeb, IsLeb, toNat_toLeb_byte, if_neg (Nat.succ_ne_zero n), if_neg (by omega)]
    exact isLeb_toLeb n (v / 128)

theorem ulebVal_toLeb : ∀ n v : ℕ, ulebVal (toLeb n v) = v % 128 ^ n
  | 0, v => by simp [toLeb, Nat.mod_one]
  | n + 1, v => by
    have hd : (v % 128 + if n = 0 then 0 else 128) % 128 = v % 128 := by split_ifs <;> omega
    rw [toLeb, ulebVal_cons, toNat_toLeb_byte, hd, ulebVal_toLeb n, pow_succ', Nat.mod_mul]

/-- An encoding is determined by its length and its groups. -/
theorem toLeb_ulebVal : ∀ {bs : List UInt8}, IsLeb bs → toLeb bs.length (ulebVal bs) = bs
  | [], h => h.elim
  | b :: bs, h => by
    have hb : b.toNat < 256 := b.toNat_lt
    have hdiv : (b.toNat % 128 + 128 * ulebVal bs) / 128 = ulebVal bs := by omega
    rw [List.length_cons, toLeb, ulebVal_cons, hdiv]
    rw [IsLeb] at h
    by_cases hlast : b.toNat < 128
    · rw [if_pos hlast] at h
      subst h
      rw [List.length_nil, if_pos rfl, toLeb]
      congr 1
      apply UInt8.toNat_inj.mp
      rw [UInt8.toNat_ofNat', ulebVal_nil]
      omega
    · rw [if_neg hlast] at h
      have hlen : bs.length ≠ 0 := fun h0 => h.ne_nil (List.length_eq_zero_iff.mp h0)
      rw [if_neg hlen, toLeb_ulebVal h]
      congr 1
      apply UInt8.toNat_inj.mp
      rw [UInt8.toNat_ofNat']
      omega

/-- **The unsigned encodings** of `v` are its groups, on any number of bytes that holds it. -/
theorem isUleb_iff {v : ℕ} {bs : List UInt8} :
    IsUleb v bs ↔ ∃ n, n < 10 ∧ v < 128 ^ (n + 1) ∧ bs = toLeb (n + 1) v := by
  constructor
  · rintro ⟨shape, short, rfl⟩
    have hlen : bs.length - 1 + 1 = bs.length := by
      have := List.length_pos_iff.mpr shape.ne_nil
      omega
    refine ⟨bs.length - 1, by omega, ?_, ?_⟩
    · rw [hlen]
      exact ulebVal_lt bs
    · rw [hlen, toLeb_ulebVal shape]
  · rintro ⟨n, hn, hv, rfl⟩
    refine ⟨isLeb_toLeb n v, by rw [length_toLeb]; omega, ?_⟩
    rw [ulebVal_toLeb, Nat.mod_eq_of_lt hv]

/-- The sign bit is the highest bit of all the groups. -/
theorem signBit_iff {bs : List UInt8} {n : ℕ} (hn : bs.length = n + 1) :
    signBit bs = true ↔ (64 : ℤ) * 128 ^ n ≤ ulebVal bs := by
  have hne : bs ≠ [] := by rintro rfl; simp at hn
  have hsplit := List.dropLast_concat_getLast hne
  have hinit : bs.dropLast.length = n := by rw [List.length_dropLast, hn]; rfl
  have hlow := ulebVal_lt bs.dropLast
  rw [hinit] at hlow
  have hval : ulebVal bs = ulebVal bs.dropLast + 128 ^ n * ((bs.getLast hne).toNat % 128) := by
    conv_lhs => rw [← hsplit]
    rw [ulebVal_append, hinit, ulebVal_cons, ulebVal_nil, Nat.mul_zero, Nat.add_zero]
  have hlast : bs.getLastD 0 = bs.getLast hne := by
    rw [List.getLastD_eq_getLast?, List.getLast?_eq_getLast_of_ne_nil hne, Option.getD_some]
  have hcast : (64 : ℤ) * 128 ^ n ≤ ulebVal bs ↔ 64 * 128 ^ n ≤ ulebVal bs := by
    rw [← Nat.cast_le (α := ℤ)]
    push_cast
    rfl
  rw [hcast, signBit, decide_eq_true_iff, hlast, hval]
  constructor
  · intro h
    have := Nat.mul_le_mul_left (128 ^ n) h
    omega
  · intro h
    by_contra hlt
    have := Nat.mul_le_mul_left (128 ^ n) (show (bs.getLast hne).toNat % 128 ≤ 63 by omega)
    omega

/-- The range of `n + 1` groups. -/
theorem slebVal_bounds {bs : List UInt8} {n : ℕ} (hn : bs.length = n + 1) :
    -(64 * 128 ^ n) ≤ slebVal bs ∧ slebVal bs < 64 * 128 ^ n := by
  have hsign := signBit_iff hn
  have hlt : (ulebVal bs : ℤ) < 128 ^ bs.length := by exact_mod_cast ulebVal_lt bs
  have hpow : (128 : ℤ) ^ bs.length = 128 * 128 ^ n := by rw [hn, pow_succ']
  have hpos : (0 : ℤ) < 128 ^ n := pow_pos (by decide) n
  rw [slebVal]
  by_cases hs : signBit bs = true
  · have hge := hsign.mp hs
    rw [if_pos hs]
    constructor <;> omega
  · have hlow := mt hsign.mpr hs
    rw [if_neg hs]
    constructor <;> omega

/-- The signed value is the unsigned one, modulo the range of the groups. -/
theorem slebVal_emod (bs : List UInt8) : slebVal bs % 128 ^ bs.length = ulebVal bs := by
  have hlt : (ulebVal bs : ℤ) < 128 ^ bs.length := by exact_mod_cast ulebVal_lt bs
  rw [slebVal]
  split_ifs
  · rw [Int.sub_emod_right, Int.emod_eq_of_lt (by omega) hlt]
  · rw [sub_zero, Int.emod_eq_of_lt (by omega) hlt]

/-- **The signed encodings** of `v` are its groups in two's complement, on any number of bytes that
holds it. -/
theorem isSleb_iff {v : ℤ} {bs : List UInt8} :
    IsSleb v bs ↔ ∃ n, n < 10 ∧ -(64 * 128 ^ n) ≤ v ∧ v < 64 * 128 ^ n ∧
      bs = toLeb (n + 1) (v % 128 ^ (n + 1)).toNat := by
  constructor
  · rintro ⟨shape, short, rfl⟩
    have hlen : bs.length = bs.length - 1 + 1 := by
      have := List.length_pos_iff.mpr shape.ne_nil
      omega
    obtain ⟨hlow, hhigh⟩ := slebVal_bounds hlen
    refine ⟨bs.length - 1, by omega, hlow, hhigh, ?_⟩
    rw [← hlen, slebVal_emod, Int.toNat_natCast, toLeb_ulebVal shape]
  · rintro ⟨n, hn, hlow, hhigh, rfl⟩
    have hpos : (0 : ℤ) < 128 ^ (n + 1) := pow_pos (by decide) _
    have hpow : (128 : ℤ) ^ (n + 1) = 128 * 128 ^ n := pow_succ' _ _
    have hcast : ((v % 128 ^ (n + 1)).toNat : ℤ) = v % 128 ^ (n + 1) :=
      Int.toNat_of_nonneg (Int.emod_nonneg _ hpos.ne')
    have hval : (ulebVal (toLeb (n + 1) (v % 128 ^ (n + 1)).toNat) : ℤ) = v % 128 ^ (n + 1) := by
      rw [ulebVal_toLeb]
      push_cast
      rw [hcast, Int.emod_emod_of_dvd _ (dvd_refl _)]
    refine ⟨isLeb_toLeb n _, by rw [length_toLeb]; omega, ?_⟩
    have hsign := signBit_iff (length_toLeb (n + 1) (v % 128 ^ (n + 1)).toNat)
    rw [hval] at hsign
    rw [slebVal, hval, length_toLeb]
    by_cases hneg : v < 0
    · have hmod : v % 128 ^ (n + 1) = v + 128 ^ (n + 1) := by
        rw [← Int.add_emod_right, Int.emod_eq_of_lt (by omega) (by omega)]
      rw [if_pos (hsign.mpr (by omega)), hmod, add_sub_cancel_right]
    · have hmod : v % 128 ^ (n + 1) = v := Int.emod_eq_of_lt (by omega) (by omega)
      rw [if_neg (fun h => by have := hsign.mp h; omega), hmod, sub_zero]

end Dabugger.Lib.Bytes
