import Mathlib.Tactic

/-! # The first and the last index with a property

A loop over the indices below `n` that takes a value at an index with a property: one that goes on ends
with the value of the last such index (`OfLast`), one that stops there with that of the first
(`OfFirst`); where there is no such index, both end with the value that they began with. `AllReached` is
about the indices that a loop comes to, and `findLast` is the search itself. Two lists that are related
element by element are searched alike (`find?_rel`, `map_eq_of_rel`). -/

namespace Dabugger.Lib.Searches

variable {β : Type} {p : ℕ → Prop} {value : ℕ → β → Prop} {b b₀ : β} {n i : ℕ}

/-- The last index below `n` with the property. -/
structure IsLast (p : ℕ → Prop) (n i : ℕ) : Prop where
  lt : i < n
  holds : p i
  behind : ∀ j, i < j → j < n → ¬ p j

/-- The first index below `n` with the property. -/
structure IsFirst (p : ℕ → Prop) (n i : ℕ) : Prop where
  lt : i < n
  holds : p i
  before : ∀ j < i, ¬ p j

/-- **The value of the last index** below `n` with the property, or `b₀`. -/
structure OfLast (p : ℕ → Prop) (value : ℕ → β → Prop) (b₀ : β) (n : ℕ) (b : β) : Prop where
  last : ∀ i, IsLast p n i → value i b
  none : (∀ i < n, ¬ p i) → b = b₀

/-- **The value of the first index** below `n` with the property, or `b₀`. -/
structure OfFirst (p : ℕ → Prop) (value : ℕ → β → Prop) (b₀ : β) (n : ℕ) (b : β) : Prop where
  first : ∀ i, IsFirst p n i → value i b
  none : (∀ i < n, ¬ p i) → b = b₀

/-! ### The last index -/

theorem OfLast.zero : OfLast p value b₀ 0 b₀ where
  last _ hi := absurd hi.lt (Nat.not_lt_zero _)
  none _ := rfl

/-- The index `n` has the property: its value is taken. -/
theorem OfLast.of_pos (hp : p n) (hb : value n b) : OfLast p value b₀ (n + 1) b where
  last i hi := by
    have hle := hi.lt
    obtain rfl : i = n := by
      by_contra hne
      exact hi.behind n (by omega) (Nat.lt_succ_self n) hp
    exact hb
  none h := absurd hp (h n (Nat.lt_succ_self n))

/-- It has not: the value is kept. -/
theorem OfLast.of_neg (h : OfLast p value b₀ n b) (hp : ¬ p n) : OfLast p value b₀ (n + 1) b where
  last i hi := by
    have hlt := hi.lt
    have hne : i ≠ n := by
      rintro rfl
      exact hp hi.holds
    exact h.last i ⟨by omega, hi.holds, fun j hij hj => hi.behind j hij (by omega)⟩
  none hall := h.none fun i hi => hall i (by omega)

section
variable (p) [DecidablePred p]

/-- The last index below `n` with the property, if there is one. -/
def findLast : ℕ → Option ℕ
  | 0 => none
  | n + 1 => if p n then some n else findLast n

theorem isLast_of_findLast : ∀ {n : ℕ}, findLast p n = some i → IsLast p n i
  | n + 1, h => by
    rw [findLast] at h
    split at h
    · cases h
      exact ⟨Nat.lt_succ_self _, ‹p _›, fun j hij hj => absurd hj (by omega)⟩
    · obtain ⟨hlt, hp, hbehind⟩ := isLast_of_findLast h
      refine ⟨by omega, hp, fun j hij hj => ?_⟩
      rcases Nat.lt_succ_iff_lt_or_eq.mp hj with hlt' | rfl
      · exact hbehind j hij hlt'
      · exact ‹¬ p _›

theorem not_of_findLast_eq_none : ∀ {n : ℕ}, findLast p n = none → ∀ i < n, ¬ p i
  | n + 1, h, i, hi => by
    rw [findLast] at h
    split at h
    · cases h
    · rcases Nat.lt_succ_iff_lt_or_eq.mp hi with hlt | rfl
      · exact not_of_findLast_eq_none h i hlt
      · exact ‹¬ p _›

/-- What the values say is that of the index that is found. -/
theorem OfLast.map_findLast {γ : Type} {f : ℕ → γ} {g : β → γ} (h : OfLast p value b₀ n b)
    (hg : ∀ i, value i b → g b = f i) : g b = (findLast p n).elim (g b₀) f := by
  cases hfind : findLast p n with
  | none => exact congrArg g (h.none (not_of_findLast_eq_none p hfind))
  | some i => exact hg i (h.last i (isLast_of_findLast p hfind))

end

/-! ### The first index -/

theorem OfFirst.of_none (h : ∀ i < n, ¬ p i) : OfFirst p value b₀ n b₀ where
  first i hi := absurd hi.holds (h i hi.lt)
  none _ := rfl

/-- The first index with the property: its value is taken. -/
theorem OfFirst.of_pos (hi : i < n) (hbefore : ∀ j < i, ¬ p j) (hp : p i) (hb : value i b) :
    OfFirst p value b₀ n b where
  first j hj := by
    obtain rfl : j = i := by
      rcases Nat.lt_trichotomy j i with hlt | heq | hlt
      · exact absurd hj.holds (hbefore j hlt)
      · exact heq
      · exact absurd hp (hj.before i hlt)
    exact hb
  none hall := absurd hp (hall i hi)

/-! ### Lists that are related -/

/-- The elements at an index. -/
theorem getElem?_rel {α γ : Type} {R : α → γ → Prop} {xs : List α} {ys : List γ}
    (h : List.Forall₂ R xs ys) (i : ℕ) : Option.Rel R xs[i]? ys[i]? := by
  induction h generalizing i with
  | nil => exact .none
  | cons hac _ ih =>
    cases i with
    | zero => exact .some hac
    | succ i => exact ih i

theorem bind_rel {α β γ δ : Type} {R : α → γ → Prop} {S : β → δ → Prop} {f : α → Option β}
    {g : γ → Option δ} (hfg : ∀ a c, R a c → Option.Rel S (f a) (g c)) {x : Option α}
    {y : Option γ} (h : Option.Rel R x y) : Option.Rel S (x.bind f) (y.bind g) := by
  cases h with
  | some hac => exact hfg _ _ hac
  | none => exact .none

theorem map_eq_of_rel {α β γ : Type} {R : α → γ → Prop} {f : α → β} {g : γ → β}
    (hfg : ∀ a c, R a c → f a = g c) {x : Option α} {y : Option γ} (h : Option.Rel R x y) :
    x.map f = y.map g := by
  cases h with
  | some hac => exact congrArg some (hfg _ _ hac)
  | none => rfl

/-- The first elements with a property. -/
theorem find?_rel {α γ : Type} {R : α → γ → Prop} {f : α → Bool} {g : γ → Bool}
    (hfg : ∀ a c, R a c → f a = g c) {xs : List α} {ys : List γ} (h : List.Forall₂ R xs ys) :
    Option.Rel R (xs.find? f) (ys.find? g) := by
  induction h with
  | nil => exact .none
  | @cons a c _ _ hac _ ih =>
    rw [List.find?_cons, List.find?_cons, ← hfg a c hac]
    cases f a with
    | true => exact .some hac
    | false => exact ih

/-! ### The indices that are reached -/

/-- A loop over `n` indices from `i` on, which goes on behind an index with `q`: all indices that it comes
to have `p`. -/
def AllReached (p q : ℕ → Prop) (i n : ℕ) : Prop :=
  ∀ j, i ≤ j → j < i + n → (∀ k, i ≤ k → k < j → q k) → p j

section
variable {q : ℕ → Prop}

theorem allReached_zero (p q : ℕ → Prop) (i : ℕ) : AllReached p q i 0 :=
  fun j hi hj => absurd hj (by omega)

/-- The first index is reached, and the others if it has `q`. -/
theorem allReached_succ :
    AllReached p q i (n + 1) ↔ p i ∧ (q i → AllReached p q (i + 1) n) := by
  constructor
  · intro h
    refine ⟨h i le_rfl (by omega) fun k hik hki => absurd hki (by omega), ?_⟩
    intro hq j hij hj hbefore
    refine h j (by omega) (by omega) fun k hik hkj => ?_
    rcases Nat.eq_or_lt_of_le hik with rfl | hlt
    · exact hq
    · exact hbefore k hlt hkj
  · rintro ⟨hp, hrest⟩ j hij hj hbefore
    rcases Nat.eq_or_lt_of_le hij with rfl | hlt
    · exact hp
    · exact hrest (hbefore i le_rfl hlt) j hlt (by omega) fun k hik hkj => hbefore k (by omega) hkj

/-- Where all indices have `q`, all are reached. -/
theorem AllReached.all (h : AllReached p q i n) (hq : ∀ j, i ≤ j → j < i + n → q j) :
    ∀ j, i ≤ j → j < i + n → p j :=
  fun j hij hj => h j hij hj fun k hik hkj => hq k hik (by omega)

end

end Dabugger.Lib.Searches
