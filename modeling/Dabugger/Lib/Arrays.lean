import Mathlib.Tactic

/-! # Arrays that grow and shrink

An array of `reallocarray` as a list: `resize` to a number of elements, write one, shift all down by
one. Written at its end after a resize it is cut there and gets the element (`set_resize`); shifted
down it is its tail (`take_shiftDown`). -/

namespace Dabugger.Lib.Arrays

variable {α : Type}

/-- `reallocarray` to `n` elements; new ones are `fill`. -/
def resize (fill : α) (n : ℕ) (xs : List α) : List α :=
  xs.take n ++ List.replicate (n - xs.length) fill

@[simp] theorem length_resize (fill : α) (n : ℕ) (xs : List α) :
    (resize fill n xs).length = n := by
  unfold resize
  rw [List.length_append, List.length_take, List.length_replicate]
  omega

/-- An array that is made smaller. -/
theorem resize_of_le (fill : α) {n : ℕ} {xs : List α} (h : n ≤ xs.length) :
    resize fill n xs = xs.take n := by
  rw [resize, Nat.sub_eq_zero_of_le h, List.replicate_zero, List.append_nil]

/-- **An array that is resized and written at its end.** -/
theorem set_resize (fill : α) {n : ℕ} {xs : List α} (h : n ≤ xs.length) (x : α) :
    (resize fill (n + 1) xs).set n x = xs.take n ++ [x] := by
  apply List.ext_getElem
  · simp [h]
  · intro i hi hi'
    have hn : (xs.take n).length = n := by simpa using h
    rw [List.length_set, length_resize] at hi
    rw [List.getElem_set]
    by_cases hin : n = i
    · rw [if_pos hin, List.getElem_append_right (by omega)]
      simp
    · rw [if_neg hin, List.getElem_append_left (by omega)]
      unfold resize
      rw [List.getElem_append_left (by rw [List.length_take]; omega)]
      simp

/-- `for (i = 1; i < n; i++) xs[i - 1] = xs[i]`. -/
def shiftDown (fill : α) (n : ℕ) (xs : List α) : List α :=
  (List.range (n - 1)).foldl (fun ys i => ys.set i (ys.getD (i + 1) fill)) xs

theorem length_foldl_set (fill : α) : ∀ (is : List ℕ) (xs : List α),
    (is.foldl (fun ys i => ys.set i (ys.getD (i + 1) fill)) xs).length = xs.length
  | [], xs => rfl
  | i :: is, xs => by rw [List.foldl_cons, length_foldl_set fill is, List.length_set]

/-- The first `k` iterations. -/
theorem getElem?_foldl_set (fill : α) (xs : List α) : ∀ {k : ℕ}, k < xs.length → ∀ i,
    ((List.range k).foldl (fun ys i => ys.set i (ys.getD (i + 1) fill)) xs)[i]? =
      if i < k then xs[i + 1]? else xs[i]?
  | 0, _, i => by rw [List.range_zero, List.foldl_nil, if_neg (Nat.not_lt_zero i)]
  | k + 1, h, i => by
    have ih := getElem?_foldl_set fill xs (show k < xs.length by omega)
    have hnext : xs[k + 1]? = some xs[k + 1] := List.getElem?_eq_getElem h
    rw [List.range_succ, List.foldl_append, List.foldl_cons, List.foldl_nil,
      List.getD_eq_getElem?_getD, ih, if_neg (by omega), hnext, Option.getD_some,
      List.getElem?_set, length_foldl_set]
    by_cases hki : k = i
    · subst hki
      rw [if_pos rfl, if_pos (by omega), if_pos (by omega), hnext]
    · rw [if_neg hki, ih]
      by_cases hlt : i < k
      · rw [if_pos hlt, if_pos (by omega)]
      · rw [if_neg hlt, if_neg (by omega)]

theorem length_shiftDown (fill : α) (n : ℕ) (xs : List α) :
    (shiftDown fill n xs).length = xs.length := length_foldl_set fill _ xs

/-- **An array that is shifted down** is its tail. -/
theorem take_shiftDown (fill : α) {n : ℕ} {xs : List α} (hn : n ≠ 0) (h : n ≤ xs.length) :
    (shiftDown fill n xs).take (n - 1) = (xs.take n).tail := by
  apply List.ext_getElem?
  intro i
  rw [List.getElem?_tail, List.getElem?_take, List.getElem?_take, shiftDown,
    getElem?_foldl_set fill xs (by omega)]
  by_cases hi : i < n - 1
  · rw [if_pos hi, if_pos hi, if_pos (by omega)]
  · rw [if_neg hi, if_neg (by omega)]

end Dabugger.Lib.Arrays
