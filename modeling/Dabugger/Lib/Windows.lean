import Mathlib.Tactic

/-! # Windows that are wiped when they are full

A window on a sequence: elements are put behind it one after another, and the one that would make
`n` of them wipes it first. A window is thus always an end of the sequence (`push_suffix`). Elements
that are put behind it in a row stay behind what was there (`foldl_push_of_lt`), or lose as many of
them as filled it (`foldl_push_of_le`). -/

namespace Dabugger.Lib.Windows

variable {α : Type} {n : ℕ} {window : List α}

/-- What is left of a window when an element comes. -/
def room (n : ℕ) (window : List α) : List α := if window.length + 1 = n then [] else window

/-- Put an element behind a window. -/
def push (n : ℕ) (window : List α) (a : α) : List α := room n window ++ [a]

theorem room_of_ne (h : window.length + 1 ≠ n) : room n window = window := if_neg h

theorem room_of_eq (h : window.length + 1 = n) : room n window = [] := if_pos h

theorem room_suffix (n : ℕ) (window : List α) : room n window <:+ window := by
  unfold room
  split
  · exact List.nil_suffix
  · exact List.suffix_rfl

theorem length_room_lt (hn : 1 < n) (h : window.length < n) : (room n window).length + 1 < n := by
  unfold room
  split
  · exact hn
  · omega

theorem length_push_lt (hn : 1 < n) (h : window.length < n) (a : α) :
    (push n window a).length < n := by
  rw [push, List.length_append]
  exact length_room_lt hn h

/-- **A window is an end of what was put behind it.** -/
theorem push_suffix {history : List α} (h : window <:+ history) (a : α) :
    push n window a <:+ history ++ [a] := by
  obtain ⟨before, rfl⟩ := (room_suffix n window).trans h
  exact ⟨before, by rw [push, List.append_assoc]⟩

/-- Elements that do not fill the window. -/
theorem foldl_push_of_lt : ∀ {as window : List α}, window.length + as.length < n →
    as.foldl (push n) window = window ++ as
  | [], window, _ => (List.append_nil window).symm
  | a :: as, window, h => by
    rw [List.length_cons] at h
    rw [List.foldl_cons, push, room_of_ne (by omega), foldl_push_of_lt (by
      rw [List.length_append, List.length_singleton]; omega), List.append_assoc,
      List.singleton_append]

/-- Elements that fill it once. -/
theorem foldl_push_of_le {as : List α} (hw : window.length < n) (h : n ≤ window.length + as.length)
    (has : as.length < n) :
    as.foldl (push n) window = as.drop (n - 1 - window.length) := by
  obtain ⟨k, hk⟩ : ∃ k, k = n - 1 - window.length := ⟨_, rfl⟩
  rw [← hk]
  have htake : (as.take k).length = k := by rw [List.length_take]; omega
  have hfill := foldl_push_of_lt (n := n) (show window.length + (as.take k).length < n by omega)
  conv_lhs => rw [← List.take_append_drop k as, List.foldl_append, hfill]
  cases hdrop : as.drop k with
  | nil =>
    rw [List.drop_eq_nil_iff] at hdrop
    omega
  | cons a rest =>
    have hrest : rest.length + 1 = as.length - k := by
      rw [← List.length_drop, hdrop, List.length_cons]
    rw [List.foldl_cons, push, room_of_eq (by rw [List.length_append, htake]; omega),
      foldl_push_of_lt (by rw [List.nil_append, List.length_singleton]; omega)]
    rfl

end Dabugger.Lib.Windows
