import Mathlib.Data.List.Nodup
import Mathlib.Tactic

/-! # Lists without two items of one key

`KeyedBy f l`: the items of `l` have different keys `f`. In such a list to find, or to erase, the
first item of a key is to find, or to erase, the item of this key. -/

namespace Dabugger.Lib.Keyed

variable {α κ : Type} {f : α → κ} {l : List α}

/-- No two items have one key. -/
abbrev KeyedBy (f : α → κ) (l : List α) : Prop := (l.map f).Nodup

theorem KeyedBy.eq_of_mem (h : KeyedBy f l) {x y : α} (hx : x ∈ l) (hy : y ∈ l) (e : f x = f y) :
    x = y := List.inj_on_of_nodup_map h hx hy e

theorem KeyedBy.filter (h : KeyedBy f l) (p : α → Bool) : KeyedBy f (l.filter p) :=
  h.sublist (List.filter_sublist.map f)

/-- A new key at the end. -/
theorem KeyedBy.snoc (h : KeyedBy f l) {x : α} (hx : ∀ y ∈ l, f y ≠ f x) :
    KeyedBy f (l ++ [x]) := by
  rw [KeyedBy, List.map_append, List.nodup_append]
  refine ⟨h, by simp, ?_⟩
  intro k hk k' hk'
  obtain ⟨y, hy, rfl⟩ := List.mem_map.mp hk
  rw [List.map_singleton, List.mem_singleton] at hk'
  rw [hk']
  exact hx y hy

theorem KeyedBy.comp {κ' : Type} {g : κ → κ'} (hg : Function.Injective g) (h : KeyedBy f l) :
    KeyedBy (fun x => g (f x)) l := by
  have hm : l.map (fun x => g (f x)) = (l.map f).map g := List.map_map.symm
  rw [KeyedBy, hm]
  exact h.map hg

variable [DecidableEq κ]

/-- **Finding by key.** -/
theorem KeyedBy.find?_eq_some : ∀ {l : List α}, KeyedBy f l → ∀ {x : α}, x ∈ l →
    l.find? (fun y => decide (f y = f x)) = some x
  | y :: l, h, x, hx => by
    have hd := List.nodup_cons.mp h
    by_cases hy : f y = f x
    · rw [List.find?_cons_of_pos (by simpa using hy), h.eq_of_mem (by simp) hx hy]
    · rw [List.find?_cons_of_neg (by simpa using hy)]
      have hxl : x ∈ l := (List.mem_cons.mp hx).resolve_left fun e => hy (by rw [e])
      exact KeyedBy.find?_eq_some hd.2 hxl

/-- **Erasing by key.** -/
theorem KeyedBy.eraseP_eq_filter : ∀ {l : List α}, KeyedBy f l → ∀ k : κ,
    l.eraseP (fun y => decide (f y = k)) = l.filter fun y => decide (f y ≠ k)
  | [], _, _ => rfl
  | y :: l, h, k => by
    have hd := List.nodup_cons.mp h
    by_cases hy : f y = k
    · rw [List.eraseP_cons_of_pos (by simpa using hy), List.filter_cons_of_neg (by simpa using hy)]
      refine (List.filter_eq_self.mpr fun x hx => ?_).symm
      have hne : f x ≠ k := fun e => hd.1 (List.mem_map.mpr ⟨x, hx, e.trans hy.symm⟩)
      simpa using hne
    · rw [List.eraseP_cons_of_neg (by simpa using hy), List.filter_cons_of_pos (by simpa using hy),
        KeyedBy.eraseP_eq_filter hd.2 k]

end Dabugger.Lib.Keyed
