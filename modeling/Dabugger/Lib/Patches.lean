import Mathlib.Tactic

/-! # Instructions on a patched memory

An `Instruction` reads and writes the places that it touches. Where it touches no place in which two
memories differ, it does the same on both (`Instruction.step_eqOn`); hence a `patch` that it does not
touch can be put in before or after it (`Instruction.step_patch`). -/

namespace Dabugger.Lib.Patches

variable {ρ α β : Type}

/-! ### Patches -/

/-- The memory with other contents in some places. -/
def patch (contents : α → Option β) (memory : α → β) : α → β :=
  fun a => (contents a).getD (memory a)

section
variable {contents : α → Option β} {memory memory' : α → β} {a : α} {b : β}

theorem patch_of_some (h : contents a = some b) : patch contents memory a = b := by
  rw [patch, h, Option.getD_some]

theorem patch_of_none (h : contents a = none) : patch contents memory a = memory a := by
  rw [patch, h, Option.getD_none]

/-- A memory that has the contents already. -/
theorem patch_eq_self (h : ∀ a b, contents a = some b → memory a = b) :
    patch contents memory = memory := by
  funext a
  cases hc : contents a with
  | none => exact patch_of_none hc
  | some b => rw [patch_of_some hc, h a b hc]

/-- Only the other places count. -/
theorem patch_congr (h : ∀ a, contents a = none → memory a = memory' a) :
    patch contents memory = patch contents memory' := by
  funext a
  cases hc : contents a with
  | none => rw [patch_of_none hc, patch_of_none hc, h a hc]
  | some b => rw [patch_of_some hc, patch_of_some hc]

end

/-! ### Instructions -/

/-- What a processor does next, on registers and a memory: it depends on the places that it touches
only, and leaves the others. -/
structure Instruction (ρ α β : Type) where
  step : ρ → (α → β) → ρ × (α → β)
  touched : ρ → (α → β) → Set α
  agree : ∀ {regs : ρ} {memory memory' : α → β}, Set.EqOn memory memory' (touched regs memory) →
    touched regs memory' = touched regs memory ∧
    (step regs memory').1 = (step regs memory).1 ∧
    Set.EqOn (step regs memory).2 (step regs memory').2 (touched regs memory)
  frame : ∀ {regs : ρ} {memory : α → β} {a : α}, a ∉ touched regs memory →
    (step regs memory).2 a = memory a

section
variable {cpu : Instruction ρ α β} {regs : ρ} {memory memory' : α → β} {contents : α → Option β}

/-- **The same instruction** on two memories that agree where it touches them: they agree afterwards
where they agreed. -/
theorem Instruction.step_eqOn (h : Set.EqOn memory memory' (cpu.touched regs memory)) :
    (cpu.step regs memory').1 = (cpu.step regs memory).1 ∧
      ∀ a, memory a = memory' a → (cpu.step regs memory).2 a = (cpu.step regs memory').2 a := by
  obtain ⟨htouched, hregs, hmemory⟩ := cpu.agree h
  refine ⟨hregs, fun a ha => ?_⟩
  by_cases hmem : a ∈ cpu.touched regs memory
  · exact hmemory hmem
  · rw [cpu.frame hmem, cpu.frame (htouched ▸ hmem), ha]

/-- **The instruction on the patched memory**, where it touches no place that the patch changes, and
leaves the places of the patch. -/
theorem Instruction.step_patch
    (htouched : ∀ a b, contents a = some b → a ∈ cpu.touched regs memory → memory a = b)
    (hkept : ∀ a b, contents a = some b → (cpu.step regs memory).2 a = memory a) :
    cpu.step regs (patch contents memory) =
      ((cpu.step regs memory).1, patch contents (cpu.step regs memory).2) := by
  have heq : Set.EqOn memory (patch contents memory) (cpu.touched regs memory) := by
    intro a ha
    cases hc : contents a with
    | none => rw [patch_of_none hc]
    | some b => rw [patch_of_some hc, htouched a b hc ha]
  obtain ⟨htouched', hregs, hmemory⟩ := cpu.agree heq
  refine Prod.ext hregs (funext fun a => ?_)
  change (cpu.step regs (patch contents memory)).2 a = patch contents (cpu.step regs memory).2 a
  cases hc : contents a with
  | none =>
    rw [patch_of_none hc]
    exact ((Instruction.step_eqOn heq).2 a (patch_of_none hc).symm).symm
  | some b =>
    rw [patch_of_some hc]
    by_cases hmem : a ∈ cpu.touched regs memory
    · rw [← hmemory hmem, hkept a b hc, htouched a b hc hmem]
    · rw [cpu.frame (htouched' ▸ hmem), patch_of_some hc]

end

end Dabugger.Lib.Patches
