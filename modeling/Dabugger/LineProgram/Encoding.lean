import Dabugger.LineProgram.Machine
import Dabugger.Lib.Bytes

/-! # The encoding of line number programs

The bytes of an instruction, after sections 6.2.5 and 7.22 of the DWARF 5 specification. A standard
opcode is one only below `opcode_base`; an extended one carries its exact length. LEB128 operands
may be padded. -/

namespace Dabugger.LineProgram.Encoding

open Dabugger.Lib.Bytes Dabugger.LineProgram.Machine

/-- A standard opcode with its operand. -/
def Standard (opcodeBase : ℕ) (opcode : UInt8) (operand bs : List UInt8) : Prop :=
  opcode.toNat < opcodeBase ∧ bs = opcode :: operand

/-- An extended opcode with its operand and its length. -/
def Extended (opcode : UInt8) (operand bs : List UInt8) : Prop :=
  ∃ size, IsUleb (operand.length + 1) size ∧ bs = 0 :: (size ++ opcode :: operand)

/-- **The encodings of an instruction.** -/
def Encodes (opcodeBase : ℕ) : Instruction → List UInt8 → Prop
  | .special opcode, bs => opcodeBase ≤ opcode.toNat ∧ bs = [opcode]
  | .copy, bs => Standard opcodeBase 0x01 [] bs
  | .advancePc n, bs => ∃ u, IsUleb n u ∧ Standard opcodeBase 0x02 u bs
  | .advanceLine n, bs => ∃ u, IsSleb n u ∧ Standard opcodeBase 0x03 u bs
  | .setFile n, bs => ∃ u, IsUleb n u ∧ Standard opcodeBase 0x04 u bs
  | .setColumn n, bs => ∃ u, IsUleb n u ∧ Standard opcodeBase 0x05 u bs
  | .negateStmt, bs => Standard opcodeBase 0x06 [] bs
  | .setBasicBlock, bs => Standard opcodeBase 0x07 [] bs
  | .constAddPc, bs => Standard opcodeBase 0x08 [] bs
  | .fixedAdvancePc n, bs => n < 256 ^ 2 ∧ Standard opcodeBase 0x09 (toLe 2 n) bs
  | .setPrologueEnd, bs => Standard opcodeBase 0x0a [] bs
  | .setEpilogueBegin, bs => Standard opcodeBase 0x0b [] bs
  | .setIsa n, bs => ∃ u, IsUleb n u ∧ Standard opcodeBase 0x0c u bs
  | .endSequence, bs => Extended 0x01 [] bs
  | .setAddress n, bs => ∃ w, 1 ≤ w ∧ w ≤ 8 ∧ n < 256 ^ w ∧ Extended 0x02 (toLe w n) bs
  | .setDiscriminator n, bs => ∃ u, IsUleb n u ∧ Extended 0x04 u bs

/-- Every encoding has an opcode. -/
theorem Encodes.ne_nil {opcodeBase : ℕ} {i : Instruction} {bs : List UInt8}
    (h : Encodes opcodeBase i bs) : bs ≠ [] := by
  have hstandard : ∀ {op rest}, Standard opcodeBase op rest bs → bs ≠ [] := by
    rintro op rest ⟨-, rfl⟩
    simp
  have hextended : ∀ {op rest}, Extended op rest bs → bs ≠ [] := by
    rintro op rest ⟨_, -, rfl⟩
    simp
  cases i with
  | special => rw [h.2]; simp
  | copy | negateStmt | setBasicBlock | constAddPc | setPrologueEnd | setEpilogueBegin =>
    exact hstandard h
  | fixedAdvancePc => exact hstandard h.2
  | advancePc | advanceLine | setFile | setColumn | setIsa =>
    obtain ⟨_, _, h⟩ := h
    exact hstandard h
  | endSequence => exact hextended h
  | setAddress =>
    obtain ⟨_, _, _, _, h⟩ := h
    exact hextended h
  | setDiscriminator =>
    obtain ⟨_, _, h⟩ := h
    exact hextended h

/-- From `opcode_base` on, an opcode is a special one. -/
theorem Encodes.eq_special {opcodeBase : ℕ} {i : Instruction} {opcode : UInt8}
    {operand : List UInt8} (h : Encodes opcodeBase i (opcode :: operand)) (h0 : opcode ≠ 0)
    (hb : opcodeBase ≤ opcode.toNat) : i = .special opcode ∧ operand = [] := by
  have hstandard : ∀ op rest, ¬ Standard opcodeBase op rest (opcode :: operand) := by
    rintro op rest ⟨hlt, ⟨⟩⟩
    omega
  have hextended : ∀ op rest, ¬ Extended op rest (opcode :: operand) := by
    rintro op rest ⟨_, _, ⟨⟩⟩
    exact h0 rfl
  cases i with
  | special =>
    obtain ⟨-, ⟨⟩⟩ := h
    exact ⟨rfl, rfl⟩
  | copy | negateStmt | setBasicBlock | constAddPc | setPrologueEnd | setEpilogueBegin =>
    exact absurd h (hstandard _ _)
  | fixedAdvancePc => exact absurd h.2 (hstandard _ _)
  | advancePc | advanceLine | setFile | setColumn | setIsa =>
    obtain ⟨_, _, h⟩ := h
    exact absurd h (hstandard _ _)
  | endSequence => exact absurd h (hextended _ _)
  | setAddress =>
    obtain ⟨_, _, _, _, h⟩ := h
    exact absurd h (hextended _ _)
  | setDiscriminator =>
    obtain ⟨_, _, h⟩ := h
    exact absurd h (hextended _ _)

end Dabugger.LineProgram.Encoding
