import Mathlib.Tactic

/-! # The line number state machine

The meaning of a line number program, after section 6.2 of the DWARF 5 specification: the registers
(6.2.2), the instructions (6.2.5) and the rows they append to the matrix. Registers are numbers
without bounds. A row is a copy of the registers. -/

namespace Dabugger.LineProgram.Machine

/-- The fields of a header that the instructions refer to. -/
structure Params where
  minimumInstructionLength : ℕ
  maximumOperationsPerInstruction : ℕ
  defaultIsStmt : Bool
  lineBase : ℤ
  lineRange : ℕ
  opcodeBase : ℕ

/-- The registers of the machine. -/
structure Registers where
  address : ℕ
  opIndex : ℕ
  file : ℕ
  line : ℤ
  column : ℕ
  discriminator : ℕ
  isa : ℕ
  isStmt : Bool
  basicBlock : Bool
  endSequence : Bool
  prologueEnd : Bool
  epilogueBegin : Bool
  deriving DecidableEq

/-- The instructions: special, standard and extended opcodes. -/
inductive Instruction where
  | special (opcode : UInt8)
  | copy
  | advancePc (operationAdvance : ℕ)
  | advanceLine (lineAdvance : ℤ)
  | setFile (file : ℕ)
  | setColumn (column : ℕ)
  | negateStmt
  | setBasicBlock
  | constAddPc
  | fixedAdvancePc (advance : ℕ)
  | setPrologueEnd
  | setEpilogueBegin
  | setIsa (isa : ℕ)
  | endSequence
  | setAddress (address : ℕ)
  | setDiscriminator (discriminator : ℕ)
  deriving DecidableEq

/-- The registers at the start of a sequence. -/
def initial (p : Params) : Registers where
  address := 0
  opIndex := 0
  file := 1
  line := 1
  column := 0
  discriminator := 0
  isa := 0
  isStmt := p.defaultIsStmt
  basicBlock := false
  endSequence := false
  prologueEnd := false
  epilogueBegin := false

namespace Registers

/-- The address moves by whole instructions, `op_index` by what remains. -/
def advance (p : Params) (r : Registers) (operationAdvance : ℕ) : Registers :=
  { r with
    address := r.address + p.minimumInstructionLength *
      ((r.opIndex + operationAdvance) / p.maximumOperationsPerInstruction)
    opIndex := (r.opIndex + operationAdvance) % p.maximumOperationsPerInstruction }

/-- What is cleared when a row was appended. -/
def cleared (r : Registers) : Registers :=
  { r with discriminator := 0, basicBlock := false, prologueEnd := false, epilogueBegin := false }

end Registers

/-- The operation advance of a special opcode. -/
def operationAdvance (p : Params) (opcode : ℕ) : ℕ := (opcode - p.opcodeBase) / p.lineRange

/-- The line advance of a special opcode. -/
def lineAdvance (p : Params) (opcode : ℕ) : ℤ :=
  p.lineBase + ((opcode - p.opcodeBase) % p.lineRange : ℕ)

/-- The registers before the row of a special opcode. -/
def special (p : Params) (r : Registers) (opcode : ℕ) : Registers :=
  { r with line := r.line + lineAdvance p opcode }.advance p (operationAdvance p opcode)

/-- **One instruction**: the registers after it, and the rows it appends. -/
def step (p : Params) (r : Registers) : Instruction → Registers × List Registers
  | .special opcode => ((special p r opcode.toNat).cleared, [special p r opcode.toNat])
  | .copy => (r.cleared, [r])
  | .advancePc n => (r.advance p n, [])
  | .advanceLine n => ({ r with line := r.line + n }, [])
  | .setFile n => ({ r with file := n }, [])
  | .setColumn n => ({ r with column := n }, [])
  | .negateStmt => ({ r with isStmt := !r.isStmt }, [])
  | .setBasicBlock => ({ r with basicBlock := true }, [])
  | .constAddPc => (r.advance p (operationAdvance p 255), [])
  | .fixedAdvancePc n => ({ r with address := r.address + n, opIndex := 0 }, [])
  | .setPrologueEnd => ({ r with prologueEnd := true }, [])
  | .setEpilogueBegin => ({ r with epilogueBegin := true }, [])
  | .setIsa n => ({ r with isa := n }, [])
  | .endSequence => (initial p, [{ r with endSequence := true }])
  | .setAddress n => ({ r with address := n, opIndex := 0 }, [])
  | .setDiscriminator n => ({ r with discriminator := n }, [])

/-- **A program**: the registers after it, and the rows it appends. -/
def run (p : Params) : Registers → List Instruction → Registers × List Registers
  | r, [] => (r, [])
  | r, i :: is => ((run p (step p r i).1 is).1, (step p r i).2 ++ (run p (step p r i).1 is).2)

/-- The matrix of a program. -/
def matrix (p : Params) (is : List Instruction) : List Registers := (run p (initial p) is).2

/-! ### Operands that fit in the registers of a machine word -/

/-- The operand of the instruction fits: `op_index` plus the advance in 64 bits, the operands of the
other registers in 32. -/
def Instruction.Fits (r : Registers) : Instruction → Prop
  | .advancePc n => r.opIndex + n < 2 ^ 64
  | .setFile n | .setColumn n | .setIsa n | .setDiscriminator n => n < 2 ^ 32
  | _ => True

/-- The operands of all instructions fit when they are executed. -/
def Fits (p : Params) : Registers → List Instruction → Prop
  | _, [] => True
  | r, i :: is => i.Fits r ∧ Fits p (step p r i).1 is

instance (r : Registers) : ∀ i : Instruction, Decidable (i.Fits r) := fun i => by
  cases i <;> unfold Instruction.Fits <;> infer_instance

instance decidableFits (p : Params) : ∀ (r : Registers) (is : List Instruction),
    Decidable (Fits p r is)
  | _, [] => .isTrue trivial
  | r, i :: is =>
    have := decidableFits p (step p r i).1 is
    inferInstanceAs (Decidable (i.Fits r ∧ Fits p (step p r i).1 is))

/-- **`op_index` stays below the operations per instruction.** -/
theorem opIndex_step {p : Params} (hp : 1 ≤ p.maximumOperationsPerInstruction) {r : Registers}
    (hr : r.opIndex < p.maximumOperationsPerInstruction) (i : Instruction) :
    (step p r i).1.opIndex < p.maximumOperationsPerInstruction := by
  have hadv : ∀ (q : Registers) n, (q.advance p n).opIndex < p.maximumOperationsPerInstruction :=
    fun q n => Nat.mod_lt _ hp
  cases i with
  | special | advancePc | constAddPc => exact hadv _ _
  | fixedAdvancePc | endSequence | setAddress => exact hp
  | copy | advanceLine | setFile | setColumn | negateStmt | setBasicBlock | setPrologueEnd
    | setEpilogueBegin | setIsa | setDiscriminator => exact hr

/-- A program in two parts. -/
theorem run_append (p : Params) : ∀ (r : Registers) (is js : List Instruction),
    run p r (is ++ js) =
      ((run p (run p r is).1 js).1, (run p r is).2 ++ (run p (run p r is).1 js).2)
  | r, [], js => rfl
  | r, i :: is, js => by
    rw [List.cons_append, run, run_append p _ is js, run, List.append_assoc]

end Dabugger.LineProgram.Machine
