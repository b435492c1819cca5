import Mathlib.Tactic

/-! # What the source leaves to the build and to the machine

The readers of `reader.h`, the ways a run ends before its function returns (`Fault`), and the
parameters of a run (`Host`): whether `assert` is compiled in (`CMakeLists.txt` compiles Debug with
it and Release without), and what the uninitialised locals of the entry readers hold. A copy past
the end of its destination is a fault in both. The host is little-endian with 64-bit `size_t`, and
allocations succeed, whatever is asked of them: also `calloc(SIZE_MAX, 1)`, which a header with
`opcode_base` 0 asks for, and tables of more bytes than a `size_t` counts. -/

namespace Dabugger.Base

/-- `ReadStatus`. -/
inductive ReadStatus where
  | ok
  | outOfBounds
  | lebU64Overflow
  | lebI64Overflow
  deriving DecidableEq

/-- `ReadResult`. -/
structure ReadResult where
  bytesConsumed : ℕ
  status : ReadStatus
  deriving DecidableEq

/-- `BinaryReader`: `cursor` is the memory from the cursor to the end of its buffer. -/
structure BinaryReader where
  cursor : List UInt8
  remaining : ℕ
  deriving DecidableEq

/-- The reader at the start of a buffer. -/
def BinaryReader.ofBytes (bs : List UInt8) : BinaryReader := ⟨bs, bs.length⟩

@[simp] theorem BinaryReader.remaining_ofBytes (bs : List UInt8) :
    (BinaryReader.ofBytes bs).remaining = bs.length := rfl

@[simp] theorem BinaryReader.cursor_ofBytes (bs : List UInt8) :
    (BinaryReader.ofBytes bs).cursor = bs := rfl

/-- The C string at an offset of a section; `none` if it is not terminated inside the section. -/
def cstringAt (section_ : List UInt8) (offset : ℕ) : Option (List UInt8) :=
  let tail := section_.drop offset
  if 0 ∈ tail then some (tail.takeWhile (· ≠ 0)) else none

/-- A `const char *` of the parsed tables. -/
inductive CStr where
  | null
  /-- a string made by `strdup` -/
  | heap (s : List UInt8)
  /-- `debug_line_str.data + offset` -/
  | debugLineStr (offset : UInt64)
  /-- whatever an uninitialised variable holds -/
  | indeterminate (address : UInt64)
  deriving DecidableEq

/-- The string a pointer points to, if it points to one. -/
def CStr.string (debugLineStr : List UInt8) : CStr → Option (List UInt8)
  | .null => none
  | .heap s => some s
  | .debugLineStr offset => cstringAt debugLineStr offset.toNat
  | .indeterminate _ => none

/-- Why a run ends before its function returns. -/
inductive Fault where
  /-- a failing `assert` -/
  | assertFailed
  /-- an integer division by zero -/
  | divByZero
  /-- a copy past the end of its destination -/
  | overflow
  /-- an index or a pointer outside its object -/
  | outOfBounds
  /-- a loop that was not finished; no run of the model ends so -/
  | diverges
  deriving DecidableEq

/-- What the uninitialised locals of the `read_lnct_*` functions hold. -/
structure Locals where
  result : ReadStatus
  path : CStr
  timestamp : UInt64
  size : UInt64
  md5 : Vector UInt8 16

/-- The build and the stack. `locals r i j` are the uninitialised locals when the reader stands at
`r` before the `j`-th field of the `i`-th entry. -/
structure Host where
  asserts : Bool
  locals : BinaryReader → ℕ → ℕ → Locals

/-- The host whose stack holds zeros. -/
def Host.zeroed (asserts : Bool) : Host where
  asserts := asserts
  locals _ _ _ := ⟨.ok, .null, 0, 0, Vector.replicate 16 0⟩

/-- A function that reads: it moves a reader, or ends the run. -/
abbrev Parse := StateT BinaryReader (Except Fault)

/-- `assert(p)`. -/
def cAssert (host : Host) (p : Bool) : Except Fault Unit :=
  if host.asserts && !p then .error .assertFailed else .ok ()

/-- `memcpy` to a destination with the bytes `dst`; it must hold what is copied. -/
def memcpy (dst src : List UInt8) : Except Fault (List UInt8) :=
  if dst.length < src.length then .error .overflow else .ok (src ++ dst.drop src.length)

theorem memcpy_eq {dst src : List UInt8} (h : src.length ≤ dst.length) :
    memcpy dst src = .ok (src ++ dst.drop src.length) := if_neg (Nat.not_lt.mpr h)

@[simp] theorem cAssert_true (host : Host) : cAssert host true = .ok () := by simp [cAssert]

end Dabugger.Base
