import BofStd.BinSerializer

/-!
# `BofStack` (`bofstack.h`, `bofstack.cpp`)

A stack of bytes in an array of `MaxStackSize_U32` bytes. Words are stored in the order of the CPU, or in the other
order if `SwapByte_B` is set. An access outside of the array has no result (`none`), and neither has an `int` that
overflows. The stack is not shared between threads: `MultiThreadAware_B` is off, so that there is no mutex. No pointer
is null.
-/

namespace BofStd

/-- The members. -/
structure BofStack where
  MaxStackSize_U32 : Nat
  SwapByte_B : Bool
  mpStack_U8 : Nat → UInt8
  /-- `GetStackPointer()`: `mpStackLocation_U8 - mpStack_U8`. -/
  stackPointer : Nat

namespace BofStack

/-- Writes to the array. -/
def write (s : BofStack) (i : Nat) (bytes : List UInt8) : Option BofStack :=
  if i + bytes.length ≤ s.MaxStackSize_U32 then
    some { s with mpStack_U8 := Memory.write s.mpStack_U8 i bytes }
  else none

/-- Reads from the array. -/
def read (s : BofStack) (i n : Nat) : Option (List UInt8) :=
  if i + n ≤ s.MaxStackSize_U32 then some (Memory.read s.mpStack_U8 i n) else none

/-- `SetSwapByte`. -/
def setSwapByte (s : BofStack) (swapByte : Bool) : BofStack := { s with SwapByte_B := swapByte }

/-- `SetStackPointer`. -/
def setStackPointer (s : BofStack) (ptr : Nat) : Bool × BofStack :=
  if ptr < s.MaxStackSize_U32 then (true, { s with stackPointer := ptr }) else (false, s)

/-- `AdjustStackBufferLocation`. -/
def adjustStackBufferLocation (s : BofStack) (offset : Int) : Option (Bool × BofStack) :=
  let newPtr := (s.stackPointer : Int).bmod (2 ^ 32) + offset
  if -2 ^ 31 ≤ newPtr ∧ newPtr < 2 ^ 31 then
    if newPtr ≤ (s.MaxStackSize_U32 : Int).bmod (2 ^ 32) ∧ newPtr ≥ 0 then
      some (true, { s with stackPointer := newPtr.toNat })
    else some (false, s)
  else none

/-- `(GetStackPointer() + n) <= mStackParam_X.MaxStackSize_U32`, in `uint32_t`. -/
def fits (s : BofStack) (n : Nat) : Bool := (s.stackPointer + n) % 2 ^ 32 ≤ s.MaxStackSize_U32

/-- The stack pointer moves up in the array. -/
def advance (s : BofStack) (n : Nat) : Option BofStack :=
  if s.stackPointer + n ≤ s.MaxStackSize_U32 then some { s with stackPointer := s.stackPointer + n } else none

/-! ## Push -/

/-- `PushSkip`. -/
def pushSkip (s : BofStack) (n : Nat) : Option (Bool × BofStack) :=
  if s.fits n then (s.advance n).map fun s => (true, s) else some (false, s)

/-- `Push` for a block of bytes. -/
def pushBlock (s : BofStack) (bytes : List UInt8) : Option (Bool × BofStack) :=
  if s.fits bytes.length then
    ((s.write s.stackPointer bytes).bind fun s => s.advance bytes.length).map fun s => (true, s)
  else some (false, s)

/-- `Push` for a word of `w` bytes. -/
def pushWord (cpu : CpuEndianness) (s : BofStack) (w v : Nat) : Option (Bool × BofStack) :=
  s.pushBlock (cpu.store w (endianScalar s.SwapByte_B w v))

/-- `Push(uint8_t)`. -/
def pushU8 (cpu : CpuEndianness) (s : BofStack) (v : Nat) : Option (Bool × BofStack) := s.pushWord cpu 1 v

/-- `Push(uint16_t)`. -/
def pushU16 (cpu : CpuEndianness) (s : BofStack) (v : Nat) : Option (Bool × BofStack) := s.pushWord cpu 2 v

/-- `Push(uint32_t)`, also for the bit pattern of a `float`. -/
def pushU32 (cpu : CpuEndianness) (s : BofStack) (v : Nat) : Option (Bool × BofStack) := s.pushWord cpu 4 v

/-- `Push(uint64_t)`, also for the bit pattern of a `double`. -/
def pushU64 (cpu : CpuEndianness) (s : BofStack) (v : Nat) : Option (Bool × BofStack) := s.pushWord cpu 8 v

/-- `Push(char *)`: the terminator first, then the characters from the last one on. -/
def pushTxt (s : BofStack) (txt : List UInt8) : Option (Bool × BofStack) := s.pushBlock (0 :: txt.reverse)

/-! ## Pop

The result of a `Pop` that returns `false` is `none`: nothing is written to the place of the value. -/

/-- `PopSkip`. -/
def popSkip (s : BofStack) (n : Nat) : Bool × BofStack :=
  if n ≤ s.stackPointer then (true, { s with stackPointer := s.stackPointer - n }) else (false, s)

/-- `Pop` for a block of bytes. -/
def popBlock (s : BofStack) (n : Nat) : Option (Option (List UInt8) × BofStack) :=
  if n ≤ s.stackPointer then
    (s.read (s.stackPointer - n) n).map fun bytes => (some bytes, { s with stackPointer := s.stackPointer - n })
  else some (none, s)

/-- `Pop` for a word of `w` bytes. -/
def popWord (cpu : CpuEndianness) (s : BofStack) (w : Nat) : Option (Option Nat × BofStack) :=
  (s.popBlock w).map fun r => (r.1.map fun bytes => endianScalar s.SwapByte_B w (cpu.load bytes), r.2)

/-- `Pop(uint8_t *)`. -/
def popU8 (cpu : CpuEndianness) (s : BofStack) : Option (Option Nat × BofStack) := s.popWord cpu 1

/-- `Pop(uint16_t *)`. -/
def popU16 (cpu : CpuEndianness) (s : BofStack) : Option (Option Nat × BofStack) := s.popWord cpu 2

/-- `Pop(uint32_t *)`, also for the bit pattern of a `float`. -/
def popU32 (cpu : CpuEndianness) (s : BofStack) : Option (Option Nat × BofStack) := s.popWord cpu 4

/-- `Pop(uint64_t *)`, also for the bit pattern of a `double`. -/
def popU64 (cpu : CpuEndianness) (s : BofStack) : Option (Option Nat × BofStack) := s.popWord cpu 8

/-- The loop of `Pop(char *)`, with `NbMaxToPop_U32`: a character is read where the stack pointer is, and then the
stack pointer moves down. -/
def popTxtLoop : Nat → BofStack → Option (List UInt8 × BofStack)
  | 0, s => some ([], s)
  | nbMaxToPop + 1, s => do
    let bytes ← s.read s.stackPointer 1
    let s := { s with stackPointer := s.stackPointer - 1 }
    if bytes = [0] then return (bytes, s)
    else
      let (txt, s) ← popTxtLoop nbMaxToPop s
      return (bytes ++ txt, s)

/-- `Pop(char *)`: whether it succeeds, and the characters that it writes. -/
def popTxt (s : BofStack) : Option (Bool × List UInt8 × BofStack) :=
  if s.stackPointer = 0 then some (true, [], s)
  else (popTxtLoop s.stackPointer s).map fun r =>
    if r.1.getLast? = some 0 then (true, r) else (false, r.1 ++ [0], r.2)

end BofStack

end BofStd
