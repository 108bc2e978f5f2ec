import BofStd.BofStack
import BofStd.Lib.Run

/-!
# What `BofStack` holds

`content` are the bytes below the stack pointer. A push appends to them and a pop takes off their end.
-/

namespace BofStd.BofStack

/-- The bytes below the stack pointer. -/
def content (s : BofStack) : List UInt8 := Memory.read s.mpStack_U8 0 s.stackPointer

/-- The stack after a push of these bytes. -/
def pushed (s : BofStack) (bytes : List UInt8) : BofStack :=
  { s with
    mpStack_U8 := Memory.write s.mpStack_U8 s.stackPointer bytes
    stackPointer := s.stackPointer + bytes.length }

/-- The stack with the stack pointer at another place. -/
def withPointer (s : BofStack) (ptr : Nat) : BofStack := { s with stackPointer := ptr }

/-- The stack after a copy of these bytes to its buffer. -/
def copied (s : BofStack) (bytes : List UInt8) : BofStack :=
  { s with mpStack_U8 := Memory.write s.mpStack_U8 0 bytes }

end BofStd.BofStack

/-!
## `BofStack` as a bounded stack

The calls as the inputs of a machine, and what a call has to do in every state that calls lead to: the stack pointer
stays inside of the array, a call that returns `false` changes nothing, and what is pushed is popped again.
-/

namespace BofStd.BofStack

/-- The widths of the values; a `float` is pushed as its 32 bits and a `double` as its 64 bits. -/
inductive Width where
  | w8
  | w16
  | w32
  | w64
  deriving DecidableEq

def Width.bytes : Width → Nat
  | .w8 => 1
  | .w16 => 2
  | .w32 => 4
  | .w64 => 8

/-- The calls, with arguments of the types of the source. -/
inductive Op where
  | push (w : Width) (v : Fin (256 ^ w.bytes))
  | pushBlock (bytes : List UInt8) (h : bytes.length < 2 ^ 32)
  | pushSkip (n : UInt32)
  | pop (w : Width)
  | popBlock (n : UInt32)
  | popSkip (n : UInt32)
  | setStackPointer (ptr : UInt32)
  | adjustStackBufferLocation (offset : Int32)

/-- What a pop writes to the place of the value. -/
inductive Value where
  | nothing
  | word (n : Nat)
  | block (bytes : List UInt8)

/-- What a call returns: the `bool`, and the value. -/
abbrev Result := Bool × Value

/-- The result of a pop. -/
def Result.ofPop {α : Type} (f : α → Value) (v : Option α) : Result :=
  match v with
  | some a => (true, f a)
  | none => (false, .nothing)

/-- A call. -/
def exec (cpu : CpuEndianness) (s : BofStack) : Op → Option (Result × BofStack)
  | .push w v => (s.pushWord cpu w.bytes v.val).map fun r => ((r.1, .nothing), r.2)
  | .pushBlock bytes _ => (s.pushBlock bytes).map fun r => ((r.1, .nothing), r.2)
  | .pushSkip n => (s.pushSkip n.toNat).map fun r => ((r.1, .nothing), r.2)
  | .pop w => (s.popWord cpu w.bytes).map fun r => (.ofPop .word r.1, r.2)
  | .popBlock n => (s.popBlock n.toNat).map fun r => (.ofPop .block r.1, r.2)
  | .popSkip n => some (((s.popSkip n.toNat).1, .nothing), (s.popSkip n.toNat).2)
  | .setStackPointer ptr => some (((s.setStackPointer ptr.toNat).1, .nothing), (s.setStackPointer ptr.toNat).2)
  | .adjustStackBufferLocation offset =>
    (s.adjustStackBufferLocation offset.toInt).map fun r => ((r.1, .nothing), r.2)

/-- The machine; a call without a result has no output. -/
def step (cpu : CpuEndianness) (s : BofStack) (op : Op) : BofStack × Option Result :=
  match s.exec cpu op with
  | some (r, s') => (s', some r)
  | none => (s, none)

/-- The pop that belongs to a push, with the value that it has to return. -/
def Op.inverse : Op → Option (Op × Value)
  | .push w v => some (.pop w, .word v.val)
  | .pushBlock bytes _ => some (.popBlock (UInt32.ofNat bytes.length), .block bytes)
  | .pushSkip n => some (.popSkip n, .nothing)
  | _ => none

/-- The call has a result, keeps the stack pointer in the array of `max` bytes, changes nothing if it returns `false`,
and if it is a push that returns `true`, the pop that belongs to it returns the value and restores the stack pointer. -/
def StepOk (cpu : CpuEndianness) (max : Nat) (s : BofStack) (op : Op) : Prop :=
  ∃ ok v s', s.exec cpu op = some ((ok, v), s') ∧ s'.stackPointer ≤ max ∧ (ok = false → s' = s) ∧
    (ok = true → ∀ pop value, op.inverse = some (pop, value) →
      ∃ s'', s'.exec cpu pop = some ((true, value), s'') ∧ s''.stackPointer = s.stackPointer)

/-- The sum that the call computes fits its type. -/
def StepCond (s : BofStack) : Op → Prop
  | .pushBlock bytes _ => s.stackPointer + bytes.length < 2 ^ 32
  | .pushSkip n => s.stackPointer + n.toNat < 2 ^ 32
  | .adjustStackBufferLocation offset => s.stackPointer + offset.toInt < 2 ^ 31
  | _ => True

instance (s : BofStack) (op : Op) : Decidable (StepCond s op) := by
  cases op <;> unfold StepCond <;> infer_instance

/-- A new stack, whatever is in its array. -/
def create (max : Nat) (swapByte : Bool) (mem : Nat → UInt8) : BofStack := ⟨max, swapByte, mem, 0⟩

end BofStd.BofStack
