import BofStd.StringCircularBuffer
import BofStd.Lib.Retry

/-!
# The blocking calls of `BofStringCircularBuffer`

`PushString`, `PushBinary` and `PopString` with a timeout that is not zero, on a buffer that one thread uses. A round
waits for an event, runs the critical section and signals the events; the calls start again when the buffer is full or
empty after all.
-/

namespace BofStd

open Retry

/-- A buffer with its two events. -/
structure BlockingStringBuffer where
  buffer : StringCircularBuffer
  /-- `mStringCircularBufferParam_X.Blocking_B` -/
  blocking : Bool
  canRead : Bool
  canWrite : Bool

namespace BlockingStringBuffer

/-- The constructor: the write event of a blocking buffer is signaled. -/
def create (param : StringCircularBufferParam) (blocking : Bool) (pData : Nat → UInt8) : BlockingStringBuffer :=
  ⟨.create param pData, blocking, false, blocking⟩

/-- The wait of `PushBinary`. -/
def waitCanWrite (s : BlockingStringBuffer) : BlockingStringBuffer × BofErr :=
  if s.blocking then ({ s with canWrite := (waitForEvent s.canWrite).1 }, (waitForEvent s.canWrite).2)
  else (s, .noError)

/-- The wait of `PopString`: only if there is no whole string. -/
def waitCanRead (s : BlockingStringBuffer) : BlockingStringBuffer × BofErr :=
  if s.blocking ∧ s.buffer.mNbElementInBuffer_U32 = 0 then
    ({ s with canRead := (waitForEvent s.canRead).1 }, (waitForEvent s.canRead).2)
  else (s, .noError)

/-- One round of `PushBinary`. The write event is signaled again by the number of strings before the push, which is
compared with the size in bytes. -/
def pushBinaryRound (size : Nat) (bytes : List UInt8) (s : BlockingStringBuffer) :
    Round BlockingStringBuffer (BlockingStringBuffer × StringOut) :=
  let nbElement := s.buffer.mNbElementInBuffer_U32
  let w := s.waitCanWrite
  if w.2 = .noError then
    let r := w.1.buffer.pushBinary size (some bytes)
    let s := { w.1 with buffer := r.1 }
    if s.blocking then
      if r.2.err = .noError then
        let s := if s.buffer.mStringCircularBufferParam_X.Overwrite_B ∨ nbElement < s.buffer.size then
          { s with canWrite := true } else s
        .stop ({ s with canRead := true }, r.2)
      else if r.2.err = .full then .again s
      else .stop (s, r.2)
    else .stop (s, r.2)
  else .stop (w.1, { err := w.2 })

/-- One round of `PopString`, for a limit and a destination; the limit is part of the state because an empty buffer
sets it to 0. -/
def popStringRound (t : BlockingStringBuffer × Nat) :
    Round (BlockingStringBuffer × Nat) (BlockingStringBuffer × StringOut) :=
  let w := t.1.waitCanRead
  if w.2 = .noError then
    let r := w.1.buffer.popString (some t.2) true
    let s := { w.1 with buffer := r.1 }
    if s.blocking then
      if r.2.err = .noError then
        let s := if s.buffer.mNbElementInBuffer_U32 ≠ 0 then { s with canRead := true } else s
        .stop ({ s with canWrite := true }, r.2)
      else if r.2.err = .empty then .again (s, r.2.nbMax)
      else .stop (s, r.2)
    else .stop (s, r.2)
  else .stop (w.1, { err := w.2, nbMax := t.2 })

/-- The calls with a retry loop. -/
inductive RetryCall where
  | pushString (pData : Option (List UInt8))
  | pushBinary (size : Nat) (pData : Option (List UInt8))
  | popString (pNbMax : Option Nat) (pData : Bool)

/-- A call with a timeout, given up after this number of rounds. -/
def retryCall (rounds : Nat) (s : BlockingStringBuffer) : RetryCall → Option (BlockingStringBuffer × StringOut)
  | .pushString none | .pushBinary _ none => some (s, { err := .einval })
  | .pushString (some bytes) => loop (pushBinaryRound (u32 bytes.length) bytes) rounds s
  | .pushBinary size (some bytes) => loop (pushBinaryRound size bytes) rounds s
  | .popString (some nbMax) true => loop popStringRound rounds (s, nbMax)
  | .popString pNbMax _ => some (s, { err := .einval, nbMax := pNbMax.getD 0 })

/-- The calls of a run. -/
inductive Op where
  | timed (c : RetryCall)
  | untimed (op : StringCircularBuffer.Op)
  | resyncSnapshot (index : Nat)
  | reset

/-- One call, which stands still when it does not return. -/
def step (s : BlockingStringBuffer) : Op → BlockingStringBuffer × Option StringOut
  | .timed c =>
    match s.retryCall 2 c with
    | some (s', out) => (s', some out)
    | none => (s, none)
  | .untimed op => ({ s with buffer := (s.buffer.step op).1 }, some (s.buffer.step op).2)
  | .resyncSnapshot index => ({ s with buffer := (s.buffer.resyncSnapshot index).1 }, none)
  | .reset => ({ s with buffer := s.buffer.reset }, none)

end BlockingStringBuffer

end BofStd
