import BofStd.CircularBufferEvent
import BofStd.PotEvent
import BofStd.StringCircularBufferEvent

/-!
# Blocking calls return

With no other thread, a call with a timeout that is not zero returns if some number of rounds of its retry loop is enough
(`Returns`). `Pop` and `PopString` skip their wait by one counter and find the buffer empty by another: `NeverReady` and
`NeverReadable` are the states in which the two say different things.
-/

namespace BofStd

/-- The call comes to an end. -/
def CircularBuffer.Returns {α : Type*} (s : CircularBuffer α) (c : CircularBuffer.RetryCall α) : Prop :=
  ∃ rounds, (s.retryCall rounds c).isSome

/-- There are elements, so that `Pop` does not wait, and none of them is ready. -/
def CircularBuffer.NeverReady {α : Type*} (s : CircularBuffer α) : Prop :=
  s.mCircularBufferParam_X.Blocking_B = true ∧ s.mNbElementInBuffer_U32 ≠ 0 ∧ s.nbReady = 0

/-- The call comes to an end. -/
def BlockingStringBuffer.Returns (s : BlockingStringBuffer) (c : BlockingStringBuffer.RetryCall) : Prop :=
  ∃ rounds, (s.retryCall rounds c).isSome

/-- The number of bytes that `PopString` can read. -/
def BlockingStringBuffer.nbReadable (s : BlockingStringBuffer) : Nat :=
  if s.buffer.mStringCircularBufferParam_X.SnapshotMode_B then s.buffer.mNbSnapshotCharInBuffer_U32
  else s.buffer.mNbCharInBuffer_U32

/-- There are strings, so that `PopString` with the limit `nbMax` does not wait, and no byte to read. -/
def BlockingStringBuffer.NeverReadable (s : BlockingStringBuffer) (nbMax : Nat) : Prop :=
  s.blocking = true ∧ s.buffer.mNbElementInBuffer_U32 ≠ 0 ∧ (s.nbReadable = 0 ∨ nbMax = 0)

/-- `Get` or `Lock` comes to an end. -/
def BlockingPot.Returns (s : BlockingPot) (lock : Bool) : Prop := ∃ rounds, (retryGet lock rounds s).isSome

end BofStd

/-!
## `Get` with a timeout and without one agree

What `Get` without a timeout would hand out, `Get` with a timeout hands out as well, instead of waiting for an event
that nobody signals. `ResetSignaled` is about the only call that puts elements back and leaves the event as it is.
-/

namespace BofStd.BlockingPot

/-- A slot that `Get` hands out with a zero timeout is handed out with any other. -/
def Agrees (s : BlockingPot) : Prop :=
  ∀ i s', s.getElement false false = some (s', some i) → ∃ s', s.getElement false true = some (s', some i)

/-- In every state along the run `Get` with a timeout agrees with the one without. -/
def GetsAgree (param : PotParam) (data : Nat → PotElement) (ops : List Op) : Prop :=
  ∀ ops', ops' <+: ops → Agrees (Machine.run step (create param data) ops').1

/-- `Reset` finds the event set, unless the pot has no event or a magic number whose complement is the word of a
free slot, with which `Get` always fails. -/
def ResetSignaled (s : BlockingPot) : Op → Prop
  | .reset => s.canGet = true ∨ s.blocking = false ∨ s.pot.param.magicNumber = 0xFFFFFFFF
  | _ => True

end BofStd.BlockingPot

/-!
## Calls with and without a timeout agree

The events of a buffer say again what its counters and lock flags say. `Agrees` compares the two: what a `Push` or
`Pop` without a timeout would do, the call with a timeout does as well, instead of waiting for an event that
nobody signals. `RaisesEvents` names the calls that make room or elements available to a call without a timeout
and leave the event as it is.
-/

namespace BofStd.CircularBuffer

variable {α : Type*}

/-- A `Push` or `Pop` that succeeds with a zero timeout succeeds with any other, with the same result. -/
structure Agrees (s : CircularBuffer α) : Prop where
  push : ∀ pData, (s.push pData).2.err = .noError → ∃ s', s.pushTimed pData = some (s', (s.push pData).2)
  pop : s.pop.2.err = .noError → ∃ s', s.popTimed = some (s', s.pop.2)

/-- The call returns. -/
def Completes (s : CircularBuffer α) (op : WaitOp α) : Prop := s.call op ≠ none

/-- The call does not leave an event clear that the buffer needs: `SetOverWriteMode(true)` finds the write event
set or the next slot locked, and `Reset` finds the write event set. A `Peek` that waits must not find ready
elements either; it does so only after the count of the elements has wrapped to 0. -/
def RaisesEvents (s : CircularBuffer α) : WaitOp α → Prop
  | .setOverWriteMode true => s.mCanWriteEvent_X = true ∨ s.mpLock_U8 s.mPushIndex_U32 = true
  | .reset => s.mCanWriteEvent_X = true
  | .peek true => s.mNbElementInBuffer_U32 = 0 → s.nbReady = 0 ∨ s.mpLock_U8 s.mPopIndex_U32 = true
  | _ => True

/-- In every state along the run a call with a timeout agrees with the one without. -/
def AgreesAlong (param : CircularBufferParam) (pData : Nat → α) (ops : List (WaitOp α)) : Prop :=
  ∀ ops', ops' <+: ops → Agrees (Machine.run waitStep (create param pData) ops').1

end BofStd.CircularBuffer
