import BofStd.CircularBuffer

/-!
# The blocking calls of `BofCircularBuffer`

`Push`, `Pop` and `Peek` with a timeout that is not zero, on a buffer that one thread uses. They wait for an event
first, and `Push` and `Pop` start again when the buffer is full or empty after all. Two rounds decide: after the
first one the event is clear, so that the second one times out, unless `Pop` does not wait and never returns
(`popTimed_rounds`).
-/

namespace BofStd.CircularBuffer

variable {α : Type*}

/-- The wait of `Push`. -/
def waitCanWrite (s : CircularBuffer α) : CircularBuffer α × BofErr :=
  if s.mCircularBufferParam_X.Blocking_B then
    ({ s with mCanWriteEvent_X := (waitForEvent s.mCanWriteEvent_X).1 }, (waitForEvent s.mCanWriteEvent_X).2)
  else (s, .noError)

/-- The wait of `Pop` and `Peek`: only if there is no element. -/
def waitCanRead (s : CircularBuffer α) : CircularBuffer α × BofErr :=
  if s.mCircularBufferParam_X.Blocking_B ∧ s.mNbElementInBuffer_U32 = 0 then
    ({ s with mCanReadEvent_X := (waitForEvent s.mCanReadEvent_X).1 }, (waitForEvent s.mCanReadEvent_X).2)
  else (s, .noError)

/-- The loop of `RetryPush` and `RetryPop`: wait, run the critical section, and start again from the wait when it
fails with the error `again`; `none` if it is not over after this number of rounds. -/
def waitAndRetry (wait : CircularBuffer α → CircularBuffer α × BofErr)
    (locked : CircularBuffer α → CircularBuffer α × ElementOut α) (again : BofErr) :
    Nat → CircularBuffer α → Option (CircularBuffer α × ElementOut α)
  | 0, _ => none
  | rounds + 1, s =>
    if (wait s).2 = .noError then
      let r := locked (wait s).1
      if r.1.mCircularBufferParam_X.Blocking_B ∧ r.2.err = again then waitAndRetry wait locked again rounds r.1
      else some (signalIfNoError r)
    else some ((wait s).1, { err := (wait s).2 })

/-- `Push` with a timeout; the element pointer may be null. -/
def pushTimed (s : CircularBuffer α) (pData : Option α) : Option (CircularBuffer α × ElementOut α) :=
  match pData with
  | none => some (s, { err := .einval })
  | some x => waitAndRetry waitCanWrite (fun s => s.pushLocked x) .full 2 s

/-- `Pop` with a timeout. -/
def popTimed (s : CircularBuffer α) : Option (CircularBuffer α × ElementOut α) :=
  waitAndRetry waitCanRead popLocked .empty 2 s

/-- `Peek` with a timeout. -/
def peekTimed (s : CircularBuffer α) : CircularBuffer α × ElementOut α :=
  if s.waitCanRead.2 = .noError then s.waitCanRead.1.peek else (s.waitCanRead.1, { err := s.waitCanRead.2 })

/-- The calls of a run; `timed` says whether the timeout is not zero. -/
inductive WaitOp (α : Type*) where
  | push (pData : Option α) (timed : Bool)
  | pop (timed : Bool)
  | peek (timed : Bool)
  | skip
  | popLastPush
  | unlockPop (absoluteIndex : Nat)
  | setOverWriteMode (overwrite : Bool)
  | reset

/-- One call; `none` if it does not return. -/
def call (s : CircularBuffer α) : WaitOp α → Option (CircularBuffer α × ElementOut α)
  | .push pData timed => if timed then s.pushTimed pData else some (s.push pData)
  | .pop timed => if timed then s.popTimed else some s.pop
  | .peek timed => some (if timed then s.peekTimed else s.peek)
  | .skip => some (s.skip true)
  | .popLastPush => some s.popLastPush
  | .unlockPop absoluteIndex => some (s.unlockPop absoluteIndex)
  | .setOverWriteMode overwrite => some (s.setOverWriteMode overwrite, { err := .noError })
  | .reset => some (s.reset, { err := .noError })

/-- One call as a step of a machine, which stands still when the call does not return. -/
def waitStep (s : CircularBuffer α) (op : WaitOp α) : CircularBuffer α × Option (ElementOut α) :=
  match s.call op with
  | some (s', out) => (s', some out)
  | none => (s, none)

/-! ## The calls that start again -/

/-- The wait of `PushForNextPop`: not if the element is forced into a full buffer. -/
def waitCanInsert (forceIfFull : Bool) (s : CircularBuffer α) : CircularBuffer α × BofErr :=
  if s.mCircularBufferParam_X.Blocking_B ∧ forceIfFull = false then
    ({ s with mCanWriteEvent_X := (waitForEvent s.mCanWriteEvent_X).1 }, (waitForEvent s.mCanWriteEvent_X).2)
  else (s, .noError)

/-- The calls with a retry loop. -/
inductive RetryCall (α : Type*) where
  | push (pData : Option α)
  | pop
  | pushForNextPop (pData : Option α) (forceIfFull : Bool)

/-- A call with a timeout, given up after this number of rounds. -/
def retryCall (rounds : Nat) (s : CircularBuffer α) : RetryCall α → Option (CircularBuffer α × ElementOut α)
  | .push none => some (s, { err := .einval })
  | .push (some x) => waitAndRetry waitCanWrite (fun s => s.pushLocked x) .full rounds s
  | .pop => waitAndRetry waitCanRead popLocked .empty rounds s
  | .pushForNextPop none _ => some (s, { err := .einval })
  | .pushForNextPop (some x) forceIfFull =>
    waitAndRetry (waitCanInsert forceIfFull) (fun s => s.pushForNextPopLocked x forceIfFull) .full rounds s

/-- The calls of a run with `PushForNextPop` and all the calls without a timeout. -/
inductive RetryOp (α : Type*) where
  | wait (op : WaitOp α)
  | untimed (op : Op α)
  | pushForNextPop (pData : Option α) (forceIfFull timed : Bool)

/-- One call, which stands still when it does not return. -/
def retryStep (s : CircularBuffer α) : RetryOp α → CircularBuffer α × Option (ElementOut α)
  | .wait op => s.waitStep op
  | .untimed op => ((s.step op).1, some (s.step op).2)
  | .pushForNextPop pData forceIfFull timed =>
    match if timed then s.retryCall 2 (.pushForNextPop pData forceIfFull)
      else some (s.pushForNextPop pData forceIfFull) with
    | some (s', out) => (s', some out)
    | none => (s, none)

end BofStd.CircularBuffer
