import BofStd.Basic
import BofStd.Lib.Memory
import BofStd.Lib.Run

/-!
# `BofCircularBuffer` (`bofcircularbuffer.h`)

The element storage `mpData_T` and the lock flags `mpLock_U8` are functions of the slot index. The
two events are flags: `Bof_SignalEvent` on an event created with one instance sets its only bit and
returns `BOF_ERR_NO_ERROR`. The functions below are the calls with `_BlockingTimeouItInMs_U32 = 0`:
they wait for no event and take no retry. The code between the lock and the unlock of the mutex is a
definition of its own (`pushLocked`, `popLocked`, ...). `BOF_ASSERT` is the release version, which
does nothing.

`_ppStorage` is `&mpData_T[*_pIndexOf_U32]` in every function, so the index in `ElementOut` stands
for both.
-/

namespace BofStd

/-- `BOF_CIRCULAR_BUFFER_PARAM`, with the bound of the type `uint32_t` of the capacity. -/
structure CircularBufferParam where
  NbMaxElement_U32 : Nat
  nbMaxElement_lt : NbMaxElement_U32 < 4294967296
  Overwrite_B : Bool
  Blocking_B : Bool
  PopLockMode_B : Bool

/-- The members of `BofCircularBuffer<DataType>`. -/
structure CircularBuffer (α : Type*) where
  mCircularBufferParam_X : CircularBufferParam
  mpData_T : Nat → α
  mOverflow_B : Bool
  mPushIndex_U32 : Nat
  mPopIndex_U32 : Nat
  mNbElementInBuffer_U32 : Nat
  mNbElementLockedInBuffer_U32 : Nat
  mLevelMax_U32 : Nat
  mCanReadEvent_X : Bool
  mCanWriteEvent_X : Bool
  mpLock_U8 : Nat → Bool

/-- The result of a call: the error code and what it stores through its output pointers. -/
structure ElementOut (α : Type*) where
  err : BofErr
  index : Option Nat := none
  data : Option α := none
  locked : Option Bool := none
  deriving DecidableEq

namespace CircularBuffer

variable {α : Type*}

/-- The constructor, for a capacity that is not 0; `pData` is the storage as it is found. -/
def create (param : CircularBufferParam) (pData : Nat → α) : CircularBuffer α where
  mCircularBufferParam_X := param
  mpData_T := pData
  mOverflow_B := false
  mPushIndex_U32 := 0
  mPopIndex_U32 := 0
  mNbElementInBuffer_U32 := 0
  mNbElementLockedInBuffer_U32 := 0
  mLevelMax_U32 := 0
  mCanReadEvent_X := false
  mCanWriteEvent_X := param.Blocking_B
  mpLock_U8 := fun _ => false

/-- The capacity `NbMaxElement_U32`. -/
def capacity (s : CircularBuffer α) : Nat := s.mCircularBufferParam_X.NbMaxElement_U32

/-- `mNbElementInBuffer_U32 - mNbElementLockedInBuffer_U32`, the number of elements ready to pop. -/
def nbReady (s : CircularBuffer α) : Nat :=
  u32Sub s.mNbElementInBuffer_U32 s.mNbElementLockedInBuffer_U32

def isEmpty (s : CircularBuffer α) : Bool := s.mNbElementInBuffer_U32 == 0

def isFull (s : CircularBuffer α) : Bool := s.mNbElementInBuffer_U32 == s.capacity

def setOverWriteMode (s : CircularBuffer α) (overwrite : Bool) : CircularBuffer α :=
  { s with mCircularBufferParam_X := { s.mCircularBufferParam_X with Overwrite_B := overwrite } }

def reset (s : CircularBuffer α) : CircularBuffer α :=
  { s with
    mOverflow_B := false
    mLevelMax_U32 := 0
    mPushIndex_U32 := 0
    mPopIndex_U32 := 0
    mNbElementInBuffer_U32 := 0
    mNbElementLockedInBuffer_U32 := 0
    mpLock_U8 := fun _ => false }

/-- `mXxxIndex_U32++` followed by the wrap to 0 at the capacity `N`. -/
def nextIndex (N i : Nat) : Nat := if u32 (i + 1) ≥ N then 0 else u32 (i + 1)

/-- `mPushIndex_U32--` followed by the wrap to the last slot, which relies on `0 - 1` being larger
than every index. -/
def previousIndex (N i : Nat) : Nat := if u32Sub i 1 ≥ N then u32Sub N 1 else u32Sub i 1

/-- `SignalReadWrite`: the events that the state of the buffer allows are signaled. -/
def signalReadWrite (s : CircularBuffer α) : CircularBuffer α × BofErr :=
  if s.mCircularBufferParam_X.Blocking_B then
    let s := if s.nbReady ≠ 0 ∧ s.mpLock_U8 s.mPopIndex_U32 = false then
        { s with mCanReadEvent_X := true } else s
    let s := if (s.mCircularBufferParam_X.Overwrite_B ∨ s.mNbElementInBuffer_U32 < s.capacity) ∧
          s.mpLock_U8 s.mPushIndex_U32 = false then
        { s with mCanWriteEvent_X := true } else s
    (s, .noError)
  else (s, .noError)

/-- What `Push`, `PushForNextPop`, `Pop` and `PopLastPush` do before they unlock the mutex: a successful call on a
blocking buffer signals the events, and returns the result of that. -/
def signalIfNoError (r : CircularBuffer α × ElementOut α) : CircularBuffer α × ElementOut α :=
  if r.1.mCircularBufferParam_X.Blocking_B ∧ r.2.err = .noError then
    let (s, err) := r.1.signalReadWrite
    (s, { r.2 with err := err })
  else r

/-- `mpData_T[mPushIndex_U32] = *_pData`, with the push index and the element count moved on. -/
def storeElement (s : CircularBuffer α) (x : α) : CircularBuffer α :=
  { s with
    mpData_T := Function.update s.mpData_T s.mPushIndex_U32 x
    mPushIndex_U32 := nextIndex s.capacity s.mPushIndex_U32
    mNbElementInBuffer_U32 := u32 (s.mNbElementInBuffer_U32 + 1) }

/-- With `Overwrite_B`, a count above the capacity is set back and the oldest element is dropped. -/
def clipToCapacity (s : CircularBuffer α) : CircularBuffer α :=
  if s.mCircularBufferParam_X.Overwrite_B ∧ s.mNbElementInBuffer_U32 > s.capacity then
    { s with
      mNbElementInBuffer_U32 := s.capacity
      mPopIndex_U32 := s.mPushIndex_U32
      mOverflow_B := true }
  else s

def updateLevelMax (s : CircularBuffer α) : CircularBuffer α :=
  if s.mNbElementInBuffer_U32 > s.mLevelMax_U32 then
    { s with mLevelMax_U32 := s.mNbElementInBuffer_U32 }
  else s

/-- The critical section of `Push`. -/
def pushLocked (s : CircularBuffer α) (x : α) : CircularBuffer α × ElementOut α :=
  if s.mCircularBufferParam_X.Overwrite_B ∨ s.mNbElementInBuffer_U32 < s.capacity then
    if s.mpLock_U8 s.mPushIndex_U32 = false then
      ((s.storeElement x).clipToCapacity.updateLevelMax,
        { err := .noError, index := some s.mPushIndex_U32 })
    else ({ s with mOverflow_B := true }, { err := .lock })
  else ({ s with mOverflow_B := true }, { err := .full })

/-- `Push`; the element pointer may be null. -/
def push (s : CircularBuffer α) (pData : Option α) : CircularBuffer α × ElementOut α :=
  match pData with
  | none => (s, { err := .einval })
  | some x => signalIfNoError (s.pushLocked x)

/-- The critical section of `Pop`. -/
def popLocked (s : CircularBuffer α) : CircularBuffer α × ElementOut α :=
  if s.nbReady ≠ 0 then
    if s.mpLock_U8 s.mPopIndex_U32 = false then
      let out : ElementOut α :=
        { err := .noError, index := some s.mPopIndex_U32, data := some (s.mpData_T s.mPopIndex_U32) }
      let s := if s.mCircularBufferParam_X.PopLockMode_B then
          { s with
            mNbElementLockedInBuffer_U32 := u32 (s.mNbElementLockedInBuffer_U32 + 1)
            mpLock_U8 := Function.update s.mpLock_U8 s.mPopIndex_U32 true }
        else { s with mNbElementInBuffer_U32 := u32Sub s.mNbElementInBuffer_U32 1 }
      ({ s with mPopIndex_U32 := nextIndex s.capacity s.mPopIndex_U32 }, out)
    else (s, { err := .lock })
  else (s, { err := .empty })

def pop (s : CircularBuffer α) : CircularBuffer α × ElementOut α := signalIfNoError s.popLocked

/-- The critical section of `PopLastPush`. -/
def popLastPushLocked (s : CircularBuffer α) : CircularBuffer α × ElementOut α :=
  if s.nbReady ≠ 0 then
    let index := previousIndex s.capacity s.mPushIndex_U32
    let s := { s with mPushIndex_U32 := index }
    let s := if s.mpLock_U8 index then
        { s with
          mNbElementLockedInBuffer_U32 := u32Sub s.mNbElementLockedInBuffer_U32 1
          mpLock_U8 := Function.update s.mpLock_U8 index false }
      else s
    ({ s with mNbElementInBuffer_U32 := u32Sub s.mNbElementInBuffer_U32 1 },
      { err := .noError, index := some index, data := some (s.mpData_T index) })
  else (s, { err := .empty })

def popLastPush (s : CircularBuffer α) : CircularBuffer α × ElementOut α :=
  signalIfNoError s.popLastPushLocked

def peek (s : CircularBuffer α) : CircularBuffer α × ElementOut α :=
  if s.nbReady ≠ 0 then
    if s.mpLock_U8 s.mPopIndex_U32 = false then
      (s, { err := .noError, index := some s.mPopIndex_U32,
            data := some (s.mpData_T s.mPopIndex_U32) })
    else (s, { err := .lock })
  else (s, { err := .empty })

/-- `Skip`; unlike `Pop` it drops the element in lock mode too, and it signals only on request. -/
def skip (s : CircularBuffer α) (signalIfNeeded : Bool) : CircularBuffer α × ElementOut α :=
  if s.nbReady ≠ 0 then
    let locked := s.mpLock_U8 s.mPopIndex_U32
    if locked = false then
      let out : ElementOut α :=
        { err := .noError, index := some s.mPopIndex_U32, data := some (s.mpData_T s.mPopIndex_U32),
          locked := some locked }
      let s := { s with
        mNbElementInBuffer_U32 := u32Sub s.mNbElementInBuffer_U32 1
        mPopIndex_U32 := nextIndex s.capacity s.mPopIndex_U32 }
      if s.mCircularBufferParam_X.Blocking_B ∧ signalIfNeeded then
        let (s, err) := s.signalReadWrite
        (s, { out with err := err })
      else (s, out)
    else (s, { err := .lock, locked := some locked })
  else (s, { err := .empty })

def unlockPop (s : CircularBuffer α) (absoluteIndex : Nat) : CircularBuffer α × ElementOut α :=
  if s.mCircularBufferParam_X.PopLockMode_B then
    if absoluteIndex < s.capacity then
      if s.mpLock_U8 absoluteIndex then
        let s := { s with
          mpLock_U8 := Function.update s.mpLock_U8 absoluteIndex false
          mNbElementInBuffer_U32 := u32Sub s.mNbElementInBuffer_U32 1
          mNbElementLockedInBuffer_U32 := u32Sub s.mNbElementLockedInBuffer_U32 1 }
        let (s, err) := s.signalReadWrite
        (s, { err := err })
      else (s, { err := .unlock })
    else (s, { err := .tooBig })
  else (s, { err := .wrongMode })

/-- The slot before the pop index, as `PushForNextPop` steps back to it: it tests the index for 0. -/
def indexBefore (N i : Nat) : Nat := if i = 0 then u32Sub N 1 else i - 1

/-- `PushForNextPop` counts the new element, unless the two indices are the same; with `PopLockMode_B` it counts it
as a locked one. -/
def countForNextPop (s : CircularBuffer α) : CircularBuffer α :=
  if s.mPopIndex_U32 ≠ s.mPushIndex_U32 then
    let s := { s with mNbElementInBuffer_U32 := u32 (s.mNbElementInBuffer_U32 + 1) }
    if s.mCircularBufferParam_X.PopLockMode_B then
      { s with mNbElementLockedInBuffer_U32 := u32 (s.mNbElementLockedInBuffer_U32 + 1) }
    else s
  else s

/-- The pop index goes back by one slot and the element is stored there; the lock flag of the slot is set to
`PopLockMode_B`. -/
def storeForNextPop (s : CircularBuffer α) (x : α) : CircularBuffer α :=
  let index := indexBefore s.capacity s.mPopIndex_U32
  { s with
    mPopIndex_U32 := index
    mpLock_U8 := Function.update s.mpLock_U8 index s.mCircularBufferParam_X.PopLockMode_B
    mpData_T := Function.update s.mpData_T index x }

/-- With `Overwrite_B`, a count above the capacity is set back in `PushForNextPop` too, where the pop index is moved
on. -/
def clipForNextPop (s : CircularBuffer α) : CircularBuffer α :=
  if s.mCircularBufferParam_X.Overwrite_B ∧ s.mNbElementInBuffer_U32 > s.capacity then
    { s with
      mNbElementInBuffer_U32 := s.capacity
      mPopIndex_U32 := nextIndex s.capacity s.mPopIndex_U32
      mOverflow_B := true }
  else s

/-- The critical section of `PushForNextPop`. -/
def pushForNextPopLocked (s : CircularBuffer α) (x : α) (forceIfFull : Bool) : CircularBuffer α × ElementOut α :=
  if s.mCircularBufferParam_X.Overwrite_B ∨ forceIfFull ∨ s.mNbElementInBuffer_U32 < s.capacity then
    ((s.countForNextPop.storeForNextPop x).clipForNextPop.updateLevelMax, { err := .noError })
  else ({ s with mOverflow_B := true }, { err := .full })

/-- `PushForNextPop`; the element pointer may be null. -/
def pushForNextPop (s : CircularBuffer α) (pData : Option α) (forceIfFull : Bool) :
    CircularBuffer α × ElementOut α :=
  match pData with
  | none => (s, { err := .einval })
  | some x => signalIfNoError (s.pushForNextPopLocked x forceIfFull)

/-- An index that may have passed the capacity `N` is wrapped once. -/
def wrapIndex (N i : Nat) : Nat := if i ≥ N then u32Sub i N else i

/-- `PeekFromPop`: the index is wrapped once and must then be below the push index. -/
def peekFromPop (s : CircularBuffer α) (relativeIndexFromPop : Nat) : CircularBuffer α × ElementOut α :=
  if relativeIndexFromPop < s.mNbElementInBuffer_U32 then
    let index := wrapIndex s.capacity (u32 (s.mPopIndex_U32 + relativeIndexFromPop))
    if index < s.mPushIndex_U32 then
      (s, { err := .noError, index := some index, data := some (s.mpData_T index),
            locked := some (s.mpLock_U8 index) })
    else (s, { err := .notAvailable })
  else (s, { err := .empty })

/-- `IsEntryFree`: the result, and the lock flag that it stores through `_pIsLocked_B`. -/
def isEntryFree (s : CircularBuffer α) (absoluteIndex : Nat) : Bool × Bool :=
  let notLocked := !s.mpLock_U8 absoluteIndex
  let free :=
    if absoluteIndex < s.capacity then
      if s.mNbElementInBuffer_U32 ≠ 0 then
        if s.mNbElementInBuffer_U32 < s.capacity then
          if s.mPopIndex_U32 ≤ s.mPushIndex_U32 then
            if absoluteIndex ≥ s.mPushIndex_U32 ∨ absoluteIndex < s.mPopIndex_U32 then notLocked else false
          else
            if absoluteIndex ≥ s.mPushIndex_U32 ∧ absoluteIndex < s.mPopIndex_U32 then notLocked else false
        else false
      else true
    else false
  (free, s.mpLock_U8 absoluteIndex)

/-- The calls of a run. -/
inductive Op (α : Type*) where
  | push (pData : Option α)
  | pop
  | peek
  | skip (signalIfNeeded : Bool)
  | popLastPush
  | unlockPop (absoluteIndex : Nat)
  | setOverWriteMode (overwrite : Bool)
  | reset
  deriving DecidableEq

/-- One call. -/
def step (s : CircularBuffer α) : Op α → CircularBuffer α × ElementOut α
  | .push pData => s.push pData
  | .pop => s.pop
  | .peek => s.peek
  | .skip signalIfNeeded => s.skip signalIfNeeded
  | .popLastPush => s.popLastPush
  | .unlockPop absoluteIndex => s.unlockPop absoluteIndex
  | .setOverWriteMode overwrite => (s.setOverWriteMode overwrite, { err := .noError })
  | .reset => (s.reset, { err := .noError })

end CircularBuffer

end BofStd
