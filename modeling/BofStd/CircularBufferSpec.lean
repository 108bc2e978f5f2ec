import BofStd.CircularBuffer
import Mathlib.Data.Finset.Card

/-!
# What `BofCircularBuffer` is for: a bounded deque

Two abstract machines. `BoundedDeque` is the whole behaviour of a buffer without `PopLockMode_B`: a
list with a capacity and an overwrite mode. With `PopLockMode_B` the popped elements keep their slots
until they are unlocked, and whether a push finds a usable slot depends on them; `ReadyStep` says what
a call does to the list of the elements that are ready to be popped, whatever its result. `RefinesDeque` and `LockSafe`
say what a run does, `Inv` is the invariant in both modes, and `NoCountWrap` the condition on a call.
-/

namespace BofStd

/-- A list of at most `capacity` elements, oldest first. -/
structure BoundedDeque (α : Type*) where
  capacity : Nat
  overwrite : Bool
  items : List α

namespace BoundedDeque

variable {α : Type*}

open CircularBuffer (Op)

/-- One call on the deque: the new deque, the error code and the element handed out. -/
def step (d : BoundedDeque α) : Op α → BoundedDeque α × (BofErr × Option α)
  | .push none => (d, (.einval, none))
  | .push (some x) =>
    if d.items.length < d.capacity then ({ d with items := d.items ++ [x] }, (.noError, none))
    else if d.overwrite then ({ d with items := d.items.tail ++ [x] }, (.noError, none))
    else (d, (.full, none))
  | .pop | .skip _ =>
    match d.items with
    | [] => (d, (.empty, none))
    | x :: xs => ({ d with items := xs }, (.noError, some x))
  | .peek =>
    match d.items with
    | [] => (d, (.empty, none))
    | x :: _ => (d, (.noError, some x))
  | .popLastPush =>
    if h : d.items = [] then (d, (.empty, none))
    else ({ d with items := d.items.dropLast }, (.noError, some (d.items.getLast h)))
  | .unlockPop _ => (d, (.wrongMode, none))
  | .setOverWriteMode overwrite => ({ d with overwrite := overwrite }, (.noError, none))
  | .reset => ({ d with items := [] }, (.noError, none))

end BoundedDeque

namespace CircularBuffer

open Memory Machine

variable {α : Type*}

/-- The slots whose lock flag is set. -/
def lockedSlots (s : CircularBuffer α) : Finset Nat :=
  (Finset.range s.capacity).filter fun i => s.mpLock_U8 i

/-- The elements that are ready to be popped, oldest first. -/
def ready (s : CircularBuffer α) : List α :=
  circ s.capacity s.mpData_T s.mPopIndex_U32
    (s.mNbElementInBuffer_U32 - s.mNbElementLockedInBuffer_U32)

/-- The elements in the buffer, oldest first, read from `mPopIndex_U32` on. -/
def stored (s : CircularBuffer α) : List α :=
  circ s.capacity s.mpData_T s.mPopIndex_U32 s.mNbElementInBuffer_U32

/-- The error code and the element that a call hands out. -/
def view (out : ElementOut α) : BofErr × Option α := (out.err, out.data)

/-- One call with `PopLockMode_B`, as seen by the list `items` of the elements that are ready to be
popped: from `items` it hands out `(err, data)` and leaves `items'`. A push that is refused (no slot
is left, or the next slot is locked) changes nothing. -/
inductive ReadyStep (N : Nat) : List α → Op α → BofErr × Option α → List α → Prop
  | pushNull {items : List α} : ReadyStep N items (.push none) (.einval, none) items
  | push {items : List α} {x : α} (h : items.length < N) :
      ReadyStep N items (.push (some x)) (.noError, none) (items ++ [x])
  | overwrite {items : List α} {x : α} (h : items.length = N) :
      ReadyStep N items (.push (some x)) (.noError, none) (items.tail ++ [x])
  | refused {items : List α} {x : α} {err : BofErr} (h : err = .full ∨ err = .lock) :
      ReadyStep N items (.push (some x)) (err, none) items
  | pop {items : List α} {x : α} : ReadyStep N (x :: items) .pop (.noError, some x) items
  | popEmpty : ReadyStep N [] .pop (.empty, none) []
  | skip {items : List α} {x : α} {b : Bool} :
      ReadyStep N (x :: items) (.skip b) (.noError, some x) items
  | skipEmpty {b : Bool} : ReadyStep N [] (.skip b) (.empty, none) []
  | peek {items : List α} {x : α} :
      ReadyStep N (x :: items) .peek (.noError, some x) (x :: items)
  | peekEmpty : ReadyStep N [] .peek (.empty, none) []
  | popLastPush {items : List α} {x : α} :
      ReadyStep N (items ++ [x]) .popLastPush (.noError, some x) items
  | popLastPushEmpty : ReadyStep N [] .popLastPush (.empty, none) []
  | unlockPop {items : List α} {i : Nat} {err : BofErr} :
      ReadyStep N items (.unlockPop i) (err, none) items
  | setOverWriteMode {items : List α} {b : Bool} :
      ReadyStep N items (.setOverWriteMode b) (.noError, none) items
  | reset {items : List α} : ReadyStep N items .reset (.noError, none) []

/-- The invariant of the buffer. -/
structure Inv (s : CircularBuffer α) : Prop where
  pos : 0 < s.capacity
  pop_lt : s.mPopIndex_U32 < s.capacity
  locked_eq : s.mNbElementLockedInBuffer_U32 = s.lockedSlots.card
  locked_le : s.mNbElementLockedInBuffer_U32 ≤ s.mNbElementInBuffer_U32
  count_le : s.mNbElementInBuffer_U32 ≤ s.capacity
  push_eq : s.mPushIndex_U32 =
    (s.mPopIndex_U32 + (s.mNbElementInBuffer_U32 - s.mNbElementLockedInBuffer_U32)) % s.capacity
  ready_unlocked : ∀ k, k < s.mNbElementInBuffer_U32 - s.mNbElementLockedInBuffer_U32 →
    s.mpLock_U8 ((s.mPopIndex_U32 + k) % s.capacity) = false
  unlocked_of_mode : s.mCircularBufferParam_X.PopLockMode_B = false → ∀ i, s.mpLock_U8 i = false

/-- The call does not push in overwrite mode onto a count of `0xFFFFFFFF` elements, where
`mNbElementInBuffer_U32++` wraps to 0; a push that finds its slot locked does not come to that. -/
def NoCountWrap (s : CircularBuffer α) : Op α → Prop
  | .push (some _) =>
    s.mCircularBufferParam_X.Overwrite_B = true → s.mpLock_U8 s.mPushIndex_U32 = false →
      s.mNbElementInBuffer_U32 ≠ 4294967295
  | _ => True

/-- The run `ops` of a new buffer does what the bounded deque does: the same elements are stored, the
same results are returned, and the indices are where the stored window is. -/
def RefinesDeque (param : CircularBufferParam) (pData : Nat → α) (ops : List (Op α)) : Prop :=
  let r := run CircularBuffer.step (create param pData) ops
  let d := run BoundedDeque.step ⟨param.NbMaxElement_U32, param.Overwrite_B, []⟩ ops
  stored r.1 = d.1.items ∧ r.2.map view = d.2 ∧
  r.1.mPushIndex_U32 =
    (r.1.mPopIndex_U32 + r.1.mNbElementInBuffer_U32) % param.NbMaxElement_U32 ∧
  r.1.mPushIndex_U32 < param.NbMaxElement_U32 ∧ r.1.mPopIndex_U32 < param.NbMaxElement_U32

/-- The call may free the slot `i`. -/
def Op.Frees (i : Nat) : Op α → Prop
  | .unlockPop j => j = i
  | .reset => True
  | _ => False

/-- The call takes or looks at the oldest ready element. -/
def Op.TakesOldest : Op α → Prop
  | .pop | .peek | .skip _ => True
  | _ => False

/-- A run in lock mode is safe: the invariant holds at its end, what it returns is what a deque of
the ready elements returns, no call that takes the oldest element finds it locked, and a slot that a
`Pop` locked keeps its content and its lock until a call frees it. -/
structure LockSafe (param : CircularBufferParam) (pData : Nat → α) (ops : List (Op α)) : Prop where
  inv : Inv (run CircularBuffer.step (create param pData) ops).1
  deque : Trace (ReadyStep param.NbMaxElement_U32) [] ops
    ((run CircularBuffer.step (create param pData) ops).2.map view)
    (ready (run CircularBuffer.step (create param pData) ops).1)
  never_lock : List.Forall₂ (fun op out => op.TakesOldest → out.err ≠ .lock) ops
    (run CircularBuffer.step (create param pData) ops).2
  content : ∀ ops₁ ops₂ i, ops = ops₁ ++ .pop :: ops₂ → (∀ op ∈ ops₂, ¬ op.Frees i) →
    (run CircularBuffer.step (create param pData) (ops₁ ++ [.pop])).1.mpLock_U8 i = true →
    (run CircularBuffer.step (create param pData) ops).1.mpLock_U8 i = true ∧
    (run CircularBuffer.step (create param pData) ops).1.mpData_T i =
      (run CircularBuffer.step (create param pData) ops₁).1.mpData_T i

end CircularBuffer

end BofStd

/-!
## Looking into `BofCircularBuffer`, and pushing in front

What `PeekFromPop`, `IsEntryFree` and `PushForNextPop` are for, in terms of what the following calls of `Pop` return,
and the conditions under which the code does it: `PeekFromPop` compares a wrapped index with the push index, and
`PushForNextPop` takes equal indices for an empty buffer.
-/

namespace BofStd.CircularBuffer

open Machine

variable {α : Type*}

/-- What the last of `i + 1` successive calls of `Pop` returns. -/
def nthPop (s : CircularBuffer α) (i : Nat) : ElementOut α :=
  (run CircularBuffer.step s (List.replicate i .pop)).1.pop.2

/-- `PeekFromPop i` changes nothing and returns the `i`-th oldest element in the buffer, where the `i`-th further
`Pop` finds it, or fails if there is none. -/
structure PeeksStored (s : CircularBuffer α) (i : Nat) : Prop where
  unchanged : (s.peekFromPop i).1 = s
  found : i < s.mNbElementInBuffer_U32 →
    (s.peekFromPop i).2 = { s.nthPop i with locked := some false } ∧
      view (s.nthPop i) = (.noError, (stored s)[i]?)
  missing : s.mNbElementInBuffer_U32 ≤ i → (s.peekFromPop i).2.err ≠ .noError

/-- The stored run does not reach the end of the storage, or the element is behind that end; and the sum of the
indices does not wrap. -/
def PeekIsRight (s : CircularBuffer α) (i : Nat) : Prop :=
  i < s.mNbElementInBuffer_U32 →
    (s.mPopIndex_U32 + s.mNbElementInBuffer_U32 < s.capacity ∨ s.capacity ≤ s.mPopIndex_U32 + i) ∧
      s.mPopIndex_U32 + i < 4294967296

/-- The slot `i` holds an element that is ready to be popped. -/
def HoldsReady (s : CircularBuffer α) (i : Nat) : Prop := ∃ k < s.nbReady, (s.mPopIndex_U32 + k) % s.capacity = i

/-- `IsEntryFree` returns `true` exactly for the slots that hold neither a ready element nor a locked one. -/
def EntryFreeIsExact (s : CircularBuffer α) : Prop :=
  ∀ i < s.capacity, (s.isEntryFree i).1 = true ↔ ¬ s.HoldsReady i ∧ s.mpLock_U8 i = false

/-! ## Pushing in front -/

/-- The calls of a run, `PushForNextPop` among them. -/
inductive JumpOp (α : Type*) where
  | call (op : Op α)
  | pushForNextPop (pData : Option α) (forceIfFull : Bool)

/-- One call. -/
def jumpStep (s : CircularBuffer α) : JumpOp α → CircularBuffer α × ElementOut α
  | .call op => s.step op
  | .pushForNextPop pData forceIfFull => s.pushForNextPop pData forceIfFull

/-- If `PushForNextPop x` succeeds, the next `Pop` returns `x` and the further ones return the elements that were
ready before, without the newest one if the buffer was full; and the push index is still the slot behind the ready
elements. -/
def JumpsQueue (s : CircularBuffer α) (x : α) (forceIfFull : Bool) : Prop :=
  let r := s.pushForNextPop (some x) forceIfFull
  let items := if s.isFull then (ready s).dropLast else ready s
  r.2.err = .noError →
    (∀ k, k ≤ items.length → view (r.1.nthPop k) = (.noError, (x :: items)[k]?)) ∧
      r.1.mPushIndex_U32 = (r.1.mPopIndex_U32 + r.1.nbReady) % r.1.capacity

/-- The buffer is not in lock mode and neither empty nor full; a buffer of one slot may be full. -/
def HasFrontSlot (s : CircularBuffer α) : Prop :=
  s.mCircularBufferParam_X.PopLockMode_B = false ∧ 0 < s.mNbElementInBuffer_U32 ∧
    (s.mNbElementInBuffer_U32 < s.capacity ∨ s.capacity = 1)

/-- The call is refused: the buffer is full, and neither the overwrite mode nor the caller insists. -/
def RefusesInFront (s : CircularBuffer α) (forceIfFull : Bool) : Prop :=
  s.mCircularBufferParam_X.Overwrite_B = false ∧ forceIfFull = false ∧ s.capacity ≤ s.mNbElementInBuffer_U32

/-- A `PushForNextPop` of a run jumps the queue. -/
def StepJumps (s : CircularBuffer α) : JumpOp α → Prop
  | .pushForNextPop (some x) forceIfFull => s.JumpsQueue x forceIfFull
  | _ => True

/-- A `PushForNextPop` of a run is refused or finds the slot in front of a run of elements. -/
def StepHasFront (s : CircularBuffer α) : JumpOp α → Prop
  | .pushForNextPop (some _) forceIfFull => s.RefusesInFront forceIfFull ∨ s.HasFrontSlot
  | _ => True

/-- A `Push` of a run does not wrap the element count. -/
def JumpNoCountWrap (s : CircularBuffer α) : JumpOp α → Prop
  | .call op => NoCountWrap s op
  | .pushForNextPop _ _ => True

end BofStd.CircularBuffer
