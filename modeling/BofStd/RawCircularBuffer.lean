import BofStd.CircularBuffer

/-!
# `BofRawCircularBuffer` (`bofrawcircularbuffer.cpp`)

The storage `mpData_U8` is a function from offsets to bytes, and a pointer into it is its offset. An
offset that is not below `BufferSizeInByte_U32` is outside of the storage: the model keeps what the
code would write there. The functions below are the calls with `_BlockingTimeouItInMs_U32 = 0`, on a
buffer that the constructor has accepted (neither of the two sizes is 0). `_Nb_U32` is the number of
bytes given. `BOF_ASSERT` is the release version, which does nothing, and the pointer to the inner
entry that `_ppStorage_X` returns is left out.
-/

namespace BofStd

/-- `BOF_RAW_CIRCULAR_BUFFER_PARAM`, with the bounds of the type `uint32_t` of the sizes. -/
structure RawCircularBufferParam where
  BufferSizeInByte_U32 : Nat
  bufferSize_lt : BufferSizeInByte_U32 < 4294967296
  SlotMode_B : Bool
  AlwaysContiguous_B : Bool
  NbMaxBufferEntry_U32 : Nat
  nbMaxBufferEntry_lt : NbMaxBufferEntry_U32 < 4294967296
  Overwrite_B : Bool
  Blocking_B : Bool

/-- `BOF_RAW_BUFFER`: where the bytes of one pushed buffer are. A new one is as `Reset` leaves it. -/
structure RawBuffer where
  IndexInBuffer_U32 : Nat := 0
  SlotEmpySpace_U32 : Nat := 0
  Size1_U32 : Nat := 0
  pData1_U8 : Option Nat := none
  Size2_U32 : Nat := 0
  pData2_U8 : Option Nat := none
  deriving DecidableEq

/-- The members of `BofRawCircularBuffer`. -/
structure RawCircularBuffer where
  mRawCircularBufferParam_X : RawCircularBufferParam
  mSlotSize_U32 : Nat
  mpData_U8 : Nat → UInt8
  mLevelMax_U32 : Nat
  mOverflow_B : Bool
  mAppendMode_B : Bool
  mpuBufferCollection : CircularBuffer RawBuffer
  mRawBufferToPush_X : RawBuffer
  mCrtBufferRemain_U32 : Nat
  mpCrtBufferHead_U8 : Nat

/-- The result of a call: the error code, `*_pNbMax_U32`, the bytes stored in `_pData_U8`, and what
`GetBufferPtr` returns. -/
structure RawOut where
  err : BofErr
  nbMax : Nat := 0
  data : List UInt8 := []
  ptr : Option (Nat × Option Nat × Nat × Option Nat) := none
  deriving DecidableEq

namespace RawCircularBuffer

/-- The constructor; `pData` is the storage as it is found, `pEntry` the storage of the entries. -/
def create (param : RawCircularBufferParam) (pData : Nat → UInt8) (pEntry : Nat → RawBuffer) :
    RawCircularBuffer where
  mRawCircularBufferParam_X := param
  mSlotSize_U32 :=
    if param.SlotMode_B then param.BufferSizeInByte_U32 / param.NbMaxBufferEntry_U32 else 0
  mpData_U8 := pData
  mLevelMax_U32 := 0
  mOverflow_B := false
  mAppendMode_B := false
  mpuBufferCollection := CircularBuffer.create
    { NbMaxElement_U32 := param.NbMaxBufferEntry_U32
      nbMaxElement_lt := param.nbMaxBufferEntry_lt
      Overwrite_B := false
      Blocking_B := param.Blocking_B
      PopLockMode_B := false } pEntry
  mRawBufferToPush_X := { pData1_U8 := some 0 }
  mCrtBufferRemain_U32 := param.BufferSizeInByte_U32
  mpCrtBufferHead_U8 := 0

/-- `BufferSizeInByte_U32`, which is also the offset `mpCrtBufferEnd_U8`. -/
def size (s : RawCircularBuffer) : Nat := s.mRawCircularBufferParam_X.BufferSizeInByte_U32

def isFull (s : RawCircularBuffer) : Bool := s.mpuBufferCollection.isFull

def reset (s : RawCircularBuffer) : RawCircularBuffer :=
  { s with
    mLevelMax_U32 := 0
    mOverflow_B := false
    mAppendMode_B := false
    mpuBufferCollection := s.mpuBufferCollection.reset
    mRawBufferToPush_X := { pData1_U8 := some 0 }
    mCrtBufferRemain_U32 := s.size
    mpCrtBufferHead_U8 := 0 }

def setOverWriteMode (s : RawCircularBuffer) (overwrite : Bool) : RawCircularBuffer :=
  { s with
    mRawCircularBufferParam_X := { s.mRawCircularBufferParam_X with Overwrite_B := overwrite }
    mpuBufferCollection := s.mpuBufferCollection.setOverWriteMode overwrite }

/-! ## Pushing -/

/-- The start of `UpdatePushRawBuffer` for a buffer that does not fit before the end of the storage and
may not be split: the entry to push and the head move to the start. -/
def startAtBegin (s : RawCircularBuffer) (sizeUpToTheEnd : Nat) : RawCircularBuffer :=
  if sizeUpToTheEnd ≠ 0 then
    { s with mRawBufferToPush_X := { pData1_U8 := some 0 }, mpCrtBufferHead_U8 := 0 }
  else s

/-- The bytes are appended to the second part of the entry to push. -/
def appendPart2 (s : RawCircularBuffer) (data : List UInt8) : RawCircularBuffer :=
  let e := s.mRawBufferToPush_X
  { s with
    mpData_U8 := Memory.write s.mpData_U8 (u32 (e.IndexInBuffer_U32 + e.Size2_U32)) data
    mCrtBufferRemain_U32 := u32Sub s.mCrtBufferRemain_U32 data.length
    mpCrtBufferHead_U8 := s.mpCrtBufferHead_U8 + data.length
    mRawBufferToPush_X := { e with Size2_U32 := u32 (e.Size2_U32 + data.length) } }

/-- The bytes are split at the end of the storage: `Nb1_U32` before it and `Nb2_U32` from the start. The
head becomes `&mpData_U8[Nb1_U32]`. -/
def splitAtEnd (s : RawCircularBuffer) (data : List UInt8) : RawCircularBuffer :=
  let e := s.mRawBufferToPush_X
  let nb1 := u32Sub s.size (u32 (e.IndexInBuffer_U32 + e.Size1_U32))
  let nb2 := u32Sub data.length nb1
  { s with
    mpData_U8 := Memory.write
      (Memory.write s.mpData_U8 (u32 (e.IndexInBuffer_U32 + e.Size1_U32)) (data.take nb1))
      0 ((data.drop nb1).take nb2)
    mCrtBufferRemain_U32 := u32Sub s.mCrtBufferRemain_U32 (u32 (nb1 + nb2))
    mpCrtBufferHead_U8 := nb1
    mRawBufferToPush_X :=
      { e with
        Size1_U32 := u32Sub s.size e.IndexInBuffer_U32
        pData2_U8 := some 0
        Size2_U32 := nb2 } }

/-- The bytes are appended to the first part of the entry to push. -/
def appendPart1 (s : RawCircularBuffer) (data : List UInt8) : RawCircularBuffer :=
  let e := s.mRawBufferToPush_X
  { s with
    mpData_U8 := Memory.write s.mpData_U8 (u32 (e.IndexInBuffer_U32 + e.Size1_U32)) data
    mCrtBufferRemain_U32 := u32Sub s.mCrtBufferRemain_U32 data.length
    mpCrtBufferHead_U8 := s.mpCrtBufferHead_U8 + data.length
    mRawBufferToPush_X := { e with Size1_U32 := u32 (e.Size1_U32 + data.length) } }

/-- A head offset that has reached the end `B` of the storage goes back to its start. -/
def wrapHead (B head : Nat) : Nat := if head ≥ B then 0 else head

/-- The bytes are stored at the head and added to the entry to push. -/
def appendToEntry (s : RawCircularBuffer) (data : List UInt8) : RawCircularBuffer × BofErr :=
  let e := s.mRawBufferToPush_X
  let wrapAtEnd (s : RawCircularBuffer) : RawCircularBuffer :=
    { s with mpCrtBufferHead_U8 := wrapHead s.size s.mpCrtBufferHead_U8 }
  if e.Size2_U32 ≠ 0 then
    if u32 (u32 (e.IndexInBuffer_U32 + e.Size2_U32) + data.length) ≤ s.size then
      (s.appendPart2 data, .noError)
    else (s, .einval)
  else if u32 (e.IndexInBuffer_U32 + data.length) > s.size then
    (wrapAtEnd (s.splitAtEnd data), .noError)
  else (wrapAtEnd (s.appendPart1 data), .noError)

/-- `UpdatePushRawBuffer`. -/
def updatePushRawBuffer (s : RawCircularBuffer) (sizeUpToTheEnd : Nat) (data : List UInt8) :
    RawCircularBuffer × BofErr :=
  if data.length ≤ s.mCrtBufferRemain_U32 then (s.startAtBegin sizeUpToTheEnd).appendToEntry data
  else (s, .einval)

/-- The entry to push as `PushRawBuffer` completes it: in slot mode it gets the padding of its slot. -/
def completeEntry (slotSize : Nat) (e : RawBuffer) : RawBuffer :=
  if slotSize ≠ 0 then
    { e with SlotEmpySpace_U32 := u32Sub slotSize (u32 (e.Size1_U32 + e.Size2_U32)) }
  else e

/-- The end of `PushRawBuffer`, after the entry has been pushed: in slot mode the padding is passed
over, and a new entry to push starts at the head. -/
def startNextEntry (s : RawCircularBuffer) : RawCircularBuffer :=
  let e := s.mRawBufferToPush_X
  let nb := u32 (e.Size1_U32 + e.Size2_U32)
  let s := if s.mSlotSize_U32 ≠ 0 then
      { s with
        mCrtBufferRemain_U32 := u32Sub s.mCrtBufferRemain_U32 e.SlotEmpySpace_U32
        mpCrtBufferHead_U8 := wrapHead s.size (s.mpCrtBufferHead_U8 + e.SlotEmpySpace_U32) }
    else if nb > s.mLevelMax_U32 then { s with mLevelMax_U32 := nb }
    else s
  { s with
    mRawBufferToPush_X :=
      { IndexInBuffer_U32 := u32 s.mpCrtBufferHead_U8, pData1_U8 := some s.mpCrtBufferHead_U8 } }

/-- `PushRawBuffer`: the entry to push goes into the inner buffer. -/
def pushRawBuffer (s : RawCircularBuffer) : RawCircularBuffer × BofErr :=
  let s := { s with mRawBufferToPush_X := completeEntry s.mSlotSize_U32 s.mRawBufferToPush_X }
  let (ring, out) := s.mpuBufferCollection.push (some s.mRawBufferToPush_X)
  let s := { s with mpuBufferCollection := ring }
  if out.err = .noError then (s.startNextEntry, out.err) else (s, out.err)

/-- The space test of `PushBuffer`: whether `nb` bytes can be stored, and the bytes up to the end of
the storage that have to be left unused for that. -/
def enoughSpace (s : RawCircularBuffer) (nb : Nat) : Bool × Nat :=
  if nb ≤ s.mCrtBufferRemain_U32 then
    if s.mSlotSize_U32 ≠ 0 then
      if s.mAppendMode_B then
        (u32 (u32 (nb + s.mRawBufferToPush_X.Size1_U32) + s.mRawBufferToPush_X.Size2_U32) ≤
          s.mSlotSize_U32, 0)
      else (nb ≤ s.mSlotSize_U32, 0)
    else if s.mRawCircularBufferParam_X.AlwaysContiguous_B then
      let sizeUpToTheEnd := u32Sub s.size s.mpCrtBufferHead_U8
      if nb ≤ sizeUpToTheEnd then (true, 0)
      else (nb ≤ u32Sub s.mCrtBufferRemain_U32 sizeUpToTheEnd, sizeUpToTheEnd)
    else (!s.isFull, 0)
  else (false, 0)

/-- The loop of the overwrite mode: the oldest entries are dropped until `sizeToRecover` bytes are
free. Every turn but the last drops an entry, so `fuel` is the number of entries and one more. -/
def recover : Nat → Nat → RawCircularBuffer → RawCircularBuffer × BofErr
  | 0, _, s => (s, .internal)
  | fuel + 1, sizeToRecover, s =>
    let (ring, out) := s.mpuBufferCollection.skip false
    match out.err, out.data with
    | .noError, some e =>
      let s := { s with
        mpuBufferCollection := ring
        mCrtBufferRemain_U32 := u32 (s.mCrtBufferRemain_U32 + u32 (e.Size1_U32 + e.Size2_U32)) }
      if s.mCrtBufferRemain_U32 < sizeToRecover then recover fuel sizeToRecover s
      else (s, .noError)
    | err, _ => ({ s with mpuBufferCollection := ring }, err)

/-- The overwrite mode in slot mode: the oldest entry is dropped, and its slot is what is free. -/
def dropOldestSlot (s : RawCircularBuffer) : RawCircularBuffer × BofErr :=
  let (ring, out) := s.mpuBufferCollection.skip false
  let s := { s with mpuBufferCollection := ring }
  if out.err = .noError then ({ s with mCrtBufferRemain_U32 := s.mSlotSize_U32 }, out.err)
  else (s, out.err)

/-- The overwrite mode outside of slot mode: the number of bytes to free, and the entries dropped. -/
def dropOldest (s : RawCircularBuffer) (nb sizeUpToTheEnd : Nat) : RawCircularBuffer × BofErr :=
  let fuel := s.mpuBufferCollection.mNbElementInBuffer_U32 + 1
  if sizeUpToTheEnd ≠ 0 then
    if s.mpuBufferCollection.isEmpty then ({ s with mOverflow_B := false }, .noError)
    else if s.mpCrtBufferHead_U8 = 0 then recover fuel nb s
    else if u32 (nb + sizeUpToTheEnd) ≠ 0 then recover fuel (u32 (nb + sizeUpToTheEnd)) s
    else (s, .noError)
  else recover fuel nb s

/-- The treatment of a lack of space in overwrite mode: the state, whether there is now enough space,
the bytes to leave unused, and the error code. -/
def makeRoom (s : RawCircularBuffer) (nb sizeUpToTheEnd : Nat) :
    RawCircularBuffer × Bool × Nat × BofErr :=
  if s.mSlotSize_U32 ≠ 0 then
    if nb ≤ s.mSlotSize_U32 then
      let (s, err) := { s with mOverflow_B := true }.dropOldestSlot
      (s, true, sizeUpToTheEnd, err)
    else (s, false, sizeUpToTheEnd, .noError)
  else
    let sizeUpToTheEnd := if s.mRawCircularBufferParam_X.AlwaysContiguous_B then
        u32Sub s.size s.mpCrtBufferHead_U8 else sizeUpToTheEnd
    if nb ≤ s.size then
      let (s, err) := { s with mOverflow_B := true }.dropOldest nb sizeUpToTheEnd
      (s, true, sizeUpToTheEnd, err)
    else (s, false, sizeUpToTheEnd, .noError)

/-- The end of `PushBuffer`, when there is enough space: the bytes are stored and, outside of append
mode, the entry is pushed. -/
def storeBuffer (s : RawCircularBuffer) (sizeUpToTheEnd : Nat) (data : List UInt8) :
    RawCircularBuffer × BofErr :=
  let (s, err) := s.updatePushRawBuffer sizeUpToTheEnd data
  if s.mAppendMode_B then (s, err) else s.pushRawBuffer

/-- `PushBuffer`; the pointer to the bytes may be null. -/
def pushBuffer (s : RawCircularBuffer) (pData : Option (List UInt8)) : RawCircularBuffer × BofErr :=
  match pData with
  | none => (s, .einval)
  | some data =>
    if data.length = 0 then (s, .einval)
    else
      let (enough, sizeUpToTheEnd) := s.enoughSpace data.length
      let (s, enough, sizeUpToTheEnd, err) :=
        if enough = false ∧ s.mAppendMode_B = false ∧ s.mRawCircularBufferParam_X.Overwrite_B then
          s.makeRoom data.length sizeUpToTheEnd
        else (s, enough, sizeUpToTheEnd, .noError)
      if enough then
        if err = .noError then s.storeBuffer sizeUpToTheEnd data else (s, err)
      else (s, .tooBig)

/-- `SetAppendMode`: leaving the append mode pushes the entry that has grown. -/
def setAppendMode (s : RawCircularBuffer) (append : Bool) : RawCircularBuffer × BofErr :=
  let (s, err) := if s.mAppendMode_B ∧ append = false then s.pushRawBuffer else (s, .noError)
  ({ s with mAppendMode_B := append }, err)

/-! ## Reading -/

/-- The number of bytes of the first part that a read of `nb` bytes takes. -/
def readSize1 (e : RawBuffer) (nb : Nat) : Nat := if e.Size1_U32 > nb then nb else e.Size1_U32

/-- The number of bytes of the second part that a read of `nb` bytes takes. -/
def readSize2 (e : RawBuffer) (nb : Nat) : Nat :=
  if e.Size2_U32 > nb - readSize1 e nb then nb - readSize1 e nb else e.Size2_U32

/-- An entry after a read of `nb` bytes. -/
def consume (e : RawBuffer) (nb : Nat) : RawBuffer :=
  { e with
    Size1_U32 := e.Size1_U32 - readSize1 e nb
    pData1_U8 := e.pData1_U8.map (· + readSize1 e nb)
    Size2_U32 := e.Size2_U32 - readSize2 e nb
    pData2_U8 := e.pData2_U8.map (· + readSize2 e nb) }

/-- The bytes that a read of `nb` bytes of an entry copies. -/
def readBytes (mem : Nat → UInt8) (e : RawBuffer) (nb : Nat) : List UInt8 :=
  Memory.read mem (e.pData1_U8.getD 0) (readSize1 e nb) ++
    Memory.read mem (e.pData2_U8.getD 0) (readSize2 e nb)

/-- `pRawBuffer_X` points to the oldest entry inside of the inner buffer: it is written through. -/
def setOldest (s : RawCircularBuffer) (e : RawBuffer) : RawCircularBuffer :=
  let ring := s.mpuBufferCollection
  { s with
    mpuBufferCollection :=
      { ring with mpData_T := Function.update ring.mpData_T ring.mPopIndex_U32 e } }

/-- The end of `PopOrPeekBuffer`: a partial read frees the bytes read, a full read of `PopBuffer` drops
the entry. -/
def afterRead (s : RawCircularBuffer) (isPop isPartial : Bool) (nbRead : Nat) :
    RawCircularBuffer × BofErr :=
  if isPartial then
    ({ s with mCrtBufferRemain_U32 := u32 (s.mCrtBufferRemain_U32 + nbRead) }, .noError)
  else if isPop then
    let (ring, out) := s.mpuBufferCollection.skip true
    let s := { s with mpuBufferCollection := ring }
    match out.err, out.data with
    | .noError, some e =>
      let s := { s with mCrtBufferRemain_U32 := u32 (s.mCrtBufferRemain_U32 + nbRead) }
      if s.mSlotSize_U32 ≠ 0 then
        ({ s with mCrtBufferRemain_U32 := u32 (s.mCrtBufferRemain_U32 + e.SlotEmpySpace_U32) },
          .noError)
      else (s, .noError)
    | err, _ => (s, err)
  else (s, .noError)

/-- `PopOrPeekBuffer`; the pointer to the limit and the pointer to the destination may be null. -/
def popOrPeekBuffer (s : RawCircularBuffer) (isPop : Bool) (pNbMax : Option Nat) (pData : Bool) :
    RawCircularBuffer × RawOut :=
  match pNbMax with
  | none => (s, { err := .einval })
  | some nbMax =>
    if nbMax ≠ 0 ∧ pData then
      match s.mpuBufferCollection.peek.2.err, s.mpuBufferCollection.peek.2.data with
      | .noError, some e =>
        let total := u32 (e.Size1_U32 + e.Size2_U32)
        let nb := if total > nbMax then nbMax else total
        let data := readBytes s.mpData_U8 e nb
        let (s, err) := (s.setOldest (consume e nb)).afterRead isPop (total > nbMax)
          (readSize1 e nb + readSize2 e nb)
        (s, { err := err, nbMax := readSize1 e nb + readSize2 e nb, data := data })
      | err, _ => (s, { err := err })
    else (s, { err := .einval })

def popBuffer (s : RawCircularBuffer) (pNbMax : Option Nat) (pData : Bool) :
    RawCircularBuffer × RawOut := s.popOrPeekBuffer true pNbMax pData

def peek (s : RawCircularBuffer) (pNbMax : Option Nat) (pData : Bool) :
    RawCircularBuffer × RawOut := s.popOrPeekBuffer false pNbMax pData

/-- `GetNbElement`: the number of entries, and the size of the oldest one that is stored through
`_pSizeOfFirst_U32`, if any. -/
def getNbElement (s : RawCircularBuffer) : Nat × Option Nat :=
  (s.mpuBufferCollection.mNbElementInBuffer_U32,
    if s.mpuBufferCollection.isEmpty then some 0
    else match s.mpuBufferCollection.peek.2.err, s.mpuBufferCollection.peek.2.data with
      | .noError, some e => some (u32 (e.Size1_U32 + e.Size2_U32))
      | _, _ => none)

/-- `GetNbFreeElement`: the number of free entries, and the free bytes. -/
def getNbFreeElement (s : RawCircularBuffer) : Nat × Nat :=
  (u32Sub s.mpuBufferCollection.capacity s.mpuBufferCollection.mNbElementInBuffer_U32, s.mCrtBufferRemain_U32)

/-- `GetBufferPtr`: the two parts of the oldest entry. -/
def getBufferPtr (s : RawCircularBuffer) : RawOut :=
  match s.mpuBufferCollection.peek.2.err, s.mpuBufferCollection.peek.2.data with
  | .noError, some e =>
    { err := .noError, ptr := some (e.Size1_U32, e.pData1_U8, e.Size2_U32, e.pData2_U8) }
  | err, _ => { err := err, ptr := some (0, some 0, 0, none) }

/-- `Skip`: the oldest entry is dropped. The padding that is given back in slot mode is read from the
entry to push. -/
def skip (s : RawCircularBuffer) (signalIfNeeded : Bool) : RawCircularBuffer × BofErr :=
  let (ring, out) := s.mpuBufferCollection.skip signalIfNeeded
  let s := { s with mpuBufferCollection := ring }
  match out.err, out.data with
  | .noError, some e =>
    let s := { s with
      mCrtBufferRemain_U32 := u32 (s.mCrtBufferRemain_U32 + u32 (e.Size1_U32 + e.Size2_U32)) }
    if s.mSlotSize_U32 ≠ 0 then
      let empySpace := s.mRawBufferToPush_X.SlotEmpySpace_U32
      ({ s with mCrtBufferRemain_U32 := u32 (s.mCrtBufferRemain_U32 + empySpace) }, .noError)
    else (s, .noError)
  | err, _ => (s, err)

/-! ## Runs -/

/-- The calls of a run. -/
inductive Op where
  | pushBuffer (pData : Option (List UInt8))
  | popBuffer (pNbMax : Option Nat) (pData : Bool)
  | peek (pNbMax : Option Nat) (pData : Bool)
  | getBufferPtr
  | skip (signalIfNeeded : Bool)
  | setOverWriteMode (overwrite : Bool)
  | setAppendMode (append : Bool)
  | reset
  deriving DecidableEq

/-- One call. -/
def step (s : RawCircularBuffer) : Op → RawCircularBuffer × RawOut
  | .pushBuffer pData => ((s.pushBuffer pData).1, { err := (s.pushBuffer pData).2 })
  | .popBuffer pNbMax pData => s.popBuffer pNbMax pData
  | .peek pNbMax pData => s.peek pNbMax pData
  | .getBufferPtr => (s, s.getBufferPtr)
  | .skip signalIfNeeded => ((s.skip signalIfNeeded).1, { err := (s.skip signalIfNeeded).2 })
  | .setOverWriteMode overwrite => (s.setOverWriteMode overwrite, { err := .noError })
  | .setAppendMode append => ((s.setAppendMode append).1, { err := (s.setAppendMode append).2 })
  | .reset => (s.reset, { err := .noError })

end RawCircularBuffer

end BofStd
