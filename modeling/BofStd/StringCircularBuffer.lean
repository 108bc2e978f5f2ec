import BofStd.Basic
import BofStd.Lib.Memory
import BofStd.Lib.Run

/-!
# `BofStringCircularBuffer` (`bofstringcircularbuffer.cpp`)

The storage `mpData_c` is a function from offsets to bytes. The functions below are the calls with
`_BlockingTimeouItInMs_U32 = 0`, which touch no event. A pushed text is given by the bytes before its
terminator; `_Size_U32` is passed separately because `PushString` computes it by a cast of `strlen`.
-/

namespace BofStd

/-- `BOF_STRING_CIRCULAR_BUFFER_PARAM`, with the bound of the type `uint32_t` of the size. -/
structure StringCircularBufferParam where
  BufferSizeInByte_U32 : Nat
  bufferSize_lt : BufferSizeInByte_U32 < 4294967296
  SnapshotMode_B : Bool
  Overwrite_B : Bool

/-- The members of `BofStringCircularBuffer`. -/
structure StringCircularBuffer where
  mStringCircularBufferParam_X : StringCircularBufferParam
  mPopSnapshotIndex_U32 : Nat
  mOverflow_B : Bool
  mpData_c : Nat → UInt8
  mPushIndex_U32 : Nat
  mPopIndex_U32 : Nat
  mNbElementInBuffer_U32 : Nat
  mNbCharInBuffer_U32 : Nat
  mNbSnapshotCharInBuffer_U32 : Nat
  mLevelMax_U32 : Nat

/-- The result of a call: the error code, `*_pNbMax_U32` and the bytes stored in `_pData_c`. -/
structure StringOut where
  err : BofErr
  nbMax : Nat := 0
  data : List UInt8 := []
  deriving DecidableEq

namespace StringCircularBuffer

/-- The constructor; `pData` is the storage as it is found. -/
def create (param : StringCircularBufferParam) (pData : Nat → UInt8) : StringCircularBuffer where
  mStringCircularBufferParam_X := param
  mPopSnapshotIndex_U32 := 0
  mOverflow_B := false
  mpData_c := pData
  mPushIndex_U32 := 0
  mPopIndex_U32 := 0
  mNbElementInBuffer_U32 := 0
  mNbCharInBuffer_U32 := 0
  mNbSnapshotCharInBuffer_U32 := 0
  mLevelMax_U32 := 0

/-- `BufferSizeInByte_U32`. -/
def size (s : StringCircularBuffer) : Nat := s.mStringCircularBufferParam_X.BufferSizeInByte_U32

/-- An index moved on by one, with the wrap to 0 at the buffer size `B`. -/
def nextIndex (B i : Nat) : Nat := if u32 (i + 1) ≥ B then 0 else u32 (i + 1)

/-- One byte is stored at the push index. -/
def pushChar (s : StringCircularBuffer) (c : UInt8) : StringCircularBuffer :=
  { s with
    mpData_c := Function.update s.mpData_c s.mPushIndex_U32 c
    mNbCharInBuffer_U32 := u32 (s.mNbCharInBuffer_U32 + 1)
    mPushIndex_U32 := nextIndex s.size s.mPushIndex_U32 }

/-- An index moved on by `nb`, with one wrap at the buffer size `B`. -/
def moveIndex (B i nb : Nat) : Nat :=
  if u32 (i + nb) ≥ B then u32Sub (u32 (i + nb)) B else u32 (i + nb)

/-- The treatment of a count that has passed the buffer size: the count is set back, and in overwrite
mode the pop index is moved on by `nb`. -/
def clipToSize (s : StringCircularBuffer) (nb : Nat) : StringCircularBuffer :=
  if s.mNbCharInBuffer_U32 > s.size then
    if s.mStringCircularBufferParam_X.Overwrite_B then
      { s with
        mNbCharInBuffer_U32 := s.size
        mOverflow_B := true
        mPopIndex_U32 := moveIndex s.size s.mPopIndex_U32 nb }
    else { s with mNbCharInBuffer_U32 := s.size }
  else s

def updateLevelMax (s : StringCircularBuffer) : StringCircularBuffer :=
  if s.mNbCharInBuffer_U32 > s.mLevelMax_U32 then
    { s with mLevelMax_U32 := s.mNbCharInBuffer_U32 }
  else s

/-- `PushBinary`: the first `size` bytes of `pData` and a terminator are stored. The test that makes
the call fail is on `_Size_U32 + 1` and on the new count as `uint32_t` values. -/
def pushBinary (s : StringCircularBuffer) (size : Nat) (pData : Option (List UInt8)) :
    StringCircularBuffer × StringOut :=
  match pData with
  | none => (s, { err := .einval })
  | some bytes =>
    let nb := u32 (size + 1)
    if s.mStringCircularBufferParam_X.Overwrite_B = false ∧
        u32 (s.mNbCharInBuffer_U32 + nb) > s.size then
      (s, { err := .full })
    else if nb ≠ 0 then
      let s := (((bytes.take (nb - 1)).foldl pushChar s).pushChar 0).clipToSize (nb - 1)
      let s := s.updateLevelMax
      ({ s with mNbElementInBuffer_U32 := u32 (s.mNbElementInBuffer_U32 + 1) }, { err := .noError })
    else (s, { err := .noError })

/-- `PushString`, for the bytes of a C string without its terminator. -/
def pushString (s : StringCircularBuffer) (pData : Option (List UInt8)) :
    StringCircularBuffer × StringOut :=
  match pData with
  | none => (s, { err := .einval })
  | some bytes => s.pushBinary (u32 bytes.length) (some bytes)

/-- The loop of `PopString` over `nb` bytes, of which `k` are still to be read: `out` has been stored
in `_pData_c`. It stops before a last byte that is not a terminator and after a terminator, and
returns the final value of `Nb_U32`. The byte at the read index (`index`), moving on (`advance`) and
reading a terminator (`terminate`) differ between the snapshot mode and the normal mode. -/
def popLoop (index : StringCircularBuffer → Nat)
    (advance terminate : StringCircularBuffer → StringCircularBuffer) (nb : Nat) :
    Nat → StringCircularBuffer → List UInt8 → StringCircularBuffer × List UInt8 × Nat
  | 0, s, out => (s, out, nb)
  | k + 1, s, out =>
    let c := s.mpData_c (index s)
    if k = 0 ∧ c ≠ 0 then (s, out, nb)
    else if c = 0 then (terminate (advance s), out ++ [c], nb - k)
    else popLoop index advance terminate nb k (advance s) (out ++ [c])

/-- One byte is taken at the pop index. -/
def popChar (s : StringCircularBuffer) : StringCircularBuffer :=
  { s with
    mNbCharInBuffer_U32 := u32Sub s.mNbCharInBuffer_U32 1
    mPopIndex_U32 := nextIndex s.size s.mPopIndex_U32 }

/-- One byte is read at the snapshot index. -/
def popSnapshotChar (s : StringCircularBuffer) : StringCircularBuffer :=
  { s with
    mNbSnapshotCharInBuffer_U32 := u32Sub s.mNbSnapshotCharInBuffer_U32 1
    mPopSnapshotIndex_U32 := nextIndex s.size s.mPopSnapshotIndex_U32 }

/-- A whole string has been taken. -/
def popElement (s : StringCircularBuffer) : StringCircularBuffer :=
  { s with mNbElementInBuffer_U32 := u32Sub s.mNbElementInBuffer_U32 1 }

/-- The common part of the two modes of `PopString`: with `avail` unread bytes, at most `nbMax` bytes
are read, and the last byte stored is replaced by a terminator. -/
def popWith (index : StringCircularBuffer → Nat)
    (advance terminate : StringCircularBuffer → StringCircularBuffer) (avail nbMax : Nat)
    (s : StringCircularBuffer) : StringCircularBuffer × StringOut :=
  if avail = 0 then (s, { err := .empty })
  else
    let nb := if nbMax > avail then avail else nbMax
    if nb = 0 then (s, { err := .empty })
    else
      let (s, out, nb) := popLoop index advance terminate nb nb s []
      (s, { err := .noError, nbMax := nb, data := out.take (nb - 1) ++ [0] })

/-- `PopString`; the pointer to the limit and the pointer to the destination may be null. -/
def popString (s : StringCircularBuffer) (pNbMax : Option Nat) (pData : Bool) :
    StringCircularBuffer × StringOut :=
  match pNbMax, pData with
  | some nbMax, true =>
    if s.mStringCircularBufferParam_X.SnapshotMode_B then
      popWith mPopSnapshotIndex_U32 popSnapshotChar id s.mNbSnapshotCharInBuffer_U32 nbMax s
    else popWith mPopIndex_U32 popChar popElement s.mNbCharInBuffer_U32 nbMax s
  | pNbMax, _ => (s, { err := .einval, nbMax := pNbMax.getD 0 })

/-- The index of the oldest byte as `ResyncSnapshot` computes it: the difference of the push index and the count is an
`int32_t`, and the size is added to it if it is negative. -/
def indexOnTheOldest (s : StringCircularBuffer) : Nat :=
  let diff := u32Sub s.mPushIndex_U32 s.mNbCharInBuffer_U32
  if diff ≥ 2147483648 then u32 (s.size + diff) else diff

/-- `ResyncSnapshot`. -/
def resyncSnapshot (s : StringCircularBuffer) (index : Nat) : StringCircularBuffer × Nat :=
  if s.mStringCircularBufferParam_X.SnapshotMode_B then
    let s := { s with mNbSnapshotCharInBuffer_U32 := s.mNbCharInBuffer_U32 }
    if s.mNbCharInBuffer_U32 ≠ 0 then
      let index := if index ≥ s.mNbCharInBuffer_U32 then s.mNbCharInBuffer_U32 - 1 else index
      let popIndex := u32 (s.indexOnTheOldest + index)
      ({ s with mPopSnapshotIndex_U32 := if popIndex ≥ s.size then popIndex - s.size else popIndex },
        s.mNbCharInBuffer_U32)
    else (s, s.mNbCharInBuffer_U32)
  else (s, s.mNbCharInBuffer_U32)

/-- `Reset`. -/
def reset (s : StringCircularBuffer) : StringCircularBuffer :=
  { s with
    mOverflow_B := false
    mLevelMax_U32 := 0
    mPushIndex_U32 := 0
    mPopIndex_U32 := 0
    mPopSnapshotIndex_U32 := 0
    mNbCharInBuffer_U32 := 0
    mNbSnapshotCharInBuffer_U32 := 0
    mNbElementInBuffer_U32 := 0 }

/-- The calls of a run; the size of a binary push is the number of bytes given. -/
inductive Op where
  | pushString (pData : Option (List UInt8))
  | pushBinary (pData : Option (List UInt8))
  | popString (pNbMax : Option Nat) (pData : Bool)
  deriving DecidableEq

/-- One call. -/
def step (s : StringCircularBuffer) : Op → StringCircularBuffer × StringOut
  | .pushString pData => s.pushString pData
  | .pushBinary pData => s.pushBinary (pData.getD []).length pData
  | .popString pNbMax pData => s.popString pNbMax pData

end StringCircularBuffer

end BofStd
