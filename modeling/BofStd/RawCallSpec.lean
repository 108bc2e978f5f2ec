import BofStd.RawCircularBufferSpec

/-!
# What single calls of `BofRawCircularBuffer` promise

`Peek` looks at the oldest entry and changes nothing (`PeeksOnly`); a `PushBuffer` that fails has no effect
(`FailsCleanly`); pieces that are pushed in append mode make one buffer (`BuildsOne`).
-/

namespace BofStd.RawCircularBuffer

/-! ## `Peek` -/

/-- The oldest entry, as the inner buffer shows it. -/
def oldest (s : RawCircularBuffer) : Option RawBuffer := s.mpuBufferCollection.peek.2.data

/-- `Peek` with the limit `n` returns the first unread bytes of the oldest entry, and the calls that follow return
what they would have returned without it. -/
structure PeeksOnly (s : RawCircularBuffer) (n : Nat) : Prop where
  bytes : ∀ e, s.oldest = some e →
    (s.peek (some n) true).2 =
      { err := .noError, nbMax := min n (unreadSize e), data := (content s e).take n }
  popBuffer : ∀ pNbMax pData, ((s.peek (some n) true).1.popBuffer pNbMax pData).2 = (s.popBuffer pNbMax pData).2
  nbElement : (s.peek (some n) true).1.getNbElement = s.getNbElement
  nbFreeElement : (s.peek (some n) true).1.getNbFreeElement = s.getNbFreeElement

/-- There is no entry, or the oldest one has been read to its end. -/
def NothingToPeek (s : RawCircularBuffer) : Prop := ∀ e, s.oldest = some e → unreadSize e = 0

/-! ## A failed `PushBuffer` -/

/-- The calls of a user who stores buffers, whole or piece by piece, and takes them out. -/
def StoreCall : Op → Prop
  | .pushBuffer _ | .popBuffer _ _ | .setAppendMode _ | .reset => True
  | _ => False

/-- The bytes of the entries, their number, the free bytes, the write head and the bytes of the entry to push are the
same. -/
structure SameStored (s s' : RawCircularBuffer) : Prop where
  entries : (entries s').map (content s') = (entries s).map (content s)
  nbElement : s'.mpuBufferCollection.mNbElementInBuffer_U32 = s.mpuBufferCollection.mNbElementInBuffer_U32
  remain : s'.mCrtBufferRemain_U32 = s.mCrtBufferRemain_U32
  head : s'.mpCrtBufferHead_U8 = s.mpCrtBufferHead_U8
  to_push : content s' s'.mRawBufferToPush_X = content s s.mRawBufferToPush_X

/-- If `PushBuffer` fails, it has no effect. -/
def FailsCleanly (s : RawCircularBuffer) (pData : Option (List UInt8)) : Prop :=
  (s.pushBuffer pData).2 ≠ .noError → SameStored s (s.pushBuffer pData).1

/-- The bytes from the head to the end of the storage. -/
def upToTheEnd (s : RawCircularBuffer) : Nat := u32Sub s.size s.mpCrtBufferHead_U8

/-- The number of unread bytes of an entry, as the code adds it up. -/
def entrySize (e : RawBuffer) : Nat := u32 (e.Size1_U32 + e.Size2_U32)

/-- There is room for `nb` bytes, if the entries are not counted: in slot mode in a slot, in contiguous mode in one
piece before the end of the storage or from its start. -/
def HasRoom (s : RawCircularBuffer) (nb : Nat) : Prop :=
  nb ≤ s.mCrtBufferRemain_U32 ∧ (s.mSlotSize_U32 ≠ 0 → nb ≤ s.mSlotSize_U32) ∧
  (s.mSlotSize_U32 = 0 → s.mRawCircularBufferParam_X.AlwaysContiguous_B = true →
    nb ≤ s.upToTheEnd ∨ nb + s.upToTheEnd ≤ s.mCrtBufferRemain_U32)

/-- The number of bytes that the overwrite mode wants to be free. -/
def wantedSize (s : RawCircularBuffer) (nb : Nat) : Nat :=
  if s.mRawCircularBufferParam_X.AlwaysContiguous_B = true ∧ s.mpCrtBufferHead_U8 ≠ 0 then u32 (nb + s.upToTheEnd)
  else nb

/-- Outside of the append mode and of the default mode, all the entries are taken but there is room for the `nb` bytes,
which the entry to push can take. (The overwrite mode finds room too where the number of bytes it wants wraps to 0.) -/
structure StoresIntoFull (s : RawCircularBuffer) (nb : Nat) : Prop where
  append : s.mAppendMode_B = false
  full : s.isFull = true
  mode : s.mSlotSize_U32 ≠ 0 ∨ s.mRawCircularBufferParam_X.AlwaysContiguous_B = true
  room : HasRoom s nb ∨ (s.mSlotSize_U32 = 0 ∧ s.mRawCircularBufferParam_X.Overwrite_B = true ∧
    nb ≤ s.mCrtBufferRemain_U32 ∧ nb + s.upToTheEnd = 4294967296)
  fits : s.mRawBufferToPush_X.Size2_U32 = 0 ∨ (s.mSlotSize_U32 = 0 ∧ 0 < s.upToTheEnd ∧ s.upToTheEnd < nb) ∨
    u32 (u32 (s.mRawBufferToPush_X.IndexInBuffer_U32 + s.mRawBufferToPush_X.Size2_U32) + nb) ≤ s.size

/-- In overwrite mode there are entries to drop, but without them there is still not the room that is wanted. -/
structure DropsInVain (s : RawCircularBuffer) (nb : Nat) : Prop where
  append : s.mAppendMode_B = false
  overwrite : s.mRawCircularBufferParam_X.Overwrite_B = true
  slot : s.mSlotSize_U32 = 0
  entries : entries s ≠ []
  size : nb ≤ s.size
  room : ¬ HasRoom s nb
  wanted : s.mCrtBufferRemain_U32 + ((RawCircularBuffer.entries s).map entrySize).sum < wantedSize s nb

/-- The push neither stores into a full buffer nor drops in vain. -/
def NotHalfDone (s : RawCircularBuffer) : Option (List UInt8) → Prop
  | none => True
  | some data => data.length = 0 ∨ (¬ StoresIntoFull s data.length ∧ ¬ DropsInVain s data.length)

/-! ## The append mode -/

/-- The default mode: no slots, not contiguous, no overwriting. -/
def DefaultMode (param : RawCircularBufferParam) : Prop :=
  param.SlotMode_B = false ∧ param.AlwaysContiguous_B = false ∧ param.Overwrite_B = false

/-- The calls that build a buffer piece by piece. -/
def appendCalls (pieces : List (List UInt8)) : List Op :=
  .setAppendMode true :: (pieces.map fun data => .pushBuffer (some data)) ++ [.setAppendMode false]

/-- A call of `PopBuffer`. -/
def IsPop : Op → Prop
  | .popBuffer _ _ => True
  | _ => False

/-- Whether the pieces are pushed in append mode or as one buffer, nothing is written outside of the storage, and all the
calls of `PopBuffer` that follow return the same bytes. -/
structure BuildsOne (s : RawCircularBuffer) (pieces : List (List UInt8)) : Prop where
  inside : ∀ i, s.size ≤ i →
    (Machine.run step s (appendCalls pieces)).1.mpData_U8 i = s.mpData_U8 i ∧
    (s.pushBuffer (some pieces.flatten)).1.mpData_U8 i = s.mpData_U8 i
  pops : ∀ pops : List Op, (∀ op ∈ pops, IsPop op) →
    (Machine.run step (Machine.run step s (appendCalls pieces)).1 pops).2.map RawOut.data =
    (Machine.run step (s.pushBuffer (some pieces.flatten)).1 pops).2.map RawOut.data

/-- Pieces of the given lengths that are stored from `index` on have no bytes, or end at or before the end `B` of the
storage; or the last piece that is not empty starts at or before it, and would pass it even if it started at `index`. -/
def CutsOnlyLast (B index : Nat) (lengths : List Nat) : Prop :=
  lengths.sum = 0 ∨ index + lengths.sum ≤ B ∨
  (index + lengths.sum < 4294967296 ∧ ∃ pre n post, lengths = pre ++ n :: post ∧ (∀ m ∈ post, m = 0) ∧
    index + pre.sum ≤ B ∧ B < index + n)

end BofStd.RawCircularBuffer
