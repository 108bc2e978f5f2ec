import BofStd.RawCircularBuffer
import BofStd.CircularBufferSpec
import BofStd.Lib.Cut
import Mathlib.Algebra.GroupWithZero.Nat

/-!
# What `BofRawCircularBuffer` is for: a queue of buffers

An entry stands for the bytes at its `cells`. The properties below say what the modes promise: a queue
that may be read in pieces (`FifoOfBytes`), a bounded queue of whole buffers in slots
(`RefinesSlotFifo`), a queue of contiguous buffers (`ContiguousFifo`), and exact accounting of the free
bytes (`AccountsExactly`). With each comes the condition on single calls under which the code keeps it.
-/

namespace BofStd.RawCircularBuffer

open Memory Machine Cut

/-- The stored entries, oldest first. -/
def entries (s : RawCircularBuffer) : List RawBuffer := CircularBuffer.stored s.mpuBufferCollection

/-- The offsets of the unread bytes of an entry, in the order in which they are read. -/
def cells (e : RawBuffer) : List Nat :=
  List.range' (e.pData1_U8.getD 0) e.Size1_U32 ++ List.range' (e.pData2_U8.getD 0) e.Size2_U32

/-- The number of unread bytes of an entry. -/
def unreadSize (e : RawBuffer) : Nat := e.Size1_U32 + e.Size2_U32

/-- The bytes that an entry takes away from the free space: its unread bytes and its padding. -/
def usedSize (e : RawBuffer) : Nat := unreadSize e + e.SlotEmpySpace_U32

/-- The unread bytes of an entry. -/
def content (s : RawCircularBuffer) (e : RawBuffer) : List UInt8 := (cells e).map s.mpData_U8

/-- The regions of different entries do not overlap. -/
def DisjointRegions (s : RawCircularBuffer) : Prop :=
  (entries s).Pairwise fun e f => List.Disjoint (cells e) (cells f)

/-- The buffer that a call has put into the queue. -/
def acceptedBuffer : Op × RawOut → Option (List UInt8)
  | (.pushBuffer (some data), out) => if out.err = .noError then some data else none
  | _ => none

/-- The bytes that a call has taken out of the queue. -/
def poppedBytes : Op × RawOut → Option (List UInt8)
  | (.popBuffer _ _, out) => if out.err = .noError then some out.data else none
  | _ => none

/-- A push or a pop. -/
def PushOrPop : Op → Prop
  | .pushBuffer _ | .popBuffer _ _ => True
  | _ => False

/-- If the call is a pop, its limit is at least the size of the oldest entry. -/
def PopsWhole (s : RawCircularBuffer) : Op → Prop
  | .popBuffer (some nbMax) true => ∀ e ∈ (entries s).head?, unreadSize e ≤ nbMax
  | _ => True

/-! ## The default mode: a queue of bytes -/

/-- The run `ops` of a new buffer is a queue of buffers that are read in pieces: the bytes come out as
they went in, no read goes past the end of a buffer, and the unread regions are apart. -/
structure FifoOfBytes (param : RawCircularBufferParam) (pData : Nat → UInt8)
    (pEntry : Nat → RawBuffer) (ops : List Op) : Prop where
  bytes : ((history step (create param pData pEntry) ops).filterMap poppedBytes).flatten <+:
    ((history step (create param pData pEntry) ops).filterMap acceptedBuffer).flatten
  pieces : ∃ pending, Cuts ((history step (create param pData pEntry) ops).filterMap poppedBytes)
    ((history step (create param pData pEntry) ops).filterMap acceptedBuffer) pending
  regions : DisjointRegions (run step (create param pData pEntry) ops).1

/-- A push in the default mode that is refused for lack of space, or that leaves the head where its
last byte is: it ends at or before the end of the storage, or is cut by it in two equal halves. -/
def LeavesHeadRight (s : RawCircularBuffer) : Op → Prop
  | .pushBuffer (some data) =>
    (s.enoughSpace data.length).1 = false ∨
    s.mRawBufferToPush_X.IndexInBuffer_U32 + data.length ≤ s.size ∨
    (data.length = 2 * (s.size - s.mRawBufferToPush_X.IndexInBuffer_U32) ∧
      s.mRawBufferToPush_X.IndexInBuffer_U32 + data.length < 4294967296)
  | _ => True

/-! ## The slot mode: a bounded queue of buffers -/

/-- At most `nbMax` buffers of at most `slotSize` bytes, oldest first. -/
structure SlotFifo where
  nbMax : Nat
  slotSize : Nat
  overwrite : Bool
  items : List (List UInt8)

/-- One call on the queue: the new queue, the error code and the bytes handed out. -/
def SlotFifo.step (q : SlotFifo) : Op → SlotFifo × (BofErr × List UInt8)
  | .pushBuffer none => (q, (.einval, []))
  | .pushBuffer (some data) =>
    if data.length = 0 then (q, (.einval, []))
    else if data.length ≤ q.slotSize ∧ q.items.length < q.nbMax then
      ({ q with items := q.items ++ [data] }, (.noError, []))
    else if data.length ≤ q.slotSize ∧ q.overwrite then
      ({ q with items := q.items.tail ++ [data] }, (.noError, []))
    else (q, (.tooBig, []))
  | .popBuffer (some nbMax) true =>
    if nbMax = 0 then (q, (.einval, []))
    else match q.items with
      | [] => (q, (.empty, []))
      | data :: items => ({ q with items := items }, (.noError, data))
  | .popBuffer _ _ => (q, (.einval, []))
  | .setOverWriteMode overwrite => ({ q with overwrite := overwrite }, (.noError, []))
  | .reset => ({ q with items := [] }, (.noError, []))
  | _ => (q, (.noError, []))

/-- The calls of a user of slots. -/
def SlotCall : Op → Prop
  | .pushBuffer _ | .popBuffer _ _ | .setOverWriteMode _ | .reset => True
  | _ => False

/-- The run `ops` of a new buffer does what the bounded queue does, and every buffer lies in a slot of
its own: the slots of the stored buffers follow each other from some slot `p` on. -/
structure RefinesSlotFifo (param : RawCircularBufferParam) (pData : Nat → UInt8)
    (pEntry : Nat → RawBuffer) (ops : List Op) : Prop where
  items : (entries (run step (create param pData pEntry) ops).1).map
      (content (run step (create param pData pEntry) ops).1) =
    (run SlotFifo.step ⟨param.NbMaxBufferEntry_U32,
      param.BufferSizeInByte_U32 / param.NbMaxBufferEntry_U32, param.Overwrite_B, []⟩ ops).1.items
  results : (run step (create param pData pEntry) ops).2.map (fun out => (out.err, out.data)) =
    (run SlotFifo.step ⟨param.NbMaxBufferEntry_U32,
      param.BufferSizeInByte_U32 / param.NbMaxBufferEntry_U32, param.Overwrite_B, []⟩ ops).2
  slots : ∃ p, ∀ i e, (entries (run step (create param pData pEntry) ops).1)[i]? = some e →
    e.pData1_U8 = some ((p + i) % param.NbMaxBufferEntry_U32 *
      (param.BufferSizeInByte_U32 / param.NbMaxBufferEntry_U32)) ∧
    e.Size1_U32 ≤ param.BufferSizeInByte_U32 / param.NbMaxBufferEntry_U32 ∧ e.Size2_U32 = 0
  remain : (run step (create param pData pEntry) ops).1.mCrtBufferRemain_U32 =
    (param.NbMaxBufferEntry_U32 - (entries (run step (create param pData pEntry) ops).1).length) *
      (param.BufferSizeInByte_U32 / param.NbMaxBufferEntry_U32)
  refused : ∀ ops₁ data ops₂, ops = ops₁ ++ .pushBuffer (some data) :: ops₂ →
    (entries (run step (create param pData pEntry) ops₁).1).length = param.NbMaxBufferEntry_U32 →
    (run step (create param pData pEntry) ops₁).1.mRawCircularBufferParam_X.Overwrite_B = false →
    ((run step (create param pData pEntry) ops₁).1.pushBuffer (some data)).1 =
      (run step (create param pData pEntry) ops₁).1

/-! ## The contiguous mode -/

/-- The run `ops` of a new buffer is a queue of contiguous buffers: every entry is one region inside
the storage, the regions are apart, and the buffers come out whole and in order. -/
structure ContiguousFifo (param : RawCircularBufferParam) (pData : Nat → UInt8)
    (pEntry : Nat → RawBuffer) (ops : List Op) : Prop where
  contiguous : ∀ e ∈ entries (run step (create param pData pEntry) ops).1,
    e.Size2_U32 = 0 ∧ e.pData1_U8.getD 0 + e.Size1_U32 ≤ param.BufferSizeInByte_U32
  regions : DisjointRegions (run step (create param pData pEntry) ops).1
  fifo : (history step (create param pData pEntry) ops).filterMap acceptedBuffer =
    (history step (create param pData pEntry) ops).filterMap poppedBytes ++
      (entries (run step (create param pData pEntry) ops).1).map
        (content (run step (create param pData pEntry) ops).1)

/-- A push in contiguous mode that is refused by the space test, or that finds a free entry and, if the
head has gone round and is behind the oldest entry, ends before that entry. -/
def StaysBehindOldest (s : RawCircularBuffer) : Op → Prop
  | .pushBuffer (some data) =>
    (s.enoughSpace data.length).1 = false ∨
    (s.isFull = false ∧ ∀ e ∈ (entries s).head?,
      e.pData1_U8.getD 0 < s.mpCrtBufferHead_U8 ∨
      s.mpCrtBufferHead_U8 + data.length ≤ e.pData1_U8.getD 0)
  | _ => True

/-! ## The accounting of the free bytes -/

/-- The free bytes and the bytes that the entries take add up to the size of the storage. -/
def AccountsExactly (s : RawCircularBuffer) : Prop :=
  s.mCrtBufferRemain_U32 ≤ s.size ∧
  s.mCrtBufferRemain_U32 + ((entries s).map usedSize).sum = s.size

instance (s : RawCircularBuffer) : Decidable (AccountsExactly s) :=
  inferInstanceAs (Decidable (_ ∧ _))

/-- The modes in which the bytes are accounted for: the default mode, and the slot mode with slots that
fill the storage. -/
def AccountMode (param : RawCircularBufferParam) : Prop :=
  (param.SlotMode_B = false ∧ param.AlwaysContiguous_B = false) ∨
  (param.SlotMode_B = true ∧ param.NbMaxBufferEntry_U32 ∣ param.BufferSizeInByte_U32)

/-- The calls that change the free bytes. -/
def AccountCall : Op → Prop
  | .pushBuffer _ | .popBuffer _ _ | .getBufferPtr | .skip _ | .setOverWriteMode _ | .reset => True
  | _ => False

/-- In slot mode: a push does not find all slots taken and enough free bytes in the slot of the oldest
entry, and a skip does not drop an entry with padding. -/
def KeepsAccount (s : RawCircularBuffer) : Op → Prop
  | .pushBuffer (some data) => s.mSlotSize_U32 ≠ 0 → s.isFull = true →
    s.mCrtBufferRemain_U32 < data.length ∨ s.mSlotSize_U32 < data.length
  | .skip _ => s.mSlotSize_U32 ≠ 0 → ∀ e ∈ (entries s).head?, e.SlotEmpySpace_U32 = 0
  | _ => True

end BofStd.RawCircularBuffer
