import BofStd.RawCircularBufferSpec
import BofStd.Proofs.CircularBufferRunProofs

/-!
# `BofRawCircularBuffer`: single calls

`Base s es` is what holds of the buffer between calls in every mode outside of the append mode: the inner
buffer holds the entries `es`, the entry to push is empty and starts at the head, and the free bytes and
the bytes of the entries add up. The lemmas say what storing, reading and dropping an entry does.
-/

namespace BofStd

open Memory CircularBuffer

/-! ## The inner buffer -/

/-- The oldest element of the inner buffer is changed in place. -/
theorem CircularBuffer.DequeRel.setOldest {α : Type*} {r : CircularBuffer α} {N : Nat} {o : Bool} {x : α}
    {xs : List α} (h : DequeRel r ⟨N, o, x :: xs⟩) (y : α) :
    DequeRel { r with mpData_T := Function.update r.mpData_T r.mPopIndex_U32 y } ⟨N, o, y :: xs⟩ := by
  have hinv := h.inv
  have hlen : r.mNbElementInBuffer_U32 - r.mNbElementLockedInBuffer_U32 = xs.length + 1 := by
    have hl := congrArg List.length h.items
    rw [ready, length_circ] at hl
    exact hl
  have hle : xs.length + 1 ≤ r.capacity := by
    have hc := hinv.count_le
    omega
  have hitems := h.items
  refine ⟨⟨hinv.pos, hinv.pop_lt, hinv.locked_eq, hinv.locked_le, hinv.count_le, hinv.push_eq,
    hinv.ready_unlocked, hinv.unlocked_of_mode⟩, h.mode, h.capacity, h.overwrite, ?_⟩
  show circ r.capacity (Function.update r.mpData_T r.mPopIndex_U32 y) r.mPopIndex_U32
    (r.mNbElementInBuffer_U32 - r.mNbElementLockedInBuffer_U32) = y :: xs
  rw [ready, hlen, circ_succ_left, Nat.mod_eq_of_lt hinv.pop_lt, List.cons.injEq] at hitems
  rw [hlen, circ_succ_left, Nat.mod_eq_of_lt hinv.pop_lt, Function.update_self]
  refine congrArg (y :: ·) (Eq.trans ?_ hitems.2)
  apply circ_congr
  intro k hk
  apply Function.update_of_ne
  have hne := mod_ne_mod (N := r.capacity) (i := r.mPopIndex_U32) (k := 0) (l := k + 1) (by omega)
    (by omega)
  rw [Nat.add_zero, Nat.mod_eq_of_lt hinv.pop_lt] at hne
  rw [Nat.add_assoc, Nat.add_comm 1]
  exact fun heq => hne heq.symm

namespace RawCircularBuffer

variable {s : RawCircularBuffer} {es : List RawBuffer}

theorem size_lt (s : RawCircularBuffer) : s.size < 4294967296 :=
  s.mRawCircularBufferParam_X.bufferSize_lt

/-- An empty entry that starts at the offset `head`. -/
def emptyEntry (head : Nat) : RawBuffer := { IndexInBuffer_U32 := head, pData1_U8 := some head }

/-- The pointers of the parts that are not empty are set. -/
def HasPointers (e : RawBuffer) : Prop :=
  (∃ a, e.pData1_U8 = some a) ∧ (e.Size2_U32 ≠ 0 → ∃ b, e.pData2_U8 = some b)

/-- The inner buffer of `s` holds the entries `es`. -/
def HoldsEntries (s : RawCircularBuffer) (ring : CircularBuffer RawBuffer)
    (es : List RawBuffer) : Prop :=
  DequeRel ring ⟨s.mRawCircularBufferParam_X.NbMaxBufferEntry_U32,
    s.mpuBufferCollection.mCircularBufferParam_X.Overwrite_B, es⟩

/-- What holds between calls. -/
structure Base (s : RawCircularBuffer) (es : List RawBuffer) : Prop where
  ring : HoldsEntries s s.mpuBufferCollection es
  append : s.mAppendMode_B = false
  to_push : s.mRawBufferToPush_X = emptyEntry s.mpCrtBufferHead_U8
  head_lt : s.mpCrtBufferHead_U8 < s.size
  padding : s.mSlotSize_U32 = 0 → ∀ e ∈ es, e.SlotEmpySpace_U32 = 0
  pointers : ∀ e ∈ es, HasPointers e
  remain : s.mCrtBufferRemain_U32 + (es.map usedSize).sum = s.size

theorem Base.entries_eq (h : Base s es) : entries s = es := h.ring.stored_eq

theorem Base.remain_le (h : Base s es) : s.mCrtBufferRemain_U32 ≤ s.size := by
  have hrem := h.remain
  omega

theorem Base.isFull_eq (h : Base s es) :
    s.isFull = decide (es.length = s.mRawCircularBufferParam_X.NbMaxBufferEntry_U32) := by
  have hcount := h.ring.count_eq
  have hcap := h.ring.capacity
  simp only [isFull, CircularBuffer.isFull, hcount, hcap]
  rfl

theorem base_create (param : RawCircularBufferParam) (pData : Nat → UInt8) (pEntry : Nat → RawBuffer)
    (hB : 0 < param.BufferSizeInByte_U32) (hN : 0 < param.NbMaxBufferEntry_U32) :
    Base (create param pData pEntry) [] where
  ring := ⟨inv_create _ _ hN, rfl, rfl, rfl, rfl⟩
  append := rfl
  to_push := rfl
  head_lt := hB
  padding := fun _ _ he => absurd he List.not_mem_nil
  pointers := fun _ he => absurd he List.not_mem_nil
  remain := rfl

/-! ## Storing an entry -/

theorem wrapHead_lt {B : Nat} (hB : 0 < B) (n : Nat) : wrapHead B n < B := by
  unfold wrapHead
  split
  · exact hB
  · omega

/-- After an entry has been pushed, the head passes over its padding and the next entry starts. -/
theorem startNextEntry_eq {pad : Nat} (hpush : s.mRawBufferToPush_X.SlotEmpySpace_U32 = pad)
    (hslot : s.mSlotSize_U32 = 0 → pad = 0) (hhead : s.mpCrtBufferHead_U8 < s.size)
    (hpad : pad ≤ s.mCrtBufferRemain_U32) :
    ∃ level, s.startNextEntry =
      { s with
        mLevelMax_U32 := level
        mCrtBufferRemain_U32 := s.mCrtBufferRemain_U32 - pad
        mpCrtBufferHead_U8 := wrapHead s.size (s.mpCrtBufferHead_U8 + pad)
        mRawBufferToPush_X := emptyEntry (wrapHead s.size (s.mpCrtBufferHead_U8 + pad)) } := by
  have hsize := s.size_lt
  have hwrap := wrapHead_lt (Nat.zero_lt_of_lt hhead) (s.mpCrtBufferHead_U8 + pad)
  unfold startNextEntry
  dsimp only
  by_cases hs : s.mSlotSize_U32 = 0
  · have hhead' : wrapHead s.size (s.mpCrtBufferHead_U8 + pad) = s.mpCrtBufferHead_U8 := by
      rw [hslot hs, Nat.add_zero, wrapHead, if_neg (by omega)]
    rw [if_neg (not_not.mpr hs), hhead', hslot hs, Nat.sub_zero]
    split
    · refine ⟨u32 (s.mRawBufferToPush_X.Size1_U32 + s.mRawBufferToPush_X.Size2_U32), ?_⟩
      simp only [emptyEntry, u32_of_lt (show s.mpCrtBufferHead_U8 < 4294967296 by omega)]
    · refine ⟨s.mLevelMax_U32, ?_⟩
      simp only [emptyEntry, u32_of_lt (show s.mpCrtBufferHead_U8 < 4294967296 by omega)]
  · refine ⟨s.mLevelMax_U32, ?_⟩
    rw [if_pos hs, hpush, u32Sub_of_le hpad]
    simp only [emptyEntry, u32_of_lt (Nat.lt_trans hwrap hsize)]

/-- The padding that an entry gets. -/
theorem completeEntry_eq {slot : Nat} {e : RawBuffer} (he : e.SlotEmpySpace_U32 = 0)
    (hlt : unreadSize e < 4294967296) (hslot : slot ≠ 0 → unreadSize e ≤ slot) :
    completeEntry slot e = { e with SlotEmpySpace_U32 := slot - unreadSize e } := by
  unfold completeEntry
  split
  · rename_i hne
    rw [show u32 (e.Size1_U32 + e.Size2_U32) = unreadSize e from u32_of_lt hlt,
      u32Sub_of_le (hslot hne)]
  · rename_i h0
    rw [not_not] at h0
    rw [h0, Nat.zero_sub, ← he]

/-- Pushing the entry `e` into the inner buffer, when there is room: in slot mode it gets the padding of
its slot, which the head passes over. -/
theorem pushRawBuffer_eq {e : RawBuffer} (hring : HoldsEntries s s.mpuBufferCollection es)
    (hroom : es.length < s.mRawCircularBufferParam_X.NbMaxBufferEntry_U32)
    (hpush : s.mRawBufferToPush_X = e) (he : e.SlotEmpySpace_U32 = 0) (hlt : unreadSize e < 4294967296)
    (hhead : s.mpCrtBufferHead_U8 < s.size)
    (hslot : s.mSlotSize_U32 ≠ 0 → unreadSize e ≤ s.mSlotSize_U32)
    (hpad : s.mSlotSize_U32 - unreadSize e ≤ s.mCrtBufferRemain_U32) :
    ∃ ring level, s.pushRawBuffer =
      ({ s with
          mpuBufferCollection := ring
          mLevelMax_U32 := level
          mCrtBufferRemain_U32 := s.mCrtBufferRemain_U32 - (s.mSlotSize_U32 - unreadSize e)
          mpCrtBufferHead_U8 :=
            wrapHead s.size (s.mpCrtBufferHead_U8 + (s.mSlotSize_U32 - unreadSize e))
          mRawBufferToPush_X := emptyEntry
            (wrapHead s.size (s.mpCrtBufferHead_U8 + (s.mSlotSize_U32 - unreadSize e))) },
        .noError) ∧
      HoldsEntries s ring (es ++ [{ e with SlotEmpySpace_U32 := s.mSlotSize_U32 - unreadSize e }]) := by
  have hcount : s.mpuBufferCollection.mNbElementInBuffer_U32 = es.length := hring.count_eq
  have hlen := s.mRawCircularBufferParam_X.nbMaxBufferEntry_lt
  obtain ⟨hrel, hview⟩ := hring.push { e with SlotEmpySpace_U32 := s.mSlotSize_U32 - unreadSize e }
    (fun _ => by omega)
  simp only [BoundedDeque.step, if_pos hroom] at hrel hview
  have herr := congrArg Prod.fst hview
  simp only [view] at herr
  unfold pushRawBuffer
  rw [hpush, completeEntry_eq he hlt hslot]
  dsimp only
  rw [if_pos herr, herr]
  obtain ⟨level, hnext⟩ := startNextEntry_eq (s := { s with
      mpuBufferCollection := (s.mpuBufferCollection.push
        (some { e with SlotEmpySpace_U32 := s.mSlotSize_U32 - unreadSize e })).1
      mRawBufferToPush_X := { e with SlotEmpySpace_U32 := s.mSlotSize_U32 - unreadSize e } })
    rfl (fun h0 => by
      rw [show s.mSlotSize_U32 = 0 from h0, Nat.zero_sub]) hhead hpad
  exact ⟨_, level, by rw [hnext]; rfl, hrel⟩

/-- A call changes neither the parameters nor the slot size. -/
structure SameSetup (s s' : RawCircularBuffer) : Prop where
  param : s'.mRawCircularBufferParam_X = s.mRawCircularBufferParam_X
  slot : s'.mSlotSize_U32 = s.mSlotSize_U32

theorem SameSetup.size {s' : RawCircularBuffer} (h : SameSetup s s') : s'.size = s.size := by
  rw [RawCircularBuffer.size, h.param, RawCircularBuffer.size]

/-- The offset at which the next buffer is stored. -/
def startIndex (s : RawCircularBuffer) (sizeUpToTheEnd : Nat) : Nat :=
  if sizeUpToTheEnd ≠ 0 then 0 else s.mpCrtBufferHead_U8

theorem Base.startIndex_lt (h : Base s es) (sizeUpToTheEnd : Nat) :
    startIndex s sizeUpToTheEnd < s.size := by
  have hhead := h.head_lt
  unfold startIndex
  split
  · omega
  · exact hhead

theorem Base.startAtBegin_eq (h : Base s es) (sizeUpToTheEnd : Nat) :
    s.startAtBegin sizeUpToTheEnd =
      { s with
        mRawBufferToPush_X := emptyEntry (startIndex s sizeUpToTheEnd)
        mpCrtBufferHead_U8 := startIndex s sizeUpToTheEnd } := by
  unfold startAtBegin startIndex
  split
  · rfl
  · rw [← h.to_push]

/-- The bytes are stored in one piece. The sum is the one that the code computes. -/
theorem appendToEntry_linear {i : Nat} {data : List UInt8}
    (hpush : s.mRawBufferToPush_X = emptyEntry i) (hhead : s.mpCrtBufferHead_U8 = i)
    (hi : i < 4294967296) (hnb : data.length ≤ s.mCrtBufferRemain_U32) (hlt : data.length < 4294967296)
    (hlin : u32 (i + data.length) ≤ s.size) :
    s.appendToEntry data =
      ({ s with
          mpData_U8 := write s.mpData_U8 i data
          mCrtBufferRemain_U32 := s.mCrtBufferRemain_U32 - data.length
          mpCrtBufferHead_U8 := wrapHead s.size (i + data.length)
          mRawBufferToPush_X := { emptyEntry i with Size1_U32 := data.length } }, .noError) := by
  unfold appendToEntry appendPart1
  rw [hpush, hhead]
  dsimp only [emptyEntry]
  rw [if_neg (by decide), if_neg (Nat.not_lt.mpr hlin), Nat.add_zero, Nat.zero_add, u32_of_lt hi,
    u32_of_lt hlt, u32Sub_of_le hnb]
  rfl

theorem Base.update_linear (h : Base s es) (sizeUpToTheEnd : Nat) {data : List UInt8}
    (hnb : data.length ≤ s.mCrtBufferRemain_U32)
    (hlin : u32 (startIndex s sizeUpToTheEnd + data.length) ≤ s.size) :
    s.updatePushRawBuffer sizeUpToTheEnd data =
      ({ s with
          mpData_U8 := write s.mpData_U8 (startIndex s sizeUpToTheEnd) data
          mCrtBufferRemain_U32 := s.mCrtBufferRemain_U32 - data.length
          mpCrtBufferHead_U8 := wrapHead s.size (startIndex s sizeUpToTheEnd + data.length)
          mRawBufferToPush_X :=
            { emptyEntry (startIndex s sizeUpToTheEnd) with Size1_U32 := data.length } },
        .noError) := by
  have hi := h.startIndex_lt sizeUpToTheEnd
  have hsize := s.size_lt
  have hremain := h.remain_le
  rw [updatePushRawBuffer, if_pos hnb, h.startAtBegin_eq]
  exact appendToEntry_linear rfl rfl (by omega) hnb (by omega) hlin

/-- The bytes are cut at the end of the storage. -/
theorem appendToEntry_split {i : Nat} {data : List UInt8}
    (hpush : s.mRawBufferToPush_X = emptyEntry i) (hi : i ≤ s.size)
    (hnb : data.length ≤ s.mCrtBufferRemain_U32) (hsplit : s.size < i + data.length)
    (hlt : i + data.length < 4294967296) :
    s.appendToEntry data =
      ({ s with
          mpData_U8 := write (write s.mpData_U8 i (data.take (s.size - i))) 0
            (data.drop (s.size - i))
          mCrtBufferRemain_U32 := s.mCrtBufferRemain_U32 - data.length
          mpCrtBufferHead_U8 := wrapHead s.size (s.size - i)
          mRawBufferToPush_X :=
            { emptyEntry i with
              Size1_U32 := s.size - i
              pData2_U8 := some 0
              Size2_U32 := data.length - (s.size - i) } }, .noError) := by
  have hnb1 : u32Sub s.size i = s.size - i := u32Sub_of_le hi
  have hnb2 : u32Sub data.length (s.size - i) = data.length - (s.size - i) :=
    u32Sub_of_le (by omega)
  have hsum : s.size - i + (data.length - (s.size - i)) = data.length := by omega
  have htake : (data.drop (s.size - i)).take (data.length - (s.size - i)) =
      data.drop (s.size - i) := List.take_of_length_le (by rw [List.length_drop])
  unfold appendToEntry splitAtEnd
  rw [hpush]
  dsimp only [emptyEntry]
  rw [if_neg (by decide), if_pos (by rw [u32_of_lt hlt]; exact hsplit), Nat.add_zero,
    u32_of_lt (show i < 4294967296 by omega), hnb1, hnb2, hsum, htake,
    u32_of_lt (show data.length < 4294967296 by omega), u32Sub_of_le hnb]
  rfl

theorem Base.update_split (h : Base s es) {data : List UInt8}
    (hnb : data.length ≤ s.mCrtBufferRemain_U32)
    (hsplit : s.size < s.mpCrtBufferHead_U8 + data.length)
    (hlt : s.mpCrtBufferHead_U8 + data.length < 4294967296) :
    s.updatePushRawBuffer 0 data =
      ({ s with
          mpData_U8 := write
            (write s.mpData_U8 s.mpCrtBufferHead_U8 (data.take (s.size - s.mpCrtBufferHead_U8)))
            0 (data.drop (s.size - s.mpCrtBufferHead_U8))
          mCrtBufferRemain_U32 := s.mCrtBufferRemain_U32 - data.length
          mpCrtBufferHead_U8 := wrapHead s.size (s.size - s.mpCrtBufferHead_U8)
          mRawBufferToPush_X :=
            { emptyEntry s.mpCrtBufferHead_U8 with
              Size1_U32 := s.size - s.mpCrtBufferHead_U8
              pData2_U8 := some 0
              Size2_U32 := data.length - (s.size - s.mpCrtBufferHead_U8) } },
        .noError) := by
  have hi := h.head_lt
  rw [updatePushRawBuffer, if_pos hnb, h.startAtBegin_eq]
  exact appendToEntry_split rfl (Nat.le_of_lt hi) hnb hsplit hlt

/-- After the bytes have been stored, the entry for them is pushed. -/
theorem Base.storeBuffer_eq (h : Base s es) {sizeUpToTheEnd : Nat} {data : List UInt8}
    {mem : Nat → UInt8} {head : Nat} {e : RawBuffer}
    (hupdate : s.updatePushRawBuffer sizeUpToTheEnd data =
      ({ s with
          mpData_U8 := mem
          mCrtBufferRemain_U32 := s.mCrtBufferRemain_U32 - data.length
          mpCrtBufferHead_U8 := head
          mRawBufferToPush_X := e }, .noError))
    (hroom : es.length < s.mRawCircularBufferParam_X.NbMaxBufferEntry_U32)
    (hnb : data.length ≤ s.mCrtBufferRemain_U32) (hhead : head < s.size)
    (he : e.SlotEmpySpace_U32 = 0) (hsize : unreadSize e = data.length) (hptr : HasPointers e)
    (hslot : s.mSlotSize_U32 ≠ 0 →
      data.length ≤ s.mSlotSize_U32 ∧ s.mSlotSize_U32 ≤ s.mCrtBufferRemain_U32) :
    ∃ s', s.storeBuffer sizeUpToTheEnd data = (s', .noError) ∧ SameSetup s s' ∧
      s'.mpData_U8 = mem ∧
      s'.mpCrtBufferHead_U8 = wrapHead s.size (head + (s.mSlotSize_U32 - data.length)) ∧
      Base s' (es ++ [{ e with SlotEmpySpace_U32 := s.mSlotSize_U32 - data.length }]) := by
  have hB := s.size_lt
  have hremain := h.remain
  have hpad : s.mSlotSize_U32 - data.length ≤ s.mCrtBufferRemain_U32 - data.length := by
    by_cases h0 : s.mSlotSize_U32 = 0
    · omega
    · have hle := (hslot h0).2
      omega
  obtain ⟨ring, level, heq, hring⟩ := pushRawBuffer_eq (s := { s with
      mpData_U8 := mem
      mCrtBufferRemain_U32 := s.mCrtBufferRemain_U32 - data.length
      mpCrtBufferHead_U8 := head
      mRawBufferToPush_X := e }) (e := e) h.ring hroom rfl he (by omega) hhead
    (fun h0 => by rw [hsize]; exact (hslot h0).1) (by rw [hsize]; exact hpad)
  have hstore : s.storeBuffer sizeUpToTheEnd data =
      (s.updatePushRawBuffer sizeUpToTheEnd data).1.pushRawBuffer := by
    unfold storeBuffer
    dsimp only
    rw [hupdate, if_neg]
    exact ne_true_of_eq_false h.append
  rw [hupdate] at hstore
  replace hstore := hstore.trans heq
  rw [hsize] at hstore hring
  refine ⟨_, hstore, ⟨rfl, rfl⟩, rfl, rfl, ⟨?_, h.append, rfl,
    wrapHead_lt (Nat.zero_lt_of_lt hhead) _, ?_, ?_, ?_⟩⟩
  · -- the overwrite mode of the inner buffer is the one it had
    have hover : ring.mCircularBufferParam_X.Overwrite_B =
        s.mpuBufferCollection.mCircularBufferParam_X.Overwrite_B := hring.overwrite
    unfold HoldsEntries
    dsimp only
    rw [hover]
    exact hring
  · intro h0 f hf
    rcases List.mem_append.mp hf with hf | hf
    · exact h.padding h0 f hf
    · rw [List.mem_singleton.mp hf]
      show s.mSlotSize_U32 - data.length = 0
      rw [show s.mSlotSize_U32 = 0 from h0, Nat.zero_sub]
  · intro f hf
    rcases List.mem_append.mp hf with hf | hf
    · exact h.pointers f hf
    · rw [List.mem_singleton.mp hf]
      exact hptr
  · show s.mCrtBufferRemain_U32 - data.length - (s.mSlotSize_U32 - data.length) + _ = s.size
    rw [List.map_append, List.sum_append, List.map_singleton, List.sum_singleton]
    show _ + (_ + (unreadSize e + (s.mSlotSize_U32 - data.length))) = s.size
    omega

/-! ## Reading and dropping entries -/

theorem length_cells (e : RawBuffer) : (cells e).length = unreadSize e := by
  simp [cells, unreadSize]

theorem readSize1_eq (e : RawBuffer) (nb : Nat) : readSize1 e nb = min nb e.Size1_U32 := by
  unfold readSize1
  split <;> omega

theorem readSize2_eq (e : RawBuffer) (nb : Nat) :
    readSize2 e nb = min (nb - e.Size1_U32) e.Size2_U32 := by
  unfold readSize2
  rw [readSize1_eq]
  split <;> omega

/-- The bytes that a read copies are those of the first cells. -/
theorem readBytes_eq (mem : Nat → UInt8) (e : RawBuffer) (nb : Nat) :
    readBytes mem e nb = ((cells e).take nb).map mem := by
  rw [readBytes, cells, List.take_append, List.map_append, read_eq_map, read_eq_map, readSize1_eq,
    readSize2_eq, take_range', take_range', List.length_range']

/-- The cells of an entry after a read are those that were not read. -/
theorem cells_consume {e : RawBuffer} (h : HasPointers e) (nb : Nat) :
    cells (consume e nb) = (cells e).drop nb := by
  obtain ⟨⟨a, ha⟩, hb⟩ := h
  have h2 : List.range' ((e.pData2_U8.map (· + readSize2 e nb)).getD 0)
      (e.Size2_U32 - readSize2 e nb) =
      (List.range' (e.pData2_U8.getD 0) e.Size2_U32).drop (nb - e.Size1_U32) := by
    rw [drop_range', readSize2_eq]
    by_cases h0 : e.Size2_U32 = 0
    · rw [h0]
      simp
    · obtain ⟨b, hb⟩ := hb h0
      rw [hb]
      rfl
  rw [cells, cells, List.drop_append, List.length_range', drop_range', ← h2, ha]
  simp only [consume, ha, readSize1_eq, Option.map_some, Option.getD_some]

theorem unreadSize_consume {e : RawBuffer} (h : HasPointers e) (nb : Nat) :
    unreadSize (consume e nb) = unreadSize e - nb := by
  rw [← length_cells, cells_consume h, List.length_drop, length_cells]

theorem hasPointers_consume {e : RawBuffer} (h : HasPointers e) (nb : Nat) :
    HasPointers (consume e nb) := by
  obtain ⟨⟨a, ha⟩, hb⟩ := h
  refine ⟨⟨a + readSize1 e nb, by simp only [consume, ha, Option.map_some]⟩, ?_⟩
  intro hne
  obtain ⟨b, hb⟩ := hb (fun h0 => hne (by simp only [consume, h0, Nat.zero_sub]))
  exact ⟨b + readSize2 e nb, by simp only [consume, hb, Option.map_some]⟩

theorem Base.unreadSize_lt {e : RawBuffer} (h : Base s (e :: es)) :
    s.mCrtBufferRemain_U32 + usedSize e ≤ s.size := by
  have hrem := h.remain
  rw [List.map_cons, List.sum_cons] at hrem
  omega

/-- `PopBuffer` of an empty buffer. -/
theorem Base.popBuffer_empty (h : Base s []) {nbMax : Nat} (hnb : nbMax ≠ 0) :
    s.popBuffer (some nbMax) true = (s, { err := .empty }) := by
  obtain ⟨-, hcases⟩ := h.ring.inv.peek_cases
  rcases hcases with ⟨herr, -, -⟩ | ⟨e, es, -, hcons, -⟩
  · rw [popBuffer, popOrPeekBuffer]
    dsimp only
    rw [if_pos ⟨hnb, rfl⟩, herr]
  · rw [h.ring.items] at hcons
    exact absurd hcons (List.cons_ne_nil _ _).symm

/-- What the inner buffer shows of its oldest entry. -/
theorem Base.peek_oldest {e : RawBuffer} (h : Base s (e :: es)) :
    s.mpuBufferCollection.peek.2.err = .noError ∧ s.mpuBufferCollection.peek.2.data = some e := by
  obtain ⟨-, hcases⟩ := h.ring.inv.peek_cases
  rcases hcases with ⟨-, -, hnil⟩ | ⟨x, xs, hout, hcons, -⟩
  · rw [h.ring.items] at hnil
    exact absurd hnil (List.cons_ne_nil _ _)
  · rw [h.ring.items, List.cons.injEq] at hcons
    rw [hout, hcons.1]
    exact ⟨rfl, rfl⟩

/-- `PopBuffer` with entries: the outcome is decided by the limit and the oldest entry. -/
theorem Base.popBuffer_eq {e : RawBuffer} (h : Base s (e :: es)) {nbMax nb : Nat} (hnb : nbMax ≠ 0)
    (hmin : nb = min nbMax (unreadSize e)) :
    s.popBuffer (some nbMax) true =
      (((s.setOldest (consume e nb)).afterRead true (nbMax < unreadSize e) nb).1,
        { err := ((s.setOldest (consume e nb)).afterRead true (nbMax < unreadSize e) nb).2
          nbMax := nb
          data := ((cells e).take nb).map s.mpData_U8 }) := by
  obtain ⟨herr, hdata⟩ := h.peek_oldest
  have hle := h.unreadSize_lt
  have hsize := s.size_lt
  have htotal : u32 (e.Size1_U32 + e.Size2_U32) = unreadSize e :=
    u32_of_lt (by unfold usedSize unreadSize at hle; omega)
  have hite : (if unreadSize e > nbMax then nbMax else unreadSize e) = nb := by
    rw [hmin]
    split <;> omega
  have hread : readSize1 e nb + readSize2 e nb = nb := by
    rw [readSize1_eq, readSize2_eq]
    unfold unreadSize at hmin
    omega
  rw [popBuffer, popOrPeekBuffer]
  dsimp only
  rw [if_pos ⟨hnb, rfl⟩, herr, hdata]
  dsimp only
  rw [htotal, hite, hread, readBytes_eq]

/-- A read of a part of the oldest entry. -/
theorem Base.popBuffer_part {e : RawBuffer} (h : Base s (e :: es)) {nbMax : Nat} (hnb : nbMax ≠ 0)
    (hlt : nbMax < unreadSize e) :
    ∃ s', s.popBuffer (some nbMax) true =
        (s', { err := .noError, nbMax := nbMax, data := ((cells e).take nbMax).map s.mpData_U8 }) ∧
      SameSetup s s' ∧ s'.mpData_U8 = s.mpData_U8 ∧ s'.mpCrtBufferHead_U8 = s.mpCrtBufferHead_U8 ∧
      Base s' (consume e nbMax :: es) := by
  have hptr := h.pointers e List.mem_cons_self
  have hle := h.unreadSize_lt
  have hsize := s.size_lt
  have hrem := h.remain
  have hrest : unreadSize (consume e nbMax) = unreadSize e - nbMax := unreadSize_consume hptr nbMax
  rw [List.map_cons, List.sum_cons] at hrem
  rw [h.popBuffer_eq hnb (Nat.min_eq_left (Nat.le_of_lt hlt)).symm, afterRead,
    if_pos (decide_eq_true hlt)]
  have hu32 : u32 (s.mCrtBufferRemain_U32 + nbMax) = s.mCrtBufferRemain_U32 + nbMax :=
    u32_of_lt (by unfold usedSize at hle; omega)
  refine ⟨_, rfl, ⟨rfl, rfl⟩, rfl, rfl, ⟨h.ring.setOldest (consume e nbMax), h.append, h.to_push,
    h.head_lt, fun h0 f hf => ?_, fun f hf => ?_, ?_⟩⟩
  · rcases List.mem_cons.mp hf with rfl | hf
    · exact h.padding h0 e List.mem_cons_self
    · exact h.padding h0 f (List.mem_cons_of_mem _ hf)
  · rcases List.mem_cons.mp hf with rfl | hf
    · exact hasPointers_consume hptr nbMax
    · exact h.pointers f (List.mem_cons_of_mem _ hf)
  · show u32 (s.mCrtBufferRemain_U32 + nbMax) + _ = s.size
    rw [hu32, List.map_cons, List.sum_cons]
    have hused : usedSize (consume e nbMax) + nbMax = usedSize e := by
      show unreadSize (consume e nbMax) + e.SlotEmpySpace_U32 + nbMax = _
      unfold usedSize
      omega
    omega

/-- Dropping the oldest entry of the inner buffer. -/
theorem HoldsEntries.skip_cons {r : CircularBuffer RawBuffer} {e : RawBuffer}
    (h : HoldsEntries s r (e :: es)) (b : Bool) :
    (r.skip b).2.err = .noError ∧ (r.skip b).2.data = some e ∧ HoldsEntries s (r.skip b).1 es := by
  obtain ⟨hrel, hview⟩ := h.skip b
  have herr := congrArg Prod.fst hview
  have hdata := congrArg Prod.snd hview
  exact ⟨herr, hdata, hrel⟩

theorem HoldsEntries.skip_nil {r : CircularBuffer RawBuffer} (h : HoldsEntries s r []) (b : Bool) :
    (r.skip b).2.err = .empty ∧ (r.skip b).1 = r := by
  obtain ⟨-, -, -, hcases⟩ := h.inv.skip_cases b
  rcases hcases with ⟨herr, -, -, hr⟩ | ⟨e, -, -, hcons⟩
  · exact ⟨herr, hr⟩
  · rw [h.items] at hcons
    exact absurd hcons (List.cons_ne_nil _ _).symm

/-- What holds after the oldest entry has been dropped and its bytes are free again. -/
theorem Base.drop_oldest {e : RawBuffer} (h : Base s (e :: es)) {ring : CircularBuffer RawBuffer}
    (hring : HoldsEntries s ring es) {remain : Nat} (hrem : remain = s.mCrtBufferRemain_U32 + usedSize e) :
    Base { s with mpuBufferCollection := ring, mCrtBufferRemain_U32 := remain } es := by
  have hremain := h.remain
  rw [List.map_cons, List.sum_cons] at hremain
  refine ⟨?_, h.append, h.to_push, h.head_lt,
    fun h0 f hf => h.padding h0 f (List.mem_cons_of_mem _ hf),
    fun f hf => h.pointers f (List.mem_cons_of_mem _ hf), ?_⟩
  · have hover : ring.mCircularBufferParam_X.Overwrite_B =
        s.mpuBufferCollection.mCircularBufferParam_X.Overwrite_B := hring.overwrite
    unfold HoldsEntries
    dsimp only
    rw [hover]
    exact hring
  · show remain + _ = s.size
    omega

/-- A read of the whole of the oldest entry. -/
theorem Base.popBuffer_whole {e : RawBuffer} (h : Base s (e :: es)) {nbMax : Nat} (hnb : nbMax ≠ 0)
    (hge : unreadSize e ≤ nbMax) :
    ∃ s', s.popBuffer (some nbMax) true =
        (s', { err := .noError, nbMax := unreadSize e, data := content s e }) ∧
      SameSetup s s' ∧ s'.mpData_U8 = s.mpData_U8 ∧ s'.mpCrtBufferHead_U8 = s.mpCrtBufferHead_U8 ∧
      Base s' es := by
  have hle := h.unreadSize_lt
  have hsize := s.size_lt
  have htake : (cells e).take (unreadSize e) = cells e := by
    rw [← length_cells, List.take_length]
  obtain ⟨herr, hdata, hring⟩ := HoldsEntries.skip_cons (s := s)
    (h.ring.setOldest (consume e (unreadSize e))) true
  rw [h.popBuffer_eq hnb (Nat.min_eq_right hge).symm, htake, afterRead,
    if_neg (by rw [decide_eq_true_eq]; omega), if_pos rfl]
  have hsum : u32 (s.mCrtBufferRemain_U32 + unreadSize e) =
      s.mCrtBufferRemain_U32 + unreadSize e := u32_of_lt (by unfold usedSize at hle; omega)
  have hsum' : u32 (s.mCrtBufferRemain_U32 + unreadSize e + e.SlotEmpySpace_U32) =
      s.mCrtBufferRemain_U32 + usedSize e := by
    rw [u32_of_lt (by unfold usedSize at hle; omega), usedSize, Nat.add_assoc]
  simp only [setOldest, herr, hdata, hsum]
  by_cases h0 : s.mSlotSize_U32 = 0
  · rw [if_neg (not_not.mpr h0)]
    refine ⟨_, rfl, ⟨rfl, rfl⟩, rfl, rfl, h.drop_oldest hring ?_⟩
    rw [usedSize, h.padding h0 e List.mem_cons_self, Nat.add_zero]
  · rw [if_pos h0]
    exact ⟨_, rfl, ⟨rfl, rfl⟩, rfl, rfl, h.drop_oldest hring hsum'⟩

/-- `Skip`, when no padding has to be given back. -/
theorem Base.skip_cons {e : RawBuffer} (h : Base s (e :: es)) (b : Bool)
    (hpad : s.mSlotSize_U32 ≠ 0 → e.SlotEmpySpace_U32 = 0) :
    ∃ s', s.skip b = (s', .noError) ∧ SameSetup s s' ∧ Base s' es := by
  have hle := h.unreadSize_lt
  have hsize := s.size_lt
  have hpad' : e.SlotEmpySpace_U32 = 0 := by
    by_cases h0 : s.mSlotSize_U32 = 0
    · exact h.padding h0 e List.mem_cons_self
    · exact hpad h0
  have hused : usedSize e = unreadSize e := by rw [usedSize, hpad', Nat.add_zero]
  obtain ⟨herr, hdata, hring⟩ := h.ring.skip_cons b
  have hsum : u32 (s.mCrtBufferRemain_U32 + u32 (e.Size1_U32 + e.Size2_U32)) =
      s.mCrtBufferRemain_U32 + unreadSize e := by
    rw [show u32 (e.Size1_U32 + e.Size2_U32) = unreadSize e from
      u32_of_lt (by unfold unreadSize at hused; omega), u32_of_lt (by omega)]
  have hsum' : u32 (s.mCrtBufferRemain_U32 + unreadSize e +
      s.mRawBufferToPush_X.SlotEmpySpace_U32) = s.mCrtBufferRemain_U32 + unreadSize e := by
    rw [h.to_push, show (emptyEntry s.mpCrtBufferHead_U8).SlotEmpySpace_U32 = 0 from rfl, Nat.add_zero]
    exact u32_of_lt (by omega)
  simp only [skip, herr, hdata, hsum]
  split
  · exact ⟨_, rfl, ⟨rfl, rfl⟩, h.drop_oldest hring (by rw [hsum', hused])⟩
  · exact ⟨_, rfl, ⟨rfl, rfl⟩, h.drop_oldest hring (by rw [hused])⟩

theorem Base.skip_nil (h : Base s []) (b : Bool) : s.skip b = (s, .empty) := by
  obtain ⟨herr, hr⟩ := h.ring.skip_nil b
  simp only [skip, herr, hr]

/-! ## The overwrite mode -/

theorem Base.setOverflow (h : Base s es) (b : Bool) : Base { s with mOverflow_B := b } es :=
  ⟨h.ring, h.append, h.to_push, h.head_lt, h.padding, h.pointers, h.remain⟩

/-- The loop drops entries, at least one, until enough bytes are free; it ends before it runs out of
entries, because then all the bytes are free. -/
theorem Base.recover_spec (h : Base s es) (h0 : s.mSlotSize_U32 = 0) (hne : es ≠ []) {fuel n : Nat}
    (hfuel : es.length < fuel) (hn : n ≤ s.size) :
    ∃ s' k, recover fuel n s = (s', .noError) ∧ SameSetup s s' ∧ s'.mpData_U8 = s.mpData_U8 ∧
      s'.mpCrtBufferHead_U8 = s.mpCrtBufferHead_U8 ∧ 0 < k ∧ Base s' (es.drop k) ∧
      n ≤ s'.mCrtBufferRemain_U32 := by
  induction fuel generalizing s es with
  | zero => omega
  | succ fuel ih =>
    obtain ⟨e, es, rfl⟩ := List.exists_cons_of_ne_nil hne
    have hle := h.unreadSize_lt
    have hsize := s.size_lt
    have hused : usedSize e = unreadSize e := by
      rw [usedSize, h.padding h0 e List.mem_cons_self, Nat.add_zero]
    obtain ⟨herr, hdata, hring⟩ := h.ring.skip_cons false
    have hsum : u32 (s.mCrtBufferRemain_U32 + u32 (e.Size1_U32 + e.Size2_U32)) =
        s.mCrtBufferRemain_U32 + usedSize e := by
      rw [show u32 (e.Size1_U32 + e.Size2_U32) = unreadSize e from
        u32_of_lt (by unfold unreadSize at hused; omega), hused, u32_of_lt (by omega)]
    have hbase := h.drop_oldest hring hsum
    simp only [recover, herr, hdata]
    by_cases hlt : u32 (s.mCrtBufferRemain_U32 + u32 (e.Size1_U32 + e.Size2_U32)) < n
    · rw [if_pos hlt]
      have hne' : es ≠ [] := by
        rintro rfl
        have hall := hbase.remain
        simp only [List.map_nil, List.sum_nil, Nat.add_zero] at hall
        rw [hall] at hlt
        exact absurd hn (Nat.not_le.mpr hlt)
      obtain ⟨s', k, heq, hsame, hmem, hhead, -, hdrop, hrem⟩ := ih hbase h0 hne'
        (by rw [List.length_cons] at hfuel; omega) hn
      exact ⟨s', k + 1, heq, ⟨hsame.param, hsame.slot⟩, hmem, hhead, by omega, hdrop, hrem⟩
    · rw [if_neg hlt]
      exact ⟨_, 1, rfl, ⟨rfl, rfl⟩, rfl, rfl, by omega, hbase, Nat.not_lt.mp hlt⟩

/-- In slot mode, the slot of the oldest entry is freed. -/
theorem Base.dropOldestSlot_spec {e : RawBuffer} (h : Base s (e :: es))
    (hslot : s.mCrtBufferRemain_U32 + usedSize e = s.mSlotSize_U32) :
    ∃ s', s.dropOldestSlot = (s', .noError) ∧ SameSetup s s' ∧ s'.mpData_U8 = s.mpData_U8 ∧
      s'.mpCrtBufferHead_U8 = s.mpCrtBufferHead_U8 ∧ Base s' es ∧
      s'.mCrtBufferRemain_U32 = s.mSlotSize_U32 := by
  obtain ⟨herr, -, hring⟩ := h.ring.skip_cons false
  simp only [dropOldestSlot, herr, if_true]
  exact ⟨_, rfl, ⟨rfl, rfl⟩, rfl, rfl, h.drop_oldest hring hslot.symm, rfl⟩

/-! ## The branches of `PushBuffer` -/

/-- The space test of the default mode. -/
theorem enoughSpace_default (h : Base s es) (h0 : s.mSlotSize_U32 = 0)
    (hcont : s.mRawCircularBufferParam_X.AlwaysContiguous_B = false) (nb : Nat) :
    s.enoughSpace nb = (decide (nb ≤ s.mCrtBufferRemain_U32 ∧
      es.length ≠ s.mRawCircularBufferParam_X.NbMaxBufferEntry_U32), 0) := by
  rw [enoughSpace, h0, hcont, h.isFull_eq]
  by_cases hnb : nb ≤ s.mCrtBufferRemain_U32
  · simp [hnb]
  · simp [hnb]

/-- The space test of the slot mode. -/
theorem enoughSpace_slot (h : Base s es) (hslot : s.mSlotSize_U32 ≠ 0) (nb : Nat) :
    s.enoughSpace nb = (decide (nb ≤ s.mCrtBufferRemain_U32 ∧ nb ≤ s.mSlotSize_U32), 0) := by
  rw [enoughSpace, h.append]
  by_cases hnb : nb ≤ s.mCrtBufferRemain_U32
  · simp [hnb, hslot]
  · simp [hnb]

theorem pushBuffer_store {data : List UInt8} {sizeUpToTheEnd : Nat} (hne : data.length ≠ 0)
    (henough : s.enoughSpace data.length = (true, sizeUpToTheEnd)) :
    s.pushBuffer (some data) = s.storeBuffer sizeUpToTheEnd data := by
  simp [pushBuffer, hne, henough]

theorem pushBuffer_refused {data : List UInt8} (hne : data.length ≠ 0)
    (henough : (s.enoughSpace data.length).1 = false)
    (ho : s.mRawCircularBufferParam_X.Overwrite_B = false) :
    s.pushBuffer (some data) = (s, .tooBig) := by
  simp [pushBuffer, hne, henough, ho]

theorem pushBuffer_over {data : List UInt8} (hne : data.length ≠ 0)
    (henough : (s.enoughSpace data.length).1 = false) (happend : s.mAppendMode_B = false)
    (ho : s.mRawCircularBufferParam_X.Overwrite_B = true) {s' : RawCircularBuffer}
    {sizeUpToTheEnd : Nat}
    (hroom : s.makeRoom data.length (s.enoughSpace data.length).2 = (s', true, sizeUpToTheEnd, .noError)) :
    s.pushBuffer (some data) = s'.storeBuffer sizeUpToTheEnd data := by
  simp [pushBuffer, hne, henough, ho, happend, hroom]

theorem pushBuffer_over_refused {data : List UInt8} (hne : data.length ≠ 0)
    (henough : (s.enoughSpace data.length).1 = false) (happend : s.mAppendMode_B = false)
    (ho : s.mRawCircularBufferParam_X.Overwrite_B = true)
    {sizeUpToTheEnd : Nat} {err : BofErr}
    (hroom : s.makeRoom data.length (s.enoughSpace data.length).2 = (s, false, sizeUpToTheEnd, err)) :
    s.pushBuffer (some data) = (s, .tooBig) := by
  simp [pushBuffer, hne, henough, ho, happend, hroom]

/-! ## Calls that touch no entry -/

theorem Base.setOverWriteMode (h : Base s es) (b : Bool) : Base (s.setOverWriteMode b) es :=
  ⟨⟨h.ring.inv.setOverWriteMode b, h.ring.mode, h.ring.capacity, rfl, h.ring.items⟩, h.append,
    h.to_push, h.head_lt, h.padding, h.pointers, h.remain⟩

theorem Base.reset (h : Base s es) : Base s.reset [] :=
  ⟨⟨h.ring.inv.reset, h.ring.mode, h.ring.capacity, rfl, rfl⟩, rfl, rfl, Nat.zero_lt_of_lt h.head_lt,
    fun _ _ hf => absurd hf List.not_mem_nil, fun _ hf => absurd hf List.not_mem_nil, rfl⟩

/-- A read without a limit, with the limit 0 or without a destination does nothing. -/
theorem popOrPeekBuffer_einval {isPop : Bool} {pNbMax : Option Nat} {pData : Bool}
    (h : ∀ nbMax, pNbMax = some nbMax → nbMax ≠ 0 → pData = true → False) :
    s.popOrPeekBuffer isPop pNbMax pData = (s, { err := .einval }) := by
  cases pNbMax with
  | none => rfl
  | some nbMax =>
    rw [popOrPeekBuffer]
    dsimp only
    rw [if_neg]
    rintro ⟨hne, hp⟩
    exact h nbMax rfl hne hp

theorem popBuffer_einval {pNbMax : Option Nat} {pData : Bool}
    (h : ∀ nbMax, pNbMax = some nbMax → nbMax ≠ 0 → pData = true → False) :
    s.popBuffer pNbMax pData = (s, { err := .einval }) := popOrPeekBuffer_einval h

/-! ## The setup -/

/-- The buffer was created with `param`; only the overwrite mode may have changed. -/
structure SetupOf (param : RawCircularBufferParam) (s : RawCircularBuffer) : Prop where
  modes : ∃ o, s.mRawCircularBufferParam_X = { param with Overwrite_B := o }
  slot : s.mSlotSize_U32 =
    if param.SlotMode_B then param.BufferSizeInByte_U32 / param.NbMaxBufferEntry_U32 else 0

variable {param : RawCircularBufferParam}

theorem setupOf_create (param : RawCircularBufferParam) (pData : Nat → UInt8)
    (pEntry : Nat → RawBuffer) : SetupOf param (create param pData pEntry) :=
  ⟨⟨param.Overwrite_B, rfl⟩, rfl⟩

theorem SetupOf.size_eq (h : SetupOf param s) : s.size = param.BufferSizeInByte_U32 := by
  obtain ⟨o, ho⟩ := h.modes
  rw [size, ho]

theorem SetupOf.nbMax_eq (h : SetupOf param s) :
    s.mRawCircularBufferParam_X.NbMaxBufferEntry_U32 = param.NbMaxBufferEntry_U32 := by
  obtain ⟨o, ho⟩ := h.modes
  rw [ho]

theorem SetupOf.contiguous_eq (h : SetupOf param s) :
    s.mRawCircularBufferParam_X.AlwaysContiguous_B = param.AlwaysContiguous_B := by
  obtain ⟨o, ho⟩ := h.modes
  rw [ho]

theorem SetupOf.of_same {s' : RawCircularBuffer} (h : SetupOf param s) (hs : SameSetup s s') :
    SetupOf param s' :=
  ⟨by rw [hs.param]; exact h.modes, by rw [hs.slot]; exact h.slot⟩

theorem SetupOf.setOverWriteMode (h : SetupOf param s) (b : Bool) :
    SetupOf param (s.setOverWriteMode b) := by
  obtain ⟨o, ho⟩ := h.modes
  refine ⟨⟨b, ?_⟩, h.slot⟩
  show { s.mRawCircularBufferParam_X with Overwrite_B := b } = _
  rw [ho]

theorem Base.length_le (h : Base s es) :
    es.length ≤ s.mRawCircularBufferParam_X.NbMaxBufferEntry_U32 := by
  have hcount : s.mpuBufferCollection.mNbElementInBuffer_U32 = es.length := h.ring.count_eq
  have hcap : s.mpuBufferCollection.capacity = s.mRawCircularBufferParam_X.NbMaxBufferEntry_U32 :=
    h.ring.capacity
  have hle := h.ring.inv.count_le
  omega

theorem Base.nbMax_pos (h : Base s es) : 0 < s.mRawCircularBufferParam_X.NbMaxBufferEntry_U32 := by
  have hcap : s.mpuBufferCollection.capacity = s.mRawCircularBufferParam_X.NbMaxBufferEntry_U32 :=
    h.ring.capacity
  have hpos := h.ring.inv.pos
  omega

end RawCircularBuffer

end BofStd
