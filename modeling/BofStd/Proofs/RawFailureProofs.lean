import BofStd.RawCallSpec
import BofStd.Proofs.RawFifoProofs

/-!
# `BofRawCircularBuffer`: what a failed `PushBuffer` leaves behind

`Books` holds in every mode, also while an entry grows in append mode: the inner buffer holds the entries and is not in
overwrite mode and, outside of slot mode, the free bytes, the bytes of the entries and those of the entry to push are no
more than the storage has. With it the branches of `PushBuffer` can be told apart by the state before the call. The sizes
are those that the code computes in 32 bits, so that this holds after any sequence of calls.
-/

namespace BofStd

theorem u32_lt (n : Nat) : u32 n < 4294967296 := by
  rw [u32_eq_mod]
  exact Nat.mod_lt n (by omega)

theorem u32Sub_lt {a : Nat} (ha : a < 4294967296) (b : Nat) : u32Sub a b < 4294967296 := by
  unfold u32Sub
  split <;> omega

namespace RawCircularBuffer

open Memory CircularBuffer

variable {s : RawCircularBuffer} {es : List RawBuffer}

/-! ## The books -/

/-- What holds between calls in every mode. The bytes are counted outside of slot mode only. -/
structure Books (s : RawCircularBuffer) (es : List RawBuffer) : Prop where
  ring : DequeRel s.mpuBufferCollection ⟨s.mRawCircularBufferParam_X.NbMaxBufferEntry_U32, false, es⟩
  slot_lt : s.mSlotSize_U32 < 4294967296
  size_pos : 0 < s.size
  remain_lt : s.mCrtBufferRemain_U32 < 4294967296
  index_lt : s.mRawBufferToPush_X.IndexInBuffer_U32 < 4294967296
  sum_le : s.mSlotSize_U32 = 0 →
    s.mCrtBufferRemain_U32 + (es.map entrySize).sum + entrySize s.mRawBufferToPush_X ≤ s.size

theorem books_create {param : RawCircularBufferParam} (hB : 0 < param.BufferSizeInByte_U32)
    (hN : 0 < param.NbMaxBufferEntry_U32) (pData : Nat → UInt8) (pEntry : Nat → RawBuffer) :
    Books (create param pData pEntry) [] where
  ring := ⟨inv_create _ _ hN, rfl, rfl, rfl, rfl⟩
  slot_lt := by
    have hlt := param.bufferSize_lt
    have hle := Nat.div_le_self param.BufferSizeInByte_U32 param.NbMaxBufferEntry_U32
    show (if param.SlotMode_B then _ else 0) < _
    split <;> omega
  size_pos := hB
  remain_lt := param.bufferSize_lt
  index_lt := Nat.zero_lt_succ 4294967295
  sum_le := fun _ => Nat.le_refl _

theorem Books.entries_eq (h : Books s es) : entries s = es := h.ring.stored_eq

theorem Books.isFull_iff (h : Books s es) :
    s.isFull = true ↔ es.length = s.mRawCircularBufferParam_X.NbMaxBufferEntry_U32 := by
  have hcount : s.mpuBufferCollection.mNbElementInBuffer_U32 = es.length := h.ring.count_eq
  have hcap : s.mpuBufferCollection.capacity = s.mRawCircularBufferParam_X.NbMaxBufferEntry_U32 := h.ring.capacity
  simp only [isFull, CircularBuffer.isFull, hcount, hcap, beq_iff_eq]

theorem Books.nbMax_pos (h : Books s es) : 0 < s.mRawCircularBufferParam_X.NbMaxBufferEntry_U32 := by
  have hcap : s.mpuBufferCollection.capacity = s.mRawCircularBufferParam_X.NbMaxBufferEntry_U32 := h.ring.capacity
  have hpos := h.ring.inv.pos
  omega

theorem Books.length_le (h : Books s es) : es.length ≤ s.mRawCircularBufferParam_X.NbMaxBufferEntry_U32 := by
  have hcount : s.mpuBufferCollection.mNbElementInBuffer_U32 = es.length := h.ring.count_eq
  have hcap : s.mpuBufferCollection.capacity = s.mRawCircularBufferParam_X.NbMaxBufferEntry_U32 := h.ring.capacity
  have hle := h.ring.inv.count_le
  omega

/-! ## Storing the bytes -/

/-- The entry to push can take `nb` bytes more: it has one part, or is started anew, or its second part has room. -/
def Takes (s : RawCircularBuffer) (sizeUpToTheEnd nb : Nat) : Prop :=
  s.mRawBufferToPush_X.Size2_U32 = 0 ∨ sizeUpToTheEnd ≠ 0 ∨
  u32 (u32 (s.mRawBufferToPush_X.IndexInBuffer_U32 + s.mRawBufferToPush_X.Size2_U32) + nb) ≤ s.size

/-- The bytes are stored: the entry to push has grown by them, and there are fewer free bytes. -/
structure Stored (s s' : RawCircularBuffer) (nb : Nat) : Prop where
  setup : SameSetup s s'
  ring : s'.mpuBufferCollection = s.mpuBufferCollection
  append : s'.mAppendMode_B = s.mAppendMode_B
  remain : s'.mCrtBufferRemain_U32 = s.mCrtBufferRemain_U32 - nb
  index_lt : s'.mRawBufferToPush_X.IndexInBuffer_U32 < 4294967296
  entry_le : entrySize s'.mRawBufferToPush_X ≤ entrySize s.mRawBufferToPush_X + nb

theorem Stored.books {s' : RawCircularBuffer} {nb : Nat} (hs : Stored s s' nb) (hnb : nb ≤ s.mCrtBufferRemain_U32)
    (h : Books s es) : Books s' es where
  ring := by
    rw [hs.ring, hs.setup.param]
    exact h.ring
  slot_lt := by
    rw [hs.setup.slot]
    exact h.slot_lt
  size_pos := by
    rw [hs.setup.size]
    exact h.size_pos
  remain_lt := by
    have hlt := h.remain_lt
    rw [hs.remain]
    omega
  index_lt := hs.index_lt
  sum_le := fun h0 => by
    have hsum := h.sum_le (hs.setup.slot ▸ h0)
    have hentry := hs.entry_le
    rw [hs.remain, hs.setup.size]
    omega

/-- The bytes go behind the second part. -/
theorem appendPart2_stored {data : List UInt8} (hnb : data.length ≤ s.mCrtBufferRemain_U32)
    (hindex : s.mRawBufferToPush_X.IndexInBuffer_U32 < 4294967296) : Stored s (s.appendPart2 data) data.length := by
  refine ⟨⟨rfl, rfl⟩, rfl, rfl, u32Sub_of_le hnb, hindex, ?_⟩
  show u32 (s.mRawBufferToPush_X.Size1_U32 + u32 (s.mRawBufferToPush_X.Size2_U32 + data.length)) ≤
    u32 (s.mRawBufferToPush_X.Size1_U32 + s.mRawBufferToPush_X.Size2_U32) + data.length
  rw [u32_eq_mod, u32_eq_mod, u32_eq_mod]
  omega

/-- The bytes go behind the first part. -/
theorem appendPart1_stored {data : List UInt8} (hnb : data.length ≤ s.mCrtBufferRemain_U32)
    (hindex : s.mRawBufferToPush_X.IndexInBuffer_U32 < 4294967296) (head : Nat) :
    Stored s { s.appendPart1 data with mpCrtBufferHead_U8 := head } data.length := by
  refine ⟨⟨rfl, rfl⟩, rfl, rfl, u32Sub_of_le hnb, hindex, ?_⟩
  show u32 (u32 (s.mRawBufferToPush_X.Size1_U32 + data.length) + s.mRawBufferToPush_X.Size2_U32) ≤
    u32 (s.mRawBufferToPush_X.Size1_U32 + s.mRawBufferToPush_X.Size2_U32) + data.length
  rw [u32_eq_mod, u32_eq_mod, u32_eq_mod]
  omega

/-- Whatever the number of bytes before the end of the storage, the two differences add up in 32 bits. -/
theorem u32_split {a nb : Nat} (ha : a < 4294967296) (hnb : nb < 4294967296) : u32 (a + u32Sub nb a) = nb := by
  rw [u32_eq_mod]
  unfold u32Sub
  split <;> omega

/-- The bytes are cut at the end of the storage. -/
theorem splitAtEnd_stored {data : List UInt8} (hnb : data.length ≤ s.mCrtBufferRemain_U32)
    (hremain : s.mCrtBufferRemain_U32 < 4294967296) (hindex : s.mRawBufferToPush_X.IndexInBuffer_U32 < 4294967296)
    (h2 : s.mRawBufferToPush_X.Size2_U32 = 0) (head : Nat) :
    Stored s { s.splitAtEnd data with mpCrtBufferHead_U8 := head } data.length := by
  have hsize := s.size_lt
  have hlt := u32Sub_lt hsize (u32 (s.mRawBufferToPush_X.IndexInBuffer_U32 + s.mRawBufferToPush_X.Size1_U32))
  refine ⟨⟨rfl, rfl⟩, rfl, rfl, ?_, hindex, ?_⟩
  · show u32Sub s.mCrtBufferRemain_U32 (u32 (_ + u32Sub data.length _)) = _
    rw [u32_split hlt (Nat.lt_of_le_of_lt hnb hremain), u32Sub_of_le hnb]
  · show u32 (u32Sub s.size s.mRawBufferToPush_X.IndexInBuffer_U32 + u32Sub data.length (u32Sub s.size
      (u32 (s.mRawBufferToPush_X.IndexInBuffer_U32 + s.mRawBufferToPush_X.Size1_U32)))) ≤
      u32 (s.mRawBufferToPush_X.Size1_U32 + s.mRawBufferToPush_X.Size2_U32) + data.length
    rw [h2, u32_eq_mod, u32_eq_mod, u32_eq_mod]
    unfold u32Sub
    split_ifs <;> omega

/-- `UpdatePushRawBuffer` when the bytes fit: it stores them. -/
theorem updatePushRawBuffer_takes {data : List UInt8} {sizeUpToTheEnd : Nat}
    (hnb : data.length ≤ s.mCrtBufferRemain_U32) (hremain : s.mCrtBufferRemain_U32 < 4294967296)
    (hindex : s.mRawBufferToPush_X.IndexInBuffer_U32 < 4294967296) (ht : Takes s sizeUpToTheEnd data.length) :
    ∃ s', s.updatePushRawBuffer sizeUpToTheEnd data = (s', .noError) ∧ Stored s s' data.length := by
  have happend : ∀ t : RawCircularBuffer, data.length ≤ t.mCrtBufferRemain_U32 → t.mCrtBufferRemain_U32 < 4294967296 →
      t.mRawBufferToPush_X.IndexInBuffer_U32 < 4294967296 → Takes t 0 data.length →
      ∃ s', t.appendToEntry data = (s', .noError) ∧ Stored t s' data.length := by
    intro t hnb hremain hindex ht
    unfold appendToEntry
    dsimp only
    by_cases h2 : t.mRawBufferToPush_X.Size2_U32 = 0
    · rw [if_neg (not_not.mpr h2)]
      split
      · exact ⟨_, rfl, splitAtEnd_stored hnb hremain hindex h2 _⟩
      · exact ⟨_, rfl, appendPart1_stored hnb hindex _⟩
    · have hfits := (ht.resolve_left h2).resolve_left (not_not.mpr rfl)
      rw [if_pos h2, if_pos hfits]
      exact ⟨_, rfl, appendPart2_stored hnb hindex⟩
  rw [updatePushRawBuffer, if_pos hnb]
  by_cases h0 : sizeUpToTheEnd = 0
  · subst h0
    exact happend s hnb hremain hindex ht
  · -- the entry to push starts anew, with no bytes
    rw [startAtBegin, if_pos h0]
    obtain ⟨s', heq, hstored⟩ := happend
      { s with mRawBufferToPush_X := { pData1_U8 := some 0 }, mpCrtBufferHead_U8 := 0 } hnb hremain
      (Nat.zero_lt_succ 4294967295) (Or.inl rfl)
    refine ⟨s', heq, ⟨⟨hstored.setup.param, hstored.setup.slot⟩, hstored.ring, hstored.append, hstored.remain,
      hstored.index_lt, hstored.entry_le.trans ?_⟩⟩
    exact Nat.add_le_add_right (Nat.zero_le _) _

/-- `UpdatePushRawBuffer` when they do not: nothing changes. -/
theorem updatePushRawBuffer_refuses {data : List UInt8} {sizeUpToTheEnd : Nat}
    (h : ¬ (data.length ≤ s.mCrtBufferRemain_U32 ∧ Takes s sizeUpToTheEnd data.length)) :
    s.updatePushRawBuffer sizeUpToTheEnd data = (s, .einval) := by
  rw [updatePushRawBuffer]
  split
  · rename_i hnb
    obtain ⟨h2, h0, hfits⟩ : s.mRawBufferToPush_X.Size2_U32 ≠ 0 ∧ sizeUpToTheEnd = 0 ∧ _ := by
      have hnot : ¬ Takes s sizeUpToTheEnd data.length := fun ht => h ⟨hnb, ht⟩
      rw [Takes, not_or, not_or, not_not] at hnot
      exact hnot
    rw [startAtBegin, if_neg (not_not.mpr h0), appendToEntry]
    dsimp only
    rw [if_pos h2, if_neg hfits]
  · rfl

/-! ## Pushing the entry -/

/-- After an entry has been pushed, the next one is empty; in slot mode the padding is taken off the free bytes. -/
theorem startNextEntry_books (hring : DequeRel s.mpuBufferCollection
    ⟨s.mRawCircularBufferParam_X.NbMaxBufferEntry_U32, false, es⟩) (hslot : s.mSlotSize_U32 < 4294967296)
    (hpos : 0 < s.size) (hremain : s.mCrtBufferRemain_U32 < 4294967296)
    (hsum : s.mSlotSize_U32 = 0 → s.mCrtBufferRemain_U32 + (es.map entrySize).sum ≤ s.size) :
    Books s.startNextEntry es := by
  have hpad := u32Sub_lt hremain s.mRawBufferToPush_X.SlotEmpySpace_U32
  unfold startNextEntry
  dsimp only
  split_ifs with h0
  · exact ⟨hring, hslot, hpos, hpad, u32_lt _, fun h => absurd h h0⟩
  · exact ⟨hring, hslot, hpos, hremain, u32_lt _, hsum⟩
  · exact ⟨hring, hslot, hpos, hremain, u32_lt _, hsum⟩

theorem entrySize_completeEntry (slot : Nat) (e : RawBuffer) : entrySize (completeEntry slot e) = entrySize e := by
  unfold completeEntry
  split <;> rfl

/-- `PushRawBuffer` with a free entry. -/
theorem Books.pushRawBuffer_room (h : Books s es)
    (hroom : es.length < s.mRawCircularBufferParam_X.NbMaxBufferEntry_U32) :
    ∃ s', s.pushRawBuffer = (s', .noError) ∧
      Books s' (es ++ [completeEntry s.mSlotSize_U32 s.mRawBufferToPush_X]) := by
  obtain ⟨hrel, hview⟩ := h.ring.push (completeEntry s.mSlotSize_U32 s.mRawBufferToPush_X)
    (fun ho => absurd (h.ring.overwrite.symm.trans ho) Bool.false_ne_true)
  simp only [BoundedDeque.step, if_pos hroom] at hrel hview
  have herr := congrArg Prod.fst hview
  simp only [view] at herr
  unfold pushRawBuffer
  dsimp only
  rw [if_pos herr, herr]
  refine ⟨_, rfl, startNextEntry_books hrel h.slot_lt h.size_pos h.remain_lt fun h0 => ?_⟩
  have hsum := h.sum_le h0
  rw [List.map_append, List.sum_append, List.map_singleton, List.sum_singleton, entrySize_completeEntry, ← Nat.add_assoc]
  exact hsum

/-- `PushRawBuffer` without one: at most the padding of the entry to push is set. -/
theorem Books.pushRawBuffer_full (h : Books s es)
    (hfull : es.length = s.mRawCircularBufferParam_X.NbMaxBufferEntry_U32) :
    ∃ s' pad, s.pushRawBuffer = (s', .full) ∧ Books s' es ∧ s'.mpData_U8 = s.mpData_U8 ∧
      s'.mRawBufferToPush_X = { s.mRawBufferToPush_X with SlotEmpySpace_U32 := pad } ∧
      s'.mCrtBufferRemain_U32 = s.mCrtBufferRemain_U32 ∧ s'.mpCrtBufferHead_U8 = s.mpCrtBufferHead_U8 := by
  obtain ⟨hrel, hview⟩ := h.ring.push (completeEntry s.mSlotSize_U32 s.mRawBufferToPush_X)
    (fun ho => absurd (h.ring.overwrite.symm.trans ho) Bool.false_ne_true)
  have hnot : ¬ es.length < s.mRawCircularBufferParam_X.NbMaxBufferEntry_U32 := by omega
  simp only [BoundedDeque.step, if_neg hnot] at hrel hview
  have herr := congrArg Prod.fst hview
  simp only [view] at herr
  obtain ⟨pad, hpad⟩ : ∃ pad, completeEntry s.mSlotSize_U32 s.mRawBufferToPush_X =
      { s.mRawBufferToPush_X with SlotEmpySpace_U32 := pad } := by
    unfold completeEntry
    split
    · exact ⟨_, rfl⟩
    · exact ⟨s.mRawBufferToPush_X.SlotEmpySpace_U32, rfl⟩
  unfold pushRawBuffer
  dsimp only
  rw [herr, if_neg BofErr.noConfusion]
  refine ⟨_, pad, rfl, ⟨hrel, h.slot_lt, h.size_pos, h.remain_lt, ?_, fun h0 => ?_⟩, rfl, hpad, rfl, rfl⟩
  · show (completeEntry s.mSlotSize_U32 s.mRawBufferToPush_X).IndexInBuffer_U32 < _
    rw [hpad]
    exact h.index_lt
  · show _ + entrySize (completeEntry s.mSlotSize_U32 s.mRawBufferToPush_X) ≤ _
    rw [entrySize_completeEntry]
    exact h.sum_le h0

/-! ## Storing a buffer -/

/-- The entries, the storage and the numbers are the same. -/
theorem Books.sameStored {s' : RawCircularBuffer} (h : Books s es) (h' : Books s' es) (hdata : s'.mpData_U8 = s.mpData_U8)
    (hremain : s'.mCrtBufferRemain_U32 = s.mCrtBufferRemain_U32) (hhead : s'.mpCrtBufferHead_U8 = s.mpCrtBufferHead_U8)
    (hcells : cells s'.mRawBufferToPush_X = cells s.mRawBufferToPush_X) : SameStored s s' where
  entries := by
    rw [h.entries_eq, h'.entries_eq]
    exact map_content_congr fun c _ => congrFun hdata c
  nbElement := h'.ring.count_eq.trans h.ring.count_eq.symm
  remain := hremain
  head := hhead
  to_push := by rw [content, content, hcells, hdata]

theorem storeBuffer_eq {s1 : RawCircularBuffer} {sizeUpToTheEnd : Nat} {data : List UInt8} {err : BofErr}
    (h : s.updatePushRawBuffer sizeUpToTheEnd data = (s1, err)) :
    s.storeBuffer sizeUpToTheEnd data = if s1.mAppendMode_B then (s1, err) else s1.pushRawBuffer := by
  rw [storeBuffer, h]

/-- In append mode the entry to push grows, or the call fails and changes nothing. -/
theorem Books.storeBuffer_append (h : Books s es) (happend : s.mAppendMode_B = true) (sizeUpToTheEnd : Nat)
    (data : List UInt8) :
    (∃ s', s.storeBuffer sizeUpToTheEnd data = (s', .noError) ∧ Books s' es) ∨
      s.storeBuffer sizeUpToTheEnd data = (s, .einval) := by
  by_cases ht : data.length ≤ s.mCrtBufferRemain_U32 ∧ Takes s sizeUpToTheEnd data.length
  · obtain ⟨s', heq, hstored⟩ := updatePushRawBuffer_takes ht.1 h.remain_lt h.index_lt ht.2
    rw [storeBuffer_eq heq, if_pos (hstored.append.trans happend)]
    exact Or.inl ⟨s', rfl, hstored.books ht.1 h⟩
  · rw [storeBuffer_eq (updatePushRawBuffer_refuses ht), if_pos happend]
    exact Or.inr rfl

/-- With a free entry the call succeeds, even if the bytes are not stored. -/
theorem Books.storeBuffer_room (h : Books s es) (happend : s.mAppendMode_B = false)
    (hroom : es.length < s.mRawCircularBufferParam_X.NbMaxBufferEntry_U32) (sizeUpToTheEnd : Nat) (data : List UInt8) :
    ∃ s' es', s.storeBuffer sizeUpToTheEnd data = (s', .noError) ∧ Books s' es' := by
  have hfalse : ¬ s.mAppendMode_B = true := by
    rw [happend]
    exact Bool.false_ne_true
  by_cases ht : data.length ≤ s.mCrtBufferRemain_U32 ∧ Takes s sizeUpToTheEnd data.length
  · obtain ⟨s1, heq, hstored⟩ := updatePushRawBuffer_takes ht.1 h.remain_lt h.index_lt ht.2
    have hroom' : es.length < s1.mRawCircularBufferParam_X.NbMaxBufferEntry_U32 := by
      rw [hstored.setup.param]
      exact hroom
    obtain ⟨s', hpush, hbooks⟩ := (hstored.books ht.1 h).pushRawBuffer_room hroom'
    rw [storeBuffer_eq heq, hstored.append, if_neg hfalse]
    exact ⟨s', _, hpush, hbooks⟩
  · obtain ⟨s', hpush, hbooks⟩ := h.pushRawBuffer_room hroom
    rw [storeBuffer_eq (updatePushRawBuffer_refuses ht), if_neg hfalse]
    exact ⟨s', _, hpush, hbooks⟩

/-- Without a free entry the call fails. If the bytes are stored, they are taken off the free ones all the same. -/
theorem Books.storeBuffer_full (h : Books s es) (happend : s.mAppendMode_B = false)
    (hfull : es.length = s.mRawCircularBufferParam_X.NbMaxBufferEntry_U32) (sizeUpToTheEnd : Nat) {data : List UInt8}
    (hne : data.length ≠ 0) :
    ∃ s', s.storeBuffer sizeUpToTheEnd data = (s', .full) ∧ Books s' es ∧
      (SameStored s s' ↔ ¬ (data.length ≤ s.mCrtBufferRemain_U32 ∧ Takes s sizeUpToTheEnd data.length)) := by
  have hfalse : ¬ s.mAppendMode_B = true := by
    rw [happend]
    exact Bool.false_ne_true
  by_cases ht : data.length ≤ s.mCrtBufferRemain_U32 ∧ Takes s sizeUpToTheEnd data.length
  · obtain ⟨s1, heq, hstored⟩ := updatePushRawBuffer_takes ht.1 h.remain_lt h.index_lt ht.2
    have hfull' : es.length = s1.mRawCircularBufferParam_X.NbMaxBufferEntry_U32 := by
      rw [hstored.setup.param]
      exact hfull
    obtain ⟨s', -, hpush, hbooks, -, -, hremain, -⟩ := (hstored.books ht.1 h).pushRawBuffer_full hfull'
    rw [storeBuffer_eq heq, hstored.append, if_neg hfalse]
    refine ⟨s', hpush, hbooks, fun hsame => absurd hsame.remain ?_, fun hnot => absurd ht hnot⟩
    rw [hremain, hstored.remain]
    omega
  · obtain ⟨s', pad, hpush, hbooks, hdata, hentry, hremain, hhead⟩ := h.pushRawBuffer_full hfull
    rw [storeBuffer_eq (updatePushRawBuffer_refuses ht), if_neg hfalse]
    refine ⟨s', hpush, hbooks, fun _ => ht, fun _ => h.sameStored hbooks hdata hremain hhead ?_⟩
    rw [hentry]
    rfl

/-! ## Dropping entries -/

/-- The oldest entry has been dropped. -/
theorem Books.drop_oldest {e : RawBuffer} (h : Books s (e :: es)) {ring : CircularBuffer RawBuffer}
    (hring : DequeRel ring ⟨s.mRawCircularBufferParam_X.NbMaxBufferEntry_U32, false, es⟩) {remain : Nat}
    (hlt : remain < 4294967296) (hle : s.mSlotSize_U32 = 0 → remain ≤ s.mCrtBufferRemain_U32 + entrySize e) :
    Books { s with mpuBufferCollection := ring, mCrtBufferRemain_U32 := remain } es := by
  refine ⟨hring, h.slot_lt, h.size_pos, hlt, h.index_lt, fun h0 => ?_⟩
  have hsum := h.sum_le h0
  have hle' := hle h0
  rw [List.map_cons, List.sum_cons] at hsum
  show remain + _ + entrySize s.mRawBufferToPush_X ≤ s.size
  omega

theorem Books.skip_cons {e : RawBuffer} (h : Books s (e :: es)) (b : Bool) :
    (s.mpuBufferCollection.skip b).2.err = .noError ∧ (s.mpuBufferCollection.skip b).2.data = some e ∧
    DequeRel (s.mpuBufferCollection.skip b).1 ⟨s.mRawCircularBufferParam_X.NbMaxBufferEntry_U32, false, es⟩ := by
  obtain ⟨hrel, hview⟩ := h.ring.skip b
  exact ⟨congrArg Prod.fst hview, congrArg Prod.snd hview, hrel⟩

theorem Books.skip_nil (h : Books s []) (b : Bool) :
    (s.mpuBufferCollection.skip b).2.err = .empty ∧ (s.mpuBufferCollection.skip b).1 = s.mpuBufferCollection := by
  obtain ⟨-, -, -, hcases⟩ := h.ring.inv.skip_cases b
  rcases hcases with ⟨herr, -, -, hr⟩ | ⟨e, -, -, hcons⟩
  · exact ⟨herr, hr⟩
  · rw [h.ring.items] at hcons
    exact absurd hcons (List.cons_ne_nil _ _).symm

/-- Without entries the loop of the overwrite mode does nothing. -/
theorem Books.recover_nil (h : Books s []) (fuel n : Nat) : recover (fuel + 1) n s = (s, .empty) := by
  obtain ⟨herr, hr⟩ := h.skip_nil false
  simp only [recover, herr, hr]

/-- One turn of the loop of the overwrite mode. -/
theorem Books.recover_step {e : RawBuffer} (h : Books s (e :: es)) (h0 : s.mSlotSize_U32 = 0) (fuel n : Nat) :
    ∃ s', Books s' es ∧ SameSetup s s' ∧ s'.mAppendMode_B = s.mAppendMode_B ∧
      s'.mCrtBufferRemain_U32 = s.mCrtBufferRemain_U32 + entrySize e ∧
      recover (fuel + 1) n s = if s'.mCrtBufferRemain_U32 < n then recover fuel n s' else (s', .noError) := by
  obtain ⟨herr, hdata, hring⟩ := h.skip_cons false
  have hsize := s.size_lt
  have hbound := h.sum_le h0
  rw [List.map_cons, List.sum_cons] at hbound
  have hsum : u32 (s.mCrtBufferRemain_U32 + entrySize e) = s.mCrtBufferRemain_U32 + entrySize e :=
    u32_of_lt (by omega)
  have hbooks := h.drop_oldest hring (u32_lt _) fun _ => Nat.le_of_eq hsum
  refine ⟨_, hbooks, ⟨rfl, rfl⟩, rfl, hsum, ?_⟩
  simp only [recover, herr, hdata]
  rfl

/-- The loop of the overwrite mode: it drops an entry at least, and ends when enough bytes are free; if all the bytes of
the entries are not enough, it drops all of them and fails. -/
theorem Books.recover_cons (h : Books s es) (h0 : s.mSlotSize_U32 = 0) (hne : es ≠ []) {fuel : Nat}
    (hfuel : es.length < fuel) (n : Nat) :
    ∃ s' k, Books s' (es.drop k) ∧ 0 < k ∧ SameSetup s s' ∧ s'.mAppendMode_B = s.mAppendMode_B ∧
      ((recover fuel n s = (s', .noError) ∧ n ≤ s.mCrtBufferRemain_U32 + (es.map entrySize).sum) ∨
        (recover fuel n s = (s', .empty) ∧ es.drop k = [] ∧ s.mCrtBufferRemain_U32 + (es.map entrySize).sum < n)) := by
  induction fuel generalizing s es with
  | zero => omega
  | succ fuel ih =>
    obtain ⟨e, es, rfl⟩ := List.exists_cons_of_ne_nil hne
    obtain ⟨s1, hbooks, hsame, happend, hremain, hstep⟩ := h.recover_step h0 fuel n
    rw [List.length_cons] at hfuel
    rw [List.map_cons, List.sum_cons, ← Nat.add_assoc, ← hremain, hstep]
    split_ifs with hlt
    · by_cases hnil : es = []
      · -- that was the last entry
        subst hnil
        obtain ⟨fuel, rfl⟩ := Nat.exists_eq_add_of_lt (Nat.lt_of_succ_lt_succ hfuel)
        refine ⟨s1, 1, hbooks, Nat.one_pos, hsame, happend, Or.inr ⟨hbooks.recover_nil _ n, rfl, hlt⟩⟩
      · obtain ⟨s', k, hbooks', -, hsame', happend', hcases⟩ := ih hbooks (hsame.slot.trans h0) hnil
          (Nat.lt_of_succ_lt_succ hfuel)
        exact ⟨s', k + 1, hbooks', Nat.succ_pos k, ⟨hsame'.param.trans hsame.param, hsame'.slot.trans hsame.slot⟩,
          happend'.trans happend, hcases⟩
    · refine ⟨s1, 1, hbooks, Nat.one_pos, hsame, happend, Or.inl ⟨rfl, ?_⟩⟩
      omega

/-- Every mode that drops entries marks that first. -/
theorem Books.setOverflow (h : Books s es) (b : Bool) : Books { s with mOverflow_B := b } es :=
  ⟨h.ring, h.slot_lt, h.size_pos, h.remain_lt, h.index_lt, h.sum_le⟩

theorem Books.dropOldestSlot_cons {e : RawBuffer} (h : Books s (e :: es)) (h0 : s.mSlotSize_U32 ≠ 0) :
    ∃ s', s.dropOldestSlot = (s', .noError) ∧ Books s' es ∧ SameSetup s s' ∧ s'.mAppendMode_B = s.mAppendMode_B := by
  obtain ⟨herr, -, hring⟩ := h.skip_cons false
  simp only [dropOldestSlot, herr, if_true]
  exact ⟨_, rfl, h.drop_oldest hring h.slot_lt fun h0' => absurd h0' h0, ⟨rfl, rfl⟩, rfl⟩

theorem Books.dropOldestSlot_nil (h : Books s []) : s.dropOldestSlot = (s, .empty) := by
  obtain ⟨herr, hr⟩ := h.skip_nil false
  simp only [dropOldestSlot, herr, hr]
  rw [if_neg BofErr.noConfusion]

/-! ## The space test -/

/-- The number of bytes that the contiguous mode may have to leave unused. -/
def unusedSize (s : RawCircularBuffer) : Nat :=
  if s.mRawCircularBufferParam_X.AlwaysContiguous_B then s.upToTheEnd else 0

/-- The space test outside of the append mode. -/
theorem enoughSpace_iff (happend : s.mAppendMode_B = false) (nb : Nat) :
    (s.enoughSpace nb).1 = true ↔ HasRoom s nb ∧
      (s.mSlotSize_U32 = 0 → s.mRawCircularBufferParam_X.AlwaysContiguous_B = false → s.isFull = false) := by
  unfold enoughSpace HasRoom upToTheEnd
  dsimp only
  by_cases hnb : nb ≤ s.mCrtBufferRemain_U32
  · by_cases h0 : s.mSlotSize_U32 = 0
    · cases hcont : s.mRawCircularBufferParam_X.AlwaysContiguous_B with
      | false => simp [hnb, h0]
      | true =>
        by_cases hup : nb ≤ u32Sub s.size s.mpCrtBufferHead_U8
        · simp [hnb, h0, hup]
        · have hle : u32Sub s.size s.mpCrtBufferHead_U8 ≤ s.mCrtBufferRemain_U32 := by omega
          simp only [hnb, h0, hup, u32Sub_of_le hle]
          simp
          omega
    · simp [hnb, h0, happend]
  · simp [hnb]

/-- The bytes that the space test wants to leave unused. -/
theorem enoughSpace_snd (nb : Nat) :
    (s.mSlotSize_U32 ≠ 0 → (s.enoughSpace nb).2 = 0) ∧
    (s.mRawCircularBufferParam_X.AlwaysContiguous_B = false → (s.enoughSpace nb).2 = 0) ∧
    (s.mSlotSize_U32 = 0 → s.mRawCircularBufferParam_X.AlwaysContiguous_B = true → nb ≤ s.mCrtBufferRemain_U32 →
      (s.enoughSpace nb).2 = if nb ≤ s.upToTheEnd then 0 else s.upToTheEnd) := by
  unfold enoughSpace upToTheEnd
  dsimp only
  refine ⟨fun h0 => ?_, fun hcont => ?_, fun h0 hcont hnb => ?_⟩
  · split_ifs <;> rfl
  · split_ifs <;> simp_all
  · split_ifs <;> simp_all

theorem Books.isEmpty_iff (h : Books s es) : s.mpuBufferCollection.isEmpty = true ↔ es = [] := by
  have hcount : s.mpuBufferCollection.mNbElementInBuffer_U32 = es.length := h.ring.count_eq
  simp only [CircularBuffer.isEmpty, hcount, beq_iff_eq, List.length_eq_zero_iff]

/-- What the overwrite mode does outside of slot mode. -/
theorem Books.dropOldest_eq (h : Books s es) {nb : Nat} (hne : nb ≠ 0) (hnb : nb ≤ s.size) :
    s.dropOldest nb (unusedSize s) =
      if unusedSize s ≠ 0 ∧ es = [] then ({ s with mOverflow_B := false }, .noError)
      else if wantedSize s nb ≠ 0 then recover (es.length + 1) (wantedSize s nb) s
      else (s, .noError) := by
  have hsize := s.size_lt
  have hcount : s.mpuBufferCollection.mNbElementInBuffer_U32 = es.length := h.ring.count_eq
  have hempty := h.isEmpty_iff
  unfold dropOldest
  dsimp only
  rw [hcount]
  by_cases h0 : unusedSize s = 0
  · -- the head is at the end, or the mode is not the contiguous one
    have hwanted : wantedSize s nb = nb := by
      unfold wantedSize
      unfold unusedSize at h0
      split_ifs with hc
      · rw [if_pos hc.1] at h0
        rw [h0, Nat.add_zero, u32_of_lt (by omega)]
      · rfl
    rw [if_neg (not_not.mpr h0), if_neg (fun hc => hc.1 h0), hwanted, if_pos hne]
  · have hcont : s.mRawCircularBufferParam_X.AlwaysContiguous_B = true := by
      unfold unusedSize at h0
      by_contra hc
      exact h0 (if_neg hc)
    have hun : unusedSize s = s.upToTheEnd := if_pos hcont
    rw [if_pos h0]
    by_cases hes : es = []
    · rw [if_pos (hempty.mpr hes), if_pos ⟨h0, hes⟩]
    · have hsome : ¬ s.mpuBufferCollection.isEmpty = true := fun he => hes (hempty.mp he)
      have hno : ¬ (unusedSize s ≠ 0 ∧ es = []) := fun hc => hes hc.2
      rw [if_neg hsome, if_neg hno]
      by_cases hhead : s.mpCrtBufferHead_U8 = 0
      · have hwanted : wantedSize s nb = nb := if_neg fun hc => hc.2 hhead
        rw [if_pos hhead, hwanted, if_pos hne]
      · have hwanted : wantedSize s nb = u32 (nb + s.upToTheEnd) := if_pos ⟨hcont, hhead⟩
        rw [if_neg hhead, hwanted, hun]

/-- The buffer goes to the start of the storage if it does not fit before the end. -/
theorem enoughSpace_snd_ne_zero {nb : Nat} (hnb : nb ≤ s.mCrtBufferRemain_U32)
    (hmode : s.mSlotSize_U32 ≠ 0 ∨ s.mRawCircularBufferParam_X.AlwaysContiguous_B = true) :
    (s.enoughSpace nb).2 ≠ 0 ↔ s.mSlotSize_U32 = 0 ∧ 0 < s.upToTheEnd ∧ s.upToTheEnd < nb := by
  obtain ⟨hslot, -, hcont⟩ := enoughSpace_snd (s := s) nb
  by_cases h0 : s.mSlotSize_U32 = 0
  · rw [hcont h0 (hmode.resolve_left (not_not.mpr h0)) hnb]
    split_ifs <;> omega
  · rw [hslot h0]
    omega

/-- Where the space test fails, a push can store into a full buffer only if the number of bytes wanted wraps to 0. -/
theorem StoresIntoFull.wraps {nb : Nat} (hs : StoresIntoFull s nb) (henough : (s.enoughSpace nb).1 = false) :
    s.mSlotSize_U32 = 0 ∧ s.mRawCircularBufferParam_X.Overwrite_B = true ∧ nb ≤ s.mCrtBufferRemain_U32 ∧
      nb + s.upToTheEnd = 4294967296 := by
  refine hs.room.resolve_left fun hroom => ?_
  have htrue := (enoughSpace_iff hs.append nb).mpr ⟨hroom, fun h0 hcont => ?_⟩
  · exact Bool.false_ne_true (henough.symm.trans htrue)
  · rcases hs.mode with hslot | hcont'
    · exact absurd h0 hslot
    · exact absurd (hcont.symm.trans hcont') Bool.false_ne_true

/-! ## `PushBuffer` -/

theorem pushBuffer_append_refused {data : List UInt8} (hne : data.length ≠ 0)
    (henough : (s.enoughSpace data.length).1 = false) (happend : s.mAppendMode_B = true) :
    s.pushBuffer (some data) = (s, .tooBig) := by
  simp [pushBuffer, hne, henough, happend]

/-- The overwrite mode, once it has made room or given up. -/
theorem pushBuffer_makeRoom {data : List UInt8} (hne : data.length ≠ 0)
    (henough : (s.enoughSpace data.length).1 = false) (happend : s.mAppendMode_B = false)
    (ho : s.mRawCircularBufferParam_X.Overwrite_B = true) {s' : RawCircularBuffer} {sizeUpToTheEnd : Nat} {err : BofErr}
    (hroom : s.makeRoom data.length (s.enoughSpace data.length).2 = (s', true, sizeUpToTheEnd, err)) :
    s.pushBuffer (some data) = if err = .noError then s'.storeBuffer sizeUpToTheEnd data else (s', err) := by
  simp [pushBuffer, hne, henough, ho, happend, hroom]

/-- The outcome of a push: what holds between calls holds again, and the push fails cleanly exactly if it is not half
done. -/
structure Outcome (s : RawCircularBuffer) (data : List UInt8) : Prop where
  books : ∃ es, Books (s.pushBuffer (some data)).1 es
  clean : FailsCleanly s (some data) ↔ ¬ StoresIntoFull s data.length ∧ ¬ DropsInVain s data.length

theorem Outcome.of_done {data : List UInt8} {s' : RawCircularBuffer} (heq : s.pushBuffer (some data) = (s', .noError))
    (hbooks : ∃ es, Books s' es) (hs : ¬ StoresIntoFull s data.length) (hd : ¬ DropsInVain s data.length) :
    Outcome s data := by
  refine ⟨?_, iff_of_true ?_ ⟨hs, hd⟩⟩
  · rw [heq]
    exact hbooks
  · intro herr
    rw [heq] at herr
    exact absurd rfl herr

theorem Outcome.of_failed {data : List UInt8} {s' : RawCircularBuffer} {err : BofErr}
    (heq : s.pushBuffer (some data) = (s', err)) (herr : err ≠ .noError) (hbooks : ∃ es, Books s' es)
    (hiff : SameStored s s' ↔ ¬ StoresIntoFull s data.length ∧ ¬ DropsInVain s data.length) : Outcome s data := by
  refine ⟨?_, ?_⟩
  · rw [heq]
    exact hbooks
  · rw [FailsCleanly, heq]
    exact ⟨fun h => hiff.mp (h herr), fun h _ => hiff.mpr h⟩

/-- A push that is refused at once. -/
theorem Books.outcome_refused (h : Books s es) {data : List UInt8} {o : Bool} {err : BofErr}
    (heq : s.pushBuffer (some data) = ({ s with mOverflow_B := o }, err)) (herr : err ≠ .noError)
    (hs : ¬ StoresIntoFull s data.length) (hd : ¬ DropsInVain s data.length) : Outcome s data :=
  Outcome.of_failed heq herr ⟨es, h.setOverflow o⟩
    (iff_of_true (h.sameStored (h.setOverflow o) rfl rfl rfl rfl) ⟨hs, hd⟩)

/-- In append mode a push fails before anything changes. -/
theorem Books.outcome_append (h : Books s es) {data : List UInt8} (hne : data.length ≠ 0)
    (happend : s.mAppendMode_B = true) : Outcome s data := by
  have hs : ¬ StoresIntoFull s data.length := fun hs => Bool.false_ne_true (hs.append.symm.trans happend)
  have hd : ¬ DropsInVain s data.length := fun hd => Bool.false_ne_true (hd.append.symm.trans happend)
  cases henough : (s.enoughSpace data.length).1 with
  | true =>
    have hpush := pushBuffer_store hne (Prod.ext henough rfl)
    rcases h.storeBuffer_append happend (s.enoughSpace data.length).2 data with ⟨s', heq, hbooks⟩ | heq
    · exact Outcome.of_done (hpush.trans heq) ⟨es, hbooks⟩ hs hd
    · exact h.outcome_refused (hpush.trans heq) BofErr.noConfusion hs hd
  | false => exact h.outcome_refused (pushBuffer_append_refused hne henough happend) BofErr.noConfusion hs hd

/-- The space test passes: without a free entry the push fails, and has stored the bytes if the entry to push could take
them. -/
theorem Books.outcome_enough (h : Books s es) {data : List UInt8} (hne : data.length ≠ 0)
    (happend : s.mAppendMode_B = false) (henough : (s.enoughSpace data.length).1 = true) : Outcome s data := by
  obtain ⟨hroom, hdefault⟩ := (enoughSpace_iff happend data.length).mp henough
  have hpush := pushBuffer_store hne (Prod.ext henough rfl)
  have hd : ¬ DropsInVain s data.length := fun hd => hd.room hroom
  by_cases hfull : es.length = s.mRawCircularBufferParam_X.NbMaxBufferEntry_U32
  · have hmode : s.mSlotSize_U32 ≠ 0 ∨ s.mRawCircularBufferParam_X.AlwaysContiguous_B = true := by
      by_contra hmode
      rw [not_or, not_not, Bool.not_eq_true] at hmode
      exact Bool.false_ne_true ((hdefault hmode.1 hmode.2).symm.trans (h.isFull_iff.mpr hfull))
    obtain ⟨s', heq, hbooks, hiff⟩ := h.storeBuffer_full happend hfull (s.enoughSpace data.length).2 hne
    refine Outcome.of_failed (hpush.trans heq) BofErr.noConfusion ⟨es, hbooks⟩ (hiff.trans ?_)
    rw [and_iff_left hd]
    have hjump := enoughSpace_snd_ne_zero hroom.1 hmode
    refine not_congr ⟨fun ht => ⟨happend, h.isFull_iff.mpr hfull, hmode, Or.inl hroom, ?_⟩, fun hs => ⟨hroom.1, ?_⟩⟩
    · exact ht.2.imp_right (Or.imp_left hjump.mp)
    · exact hs.fits.imp_right (Or.imp_left hjump.mpr)
  · have hlt := Nat.lt_of_le_of_ne h.length_le hfull
    obtain ⟨s', es', heq, hbooks⟩ := h.storeBuffer_room happend hlt (s.enoughSpace data.length).2 data
    exact Outcome.of_done (hpush.trans heq) ⟨es', hbooks⟩ (fun hs => hfull (h.isFull_iff.mp hs.full)) hd

/-- The space test fails, and nothing may be dropped. -/
theorem Books.outcome_short (h : Books s es) {data : List UInt8} (hne : data.length ≠ 0)
    (henough : (s.enoughSpace data.length).1 = false) (ho : s.mRawCircularBufferParam_X.Overwrite_B = false) :
    Outcome s data := by
  refine h.outcome_refused (pushBuffer_refused hne henough ho) BofErr.noConfusion (fun hs => ?_) (fun hd => ?_)
  · obtain ⟨-, ho', -⟩ := hs.wraps henough
    exact Bool.false_ne_true (ho.symm.trans ho')
  · exact Bool.false_ne_true (ho.symm.trans hd.overwrite)

/-- The overwrite mode with slots: the oldest entry makes room, unless there is none. -/
theorem Books.outcome_slot (h : Books s es) {data : List UInt8} (hne : data.length ≠ 0)
    (happend : s.mAppendMode_B = false) (henough : (s.enoughSpace data.length).1 = false)
    (ho : s.mRawCircularBufferParam_X.Overwrite_B = true) (h0 : s.mSlotSize_U32 ≠ 0) : Outcome s data := by
  have hs : ¬ StoresIntoFull s data.length := fun hs => h0 (hs.wraps henough).1
  have hd : ¬ DropsInVain s data.length := fun hd => h0 hd.slot
  by_cases hfit : data.length ≤ s.mSlotSize_U32
  · have hroom : s.makeRoom data.length (s.enoughSpace data.length).2 =
        ((dropOldestSlot { s with mOverflow_B := true }).1, true, (s.enoughSpace data.length).2,
          (dropOldestSlot { s with mOverflow_B := true }).2) := by
      simp only [makeRoom, if_pos h0, if_pos hfit]
    have hpush := pushBuffer_makeRoom hne henough happend ho hroom
    cases es with
    | nil =>
      rw [(h.setOverflow true).dropOldestSlot_nil, if_neg BofErr.noConfusion] at hpush
      exact h.outcome_refused hpush BofErr.noConfusion hs hd
    | cons e es =>
      obtain ⟨s1, hdrop, hbooks, hsame, happend1⟩ := (h.setOverflow true).dropOldestSlot_cons h0
      have hlt : es.length < s1.mRawCircularBufferParam_X.NbMaxBufferEntry_U32 := by
        have hle := h.length_le
        rw [List.length_cons] at hle
        rw [hsame.param]
        exact hle
      obtain ⟨s', es', hstore, hbooks'⟩ := hbooks.storeBuffer_room (happend1.trans happend) hlt
        (s.enoughSpace data.length).2 data
      rw [hdrop, if_pos rfl, hstore] at hpush
      exact Outcome.of_done hpush ⟨es', hbooks'⟩ hs hd
  · have hroom : s.makeRoom data.length (s.enoughSpace data.length).2 =
        (s, false, (s.enoughSpace data.length).2, .noError) := by
      simp only [makeRoom, if_pos h0, if_neg hfit]
    exact h.outcome_refused (pushBuffer_over_refused hne henough happend ho hroom) BofErr.noConfusion hs hd

theorem sameStored_setOverflow {s' : RawCircularBuffer} (b : Bool) :
    SameStored { s with mOverflow_B := b } s' ↔ SameStored s s' :=
  ⟨fun h => ⟨h.entries, h.nbElement, h.remain, h.head, h.to_push⟩,
    fun h => ⟨h.entries, h.nbElement, h.remain, h.head, h.to_push⟩⟩

/-- Where the space test fails without slots, a buffer that is not too big has no room at the head. -/
theorem Books.upToTheEnd_lt (h : Books s es) {nb : Nat} (happend : s.mAppendMode_B = false)
    (henough : (s.enoughSpace nb).1 = false) (h0 : s.mSlotSize_U32 = 0) (hnb : nb ≤ s.mCrtBufferRemain_U32)
    (hcont : s.mRawCircularBufferParam_X.AlwaysContiguous_B = true) :
    s.upToTheEnd < nb ∧ s.mpCrtBufferHead_U8 ≠ 0 := by
  have hlt : s.upToTheEnd < nb := by
    by_contra hle
    have htrue := (enoughSpace_iff happend nb).mpr ⟨⟨hnb, fun hslot => absurd h0 hslot,
      fun _ _ => Or.inl (Nat.not_lt.mp hle)⟩, fun _ hcont' => absurd (hcont'.symm.trans hcont) Bool.false_ne_true⟩
    exact Bool.false_ne_true (henough.symm.trans htrue)
  refine ⟨hlt, fun hhead => ?_⟩
  have hup : s.upToTheEnd = s.size := by
    rw [upToTheEnd, hhead]
    exact u32Sub_of_le (Nat.zero_le _)
  have hsum := h.sum_le h0
  omega

/-- A push into a full buffer that gets round the failed space test wants nothing to be dropped. -/
theorem Books.wantedSize_eq_zero (h : Books s es) {nb : Nat} (henough : (s.enoughSpace nb).1 = false)
    (hs : StoresIntoFull s nb) : wantedSize s nb = 0 := by
  obtain ⟨h0, -, hnb, hwraps⟩ := hs.wraps henough
  have hcont := hs.mode.resolve_left (not_not.mpr h0)
  obtain ⟨-, hhead⟩ := h.upToTheEnd_lt hs.append henough h0 hnb hcont
  rw [wantedSize, if_pos ⟨hcont, hhead⟩, hwraps]
  rfl

/-- The overwrite mode without slots has to find room for `nb` bytes, which the storage can hold. -/
structure WantsRoom (s : RawCircularBuffer) (nb : Nat) : Prop where
  pos : nb ≠ 0
  append : s.mAppendMode_B = false
  short : (s.enoughSpace nb).1 = false
  overwrite : s.mRawCircularBufferParam_X.Overwrite_B = true
  slot : s.mSlotSize_U32 = 0
  size : nb ≤ s.size

/-- Nothing is dropped, but the bytes are stored. -/
theorem Books.storesIntoFull_iff (h : Books s es) {nb : Nat} (hw : WantsRoom s nb) (hfull : s.isFull = true)
    (hwanted : wantedSize s nb = 0) :
    StoresIntoFull s nb ↔ nb ≤ s.mCrtBufferRemain_U32 ∧ Takes s (unusedSize s) nb := by
  obtain ⟨hcont, hhead, hu32⟩ : s.mRawCircularBufferParam_X.AlwaysContiguous_B = true ∧ s.mpCrtBufferHead_U8 ≠ 0 ∧
      u32 (nb + s.upToTheEnd) = 0 := by
    unfold wantedSize at hwanted
    split_ifs at hwanted with hc
    · exact ⟨hc.1, hc.2, hwanted⟩
    · exact absurd hwanted hw.pos
  have hsize := s.size_lt
  have hle := hw.size
  have hpos := hw.pos
  have hup : s.upToTheEnd < 4294967296 := u32Sub_lt hsize _
  rw [u32_eq_mod] at hu32
  have hwraps : nb + s.upToTheEnd = 4294967296 := by omega
  constructor
  · intro hs
    refine ⟨(hs.wraps hw.short).2.2.1, Or.inr (Or.inl ?_)⟩
    rw [unusedSize, if_pos hcont]
    omega
  · rintro ⟨hnb, -⟩
    obtain ⟨hlt, -⟩ := h.upToTheEnd_lt hw.append hw.short hw.slot hnb hcont
    exact ⟨hw.append, hfull, Or.inr hcont, Or.inr ⟨hw.slot, hw.overwrite, hnb, hwraps⟩,
      Or.inr (Or.inl ⟨hw.slot, by omega, hlt⟩)⟩

/-- Without slots, dropping entries is in vain if they do not have the bytes wanted. -/
theorem Books.dropsInVain (h : Books s es) {nb : Nat} (hw : WantsRoom s nb) (hne : es ≠ [])
    (hlt : s.mCrtBufferRemain_U32 + (es.map entrySize).sum < wantedSize s nb) : DropsInVain s nb := by
  refine ⟨hw.append, hw.overwrite, hw.slot, ?_, hw.size, fun hroom => ?_, ?_⟩
  · rw [h.entries_eq]
    exact hne
  · -- only the number of entries could have failed the space test, and that is not looked at in contiguous mode
    have hnot := mt (enoughSpace_iff hw.append nb).mpr (Bool.eq_false_iff.mp hw.short)
    have hcont : s.mRawCircularBufferParam_X.AlwaysContiguous_B = false := by
      by_contra hcont
      exact hnot ⟨hroom, fun _ hfalse => absurd hfalse hcont⟩
    have hwanted : wantedSize s nb = nb := if_neg fun hc => Bool.false_ne_true (hcont.symm.trans hc.1)
    have hnb := hroom.1
    omega
  · rw [h.entries_eq]
    exact hlt

/-- A push into a buffer without entries neither finds it full nor has anything to drop. -/
theorem Books.not_halfDone_nil (h : Books s []) (nb : Nat) : ¬ StoresIntoFull s nb ∧ ¬ DropsInVain s nb :=
  ⟨fun hs => absurd (h.isFull_iff.mp hs.full) (Nat.ne_of_lt h.nbMax_pos), fun hd => hd.entries h.entries_eq⟩

/-- What the overwrite mode drops, and then the buffer is stored if that has not failed. -/
theorem WantsRoom.pushBuffer_eq {data : List UInt8} (hw : WantsRoom s data.length) :
    s.pushBuffer (some data) =
      if (dropOldest { s with mOverflow_B := true } data.length (unusedSize s)).2 = .noError then
        (dropOldest { s with mOverflow_B := true } data.length (unusedSize s)).1.storeBuffer (unusedSize s) data
      else dropOldest { s with mOverflow_B := true } data.length (unusedSize s) := by
  have hunused : (if s.mRawCircularBufferParam_X.AlwaysContiguous_B then u32Sub s.size s.mpCrtBufferHead_U8
      else (s.enoughSpace data.length).2) = unusedSize s := by
    unfold unusedSize
    split
    · rfl
    · rename_i hcont
      exact (enoughSpace_snd data.length).2.1 (Bool.eq_false_iff.mpr hcont)
  have hmake : s.makeRoom data.length (s.enoughSpace data.length).2 =
      ((dropOldest { s with mOverflow_B := true } data.length (unusedSize s)).1, true, unusedSize s,
        (dropOldest { s with mOverflow_B := true } data.length (unusedSize s)).2) := by
    simp only [makeRoom, if_neg (not_not.mpr hw.slot), if_pos hw.size, hunused]
  exact pushBuffer_makeRoom hw.pos hw.short hw.append hw.overwrite hmake

/-- Nothing is dropped, since the number of bytes wanted wraps to 0. -/
theorem Books.outcome_wraps (h : Books s es) {data : List UInt8} (hw : WantsRoom s data.length)
    (hwanted : wantedSize s data.length = 0)
    (hpush : s.pushBuffer (some data) = storeBuffer { s with mOverflow_B := true } (unusedSize s) data) :
    Outcome s data := by
  have hd : ¬ DropsInVain s data.length := fun hd => by
    have hlt := hd.wanted
    rw [hwanted] at hlt
    exact absurd hlt (Nat.not_lt_zero _)
  by_cases hfull : es.length = s.mRawCircularBufferParam_X.NbMaxBufferEntry_U32
  · obtain ⟨s', hstore, hbooks, hiff⟩ := (h.setOverflow true).storeBuffer_full hw.append hfull (unusedSize s) hw.pos
    have hstores := h.storesIntoFull_iff hw (h.isFull_iff.mpr hfull) hwanted
    rw [sameStored_setOverflow] at hiff
    refine Outcome.of_failed (hpush.trans hstore) BofErr.noConfusion ⟨es, hbooks⟩ (hiff.trans ?_)
    rw [and_iff_left hd, hstores]
    exact Iff.rfl
  · have hlt := Nat.lt_of_le_of_ne h.length_le hfull
    obtain ⟨s', es', hstore, hbooks⟩ := (h.setOverflow true).storeBuffer_room hw.append hlt (unusedSize s) data
    exact Outcome.of_done (hpush.trans hstore) ⟨es', hbooks⟩ (fun hs => hfull (h.isFull_iff.mp hs.full)) hd

/-- Entries are dropped: the push then succeeds, or it fails because all of them were not enough. -/
theorem Books.outcome_recover (h : Books s es) {data : List UInt8} (hw : WantsRoom s data.length) (hes : es ≠ [])
    (hwanted : wantedSize s data.length ≠ 0)
    (hdrop : dropOldest { s with mOverflow_B := true } data.length (unusedSize s) =
      recover (es.length + 1) (wantedSize s data.length) { s with mOverflow_B := true }) : Outcome s data := by
  have hpush := hw.pushBuffer_eq
  have hs : ¬ StoresIntoFull s data.length := fun hs => hwanted (h.wantedSize_eq_zero hw.short hs)
  obtain ⟨s1, k, hbooks, hk, hsame, happend, ⟨hrec, hle⟩ | ⟨hrec, hall, hlt⟩⟩ :=
    (h.setOverflow true).recover_cons hw.slot hes (Nat.lt_succ_self es.length) (wantedSize s data.length)
  · have hroom : (es.drop k).length < s1.mRawCircularBufferParam_X.NbMaxBufferEntry_U32 := by
      have hlen := h.length_le
      have hpos := List.length_pos_iff.mpr hes
      rw [hsame.param, List.length_drop]
      show _ < s.mRawCircularBufferParam_X.NbMaxBufferEntry_U32
      omega
    obtain ⟨s', es', hstore, hbooks'⟩ := hbooks.storeBuffer_room (happend.trans hw.append) hroom (unusedSize s) data
    rw [hdrop, hrec, if_pos rfl] at hpush
    exact Outcome.of_done (hpush.trans hstore) ⟨es', hbooks'⟩ hs fun hd => by
      have hlt := hd.wanted
      rw [h.entries_eq] at hlt
      exact absurd hle (Nat.not_le.mpr hlt)
  · -- the entries are gone
    rw [hdrop, hrec, if_neg BofErr.noConfusion] at hpush
    refine Outcome.of_failed hpush BofErr.noConfusion ⟨_, hbooks⟩ (iff_of_false (fun hsame => ?_) fun hnot =>
      hnot.2 (h.dropsInVain hw hes hlt))
    have hcount := hsame.nbElement
    rw [hbooks.ring.count_eq, h.ring.count_eq, hall] at hcount
    exact hes (List.eq_nil_of_length_eq_zero hcount.symm)

/-- The overwrite mode without slots, for a buffer that is not too big. -/
theorem Books.outcome_wantsRoom (h : Books s es) {data : List UInt8} (hw : WantsRoom s data.length) :
    Outcome s data := by
  have hpush := hw.pushBuffer_eq
  have hdrop := (h.setOverflow true).dropOldest_eq hw.pos hw.size
  have hunused : unusedSize { s with mOverflow_B := true } = unusedSize s := rfl
  have hwanted' : wantedSize { s with mOverflow_B := true } data.length = wantedSize s data.length := rfl
  rw [hunused, hwanted'] at hdrop
  by_cases hempty : unusedSize s ≠ 0 ∧ es = []
  · obtain ⟨-, rfl⟩ := id hempty
    obtain ⟨hs, hd⟩ := h.not_halfDone_nil data.length
    obtain ⟨s', es', hstore, hbooks⟩ := (h.setOverflow false).storeBuffer_room hw.append h.nbMax_pos (unusedSize s) data
    rw [hdrop, if_pos hempty, if_pos rfl] at hpush
    exact Outcome.of_done (hpush.trans hstore) ⟨es', hbooks⟩ hs hd
  · rw [if_neg hempty] at hdrop
    by_cases hwanted : wantedSize s data.length = 0
    · rw [hdrop, if_neg (not_not.mpr hwanted), if_pos rfl] at hpush
      exact h.outcome_wraps hw hwanted hpush
    · rw [if_pos hwanted] at hdrop
      by_cases hes : es = []
      · subst hes
        obtain ⟨hs, hd⟩ := h.not_halfDone_nil data.length
        rw [hdrop, (h.setOverflow true).recover_nil, if_neg BofErr.noConfusion] at hpush
        exact h.outcome_refused hpush BofErr.noConfusion hs hd
      · exact h.outcome_recover hw hes hwanted hdrop

/-- The overwrite mode without slots. -/
theorem Books.outcome_bytes (h : Books s es) {data : List UInt8} (hne : data.length ≠ 0)
    (happend : s.mAppendMode_B = false) (henough : (s.enoughSpace data.length).1 = false)
    (ho : s.mRawCircularBufferParam_X.Overwrite_B = true) (h0 : s.mSlotSize_U32 = 0) : Outcome s data := by
  by_cases hfit : data.length ≤ s.size
  · exact h.outcome_wantsRoom ⟨hne, happend, henough, ho, h0, hfit⟩
  · obtain ⟨up, hroom⟩ : ∃ up, s.makeRoom data.length (s.enoughSpace data.length).2 = (s, false, up, .noError) := by
      simp only [makeRoom, if_neg (not_not.mpr h0), if_neg hfit]
      exact ⟨_, rfl⟩
    refine h.outcome_refused (pushBuffer_over_refused hne henough happend ho hroom) BofErr.noConfusion (fun hs => ?_)
      (fun hd => hfit hd.size)
    have hnb := (hs.wraps henough).2.2.1
    have hsum := h.sum_le h0
    omega

/-- Every push. -/
theorem Books.outcome (h : Books s es) {data : List UInt8} (hne : data.length ≠ 0) : Outcome s data := by
  cases happend : s.mAppendMode_B with
  | true => exact h.outcome_append hne happend
  | false =>
    cases henough : (s.enoughSpace data.length).1 with
    | true => exact h.outcome_enough hne happend henough
    | false =>
      cases ho : s.mRawCircularBufferParam_X.Overwrite_B with
      | false => exact h.outcome_short hne henough ho
      | true =>
        by_cases h0 : s.mSlotSize_U32 = 0
        · exact h.outcome_bytes hne happend henough ho h0
        · exact h.outcome_slot hne happend henough ho h0

/-! ## The other calls -/

/-- The entry that the inner buffer shows is the oldest one. -/
theorem Books.oldest_eq (h : Books s es) : s.oldest = es.head? := by
  obtain ⟨-, hcases⟩ := h.ring.inv.peek_cases
  rcases hcases with ⟨-, hdata, hnil⟩ | ⟨e, es', hout, hcons, -⟩
  · rw [h.ring.items] at hnil
    rw [oldest, hdata, show es = [] from hnil]
    rfl
  · rw [h.ring.items] at hcons
    rw [oldest, hout, show es = e :: es' from hcons]
    rfl

theorem entrySize_consume {e : RawBuffer} {nb : Nat} (hnb : nb ≤ entrySize e) :
    entrySize (consume e nb) + nb = entrySize e := by
  have hrest := unreadSize_consume_eq e nb
  have h1 : entrySize (consume e nb) = u32 (unreadSize (consume e nb)) := rfl
  have h2 : entrySize e = u32 (unreadSize e) := rfl
  rw [h1, hrest, h2, u32_eq_mod, u32_eq_mod]
  rw [h2, u32_eq_mod] at hnb
  omega

/-- The entries after a read of at most `n` bytes. -/
def restEntries (n : Nat) : List RawBuffer → List RawBuffer
  | [] => []
  | e :: es => if entrySize e > n then consume e n :: es else es

/-- The bytes of this read. -/
def firstBytes (s : RawCircularBuffer) (n : Nat) : List RawBuffer → List UInt8
  | [] => []
  | e :: _ => (content s e).take (if entrySize e > n then n else entrySize e)

/-- The oldest entry has been replaced. -/
theorem Books.replace_oldest {e e' : RawBuffer} (h : Books s (e :: es)) {remain : Nat} (hlt : remain < 4294967296)
    (hle : s.mSlotSize_U32 = 0 → remain + entrySize e' ≤ s.mCrtBufferRemain_U32 + entrySize e) :
    Books { s.setOldest e' with mCrtBufferRemain_U32 := remain } (e' :: es) := by
  refine ⟨h.ring.setOldest _, h.slot_lt, h.size_pos, hlt, h.index_lt, fun h0 => ?_⟩
  have hsum := h.sum_le h0
  have hle' := hle h0
  rw [List.map_cons, List.sum_cons] at hsum ⊢
  show remain + _ + entrySize s.mRawBufferToPush_X ≤ s.size
  omega

/-- A read of a part or of all the bytes of the oldest entry. -/
theorem Books.afterRead {e : RawBuffer} (h : Books s (e :: es)) {nb : Nat} (hnb : nb ≤ entrySize e) (isPartial : Bool) :
    Books ((s.setOldest (consume e nb)).afterRead true isPartial nb).1 (if isPartial then consume e nb :: es else es) ∧
    ((s.setOldest (consume e nb)).afterRead true isPartial nb).1.mpData_U8 = s.mpData_U8 := by
  have hle : u32 (s.mCrtBufferRemain_U32 + nb) ≤ s.mCrtBufferRemain_U32 + nb := by
    rw [u32_eq_mod]
    exact Nat.mod_le _ _
  have hrest := entrySize_consume hnb
  have hread : Books { s.setOldest (consume e nb) with mCrtBufferRemain_U32 := u32 (s.mCrtBufferRemain_U32 + nb) }
      (consume e nb :: es) := h.replace_oldest (u32_lt _) fun _ => by omega
  cases isPartial with
  | true => exact ⟨hread, rfl⟩
  | false =>
    obtain ⟨herr, hdata, hring⟩ := hread.skip_cons true
    have herr' : ((s.setOldest (consume e nb)).mpuBufferCollection.skip true).2.err = .noError := herr
    have hdata' : ((s.setOldest (consume e nb)).mpuBufferCollection.skip true).2.data = some (consume e nb) := hdata
    simp only [RawCircularBuffer.afterRead, herr', hdata']
    rw [if_neg Bool.false_ne_true, if_pos trivial, if_neg Bool.false_ne_true]
    split_ifs with h0
    · exact ⟨hread.drop_oldest hring (u32_lt _) fun h0' => absurd h0' h0, rfl⟩
    · exact ⟨hread.drop_oldest hring (u32_lt _) fun _ => Nat.le_add_right _ _, rfl⟩

/-- `PopBuffer` with a limit. -/
theorem Books.popBuffer_some (h : Books s es) {n : Nat} (hn : n ≠ 0) :
    Books (s.popBuffer (some n) true).1 (restEntries n es) ∧
    (s.popBuffer (some n) true).1.mpData_U8 = s.mpData_U8 ∧
    (s.popBuffer (some n) true).2.data = firstBytes s n es := by
  cases es with
  | nil =>
    obtain ⟨-, ⟨herr, -, -⟩ | ⟨e, es', -, hcons, -⟩⟩ := h.ring.inv.peek_cases
    · rw [RawCircularBuffer.popBuffer, popOrPeekBuffer]
      dsimp only
      rw [if_pos ⟨hn, rfl⟩, herr]
      exact ⟨h, rfl, rfl⟩
    · rw [h.ring.items] at hcons
      exact absurd hcons (List.cons_ne_nil _ _).symm
  | cons e es =>
    have hle : (if entrySize e > n then n else entrySize e) ≤ entrySize e := by
      split <;> omega
    obtain ⟨hbooks, hdata⟩ := h.afterRead hle (entrySize e > n)
    have hrest : (if decide (entrySize e > n) then consume e (if entrySize e > n then n else entrySize e) :: es else es) =
        restEntries n (e :: es) := by
      by_cases hpart : entrySize e > n
      · simp [restEntries, hpart]
      · simp [restEntries, hpart]
    rw [hrest] at hbooks
    rw [RawCircularBuffer.popBuffer, popOrPeekBuffer_some h.oldest_eq true hn rfl]
    exact ⟨hbooks, hdata, rfl⟩

theorem Books.popBuffer (h : Books s es) (pNbMax : Option Nat) (pData : Bool) :
    ∃ es', Books (s.popBuffer pNbMax pData).1 es' := by
  by_cases hok : ∃ n, pNbMax = some n ∧ n ≠ 0 ∧ pData = true
  · obtain ⟨n, rfl, hn, rfl⟩ := hok
    exact ⟨_, (h.popBuffer_some hn).1⟩
  · have heq : s.popBuffer pNbMax pData = (s, { err := .einval }) :=
      popBuffer_einval fun n hn hne hp => hok ⟨n, hn, hne, hp⟩
    rw [heq]
    exact ⟨es, h⟩

theorem Books.setAppend (h : Books s es) (b : Bool) : Books { s with mAppendMode_B := b } es :=
  ⟨h.ring, h.slot_lt, h.size_pos, h.remain_lt, h.index_lt, h.sum_le⟩

theorem Books.setAppendMode (h : Books s es) (append : Bool) : ∃ es', Books (s.setAppendMode append).1 es' := by
  unfold RawCircularBuffer.setAppendMode
  split_ifs with hleave
  · by_cases hfull : es.length = s.mRawCircularBufferParam_X.NbMaxBufferEntry_U32
    · obtain ⟨s', -, hpush, hbooks, -⟩ := h.pushRawBuffer_full hfull
      rw [hpush]
      exact ⟨es, hbooks.setAppend append⟩
    · obtain ⟨s', hpush, hbooks⟩ := h.pushRawBuffer_room (Nat.lt_of_le_of_ne h.length_le hfull)
      rw [hpush]
      exact ⟨_, hbooks.setAppend append⟩
  · exact ⟨es, h.setAppend append⟩

theorem Books.reset (h : Books s es) : Books s.reset [] :=
  ⟨⟨h.ring.inv.reset, h.ring.mode, h.ring.capacity, h.ring.overwrite, rfl⟩, h.slot_lt, h.size_pos, s.size_lt,
    Nat.zero_lt_succ 4294967295, fun _ => Nat.le_refl _⟩

/-- Every call keeps the books. -/
theorem Books.step (h : Books s es) (op : Op) (hop : StoreCall op) : ∃ es', Books (step s op).1 es' := by
  cases op with
  | pushBuffer pData =>
    cases pData with
    | none => exact ⟨es, h⟩
    | some data =>
      by_cases hne : data.length = 0
      · rw [RawCircularBuffer.step, pushBuffer, if_pos hne]
        exact ⟨es, h⟩
      · exact (h.outcome hne).books
  | popBuffer pNbMax pData => exact h.popBuffer pNbMax pData
  | setAppendMode append => exact h.setAppendMode append
  | reset => exact ⟨[], h.reset⟩
  | peek | getBufferPtr | skip | setOverWriteMode => exact absurd hop id

/-- After any sequence of calls, a `PushBuffer` has no effect if it fails exactly if it neither stores into a full buffer
nor drops entries in vain. -/
theorem rawCircularBuffer_failsCleanly_iff (param : RawCircularBufferParam) (pData : Nat → UInt8)
    (pEntry : Nat → RawBuffer) (hB : 0 < param.BufferSizeInByte_U32) (hN : 0 < param.NbMaxBufferEntry_U32)
    (ops : List Op) (hops : ∀ op ∈ ops, StoreCall op) (data : Option (List UInt8)) :
    FailsCleanly (Machine.run step (create param pData pEntry) ops).1 data ↔
      NotHalfDone (Machine.run step (create param pData pEntry) ops).1 data := by
  obtain ⟨es, h⟩ := Machine.inv_run (P := fun s => ∃ es, Books s es) (fun s op ⟨es, h⟩ hop => h.step op hop.2)
    ⟨[], books_create hB hN pData pEntry⟩
    (Machine.meets_and (Machine.meets_of_forall (fun _ _ => (trivial : True)) _ ops) hops)
  cases data with
  | none =>
    exact iff_of_true (fun _ => h.sameStored h rfl rfl rfl rfl) trivial
  | some data =>
    by_cases hne : data.length = 0
    · have hpush : ∀ s : RawCircularBuffer, s.pushBuffer (some data) = (s, .einval) := fun s => if_pos hne
      refine iff_of_true (fun _ => ?_) (Or.inl hne)
      rw [hpush]
      exact h.sameStored h rfl rfl rfl rfl
    · exact (h.outcome hne).clean.trans (or_iff_right hne).symm

/-- In the default mode a buffer that is too big is refused before anything happens. -/
theorem failsCleanly_too_big :
    FailsCleanly (Machine.run step (create ⟨8, by decide, false, false, 2, by decide, false, false⟩ (fun _ => 0)
      (fun _ => {})) [.pushBuffer (some [1, 2, 3])]).1 (some [4, 5, 6, 7, 8, 9]) :=
  (rawCircularBuffer_failsCleanly_iff ⟨8, by decide, false, false, 2, by decide, false, false⟩ (fun _ => 0)
    (fun _ => {}) (by decide) (by decide) [.pushBuffer (some [1, 2, 3])]
    (fun op hop => by rw [List.mem_singleton.mp hop]; trivial) (some [4, 5, 6, 7, 8, 9])).mpr
    (Or.inr ⟨fun hs => hs.mode.elim (fun h => h rfl) Bool.noConfusion, fun hd => Bool.false_ne_true hd.overwrite⟩)

/-- In contiguous mode, a second buffer finds no entry but is stored; in overwrite mode the only buffer is dropped for one
that cannot be stored. -/
theorem not_failsCleanly_full_or_vain :
    ¬ FailsCleanly (Machine.run step (create ⟨10, by decide, false, true, 1, by decide, false, false⟩ (fun _ => 0)
      (fun _ => {})) [.pushBuffer (some [1, 2, 3])]).1 (some [4, 5, 6]) ∧
    ¬ FailsCleanly (Machine.run step (create ⟨10, by decide, false, true, 2, by decide, true, false⟩ (fun _ => 0)
      (fun _ => {})) [.pushBuffer (some [1, 2, 3, 4, 5, 6])]).1 (some [1, 2, 3, 4, 5, 6, 7]) := by
  refine ⟨fun h => ?_, fun h => ?_⟩
  · exact absurd (h (by decide)).remain (by decide)
  · exact absurd (h (by decide)).nbElement (by decide)

end RawCircularBuffer

end BofStd
