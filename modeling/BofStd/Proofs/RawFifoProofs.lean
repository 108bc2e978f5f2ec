import BofStd.RawCallSpec
import BofStd.Proofs.RawCircularBufferProofs

/-!
# `Peek` of `BofRawCircularBuffer`

`Peek` shares its routine with `PopBuffer` and takes the bytes that it returns out of the oldest entry, so that it
leaves things as they are only when there is nothing to take. This needs no invariant.
-/

namespace BofStd.RawCircularBuffer

open Memory CircularBuffer

variable {s : RawCircularBuffer}

/-- What the inner buffer returns of its oldest entry, if it returns one. -/
theorem ring_peek_cases (r : CircularBuffer RawBuffer) :
    (r.peek.2.err ≠ .noError ∧ r.peek.2.data = none) ∨
      r.peek.2 = { err := .noError, index := some r.mPopIndex_U32, data := some (r.mpData_T r.mPopIndex_U32) } := by
  unfold CircularBuffer.peek
  split_ifs
  · exact Or.inr rfl
  · exact Or.inl ⟨BofErr.noConfusion, rfl⟩
  · exact Or.inl ⟨BofErr.noConfusion, rfl⟩

/-- Without an entry to look at, `PopBuffer` and `Peek` change nothing. -/
theorem popOrPeekBuffer_none (h : s.oldest = none) (isPop : Bool) (n : Nat) :
    (s.popOrPeekBuffer isPop (some n) true).1 = s := by
  rw [popOrPeekBuffer]
  dsimp only
  split_ifs
  · split
    · rename_i e herr hdata
      exact absurd (hdata.symm.trans h) (Option.some_ne_none e)
    · rfl
  · rfl

/-- With an entry, the read consumes it in place. -/
theorem popOrPeekBuffer_some {e : RawBuffer} (h : s.oldest = some e) (isPop : Bool) {n nb : Nat} (hn : n ≠ 0)
    (hnb : nb = if u32 (unreadSize e) > n then n else u32 (unreadSize e)) :
    s.popOrPeekBuffer isPop (some n) true =
      (((s.setOldest (consume e nb)).afterRead isPop (u32 (unreadSize e) > n) nb).1,
        { err := ((s.setOldest (consume e nb)).afterRead isPop (u32 (unreadSize e) > n) nb).2
          nbMax := nb
          data := (content s e).take nb }) := by
  have herr : s.mpuBufferCollection.peek.2.err = .noError := by
    rcases ring_peek_cases s.mpuBufferCollection with ⟨-, hnone⟩ | hsome
    · exact absurd (h.symm.trans hnone) (Option.some_ne_none e)
    · rw [hsome]
  have hle : u32 (unreadSize e) ≤ unreadSize e := by
    rw [u32_eq_mod]
    exact Nat.mod_le _ _
  have hread : readSize1 e nb + readSize2 e nb = nb := by
    rw [readSize1_eq, readSize2_eq]
    unfold unreadSize at hnb hle
    split_ifs at hnb <;> omega
  rw [popOrPeekBuffer]
  dsimp only
  rw [if_pos ⟨hn, rfl⟩, herr, show s.mpuBufferCollection.peek.2.data = some e from h]
  dsimp only
  rw [show e.Size1_U32 + e.Size2_U32 = unreadSize e from rfl, ← hnb, hread, readBytes_eq, content, List.map_take]

/-- The oldest entry is the one at the pop index. -/
theorem oldest_eq_some {e : RawBuffer} (h : s.oldest = some e) :
    s.mpuBufferCollection.nbReady ≠ 0 ∧
    s.mpuBufferCollection.mpLock_U8 s.mpuBufferCollection.mPopIndex_U32 = false ∧
    s.mpuBufferCollection.mpData_T s.mpuBufferCollection.mPopIndex_U32 = e := by
  unfold oldest CircularBuffer.peek at h
  split_ifs at h with hr hl
  · exact ⟨hr, hl, Option.some.inj h⟩

/-- What the inner buffer shows when an element is ready. -/
theorem ring_peek_ready {r : CircularBuffer RawBuffer} (hr : r.nbReady ≠ 0)
    (hl : r.mpLock_U8 r.mPopIndex_U32 = false) : r.peek.2.data = some (r.mpData_T r.mPopIndex_U32) := by
  rw [CircularBuffer.peek, if_pos hr, if_pos hl]

/-- The entry that the inner buffer shows after the oldest one has been changed in place. -/
theorem oldest_setOldest {e : RawBuffer} (h : s.oldest = some e) (e' : RawBuffer) :
    (s.setOldest e').oldest = some e' := by
  obtain ⟨hr, hl, -⟩ := oldest_eq_some h
  have hpeek := ring_peek_ready (r := (s.setOldest e').mpuBufferCollection) hr hl
  rw [oldest, hpeek]
  exact congrArg some (Function.update_self _ _ _)

theorem setOldest_self {e : RawBuffer} (h : s.oldest = some e) : s.setOldest e = s := by
  obtain ⟨-, -, hdata⟩ := oldest_eq_some h
  rw [setOldest, ← hdata, Function.update_eq_self]

/-- Reading nothing leaves the entry as it is. -/
theorem consume_zero (e : RawBuffer) : consume e 0 = e := by
  have hmap : ∀ p : Option Nat, p.map (fun a => a + 0) = p := fun p => by cases p <;> rfl
  simp only [consume, readSize1_eq, readSize2_eq, Nat.zero_min, Nat.zero_sub, Nat.sub_zero, hmap]

/-- The number of unread bytes goes down by those that are read. -/
theorem unreadSize_consume_eq (e : RawBuffer) (nb : Nat) : unreadSize (consume e nb) = unreadSize e - nb := by
  simp only [unreadSize, consume, readSize1_eq, readSize2_eq]
  omega

/-- After the read, `Peek` changes the free bytes at most. -/
theorem afterRead_peek (s : RawCircularBuffer) (isPartial : Bool) (nb : Nat) :
    (s.afterRead false isPartial nb).2 = .noError ∧ (s.afterRead false isPartial nb).1.oldest = s.oldest := by
  cases isPartial with
  | false => exact ⟨rfl, rfl⟩
  | true => exact ⟨rfl, rfl⟩

/-- What `Peek` returns and leaves behind when there is an entry. -/
theorem peek_some {e : RawBuffer} (h : s.oldest = some e) {n : Nat} (hn : n ≠ 0) :
    (s.peek (some n) true).2 =
      { err := .noError, nbMax := min n (u32 (unreadSize e)), data := (content s e).take (min n (u32 (unreadSize e))) } ∧
    (s.peek (some n) true).1.oldest = some (consume e (min n (u32 (unreadSize e)))) := by
  have hnb : min n (u32 (unreadSize e)) = if u32 (unreadSize e) > n then n else u32 (unreadSize e) := by
    split_ifs <;> omega
  obtain ⟨herr, hold⟩ := afterRead_peek (s.setOldest (consume e (min n (u32 (unreadSize e)))))
    (decide (u32 (unreadSize e) > n)) (min n (u32 (unreadSize e)))
  rw [peek, popOrPeekBuffer_some h false hn hnb, herr, hold]
  exact ⟨rfl, oldest_setOldest h _⟩

/-- A `PopBuffer` whose limit is the size of the oldest entry returns all of it. -/
theorem popBuffer_whole_size {e : RawBuffer} (h : s.oldest = some e) {n : Nat} (hn : n ≠ 0)
    (hle : u32 (unreadSize e) ≤ n) : (s.popBuffer (some n) true).2.nbMax = u32 (unreadSize e) := by
  rw [popBuffer, popOrPeekBuffer_some h true hn (if_neg (Nat.not_lt.mpr hle)).symm]

/-- In every state, and for every limit: `Peek` changes nothing exactly if there is nothing to peek. -/
theorem rawCircularBuffer_peeksOnly_iff (s : RawCircularBuffer) (n : Nat) (hn : 1 ≤ n) :
    PeeksOnly s n ↔ NothingToPeek s := by
  constructor
  · intro h e he
    by_contra hne
    obtain ⟨hout, hnext⟩ := peek_some he (n := n) (by omega)
    -- the size is that of a `uint32_t`, so that something is read
    have hsize : min n (unreadSize e) = min n (u32 (unreadSize e)) := by
      have hnbMax := congrArg RawOut.nbMax (h.bytes e he)
      rw [hout] at hnbMax
      exact hnbMax.symm
    have hpos : u32 (unreadSize e) ≠ 0 := by omega
    have hle : u32 (unreadSize e) ≤ unreadSize e := by
      rw [u32_eq_mod]
      exact Nat.mod_le _ _
    have hpop := congrArg RawOut.nbMax (h.popBuffer (some (u32 (unreadSize e))) true)
    have hrest : u32 (unreadSize (consume e (min n (u32 (unreadSize e))))) =
        u32 (unreadSize e) - min n (u32 (unreadSize e)) := by
      rw [unreadSize_consume_eq, u32_eq_mod, u32_eq_mod]
      rw [u32_eq_mod] at hpos
      omega
    rw [popBuffer_whole_size he hpos le_rfl, popBuffer_whole_size hnext hpos (by omega), hrest] at hpop
    omega
  · intro h
    have hsame : (s.peek (some n) true).1 = s := by
      cases he : s.oldest with
      | none => exact popOrPeekBuffer_none he false n
      | some e =>
        have hnone : 0 = if u32 (unreadSize e) > n then n else u32 (unreadSize e) := by
          rw [h e he]
          rfl
        rw [peek, popOrPeekBuffer_some he false (by omega) hnone, consume_zero, setOldest_self he, h e he]
        rfl
    refine ⟨?_, fun _ _ => by rw [hsame], by rw [hsame], by rw [hsame]⟩
    intro e he
    have hnil : content s e = [] := List.eq_nil_of_length_eq_zero (by rw [content, List.length_map, length_cells, h e he])
    rw [(peek_some he (by omega)).1, h e he, hnil, List.take_nil, List.take_nil]
    rfl

/-- After a first `Peek` of a whole entry there is nothing left to take. -/
theorem peeksOnly_after_peek :
    PeeksOnly (Machine.run step (create ⟨8, by decide, false, false, 2, by decide, false, false⟩ (fun _ => 0)
      (fun _ => {})) [.pushBuffer (some [1, 2, 3]), .peek (some 3) true]).1 3 := by
  refine (rawCircularBuffer_peeksOnly_iff _ _ (by decide)).mpr ?_
  intro e he
  rw [← Option.some.inj he]
  rfl

/-- The bytes that `Peek` returns are gone. -/
theorem not_peeksOnly_three_bytes :
    ¬ PeeksOnly (Machine.run step (create ⟨8, by decide, false, false, 2, by decide, false, false⟩ (fun _ => 0)
      (fun _ => {})) [.pushBuffer (some [1, 2, 3])]).1 3 := by
  intro h
  have hpop := congrArg RawOut.nbMax (h.popBuffer (some 3) true)
  exact absurd hpop (by decide)

end BofStd.RawCircularBuffer

/-!
# `BofRawCircularBuffer`: the default mode

In the default mode the unread bytes of all the entries, taken in order, are one circular window of the
storage that ends at the head (`FifoRel`). A push that is cut by the end of the storage keeps this only
if its two halves are equal, because the head is then set to the size of the first one. The last run is
one where they are not, and the next push damages the unread bytes.
-/

namespace BofStd.RawCircularBuffer

open Memory Machine Cut

variable {s : RawCircularBuffer} {es : List RawBuffer} {param : RawCircularBufferParam} {a : Nat}

/-- The unread bytes of the entries lie in a circular window that starts at `a` and ends at the head. -/
structure FifoRel (param : RawCircularBufferParam) (s : RawCircularBuffer) (es : List RawBuffer)
    (a : Nat) : Prop where
  base : Base s es
  param_eq : s.mRawCircularBufferParam_X = param
  slot : s.mSlotSize_U32 = 0
  layout : es.flatMap cells = circ s.size id a (es.flatMap cells).length
  head : s.mpCrtBufferHead_U8 = (a + (es.flatMap cells).length) % s.size

theorem content_congr {s' : RawCircularBuffer} {e : RawBuffer}
    (h : ∀ c ∈ cells e, s'.mpData_U8 c = s.mpData_U8 c) : content s' e = content s e :=
  List.map_congr_left h

theorem map_content_congr {s' : RawCircularBuffer}
    (h : ∀ c ∈ es.flatMap cells, s'.mpData_U8 c = s.mpData_U8 c) :
    es.map (content s') = es.map (content s) := by
  refine List.map_congr_left fun e he => content_congr fun c hc => ?_
  exact h c (List.mem_flatMap.mpr ⟨e, he, hc⟩)

/-- Without padding, the unread bytes and the free bytes fill the storage. -/
theorem Base.length_cells (h : Base s es) (h0 : s.mSlotSize_U32 = 0) :
    (es.flatMap cells).length + s.mCrtBufferRemain_U32 = s.size := by
  have hlen : (es.flatMap cells).length = (es.map usedSize).sum := by
    rw [List.length_flatMap]
    congr 1
    refine List.map_congr_left fun e he => ?_
    rw [RawCircularBuffer.length_cells, usedSize, h.padding h0 e he, Nat.add_zero]
  have hrem := h.remain
  omega

theorem FifoRel.nodup (h : FifoRel param s es a) : (es.flatMap cells).Nodup := by
  have hlen := h.base.length_cells h.slot
  rw [h.layout]
  exact nodup_circ_id (by omega)

theorem disjointRegions_of_nodup (h : Base s es) (hnd : (es.flatMap cells).Nodup) :
    DisjointRegions s := by
  rw [DisjointRegions, h.entries_eq]
  exact (List.nodup_flatMap.mp hnd).2

/-- A write that covers none of the cells of the entries. -/
theorem write_of_not_mem {mem : Nat → UInt8} {i : Nat} {data : List UInt8} {c : Nat}
    (h : c ∉ List.range' i data.length) : write mem i data c = mem c := by
  apply write_of_outside
  rw [List.mem_range'_1] at h
  omega

/-! ## Pushing -/

/-- A new entry whose cells are apart from the others leaves their contents alone. -/
theorem map_content_append {s' : RawCircularBuffer} {e : RawBuffer} {data : List UInt8}
    (hnd : ((es ++ [e]).flatMap cells).Nodup)
    (hmem : ∀ c, c ∉ cells e → s'.mpData_U8 c = s.mpData_U8 c)
    (hdata : (cells e).map s'.mpData_U8 = data) :
    (es ++ [e]).map (content s') = es.map (content s) ++ [data] := by
  rw [List.flatMap_append, List.flatMap_singleton, List.nodup_append] at hnd
  rw [List.map_append, List.map_singleton, map_content_congr (s := s)]
  · rw [content, hdata]
  · intro c hc
    exact hmem c fun hc' => hnd.2.2 c hc c hc' rfl

/-- Storing a buffer in one piece, outside of slot mode. -/
theorem Base.store_linear (h : Base s es) (h0 : s.mSlotSize_U32 = 0) {sizeUpToTheEnd i : Nat}
    {data : List UInt8} (hi : startIndex s sizeUpToTheEnd = i)
    (hroom : es.length < s.mRawCircularBufferParam_X.NbMaxBufferEntry_U32)
    (hnb : data.length ≤ s.mCrtBufferRemain_U32) (hend : i + data.length ≤ s.size) :
    ∃ s' e, s.storeBuffer sizeUpToTheEnd data = (s', .noError) ∧ SameSetup s s' ∧
      Base s' (es ++ [e]) ∧ s'.mpCrtBufferHead_U8 = wrapHead s.size (i + data.length) ∧
      e.pData1_U8 = some i ∧ e.Size1_U32 = data.length ∧ e.Size2_U32 = 0 ∧
      (∀ c, c ∉ cells e → s'.mpData_U8 c = s.mpData_U8 c) ∧
      (cells e).map s'.mpData_U8 = data := by
  have hsize := s.size_lt
  have hpos := Nat.zero_lt_of_lt h.head_lt
  have hlin : u32 (startIndex s sizeUpToTheEnd + data.length) ≤ s.size := by
    rw [hi, u32_of_lt (by omega)]
    exact hend
  obtain ⟨s', heq, hsame, hmem, hhead, hbase⟩ := h.storeBuffer_eq
    (h.update_linear sizeUpToTheEnd hnb hlin) hroom hnb (wrapHead_lt hpos _) rfl rfl
    ⟨⟨_, rfl⟩, fun hne => absurd rfl hne⟩ (fun hne => absurd h0 hne)
  rw [hi] at hmem hhead hbase
  rw [h0, Nat.zero_sub, Nat.add_zero] at hhead
  have hwrap : wrapHead s.size (wrapHead s.size (i + data.length)) =
      wrapHead s.size (i + data.length) := by
    have hlt := wrapHead_lt hpos (i + data.length)
    rw [wrapHead, if_neg (by omega)]
  have hcells : cells { emptyEntry i with
      SlotEmpySpace_U32 := s.mSlotSize_U32 - data.length, Size1_U32 := data.length } =
      List.range' i data.length := by
    simp [cells, emptyEntry]
  refine ⟨s', _, heq, hsame, hbase, hhead.trans hwrap, rfl, rfl, rfl, ?_, ?_⟩
  · intro c hc
    rw [hcells] at hc
    rw [hmem, write_of_not_mem hc]
  · rw [hcells, ← read_eq_map, hmem, read_write_self]

/-- What the storing of a buffer has to provide: its cells continue the window, they hold the bytes, and
no other cell has changed. -/
theorem FifoRel.append (h : FifoRel param s es a) {s' : RawCircularBuffer} {e : RawBuffer}
    {data : List UInt8} (hbase : Base s' (es ++ [e])) (hsame : SameSetup s s')
    (hcells : cells e = circ s.size id s.mpCrtBufferHead_U8 data.length)
    (hhead : s'.mpCrtBufferHead_U8 = (s.mpCrtBufferHead_U8 + data.length) % s.size)
    (hmem : ∀ c, c ∉ cells e → s'.mpData_U8 c = s.mpData_U8 c)
    (hdata : (cells e).map s'.mpData_U8 = data) :
    FifoRel param s' (es ++ [e]) a ∧ (es ++ [e]).map (content s') = es.map (content s) ++ [data] := by
  have hsize := hsame.size
  have hlen : (cells e).length = data.length := by rw [hcells, length_circ]
  have hflat : (es ++ [e]).flatMap cells = es.flatMap cells ++ cells e := by
    rw [List.flatMap_append, List.flatMap_singleton]
  have hrel : FifoRel param s' (es ++ [e]) a := by
    refine ⟨hbase, hsame.param.trans h.param_eq, hsame.slot.trans h.slot, ?_, ?_⟩
    · rw [hflat, hsize, List.length_append, hlen, circ_add, ← h.layout, hcells, h.head, circ_mod]
    · rw [hflat, hsize, List.length_append, hlen, hhead, h.head, Nat.mod_add_mod, Nat.add_assoc]
  exact ⟨hrel, map_content_append hrel.nodup hmem hdata⟩

/-- Storing a buffer that ends at or before the end of the storage. -/
theorem FifoRel.store_linear (h : FifoRel param s es a) {data : List UInt8}
    (hroom : es.length < s.mRawCircularBufferParam_X.NbMaxBufferEntry_U32)
    (hnb : data.length ≤ s.mCrtBufferRemain_U32)
    (hend : s.mpCrtBufferHead_U8 + data.length ≤ s.size) :
    ∃ s' e, s.storeBuffer 0 data = (s', .noError) ∧ FifoRel param s' (es ++ [e]) a ∧
      (es ++ [e]).map (content s') = es.map (content s) ++ [data] := by
  obtain ⟨s', e, heq, hsame, hbase, hhead, hp, h1, h2, hmem, hdata⟩ :=
    h.base.store_linear h.slot (show startIndex s 0 = s.mpCrtBufferHead_U8 from rfl) hroom hnb hend
  refine ⟨s', e, heq, h.append hbase hsame ?_ ?_ hmem hdata⟩
  · rw [circ_id_eq_range' hend, cells, hp, h1, h2]
    simp
  · rw [hhead, wrapHead]
    by_cases hfull : s.mpCrtBufferHead_U8 + data.length = s.size
    · rw [hfull, Nat.mod_self, if_pos (Nat.le_refl _)]
    · rw [if_neg (by omega), Nat.mod_eq_of_lt (by omega)]

/-- Storing a buffer that is cut by the end of the storage in two equal halves. -/
theorem FifoRel.store_split (h : FifoRel param s es a) {data : List UInt8}
    (hroom : es.length < s.mRawCircularBufferParam_X.NbMaxBufferEntry_U32)
    (hnb : data.length ≤ s.mCrtBufferRemain_U32)
    (hend : s.size < s.mpCrtBufferHead_U8 + data.length)
    (hhalf : data.length = 2 * (s.size - s.mpCrtBufferHead_U8))
    (hlt : s.mpCrtBufferHead_U8 + data.length < 4294967296) :
    ∃ s' e, s.storeBuffer 0 data = (s', .noError) ∧ FifoRel param s' (es ++ [e]) a ∧
      (es ++ [e]).map (content s') = es.map (content s) ++ [data] := by
  have hhead_lt := h.base.head_lt
  have hrem := h.base.remain_le
  have hpos := Nat.zero_lt_of_lt hhead_lt
  have hsum : s.size - s.mpCrtBufferHead_U8 +
      (data.length - (s.size - s.mpCrtBufferHead_U8)) = data.length := by omega
  obtain ⟨s', heq, hsame, hmem, hhead, hbase⟩ := h.base.storeBuffer_eq
    (h.base.update_split hnb hend hlt) hroom hnb (wrapHead_lt hpos _) rfl hsum
    ⟨⟨_, rfl⟩, fun _ => ⟨_, rfl⟩⟩ (fun h0 => absurd h.slot h0)
  generalize hgen : ({ emptyEntry s.mpCrtBufferHead_U8 with
      SlotEmpySpace_U32 := s.mSlotSize_U32 - data.length
      Size1_U32 := s.size - s.mpCrtBufferHead_U8
      pData2_U8 := some 0
      Size2_U32 := data.length - (s.size - s.mpCrtBufferHead_U8) } : RawBuffer) = e at hbase
  have hcells : cells e = List.range' s.mpCrtBufferHead_U8 (s.size - s.mpCrtBufferHead_U8) ++
      List.range' 0 (data.length - (s.size - s.mpCrtBufferHead_U8)) := by
    rw [← hgen]
    rfl
  have hlen1 : (data.take (s.size - s.mpCrtBufferHead_U8)).length =
      s.size - s.mpCrtBufferHead_U8 := by
    rw [List.length_take]
    omega
  have hlen2 : (data.drop (s.size - s.mpCrtBufferHead_U8)).length =
      data.length - (s.size - s.mpCrtBufferHead_U8) := List.length_drop
  have hhead' : s'.mpCrtBufferHead_U8 = (s.mpCrtBufferHead_U8 + data.length) % s.size := by
    rw [hhead, h.slot, Nat.zero_sub, Nat.add_zero, Nat.mod_eq_sub_mod (by omega),
      Nat.mod_eq_of_lt (by omega)]
    unfold wrapHead
    rw [if_neg (show ¬ s.size - s.mpCrtBufferHead_U8 ≥ s.size by omega), if_neg (by omega)]
    omega
  refine ⟨s', e, heq, h.append hbase hsame ?_ hhead' ?_ ?_⟩
  · rw [hcells, circ_id_eq_append (Nat.le_of_lt hhead_lt) (Nat.le_of_lt hend) (by omega)]
  · intro c hc
    rw [hcells, List.mem_append, not_or, ← hlen2] at hc
    rw [hmem, write_of_not_mem hc.2, write_of_not_mem (by rw [hlen1]; exact hc.1)]
  · rw [hcells, List.map_append, ← read_eq_map, ← read_eq_map, hmem]
    have h1 : read (write (write s.mpData_U8 s.mpCrtBufferHead_U8
        (data.take (s.size - s.mpCrtBufferHead_U8))) 0 (data.drop (s.size - s.mpCrtBufferHead_U8)))
        s.mpCrtBufferHead_U8 (s.size - s.mpCrtBufferHead_U8) =
        data.take (s.size - s.mpCrtBufferHead_U8) := by
      rw [read_write_of_disjoint _ _ _ (Or.inr (by rw [hlen2]; omega))]
      have hself := read_write_self s.mpData_U8 s.mpCrtBufferHead_U8
        (data.take (s.size - s.mpCrtBufferHead_U8))
      rw [hlen1] at hself
      exact hself
    rw [h1, ← hlen2, read_write_self, List.take_append_drop]

/-! ## Popping -/

/-- The first `n` unread bytes have been read: the window starts `n` cells further on. -/
theorem FifoRel.advance (h : FifoRel param s es a) {s' : RawCircularBuffer} {es' : List RawBuffer}
    (hbase : Base s' es') (hsame : SameSetup s s')
    (hhead : s'.mpCrtBufferHead_U8 = s.mpCrtBufferHead_U8) {n : Nat}
    (hn : n ≤ (es.flatMap cells).length)
    (hcells : es'.flatMap cells = (es.flatMap cells).drop n) : FifoRel param s' es' (a + n) := by
  have hlen : (es'.flatMap cells).length = (es.flatMap cells).length - n := by
    rw [hcells, List.length_drop]
  refine ⟨hbase, hsame.param.trans h.param_eq, hsame.slot.trans h.slot, ?_, ?_⟩
  · rw [hlen, hcells, hsame.size]
    conv_lhs => rw [h.layout]
    rw [drop_circ _ _ _ hn]
  · rw [hlen, hhead, hsame.size, h.head]
    congr 1
    omega

/-- A pop takes a piece of the oldest buffer, or all that is left of it. -/
theorem FifoRel.popBuffer {e : RawBuffer} (h : FifoRel param s (e :: es) a) {nbMax : Nat}
    (hnb : nbMax ≠ 0) :
    ∃ s' es' a', FifoRel param s' es' a' ∧
      ((∃ n, s.popBuffer (some nbMax) true =
          (s', { err := .noError, nbMax := n, data := content s e }) ∧
        es'.map (content s') = es.map (content s)) ∨
      ∃ piece rest, content s e = piece ++ rest ∧
        s.popBuffer (some nbMax) true = (s', { err := .noError, nbMax := nbMax, data := piece }) ∧
        es'.map (content s') = rest :: es.map (content s)) := by
  have hsum : ((e :: es).flatMap cells).length = unreadSize e + (es.flatMap cells).length := by
    rw [List.flatMap_cons, List.length_append, RawCircularBuffer.length_cells]
  by_cases hlt : nbMax < unreadSize e
  · obtain ⟨s', heq, hsame, hmem, hhead, hbase⟩ := h.base.popBuffer_part hnb hlt
    have hcons := cells_consume (h.base.pointers e List.mem_cons_self) nbMax
    have hcontent : content s' = content s := by
      funext f
      exact content_congr fun c _ => by rw [hmem]
    have hcells : (consume e nbMax :: es).flatMap cells = ((e :: es).flatMap cells).drop nbMax := by
      rw [List.flatMap_cons, List.flatMap_cons, hcons, List.drop_append_of_le_length]
      rw [RawCircularBuffer.length_cells]
      omega
    refine ⟨s', _, a + nbMax, h.advance hbase hsame hhead (by omega) hcells, Or.inr
      ⟨((cells e).take nbMax).map s.mpData_U8, ((cells e).drop nbMax).map s.mpData_U8, ?_, heq, ?_⟩⟩
    · rw [← List.map_append, List.take_append_drop]
      rfl
    · rw [hcontent, List.map_cons]
      congr 1
      rw [content, hcons]
  · obtain ⟨s', heq, hsame, hmem, hhead, hbase⟩ :=
      h.base.popBuffer_whole hnb (Nat.not_lt.mp hlt)
    have hcontent : content s' = content s := by
      funext f
      exact content_congr fun c _ => by rw [hmem]
    have hcells : es.flatMap cells = ((e :: es).flatMap cells).drop (unreadSize e) := by
      rw [List.flatMap_cons, ← RawCircularBuffer.length_cells e, List.drop_left]
    exact ⟨s', es, a + unreadSize e, h.advance hbase hsame hhead (by omega) hcells,
      Or.inl ⟨_, heq, by rw [hcontent]⟩⟩

/-! ## Runs -/

/-- One call: the pieces read stay a cutting of the accepted buffers. -/
theorem FifoRel.step (h : FifoRel param s es a) (hcont : param.AlwaysContiguous_B = false)
    (hover : param.Overwrite_B = false) (op : Op) (hcall : PushOrPop op)
    (hop : LeavesHeadRight s op) :
    ∃ es' a', FifoRel param (s.step op).1 es' a' ∧
      ∀ pieces acc, Cuts pieces acc (es.map (content s)) →
        Cuts (pieces ++ (poppedBytes (op, (s.step op).2)).toList)
          (acc ++ (acceptedBuffer (op, (s.step op).2)).toList) (es'.map (content (s.step op).1)) := by
  match op, hcall with
  | .pushBuffer none, _ =>
    exact ⟨es, a, h, fun pieces acc hcuts => by
      simpa [RawCircularBuffer.step, pushBuffer, poppedBytes, acceptedBuffer] using hcuts⟩
  | .pushBuffer (some data), _ =>
    have hover' : s.mRawCircularBufferParam_X.Overwrite_B = false := by rw [h.param_eq, hover]
    have hcont' : s.mRawCircularBufferParam_X.AlwaysContiguous_B = false := by
      rw [h.param_eq, hcont]
    by_cases hne : data.length = 0
    · have heq : s.pushBuffer (some data) = (s, .einval) := by simp [pushBuffer, hne]
      simp only [RawCircularBuffer.step, heq]
      exact ⟨es, a, h, fun pieces acc hcuts => by simpa [poppedBytes, acceptedBuffer] using hcuts⟩
    · have henough := enoughSpace_default h.base h.slot hcont' data.length
      by_cases hspace : data.length ≤ s.mCrtBufferRemain_U32 ∧
          es.length ≠ s.mRawCircularBufferParam_X.NbMaxBufferEntry_U32
      · have hroom : es.length < s.mRawCircularBufferParam_X.NbMaxBufferEntry_U32 :=
          Nat.lt_of_le_of_ne h.base.length_le hspace.2
        have hstore : ∃ s' e, s.storeBuffer 0 data = (s', .noError) ∧ FifoRel param s' (es ++ [e]) a ∧
            (es ++ [e]).map (content s') = es.map (content s) ++ [data] := by
          by_cases hend : s.mpCrtBufferHead_U8 + data.length ≤ s.size
          · exact h.store_linear hroom hspace.1 hend
          · simp only [LeavesHeadRight, henough, decide_eq_true hspace, h.base.to_push, emptyEntry]
              at hop
            obtain ⟨hhalf, hlt⟩ := (hop.resolve_left (by decide)).resolve_left hend
            exact h.store_split hroom hspace.1 (Nat.not_le.mp hend) hhalf hlt
        obtain ⟨s', e, heq, hrel, hmap⟩ := hstore
        have hpush : s.pushBuffer (some data) = (s', .noError) := by
          rw [pushBuffer_store hne (by rw [henough, decide_eq_true hspace]), heq]
        simp only [RawCircularBuffer.step, hpush]
        refine ⟨es ++ [e], a, hrel, fun pieces acc hcuts => ?_⟩
        rw [hmap]
        simpa [poppedBytes, acceptedBuffer] using hcuts.push data
      · have hpush := pushBuffer_refused hne (by rw [henough, decide_eq_false hspace]) hover'
        simp only [RawCircularBuffer.step, hpush]
        exact ⟨es, a, h, fun pieces acc hcuts => by simpa [poppedBytes, acceptedBuffer] using hcuts⟩
  | .popBuffer pNbMax pData, _ =>
    by_cases hvalid : ∃ nbMax, pNbMax = some nbMax ∧ nbMax ≠ 0 ∧ pData = true
    · obtain ⟨nbMax, rfl, hnb, rfl⟩ := hvalid
      cases es with
      | nil =>
        simp only [RawCircularBuffer.step, h.base.popBuffer_empty hnb]
        exact ⟨[], a, h, fun pieces acc hcuts => by simpa [poppedBytes, acceptedBuffer] using hcuts⟩
      | cons e es =>
        obtain ⟨s', es', a', hrel, ⟨n, heq, hmap⟩ | ⟨piece, rest, hsplit, heq, hmap⟩⟩ :=
          h.popBuffer hnb
        · simp only [RawCircularBuffer.step, heq]
          refine ⟨es', a', hrel, fun pieces acc hcuts => ?_⟩
          rw [hmap]
          simpa [poppedBytes, acceptedBuffer] using hcuts.whole
        · simp only [RawCircularBuffer.step, heq]
          refine ⟨es', a', hrel, fun pieces acc hcuts => ?_⟩
          rw [List.map_cons, hsplit] at hcuts
          rw [hmap]
          simpa [poppedBytes, acceptedBuffer] using hcuts.part
    · have heinval := popBuffer_einval (s := s) fun nbMax h1 h2 h3 => hvalid ⟨nbMax, h1, h2, h3⟩
      simp only [RawCircularBuffer.step, heinval]
      exact ⟨es, a, h, fun pieces acc hcuts => by simpa [poppedBytes, acceptedBuffer] using hcuts⟩

/-- In the default mode the buffer is a queue of bytes on every run whose pushes leave the head where
their last byte is. -/
theorem rawCircularBuffer_fifoOfBytes (param : RawCircularBufferParam) (pData : Nat → UInt8)
    (pEntry : Nat → RawBuffer) (hB : 0 < param.BufferSizeInByte_U32)
    (hN : 0 < param.NbMaxBufferEntry_U32) (hslot : param.SlotMode_B = false)
    (hcont : param.AlwaysContiguous_B = false) (hover : param.Overwrite_B = false) (ops : List Op)
    (hcalls : ∀ op ∈ ops, PushOrPop op)
    (hc : Meets step LeavesHeadRight (create param pData pEntry) ops) :
    FifoOfBytes param pData pEntry ops := by
  have hcreate : FifoRel param (create param pData pEntry) [] 0 := by
    refine ⟨base_create param pData pEntry hB hN, rfl, ?_, rfl, ?_⟩
    · show (if param.SlotMode_B then _ else 0) = 0
      rw [hslot]
      rfl
    · exact (Nat.zero_mod _).symm
  have hrun := inv_history (P := fun hist s => ∃ es a, FifoRel param s es a ∧
      Cuts (hist.filterMap poppedBytes) (hist.filterMap acceptedBuffer) (es.map (content s)))
    (fun hist s op hs hop => by
      obtain ⟨es, a, hrel, hcuts⟩ := hs
      obtain ⟨es', a', hrel', hcuts'⟩ := hrel.step hcont hover op hop.2 hop.1
      refine ⟨es', a', hrel', ?_⟩
      rw [List.filterMap_append, List.filterMap_append, filterMap_singleton, filterMap_singleton]
      exact hcuts' _ _ hcuts)
    (h := []) ⟨[], 0, hcreate, cuts_nil⟩ (meets_and hc hcalls)
  rw [List.nil_append] at hrun
  obtain ⟨es, a, hrel, hcuts⟩ := hrun
  exact ⟨⟨_, hcuts.flatten_eq.symm⟩, ⟨_, hcuts⟩, disjointRegions_of_nodup hrel.base hrel.nodup⟩

/-- Ten bytes: a buffer is cut in two equal halves by the end and read in two pieces. -/
theorem fifoOfBytes_ten_bytes :
    FifoOfBytes ⟨10, by decide, false, false, 3, by decide, false, false⟩ (fun _ => 0) (fun _ => {})
      [.pushBuffer (some [1, 2, 3, 4, 5, 6, 7]), .popBuffer (some 9) true,
        .pushBuffer (some [8, 9, 10, 11, 12, 13]), .popBuffer (some 4) true,
        .pushBuffer (some [14, 15]), .popBuffer (some 4) true, .popBuffer (some 4) true] :=
  rawCircularBuffer_fifoOfBytes _ _ _ (by decide) (by decide) rfl rfl rfl _ (by simp [PushOrPop])
    ⟨Or.inr (Or.inl (by decide)), trivial, Or.inr (Or.inr (by decide)), trivial,
      Or.inr (Or.inl (by decide)), trivial, trivial, trivial⟩

/-- Ten bytes: after a buffer that is cut into one byte and four, the head is 1 instead of 4, and the
next buffer is written over three unread bytes. -/
theorem not_fifoOfBytes_of_split :
    ¬ FifoOfBytes ⟨10, by decide, false, false, 3, by decide, false, false⟩ (fun _ => 0) (fun _ => {})
      [.pushBuffer (some [1, 2, 3, 4, 5, 6, 7, 8, 9]), .popBuffer (some 9) true,
        .pushBuffer (some [10, 11, 12, 13, 14]), .pushBuffer (some [15, 16, 17]),
        .popBuffer (some 9) true] :=
  fun h => absurd h.bytes (by decide)

end BofStd.RawCircularBuffer
