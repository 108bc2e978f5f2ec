import BofStd.Proofs.RawFailureProofs

/-!
# `BofRawCircularBuffer`: the append mode

An entry grows piece by piece. As long as each piece ends before the end of the storage the pieces lie one behind the
other (`growAll_part1`); the piece that is cut by the end is right if those before it were (`appendToEntry_cut`). What
comes behind it goes to a wrong place.
-/

namespace BofStd.RawCircularBuffer

open Memory CircularBuffer

variable {s t : RawCircularBuffer} {es : List RawBuffer}

/-! ## One piece -/

/-- Adding bytes to the entry to push leaves the rest alone. -/
theorem appendToEntry_same (s : RawCircularBuffer) (data : List UInt8) :
    SameSetup s (s.appendToEntry data).1 ∧ (s.appendToEntry data).1.mpuBufferCollection = s.mpuBufferCollection ∧
    (s.appendToEntry data).1.mAppendMode_B = s.mAppendMode_B := by
  unfold appendToEntry
  dsimp only
  split_ifs <;> exact ⟨⟨rfl, rfl⟩, rfl, rfl⟩

/-- A piece behind the first part. -/
theorem appendToEntry_part1 (data : List UInt8) (h2 : s.mRawBufferToPush_X.Size2_U32 = 0)
    (hend : s.mRawBufferToPush_X.IndexInBuffer_U32 + data.length ≤ s.size)
    (hlt : s.mRawBufferToPush_X.IndexInBuffer_U32 + s.mRawBufferToPush_X.Size1_U32 + data.length < 4294967296) :
    (s.appendToEntry data).1.mpData_U8 =
      write s.mpData_U8 (s.mRawBufferToPush_X.IndexInBuffer_U32 + s.mRawBufferToPush_X.Size1_U32) data ∧
    (s.appendToEntry data).1.mRawBufferToPush_X =
      { s.mRawBufferToPush_X with Size1_U32 := s.mRawBufferToPush_X.Size1_U32 + data.length } := by
  have hsize := s.size_lt
  have hindex : u32 (s.mRawBufferToPush_X.IndexInBuffer_U32 + data.length) =
      s.mRawBufferToPush_X.IndexInBuffer_U32 + data.length := u32_of_lt (by omega)
  have hplace : u32 (s.mRawBufferToPush_X.IndexInBuffer_U32 + s.mRawBufferToPush_X.Size1_U32) =
      s.mRawBufferToPush_X.IndexInBuffer_U32 + s.mRawBufferToPush_X.Size1_U32 := u32_of_lt (by omega)
  have hgrown : u32 (s.mRawBufferToPush_X.Size1_U32 + data.length) = s.mRawBufferToPush_X.Size1_U32 + data.length :=
    u32_of_lt (by omega)
  unfold appendToEntry appendPart1
  dsimp only
  rw [if_neg (not_not.mpr h2), if_neg (by omega), hplace, hgrown]
  exact ⟨rfl, rfl⟩

/-- A piece that is cut by the end of the storage. -/
theorem appendToEntry_cut (data : List UInt8) (nb1 : Nat) (h2 : s.mRawBufferToPush_X.Size2_U32 = 0)
    (hend : s.size < s.mRawBufferToPush_X.IndexInBuffer_U32 + data.length)
    (hlt : s.mRawBufferToPush_X.IndexInBuffer_U32 + data.length < 4294967296)
    (hnb1 : s.mRawBufferToPush_X.IndexInBuffer_U32 + s.mRawBufferToPush_X.Size1_U32 + nb1 = s.size) :
    (s.appendToEntry data).1.mpData_U8 =
      write (write s.mpData_U8 (s.mRawBufferToPush_X.IndexInBuffer_U32 + s.mRawBufferToPush_X.Size1_U32)
        (data.take nb1)) 0 (data.drop nb1) ∧
    (s.appendToEntry data).1.mRawBufferToPush_X =
      { s.mRawBufferToPush_X with
        Size1_U32 := s.size - s.mRawBufferToPush_X.IndexInBuffer_U32
        pData2_U8 := some 0
        Size2_U32 := data.length - nb1 } := by
  have hsize := s.size_lt
  have hindex : u32 (s.mRawBufferToPush_X.IndexInBuffer_U32 + data.length) =
      s.mRawBufferToPush_X.IndexInBuffer_U32 + data.length := u32_of_lt hlt
  have hplace : u32 (s.mRawBufferToPush_X.IndexInBuffer_U32 + s.mRawBufferToPush_X.Size1_U32) =
      s.mRawBufferToPush_X.IndexInBuffer_U32 + s.mRawBufferToPush_X.Size1_U32 := u32_of_lt (by omega)
  have hnb1' : u32Sub s.size (s.mRawBufferToPush_X.IndexInBuffer_U32 + s.mRawBufferToPush_X.Size1_U32) = nb1 := by
    rw [u32Sub_of_le (by omega)]
    omega
  have hnb2 : u32Sub data.length nb1 = data.length - nb1 := u32Sub_of_le (by omega)
  have hsize1 : u32Sub s.size s.mRawBufferToPush_X.IndexInBuffer_U32 =
      s.size - s.mRawBufferToPush_X.IndexInBuffer_U32 := u32Sub_of_le (by omega)
  have htake : (data.drop nb1).take (data.length - nb1) = data.drop nb1 := by
    rw [← List.length_drop, List.take_length]
  unfold appendToEntry splitAtEnd
  dsimp only
  rw [if_neg (not_not.mpr h2), if_pos (by omega), hplace, hnb1', hnb2, hsize1, htake]
  exact ⟨rfl, rfl⟩

/-- A piece behind the second part: it is refused, or goes to an offset counted from the start of the entry. -/
theorem appendToEntry_part2 (data : List UInt8) (h2 : s.mRawBufferToPush_X.Size2_U32 ≠ 0)
    (hlt : s.mRawBufferToPush_X.IndexInBuffer_U32 + s.mRawBufferToPush_X.Size2_U32 + data.length < 4294967296) :
    s.appendToEntry data = (s, .einval) ∨
    ((s.appendToEntry data).1.mpData_U8 =
        write s.mpData_U8 (s.mRawBufferToPush_X.IndexInBuffer_U32 + s.mRawBufferToPush_X.Size2_U32) data ∧
      (s.appendToEntry data).1.mRawBufferToPush_X =
        { s.mRawBufferToPush_X with Size2_U32 := s.mRawBufferToPush_X.Size2_U32 + data.length }) := by
  have hplace : u32 (s.mRawBufferToPush_X.IndexInBuffer_U32 + s.mRawBufferToPush_X.Size2_U32) =
      s.mRawBufferToPush_X.IndexInBuffer_U32 + s.mRawBufferToPush_X.Size2_U32 := u32_of_lt (by omega)
  have hgrown : u32 (s.mRawBufferToPush_X.Size2_U32 + data.length) = s.mRawBufferToPush_X.Size2_U32 + data.length :=
    u32_of_lt (by omega)
  unfold appendToEntry appendPart2
  dsimp only
  rw [if_pos h2, hplace, hgrown]
  split
  · exact Or.inr ⟨rfl, rfl⟩
  · exact Or.inl rfl

/-- A cell that has a value keeps it when only that value is written. -/
theorem write_const {mem : Nat → UInt8} {v : UInt8} {c : Nat} (hc : mem c = v) (a : Nat) {data : List UInt8}
    (hdata : ∀ x ∈ data, x = v) : write mem a data c = v := by
  induction data generalizing mem a with
  | nil => exact hc
  | cons x data ih =>
    obtain ⟨hx, hrest⟩ := List.forall_mem_cons.mp hdata
    refine ih ?_ (a + 1) hrest
    by_cases hca : c = a
    · rw [hca, Function.update_self, hx]
    · rw [Function.update_of_ne hca, hc]

theorem appendToEntry_const {data : List UInt8} {v : UInt8} {c : Nat} (hc : s.mpData_U8 c = v)
    (hdata : ∀ x ∈ data, x = v) : (s.appendToEntry data).1.mpData_U8 c = v := by
  unfold appendToEntry
  dsimp only
  split_ifs
  · exact write_const hc _ hdata
  · exact hc
  · refine write_const (write_const hc _ fun x hx => hdata x (List.mem_of_mem_take hx)) 0 fun x hx => ?_
    exact hdata x (List.mem_of_mem_drop (List.mem_of_mem_take hx))
  · exact write_const hc _ hdata

/-! ## All the pieces -/

/-- The buffer after the pieces have been added to the entry to push; an empty piece is not looked at. -/
def growAll (s : RawCircularBuffer) : List (List UInt8) → RawCircularBuffer
  | [] => s
  | data :: pieces => growAll (if data.length = 0 then s else (s.appendToEntry data).1) pieces

theorem growAll_append (s : RawCircularBuffer) (pieces pieces' : List (List UInt8)) :
    s.growAll (pieces ++ pieces') = (s.growAll pieces).growAll pieces' := by
  induction pieces generalizing s with
  | nil => rfl
  | cons data pieces ih => exact ih _

theorem growAll_same (s : RawCircularBuffer) (pieces : List (List UInt8)) :
    SameSetup s (s.growAll pieces) ∧ (s.growAll pieces).mpuBufferCollection = s.mpuBufferCollection ∧
    (s.growAll pieces).mAppendMode_B = s.mAppendMode_B := by
  induction pieces generalizing s with
  | nil => exact ⟨⟨rfl, rfl⟩, rfl, rfl⟩
  | cons data pieces ih =>
    rw [growAll]
    split_ifs
    · exact ih s
    · obtain ⟨hsetup, hring, happend⟩ := appendToEntry_same s data
      obtain ⟨hsetup', hring', happend'⟩ := ih (s.appendToEntry data).1
      exact ⟨⟨hsetup'.param.trans hsetup.param, hsetup'.slot.trans hsetup.slot⟩, hring'.trans hring,
        happend'.trans happend⟩

/-- Empty pieces change nothing. -/
theorem growAll_empty {pieces : List (List UInt8)} (h : ∀ data ∈ pieces, data.length = 0) : s.growAll pieces = s := by
  induction pieces with
  | nil => rfl
  | cons data pieces ih =>
    obtain ⟨hdata, hrest⟩ := List.forall_mem_cons.mp h
    rw [growAll, if_pos hdata, ih hrest]

/-- Pieces that end before the end of the storage lie one behind the other. -/
theorem growAll_part1 (pieces : List (List UInt8)) (h2 : s.mRawBufferToPush_X.Size2_U32 = 0)
    (hend : ∀ data ∈ pieces, s.mRawBufferToPush_X.IndexInBuffer_U32 + data.length ≤ s.size)
    (hlt : s.mRawBufferToPush_X.IndexInBuffer_U32 + s.mRawBufferToPush_X.Size1_U32 + pieces.flatten.length <
      4294967296) :
    (s.growAll pieces).mpData_U8 =
      write s.mpData_U8 (s.mRawBufferToPush_X.IndexInBuffer_U32 + s.mRawBufferToPush_X.Size1_U32) pieces.flatten ∧
    (s.growAll pieces).mRawBufferToPush_X =
      { s.mRawBufferToPush_X with Size1_U32 := s.mRawBufferToPush_X.Size1_U32 + pieces.flatten.length } := by
  induction pieces generalizing s with
  | nil => exact ⟨rfl, rfl⟩
  | cons data pieces ih =>
    rw [List.forall_mem_cons] at hend
    rw [List.flatten_cons, List.length_append] at hlt
    rw [growAll, List.flatten_cons]
    split_ifs with hnil
    · rw [List.eq_nil_of_length_eq_zero hnil, List.nil_append]
      exact ih h2 hend.2 (by omega)
    · obtain ⟨hdata, hentry⟩ := appendToEntry_part1 data h2 hend.1 (by omega)
      have hsize := (appendToEntry_same s data).1.size
      have hih := ih (s := (s.appendToEntry data).1)
      rw [hdata, hentry, hsize] at hih
      obtain ⟨hdata', hentry'⟩ := hih h2 hend.2 (by dsimp only; omega)
      dsimp only at hdata' hentry'
      refine ⟨?_, ?_⟩
      · rw [hdata', write_append, Nat.add_assoc]
      · rw [hentry', List.length_append, Nat.add_assoc]

/-- Behind a cut the second part grows, or does not, and the storage below the start of the entry stays as it is. -/
theorem growAll_part2 (pieces : List (List UInt8)) (h2 : s.mRawBufferToPush_X.Size2_U32 ≠ 0)
    (hlt : s.mRawBufferToPush_X.IndexInBuffer_U32 + s.mRawBufferToPush_X.Size2_U32 + pieces.flatten.length <
      4294967296) :
    (∀ c < s.mRawBufferToPush_X.IndexInBuffer_U32, (s.growAll pieces).mpData_U8 c = s.mpData_U8 c) ∧
    ∃ size2, size2 ≤ s.mRawBufferToPush_X.Size2_U32 + pieces.flatten.length ∧
      (s.growAll pieces).mRawBufferToPush_X = { s.mRawBufferToPush_X with Size2_U32 := size2 } := by
  induction pieces generalizing s with
  | nil => exact ⟨fun _ _ => rfl, s.mRawBufferToPush_X.Size2_U32, Nat.le_refl _, rfl⟩
  | cons data pieces ih =>
    rw [List.flatten_cons, List.length_append] at hlt ⊢
    rw [growAll]
    split_ifs with hnil
    · obtain ⟨hsame, size2, hle, hentry⟩ := ih h2 (by omega)
      exact ⟨hsame, size2, by omega, hentry⟩
    · rcases appendToEntry_part2 data h2 (by omega) with heq | ⟨hdata, hentry⟩
      · rw [heq]
        obtain ⟨hsame, size2, hle, hentry⟩ := ih h2 (by omega)
        exact ⟨hsame, size2, by omega, hentry⟩
      · have hih := ih (s := (s.appendToEntry data).1)
        rw [hdata, hentry] at hih
        obtain ⟨hsame, size2, hle, hentry'⟩ := hih (by dsimp only; omega) (by dsimp only; omega)
        dsimp only at hsame hle hentry'
        refine ⟨fun c hc => ?_, size2, by omega, hentry'⟩
        rw [hsame c hc]
        exact write_of_outside _ _ _ (Or.inl (by omega))

theorem growAll_const {pieces : List (List UInt8)} {v : UInt8} {c : Nat} (hc : s.mpData_U8 c = v)
    (hdata : ∀ x ∈ pieces.flatten, x = v) : (s.growAll pieces).mpData_U8 c = v := by
  induction pieces generalizing s with
  | nil => exact hc
  | cons data pieces ih =>
    rw [List.flatten_cons, List.forall_mem_append] at hdata
    rw [growAll]
    split_ifs
    · exact ih hc hdata.2
    · exact ih (appendToEntry_const hc hdata.1) hdata.2

/-- Either all the pieces would end before the end `B` of the storage if they started at `index`, or there is a first
one that would not. -/
theorem exists_cut (B index : Nat) (lengths : List Nat) :
    (∀ n ∈ lengths, index + n ≤ B) ∨
      ∃ pre n post, lengths = pre ++ n :: post ∧ (∀ m ∈ pre, index + m ≤ B) ∧ B < index + n := by
  induction lengths with
  | nil => exact Or.inl fun _ h => absurd h List.not_mem_nil
  | cons n lengths ih =>
    by_cases hn : index + n ≤ B
    · rcases ih with hall | ⟨pre, m, post, rfl, hpre, hm⟩
      · exact Or.inl (List.forall_mem_cons.mpr ⟨hn, hall⟩)
      · exact Or.inr ⟨n :: pre, m, post, rfl, List.forall_mem_cons.mpr ⟨hn, hpre⟩, hm⟩
    · exact Or.inr ⟨[], n, lengths, rfl, fun _ h => absurd h List.not_mem_nil, Nat.lt_of_not_le hn⟩

/-! ## The calls in the default mode -/

/-- A buffer in the default mode. -/
structure Default (s : RawCircularBuffer) (es : List RawBuffer) : Prop where
  books : Books s es
  slot : s.mSlotSize_U32 = 0
  contiguous : s.mRawCircularBufferParam_X.AlwaysContiguous_B = false
  overwrite : s.mRawCircularBufferParam_X.Overwrite_B = false

theorem Default.of_same {s' : RawCircularBuffer} {es' : List RawBuffer} (h : Default s es) (hs : SameSetup s s')
    (hbooks : Books s' es') : Default s' es' := by
  refine ⟨hbooks, hs.slot.trans h.slot, ?_, ?_⟩
  · rw [hs.param]
    exact h.contiguous
  · rw [hs.param]
    exact h.overwrite

theorem updatePushRawBuffer_zero {data : List UInt8} (hnb : data.length ≤ s.mCrtBufferRemain_U32) :
    s.updatePushRawBuffer 0 data = s.appendToEntry data := if_pos hnb

theorem Default.isFull_iff (h : Default s es) :
    s.isFull = false ↔ es.length < s.mRawCircularBufferParam_X.NbMaxBufferEntry_U32 := by
  have hle := h.books.length_le
  have hfull := h.books.isFull_iff
  rw [Bool.eq_false_iff, ne_eq, hfull]
  omega

theorem Default.enoughSpace_eq (h : Default s es) (nb : Nat) :
    s.enoughSpace nb = (decide (nb ≤ s.mCrtBufferRemain_U32 ∧ s.isFull = false), 0) := by
  by_cases hnb : nb ≤ s.mCrtBufferRemain_U32
  · simp [enoughSpace, h.slot, h.contiguous, hnb]
  · simp [enoughSpace, hnb]

/-- `PushBuffer` with a free entry and enough free bytes. -/
theorem Default.pushBuffer_eq (h : Default s es) (hfree : es.length < s.mRawCircularBufferParam_X.NbMaxBufferEntry_U32)
    {data : List UInt8} (hne : data.length ≠ 0) (hnb : data.length ≤ s.mCrtBufferRemain_U32) :
    s.pushBuffer (some data) =
      if s.mAppendMode_B then s.appendToEntry data else (s.appendToEntry data).1.pushRawBuffer := by
  have henough : s.enoughSpace data.length = (true, 0) := by
    rw [h.enoughSpace_eq, decide_eq_true ⟨hnb, h.isFull_iff.mpr hfree⟩]
  rw [pushBuffer_store hne henough, storeBuffer, updatePushRawBuffer_zero hnb]
  dsimp only
  rw [(appendToEntry_same s data).2.2]

theorem Books.appendToEntry (h : Books s es) (data : List UInt8) (hnb : data.length ≤ s.mCrtBufferRemain_U32) :
    Books (s.appendToEntry data).1 es ∧
    s.mCrtBufferRemain_U32 ≤ (s.appendToEntry data).1.mCrtBufferRemain_U32 + data.length := by
  rw [← updatePushRawBuffer_zero hnb]
  by_cases ht : Takes s 0 data.length
  · obtain ⟨s', heq, hstored⟩ := updatePushRawBuffer_takes hnb h.remain_lt h.index_lt ht
    rw [heq]
    refine ⟨hstored.books hnb h, ?_⟩
    have hremain := hstored.remain
    show _ ≤ s'.mCrtBufferRemain_U32 + _
    omega
  · rw [updatePushRawBuffer_refuses fun hboth => ht hboth.2]
    exact ⟨h, Nat.le_add_right _ _⟩

/-- The pieces pushed in append mode. -/
theorem Default.run_pieces (h : Default s es) (hfree : es.length < s.mRawCircularBufferParam_X.NbMaxBufferEntry_U32)
    (happend : s.mAppendMode_B = true) {pieces : List (List UInt8)}
    (hnb : pieces.flatten.length ≤ s.mCrtBufferRemain_U32) :
    (Machine.run step s (pieces.map fun data => .pushBuffer (some data))).1 = s.growAll pieces ∧
    Default (s.growAll pieces) es := by
  induction pieces generalizing s with
  | nil => exact ⟨rfl, h⟩
  | cons data pieces ih =>
    rw [List.flatten_cons, List.length_append] at hnb
    rw [List.map_cons, Machine.run_cons, growAll]
    by_cases hnil : data.length = 0
    · have hpush : s.pushBuffer (some data) = (s, .einval) := if_pos hnil
      have hrest : pieces.flatten.length ≤ s.mCrtBufferRemain_U32 := by omega
      rw [if_pos hnil, step, hpush]
      exact ih h hfree happend hrest
    · obtain ⟨hbooks, hremain⟩ := h.books.appendToEntry data (by omega)
      obtain ⟨hsetup, -, happend'⟩ := appendToEntry_same s data
      have hpush := h.pushBuffer_eq hfree hnil (by omega)
      have hfree' : es.length < (s.appendToEntry data).1.mRawCircularBufferParam_X.NbMaxBufferEntry_U32 := by
        rw [hsetup.param]
        exact hfree
      have hrest : pieces.flatten.length ≤ (s.appendToEntry data).1.mCrtBufferRemain_U32 := by omega
      rw [if_pos happend] at hpush
      rw [if_neg hnil, step, hpush]
      exact ih (h.of_same hsetup hbooks) hfree' (happend'.trans happend) hrest

/-! ## Reachable states -/

/-- The entry to push has no bytes. -/
def NothingPending (s : RawCircularBuffer) : Prop :=
  s.mRawBufferToPush_X.Size1_U32 = 0 ∧ s.mRawBufferToPush_X.Size2_U32 = 0

theorem startNextEntry_same (s : RawCircularBuffer) :
    SameSetup s s.startNextEntry ∧ s.startNextEntry.mpData_U8 = s.mpData_U8 ∧
    s.startNextEntry.mAppendMode_B = s.mAppendMode_B ∧ NothingPending s.startNextEntry := by
  unfold startNextEntry
  dsimp only
  split_ifs <;> exact ⟨⟨rfl, rfl⟩, rfl, rfl, rfl, rfl⟩

theorem pushRawBuffer_same (s : RawCircularBuffer) :
    SameSetup s s.pushRawBuffer.1 ∧ s.pushRawBuffer.1.mpData_U8 = s.mpData_U8 ∧
    s.pushRawBuffer.1.mAppendMode_B = s.mAppendMode_B ∧
    (s.pushRawBuffer.2 = .noError → NothingPending s.pushRawBuffer.1) := by
  unfold pushRawBuffer
  dsimp only
  split_ifs with herr
  · obtain ⟨hsetup, hdata, happend, hidle⟩ := startNextEntry_same
      { s with
        mRawBufferToPush_X := completeEntry s.mSlotSize_U32 s.mRawBufferToPush_X
        mpuBufferCollection :=
          (s.mpuBufferCollection.push (some (completeEntry s.mSlotSize_U32 s.mRawBufferToPush_X))).1 }
    exact ⟨⟨hsetup.param, hsetup.slot⟩, hdata, happend, fun _ => hidle⟩
  · exact ⟨⟨rfl, rfl⟩, rfl, rfl, fun h => absurd h herr⟩

theorem afterRead_same (s : RawCircularBuffer) (isPop isPartial : Bool) (nb : Nat) :
    SameSetup s (s.afterRead isPop isPartial nb).1 ∧
    (s.afterRead isPop isPartial nb).1.mAppendMode_B = s.mAppendMode_B ∧
    (s.afterRead isPop isPartial nb).1.mRawBufferToPush_X = s.mRawBufferToPush_X := by
  unfold RawCircularBuffer.afterRead
  dsimp only
  split_ifs
  · exact ⟨⟨rfl, rfl⟩, rfl, rfl⟩
  · split <;> exact ⟨⟨rfl, rfl⟩, rfl, rfl⟩
  · split <;> exact ⟨⟨rfl, rfl⟩, rfl, rfl⟩
  · exact ⟨⟨rfl, rfl⟩, rfl, rfl⟩

theorem popOrPeekBuffer_same (s : RawCircularBuffer) (isPop : Bool) (pNbMax : Option Nat) (pData : Bool) :
    SameSetup s (s.popOrPeekBuffer isPop pNbMax pData).1 ∧
    (s.popOrPeekBuffer isPop pNbMax pData).1.mAppendMode_B = s.mAppendMode_B ∧
    (s.popOrPeekBuffer isPop pNbMax pData).1.mRawBufferToPush_X = s.mRawBufferToPush_X := by
  unfold popOrPeekBuffer
  split
  · exact ⟨⟨rfl, rfl⟩, rfl, rfl⟩
  · split_ifs
    · split
      · rename_i e _ _
        obtain ⟨hsetup, happend, hentry⟩ := afterRead_same (s.setOldest (consume e _)) isPop _ _
        exact ⟨⟨hsetup.param, hsetup.slot⟩, happend, hentry⟩
      · exact ⟨⟨rfl, rfl⟩, rfl, rfl⟩
    · exact ⟨⟨rfl, rfl⟩, rfl, rfl⟩

theorem skip_same (s : RawCircularBuffer) (signalIfNeeded : Bool) :
    SameSetup s (s.skip signalIfNeeded).1 ∧ (s.skip signalIfNeeded).1.mAppendMode_B = s.mAppendMode_B ∧
    (s.skip signalIfNeeded).1.mRawBufferToPush_X = s.mRawBufferToPush_X := by
  unfold RawCircularBuffer.skip
  dsimp only
  split
  · split_ifs <;> exact ⟨⟨rfl, rfl⟩, rfl, rfl⟩
  · exact ⟨⟨rfl, rfl⟩, rfl, rfl⟩

theorem length_restEntries_le (n : Nat) (es : List RawBuffer) : (restEntries n es).length ≤ es.length := by
  cases es with
  | nil => exact Nat.le_refl 0
  | cons e es =>
    rw [restEntries]
    split
    · exact Nat.le_refl _
    · exact Nat.le_succ _

/-- `Peek` consumes the bytes too, but the entry stays; what it frees is at most what it consumes. -/
theorem Books.afterPeek {e : RawBuffer} (h : Books s (e :: es)) {nb : Nat} (hnb : nb ≤ entrySize e) (isPartial : Bool) :
    Books ((s.setOldest (consume e nb)).afterRead false isPartial nb).1 (consume e nb :: es) := by
  have hrest := entrySize_consume hnb
  have hremain := u32_eq_mod (s.mCrtBufferRemain_U32 + nb)
  have hmod := Nat.mod_le (s.mCrtBufferRemain_U32 + nb) 4294967296
  cases isPartial with
  | true =>
    refine h.replace_oldest (u32_lt _) fun _ => ?_
    show u32 (s.mCrtBufferRemain_U32 + nb) + _ ≤ _
    omega
  | false => exact h.replace_oldest h.remain_lt fun _ => by omega

theorem Books.peek_some (h : Books s es) {n : Nat} (hn : n ≠ 0) :
    ∃ es', Books (s.peek (some n) true).1 es' ∧ es'.length ≤ es.length := by
  cases es with
  | nil =>
    rw [RawCircularBuffer.peek, popOrPeekBuffer_none h.oldest_eq]
    exact ⟨[], h, Nat.le_refl 0⟩
  | cons e es =>
    have hle : (if entrySize e > n then n else entrySize e) ≤ entrySize e := by
      split <;> omega
    rw [RawCircularBuffer.peek, popOrPeekBuffer_some h.oldest_eq false hn rfl]
    exact ⟨_, h.afterPeek hle (decide (entrySize e > n)), Nat.le_refl _⟩

theorem Default.skip (h : Default s es) (signalIfNeeded : Bool) :
    ∃ es', Books (s.skip signalIfNeeded).1 es' ∧ es'.length ≤ es.length := by
  cases es with
  | nil =>
    obtain ⟨herr, hring⟩ := h.books.skip_nil signalIfNeeded
    rw [RawCircularBuffer.skip]
    simp only [herr, hring]
    exact ⟨[], h.books, Nat.le_refl 0⟩
  | cons e es =>
    obtain ⟨herr, hdata, hring⟩ := h.books.skip_cons signalIfNeeded
    have hremain := u32_eq_mod (s.mCrtBufferRemain_U32 + entrySize e)
    rw [RawCircularBuffer.skip]
    simp only [herr, hdata]
    rw [if_neg (not_not.mpr h.slot)]
    exact ⟨es, h.books.drop_oldest hring (u32_lt _) fun _ => by
      show u32 (_ + entrySize e) ≤ _
      omega, Nat.le_succ _⟩

theorem Default.setOverWriteMode_false (h : Default s es) : s.setOverWriteMode false = s := by
  have hparam : { s.mRawCircularBufferParam_X with Overwrite_B := false } = s.mRawCircularBufferParam_X := by
    rw [← h.overwrite]
  have hring : s.mpuBufferCollection.setOverWriteMode false = s.mpuBufferCollection := by
    have hoff := h.books.ring.overwrite
    rw [CircularBuffer.setOverWriteMode]
    dsimp only at hoff
    rw [← hoff]
  rw [RawCircularBuffer.setOverWriteMode, hparam, hring]

/-- While bytes are pending, the append mode is on and there is an entry for them. -/
structure Reached (s : RawCircularBuffer) (es : List RawBuffer) : Prop where
  default : Default s es
  pending : NothingPending s ∨
    (s.mAppendMode_B = true ∧ es.length < s.mRawCircularBufferParam_X.NbMaxBufferEntry_U32)

theorem Reached.nothingPending (h : Reached s es) (hoff : s.mAppendMode_B = false) : NothingPending s :=
  h.pending.resolve_right fun hsome => Bool.false_ne_true (hoff.symm.trans hsome.1)

/-- A call that changes neither the mode nor the entry to push, and adds no entry. -/
theorem Reached.of_same {s' : RawCircularBuffer} {es' : List RawBuffer} (h : Reached s es) (hsetup : SameSetup s s')
    (happend : s'.mAppendMode_B = s.mAppendMode_B) (hentry : s'.mRawBufferToPush_X = s.mRawBufferToPush_X)
    (hbooks : Books s' es') (hle : es'.length ≤ es.length) : Reached s' es' := by
  refine ⟨h.default.of_same hsetup hbooks, h.pending.imp (fun hnone => ?_) fun hsome => ?_⟩
  · rw [NothingPending, hentry]
    exact hnone
  · rw [happend, hsetup.param]
    exact ⟨hsome.1, by omega⟩

theorem Reached.pushBuffer (h : Reached s es) {data : List UInt8} (hne : data.length ≠ 0) :
    ∃ es', Reached (s.pushBuffer (some data)).1 es' := by
  by_cases hok : es.length < s.mRawCircularBufferParam_X.NbMaxBufferEntry_U32 ∧ data.length ≤ s.mCrtBufferRemain_U32
  · obtain ⟨hbooks, -⟩ := h.default.books.appendToEntry data hok.2
    obtain ⟨hsetup, -, happend⟩ := appendToEntry_same s data
    have hfree : es.length < (s.appendToEntry data).1.mRawCircularBufferParam_X.NbMaxBufferEntry_U32 := by
      rw [hsetup.param]
      exact hok.1
    rw [h.default.pushBuffer_eq hok.1 hne hok.2]
    split_ifs with hon
    · exact ⟨es, h.default.of_same hsetup hbooks, Or.inr ⟨happend.trans hon, hfree⟩⟩
    · obtain ⟨s', hpush, hbooks'⟩ := hbooks.pushRawBuffer_room hfree
      obtain ⟨hsetup', -, -, hidle⟩ := pushRawBuffer_same (s.appendToEntry data).1
      rw [hpush] at hsetup' hidle ⊢
      exact ⟨_, (h.default.of_same hsetup hbooks).of_same hsetup' hbooks', Or.inl (hidle rfl)⟩
  · have henough : (s.enoughSpace data.length).1 = false := by
      rw [h.default.enoughSpace_eq]
      exact decide_eq_false fun hboth => hok ⟨h.default.isFull_iff.mp hboth.2, hboth.1⟩
    have hpush : s.pushBuffer (some data) = (s, .tooBig) := pushBuffer_refused hne henough h.default.overwrite
    rw [hpush]
    exact ⟨es, h⟩

theorem Reached.setAppendMode (h : Reached s es) (append : Bool) : ∃ es', Reached (s.setAppendMode append).1 es' := by
  unfold RawCircularBuffer.setAppendMode
  split_ifs with hleave
  · -- the entry is pushed, unless there is no free entry; then it has no bytes
    obtain ⟨hsetup, -, -, hidle⟩ := pushRawBuffer_same s
    by_cases hfull : es.length = s.mRawCircularBufferParam_X.NbMaxBufferEntry_U32
    · have hnone := h.pending.resolve_right fun hsome => Nat.ne_of_lt hsome.2 hfull
      obtain ⟨s', pad, hpush, hbooks, -, hentry, -⟩ := h.default.books.pushRawBuffer_full hfull
      rw [hpush] at hsetup ⊢
      refine ⟨es, h.default.of_same ⟨hsetup.param, hsetup.slot⟩ (hbooks.setAppend append), Or.inl ?_⟩
      rw [NothingPending, hentry]
      exact hnone
    · have hfree := Nat.lt_of_le_of_ne h.default.books.length_le hfull
      obtain ⟨s', hpush, hbooks⟩ := h.default.books.pushRawBuffer_room hfree
      rw [hpush] at hsetup hidle ⊢
      exact ⟨_, h.default.of_same ⟨hsetup.param, hsetup.slot⟩ (hbooks.setAppend append), Or.inl (hidle rfl)⟩
  · refine ⟨es, h.default.of_same ⟨rfl, rfl⟩ (h.default.books.setAppend append), h.pending.imp_right fun hsome => ?_⟩
    cases append with
    | true => exact ⟨rfl, hsome.2⟩
    | false => exact absurd ⟨hsome.1, rfl⟩ hleave

theorem Reached.popOrPeekBuffer (h : Reached s es) (isPop : Bool) (pNbMax : Option Nat) (pData : Bool) :
    ∃ es', Reached (s.popOrPeekBuffer isPop pNbMax pData).1 es' := by
  obtain ⟨hsetup, happend, hentry⟩ := popOrPeekBuffer_same s isPop pNbMax pData
  by_cases hok : ∃ n, pNbMax = some n ∧ n ≠ 0 ∧ pData = true
  · obtain ⟨n, rfl, hn, rfl⟩ := hok
    cases isPop with
    | true =>
      exact ⟨_, h.of_same hsetup happend hentry (h.default.books.popBuffer_some hn).1 (length_restEntries_le n es)⟩
    | false =>
      obtain ⟨es', hbooks, hle⟩ := h.default.books.peek_some hn
      exact ⟨es', h.of_same hsetup happend hentry hbooks hle⟩
  · have heq : s.popOrPeekBuffer isPop pNbMax pData = (s, { err := .einval }) :=
      popOrPeekBuffer_einval fun n hn hne hp => hok ⟨n, hn, hne, hp⟩
    rw [heq]
    exact ⟨es, h⟩

/-- Every call but the one that turns the overwrite mode on. -/
theorem Reached.step (h : Reached s es) (op : Op) (hop : op ≠ .setOverWriteMode true) :
    ∃ es', Reached (step s op).1 es' := by
  cases op with
  | pushBuffer pData =>
    cases pData with
    | none => exact ⟨es, h⟩
    | some data =>
      by_cases hne : data.length = 0
      · have hpush : s.pushBuffer (some data) = (s, .einval) := if_pos hne
        rw [RawCircularBuffer.step, hpush]
        exact ⟨es, h⟩
      · exact h.pushBuffer hne
  | popBuffer pNbMax pData => exact h.popOrPeekBuffer true pNbMax pData
  | peek pNbMax pData => exact h.popOrPeekBuffer false pNbMax pData
  | getBufferPtr => exact ⟨es, h⟩
  | skip signalIfNeeded =>
    obtain ⟨hsetup, happend, hentry⟩ := skip_same s signalIfNeeded
    obtain ⟨es', hbooks, hle⟩ := h.default.skip signalIfNeeded
    exact ⟨es', h.of_same hsetup happend hentry hbooks hle⟩
  | setOverWriteMode overwrite =>
    cases overwrite with
    | true => exact absurd rfl hop
    | false =>
      rw [RawCircularBuffer.step, h.default.setOverWriteMode_false]
      exact ⟨es, h⟩
  | setAppendMode append => exact h.setAppendMode append
  | reset => exact ⟨[], h.default.of_same ⟨rfl, rfl⟩ h.default.books.reset, Or.inl ⟨rfl, rfl⟩⟩

/-! ## The two ways to push a buffer -/

/-- The entry to push goes into the inner buffer as it is. -/
theorem Default.pushRawBuffer (h : Default s es)
    (hfree : es.length < s.mRawCircularBufferParam_X.NbMaxBufferEntry_U32) :
    Books s.pushRawBuffer.1 (es ++ [s.mRawBufferToPush_X]) := by
  obtain ⟨s', hpush, hbooks⟩ := h.books.pushRawBuffer_room hfree
  have hcomplete : completeEntry s.mSlotSize_U32 s.mRawBufferToPush_X = s.mRawBufferToPush_X :=
    if_neg (not_not.mpr h.slot)
  rw [hcomplete] at hbooks
  rw [hpush]
  exact hbooks

/-- The buffer in append mode. -/
def enterAppend (s : RawCircularBuffer) : RawCircularBuffer := { s with mAppendMode_B := true }

/-- Piece by piece. -/
theorem Default.run_appendCalls (h : Default s es)
    (hfree : es.length < s.mRawCircularBufferParam_X.NbMaxBufferEntry_U32) (hoff : s.mAppendMode_B = false)
    (pieces : List (List UInt8)) (hnb : pieces.flatten.length ≤ s.mCrtBufferRemain_U32) :
    Books (Machine.run step s (appendCalls pieces)).1 (es ++ [(s.enterAppend.growAll pieces).mRawBufferToPush_X]) ∧
    (Machine.run step s (appendCalls pieces)).1.mpData_U8 = (s.enterAppend.growAll pieces).mpData_U8 := by
  have henter : s.setAppendMode true = (s.enterAppend, .noError) := by
    simp [RawCircularBuffer.setAppendMode, enterAppend, hoff]
  have h0 : Default s.enterAppend es := h.of_same ⟨rfl, rfl⟩ (h.books.setAppend true)
  obtain ⟨hrun, hgrown⟩ := h0.run_pieces hfree rfl hnb
  obtain ⟨hsetup, -, happend⟩ := growAll_same s.enterAppend pieces
  have hfree' : es.length < (s.enterAppend.growAll pieces).mRawCircularBufferParam_X.NbMaxBufferEntry_U32 := by
    rw [hsetup.param]
    exact hfree
  have hleave : ((s.enterAppend.growAll pieces).setAppendMode false).1 =
      { (s.enterAppend.growAll pieces).pushRawBuffer.1 with mAppendMode_B := false } := by
    rw [RawCircularBuffer.setAppendMode, if_pos ⟨happend, rfl⟩]
  have hlast : (Machine.run step s (appendCalls pieces)).1 =
      { (s.enterAppend.growAll pieces).pushRawBuffer.1 with mAppendMode_B := false } := by
    rw [appendCalls, List.cons_append, Machine.run_cons, step, henter]
    dsimp only
    rw [Machine.run_append, hrun, ← hleave]
    rfl
  rw [hlast]
  exact ⟨(hgrown.pushRawBuffer hfree').setAppend false, (pushRawBuffer_same _).2.1⟩

/-- As one buffer. -/
theorem Default.pushBuffer_whole (h : Default s es)
    (hfree : es.length < s.mRawCircularBufferParam_X.NbMaxBufferEntry_U32) (hoff : s.mAppendMode_B = false)
    (data : List UInt8) (hne : data.length ≠ 0) (hnb : data.length ≤ s.mCrtBufferRemain_U32) :
    Books (s.pushBuffer (some data)).1 (es ++ [(s.appendToEntry data).1.mRawBufferToPush_X]) ∧
    (s.pushBuffer (some data)).1.mpData_U8 = (s.appendToEntry data).1.mpData_U8 := by
  obtain ⟨hbooks, -⟩ := h.books.appendToEntry data hnb
  obtain ⟨hsetup, -, -⟩ := appendToEntry_same s data
  have hfree' : es.length < (s.appendToEntry data).1.mRawCircularBufferParam_X.NbMaxBufferEntry_U32 := by
    rw [hsetup.param]
    exact hfree
  have hfalse : ¬ s.mAppendMode_B = true := by
    rw [hoff]
    exact Bool.false_ne_true
  rw [h.pushBuffer_eq hfree hne hnb, if_neg hfalse]
  exact ⟨(h.of_same hsetup hbooks).pushRawBuffer hfree', (pushRawBuffer_same _).2.1⟩

/-! ## What `PopBuffer` returns -/

/-- One call on two buffers with the same storage that hold the same entries, but for empty ones at the end. -/
theorem popBuffer_agree {a b : RawCircularBuffer} {xs : List RawBuffer} (ha : Books a (es ++ xs)) (hb : Books b es)
    (hxs : ∀ x ∈ xs, entrySize x = 0) (hdata : a.mpData_U8 = b.mpData_U8) (pNbMax : Option Nat) (pData : Bool) :
    (a.popBuffer pNbMax pData).2.data = (b.popBuffer pNbMax pData).2.data ∧
    (a.popBuffer pNbMax pData).1.mpData_U8 = (b.popBuffer pNbMax pData).1.mpData_U8 ∧
    ∃ es' xs', Books (a.popBuffer pNbMax pData).1 (es' ++ xs') ∧ Books (b.popBuffer pNbMax pData).1 es' ∧
      ∀ x ∈ xs', entrySize x = 0 := by
  by_cases hok : ∃ n, pNbMax = some n ∧ n ≠ 0 ∧ pData = true
  · obtain ⟨n, rfl, hn, rfl⟩ := hok
    obtain ⟨ha', hda, houta⟩ := ha.popBuffer_some hn
    obtain ⟨hb', hdb, houtb⟩ := hb.popBuffer_some hn
    rw [houta, houtb, hda, hdb]
    cases es with
    | nil =>
      rw [List.nil_append] at ha' ⊢
      cases xs with
      | nil => exact ⟨rfl, hdata, [], [], ha', hb', hxs⟩
      | cons x xs =>
        obtain ⟨hx, hrest⟩ := List.forall_mem_cons.mp hxs
        have hwhole : ¬ entrySize x > n := by omega
        rw [restEntries, if_neg hwhole] at ha'
        refine ⟨?_, hdata, [], xs, ha', hb', hrest⟩
        rw [firstBytes, firstBytes, if_neg hwhole, hx]
        exact List.take_zero
    | cons e es =>
      have hcontent : content a e = content b e := by rw [content, content, hdata]
      refine ⟨?_, hdata, restEntries n (e :: es), xs, ?_, hb', hxs⟩
      · rw [List.cons_append, firstBytes, firstBytes, hcontent]
      · rw [List.cons_append, restEntries] at ha'
        rw [restEntries]
        split_ifs at ha' ⊢
        · exact ha'
        · exact ha'
  · have heq : ∀ s : RawCircularBuffer, s.popBuffer pNbMax pData = (s, { err := .einval }) := fun s =>
      popBuffer_einval fun n hn hne hp => hok ⟨n, hn, hne, hp⟩
    rw [heq a, heq b]
    exact ⟨rfl, hdata, es, xs, ha, hb, hxs⟩

/-- Any number of calls. -/
theorem pops_agree {a b : RawCircularBuffer} {xs : List RawBuffer} (ha : Books a (es ++ xs)) (hb : Books b es)
    (hxs : ∀ x ∈ xs, entrySize x = 0) (hdata : a.mpData_U8 = b.mpData_U8) {pops : List Op}
    (hpops : ∀ op ∈ pops, IsPop op) :
    (Machine.run step a pops).2.map RawOut.data = (Machine.run step b pops).2.map RawOut.data := by
  induction pops generalizing a b es xs with
  | nil => rfl
  | cons op pops ih =>
    obtain ⟨hop, hrest⟩ := List.forall_mem_cons.mp hpops
    cases op with
    | popBuffer pNbMax pData =>
      obtain ⟨hout, hdata', es', xs', ha', hb', hxs'⟩ := popBuffer_agree ha hb hxs hdata pNbMax pData
      rw [Machine.run_cons, Machine.run_cons, List.map_cons, List.map_cons]
      exact List.cons_eq_cons.mpr ⟨hout, ih ha' hb' hxs' hdata' hrest⟩
    | pushBuffer | peek | getBufferPtr | skip | setOverWriteMode | setAppendMode | reset => exact absurd hop id

/-- Reads without a limit return the bytes of the entries one after the other. -/
theorem Books.run_pops (h : Books s es) :
    (Machine.run RawCircularBuffer.step s
      (List.replicate es.length (.popBuffer (some 4294967295) true))).2.map RawOut.data =
      es.map fun e => (content s e).take (entrySize e) := by
  induction es generalizing s with
  | nil => rfl
  | cons e es ih =>
    obtain ⟨hbooks, hdata, hout⟩ := h.popBuffer_some (n := 4294967295) (by decide)
    have hwhole : ¬ entrySize e > 4294967295 := by
      have hlt := u32_lt (e.Size1_U32 + e.Size2_U32)
      unfold entrySize
      omega
    rw [restEntries, if_neg hwhole] at hbooks
    rw [firstBytes, if_neg hwhole] at hout
    rw [List.length_cons, List.replicate_succ, Machine.run_cons, List.map_cons, List.map_cons]
    refine List.cons_eq_cons.mpr ⟨hout, (ih hbooks).trans ?_⟩
    refine List.map_congr_left fun f _ => ?_
    show ((cells f).map (s.popBuffer (some 4294967295) true).1.mpData_U8).take _ = _
    rw [hdata]
    rfl

/-! ## Pieces that make one buffer -/

theorem length_le_flatten {pieces : List (List UInt8)} {data : List UInt8} (h : data ∈ pieces) :
    data.length ≤ pieces.flatten.length := (List.sublist_flatten_of_mem h).length_le

/-- Pieces that end before the end of the storage, and one that it cuts. -/
theorem growAll_cut (pre : List (List UInt8)) (data : List UInt8) (nb1 : Nat)
    (h1 : s.mRawBufferToPush_X.Size1_U32 = 0) (h2 : s.mRawBufferToPush_X.Size2_U32 = 0)
    (hnb1 : s.mRawBufferToPush_X.IndexInBuffer_U32 + pre.flatten.length + nb1 = s.size)
    (hn : s.size < s.mRawBufferToPush_X.IndexInBuffer_U32 + data.length)
    (hlt : s.mRawBufferToPush_X.IndexInBuffer_U32 + pre.flatten.length + data.length < 4294967296) :
    (s.enterAppend.growAll (pre ++ [data])).mpData_U8 =
      write (write (write s.mpData_U8 s.mRawBufferToPush_X.IndexInBuffer_U32 pre.flatten)
        (s.mRawBufferToPush_X.IndexInBuffer_U32 + pre.flatten.length) (data.take nb1)) 0 (data.drop nb1) ∧
    (s.enterAppend.growAll (pre ++ [data])).mRawBufferToPush_X =
      { s.mRawBufferToPush_X with
        Size1_U32 := s.size - s.mRawBufferToPush_X.IndexInBuffer_U32
        pData2_U8 := some 0
        Size2_U32 := data.length - nb1 } := by
  have hstart : s.enterAppend.mRawBufferToPush_X = s.mRawBufferToPush_X := rfl
  have hends : ∀ x ∈ pre, s.mRawBufferToPush_X.IndexInBuffer_U32 + x.length ≤ s.size := fun x hx => by
    have hle := length_le_flatten hx
    omega
  have hbefore := growAll_part1 (s := s.enterAppend) pre
  rw [hstart, h1, Nat.add_zero, Nat.zero_add] at hbefore
  obtain ⟨hpre1, hpre2⟩ := hbefore h2 hends (by omega)
  have hsize' : (s.enterAppend.growAll pre).size = s.size := (growAll_same s.enterAppend pre).1.size
  have hcut := appendToEntry_cut (s := s.enterAppend.growAll pre) data nb1
  rw [hpre1, hpre2, hsize'] at hcut
  have hne : data.length ≠ 0 := by omega
  rw [growAll_append, growAll, if_neg hne, growAll]
  exact hcut h2 hn (by dsimp only; omega) hnb1

/-- If only the last piece is cut, the entry to push and the storage are as if all the bytes had been added at once. -/
theorem growAll_eq {pieces : List (List UInt8)} (h1 : s.mRawBufferToPush_X.Size1_U32 = 0)
    (h2 : s.mRawBufferToPush_X.Size2_U32 = 0) (hne : pieces.flatten.length ≠ 0)
    (hcut : CutsOnlyLast s.size s.mRawBufferToPush_X.IndexInBuffer_U32 (pieces.map List.length)) :
    (s.enterAppend.growAll pieces).mpData_U8 = (s.appendToEntry pieces.flatten).1.mpData_U8 ∧
    (s.enterAppend.growAll pieces).mRawBufferToPush_X = (s.appendToEntry pieces.flatten).1.mRawBufferToPush_X := by
  have hsize := s.size_lt
  rcases hcut with hnil | hend | ⟨hlt, pre, n, post, hsplit, hpost, hpre, hn⟩
  · rw [← List.length_flatten] at hnil
    exact absurd hnil hne
  · rw [← List.length_flatten] at hend
    have hpieces : ∀ data ∈ pieces, s.mRawBufferToPush_X.IndexInBuffer_U32 + data.length ≤ s.size := fun data hd => by
      have hle := length_le_flatten hd
      omega
    obtain ⟨hdata, hentry⟩ := growAll_part1 (s := s.enterAppend) pieces h2 hpieces
      (by rw [enterAppend]; dsimp only; omega)
    obtain ⟨hdata', hentry'⟩ := appendToEntry_part1 pieces.flatten h2 hend (by omega)
    exact ⟨hdata.trans hdata'.symm, hentry.trans hentry'.symm⟩
  · obtain ⟨pre', rest, rfl, hpre', hrest⟩ := List.map_eq_append_iff.mp hsplit
    obtain ⟨data, post', rfl, hdata, hpost'⟩ := List.map_eq_cons_iff.mp hrest
    subst hpre' hpost' hdata
    rw [← List.length_flatten] at hlt hpre
    have hempty : ∀ x ∈ post', x.length = 0 := fun x hx => hpost _ (List.mem_map_of_mem hx)
    have hflat : (pre' ++ data :: post').flatten = pre'.flatten ++ data := by
      have hnil : post'.flatten = [] :=
        List.flatten_eq_nil_iff.mpr fun x hx => List.eq_nil_of_length_eq_zero (hempty x hx)
      rw [List.flatten_append, List.flatten_cons, hnil, List.append_nil]
    rw [hflat, List.length_append] at hlt
    obtain ⟨nb1, hnb1⟩ := Nat.exists_eq_add_of_le hpre
    obtain ⟨hone1, hone2⟩ := growAll_cut pre' data nb1 h1 h2 hnb1.symm hn (by omega)
    obtain ⟨hall1, hall2⟩ := appendToEntry_cut (pre'.flatten ++ data)
      (pre'.flatten.length + nb1) h2 (by rw [List.length_append]; omega) (by rw [List.length_append]; omega)
      (by omega)
    have hpieces : pre' ++ data :: post' = pre' ++ [data] ++ post' := (List.append_cons pre' data post')
    rw [hflat, hall1, hall2, hpieces, growAll_append, growAll_empty hempty, hone1, hone2, List.take_length_add_append,
      List.drop_length_add_append, write_append, h1, Nat.add_zero, List.length_append, Nat.add_sub_add_left]
    exact ⟨rfl, rfl⟩

/-- One buffer that ends before the end of the storage, or is cut by it, stays inside. -/
theorem appendToEntry_inside {data : List UInt8} (h1 : s.mRawBufferToPush_X.Size1_U32 = 0)
    (h2 : s.mRawBufferToPush_X.Size2_U32 = 0) (hle : data.length ≤ s.size)
    (hin : s.mRawBufferToPush_X.IndexInBuffer_U32 + data.length ≤ s.size ∨
      (s.mRawBufferToPush_X.IndexInBuffer_U32 ≤ s.size ∧
        s.mRawBufferToPush_X.IndexInBuffer_U32 + data.length < 4294967296)) {i : Nat} (hi : s.size ≤ i) :
    (s.appendToEntry data).1.mpData_U8 i = s.mpData_U8 i := by
  have hsize := s.size_lt
  by_cases hend : s.mRawBufferToPush_X.IndexInBuffer_U32 + data.length ≤ s.size
  · obtain ⟨hdata, -⟩ := appendToEntry_part1 data h2 hend (by omega)
    rw [hdata]
    exact write_of_outside _ _ _ (Or.inr (by omega))
  · obtain ⟨hindex, hlt⟩ := hin.resolve_left hend
    obtain ⟨nb1, hnb1⟩ := Nat.exists_eq_add_of_le hindex
    obtain ⟨hdata, -⟩ := appendToEntry_cut data nb1 h2 (by omega) hlt (by omega)
    rw [hdata, write_of_outside, write_of_outside]
    · right
      rw [List.length_take]
      omega
    · right
      rw [List.length_drop]
      omega

/-- The condition is enough. -/
theorem Reached.buildsOne (h : Reached s es) (hoff : s.mAppendMode_B = false) (hfree : s.isFull = false)
    {pieces : List (List UInt8)} (hnb : pieces.flatten.length ≤ s.mCrtBufferRemain_U32)
    (hcut : CutsOnlyLast s.size s.mRawBufferToPush_X.IndexInBuffer_U32 (pieces.map List.length)) :
    BuildsOne s pieces := by
  have hroom := h.default.isFull_iff.mp hfree
  obtain ⟨h1, h2⟩ := h.nothingPending hoff
  have hsum := h.default.books.sum_le h.default.slot
  obtain ⟨hbooks, hgrown⟩ := h.default.run_appendCalls hroom hoff pieces hnb
  by_cases hnil : pieces.flatten.length = 0
  · -- an empty entry is pushed
    have hpush : s.pushBuffer (some pieces.flatten) = (s, .einval) := if_pos hnil
    have hempty : s.enterAppend.growAll pieces = s.enterAppend := growAll_empty fun x hx => by
      have hle := length_le_flatten hx
      omega
    rw [hempty] at hbooks hgrown
    refine ⟨fun i _ => ?_, fun pops hpops => ?_⟩
    · rw [hgrown, hpush]
      exact ⟨rfl, rfl⟩
    · rw [hpush]
      refine pops_agree hbooks h.default.books (fun x hx => ?_) hgrown hpops
      rw [List.mem_singleton.mp hx]
      show u32 (s.mRawBufferToPush_X.Size1_U32 + s.mRawBufferToPush_X.Size2_U32) = 0
      rw [h1, h2]
      rfl
  · obtain ⟨hdata, hentry⟩ := growAll_eq h1 h2 hnil hcut
    obtain ⟨hbooks', hwhole⟩ := h.default.pushBuffer_whole hroom hoff pieces.flatten hnil hnb
    have hin : ∀ i, s.size ≤ i → (s.appendToEntry pieces.flatten).1.mpData_U8 i = s.mpData_U8 i := fun i hi => by
      refine appendToEntry_inside h1 h2 (by omega) ?_ hi
      rw [List.length_flatten] at hnil ⊢
      refine (hcut.resolve_left hnil).imp_right fun ⟨hlt, pre, n, post, hsplit, hpost, hpre, hn⟩ => ⟨by omega, hlt⟩
    refine ⟨fun i hi => ?_, fun pops hpops => ?_⟩
    · rw [hgrown, hdata, hwhole]
      exact ⟨hin i hi, hin i hi⟩
    · rw [hentry] at hbooks
      rw [← List.append_nil (es ++ _)] at hbooks
      refine pops_agree hbooks hbooks' (fun x hx => absurd hx List.not_mem_nil) ?_ hpops
      rw [hgrown, hdata, hwhole]

/-! ## Pieces that do not -/

/-- Pieces of the given lengths, with all the bytes the same. -/
def filled (v : UInt8) (lengths : List Nat) : List (List UInt8) := lengths.map fun n => List.replicate n v

theorem map_length_filled (v : UInt8) (lengths : List Nat) : (filled v lengths).map List.length = lengths := by
  rw [filled, List.map_map]
  refine (List.map_congr_left fun n _ => ?_).trans (List.map_id lengths)
  exact List.length_replicate

theorem length_flatten_filled (v : UInt8) (lengths : List Nat) : (filled v lengths).flatten.length = lengths.sum := by
  rw [List.length_flatten, map_length_filled]

theorem eq_of_mem_filled {v x : UInt8} {lengths : List Nat} (h : x ∈ (filled v lengths).flatten) : x = v := by
  obtain ⟨data, hdata, hx⟩ := List.mem_flatten.mp h
  obtain ⟨n, -, rfl⟩ := List.mem_map.mp hdata
  exact List.eq_of_mem_replicate hx

/-- A cell that only one value is written to. -/
theorem write_filled (mem : Nat → UInt8) {v : UInt8} {a c : Nat} {data : List UInt8} (hdata : ∀ x ∈ data, x = v)
    (ha : a ≤ c) (hc : c < a + data.length) : write mem a data c = v := by
  induction data generalizing mem a with
  | nil => exact absurd hc (Nat.not_lt.mpr ha)
  | cons x data ih =>
    obtain ⟨hx, hrest⟩ := List.forall_mem_cons.mp hdata
    rw [List.length_cons] at hc
    rw [write]
    by_cases hca : c = a
    · refine write_const ?_ (a + 1) hrest
      rw [hca, Function.update_self, hx]
    · exact ih _ hrest (by omega) (by omega)

theorem exists_other (a : UInt8) : ∃ v : UInt8, v ≠ a := by
  by_cases h0 : a = 0
  · exact ⟨1, by rw [h0]; decide⟩
  · exact ⟨0, fun h => h0 h.symm⟩

/-- A buffer that would start behind the end of the storage, or end beyond the range of `uint32_t`, is written outside
even if it is pushed as one. -/
theorem appendToEntry_outside (data : List UInt8) {v : UInt8}
    (hindex : s.mRawBufferToPush_X.IndexInBuffer_U32 < 4294967296)
    (h1 : s.mRawBufferToPush_X.Size1_U32 = 0) (h2 : s.mRawBufferToPush_X.Size2_U32 = 0) (hle : data.length ≤ s.size)
    (hne : data.length ≠ 0) (hout : s.size < s.mRawBufferToPush_X.IndexInBuffer_U32 + data.length)
    (hbad : s.size < s.mRawBufferToPush_X.IndexInBuffer_U32 ∨
      4294967296 ≤ s.mRawBufferToPush_X.IndexInBuffer_U32 + data.length) (hdata : ∀ x ∈ data, x = v) :
    (s.appendToEntry data).1.mpData_U8 (max s.mRawBufferToPush_X.IndexInBuffer_U32 s.size) = v := by
  have hsize := s.size_lt
  have hplace : u32 (s.mRawBufferToPush_X.IndexInBuffer_U32 + s.mRawBufferToPush_X.Size1_U32) =
      s.mRawBufferToPush_X.IndexInBuffer_U32 := by
    rw [h1]
    exact u32_of_lt hindex
  have hwrap := u32_eq_mod (s.mRawBufferToPush_X.IndexInBuffer_U32 + data.length)
  unfold appendToEntry splitAtEnd appendPart1
  dsimp only
  rw [if_neg (not_not.mpr h2), hplace]
  split_ifs with hcut
  · have hbehind : s.size < s.mRawBufferToPush_X.IndexInBuffer_U32 := by omega
    have hnb1 : 0 < u32Sub s.size s.mRawBufferToPush_X.IndexInBuffer_U32 := by
      unfold u32Sub
      split <;> omega
    refine write_const (write_filled _ (fun x hx => hdata x (List.mem_of_mem_take hx)) (Nat.le_max_left _ _) ?_) 0
      fun x hx => hdata x (List.mem_of_mem_drop (List.mem_of_mem_take hx))
    rw [List.length_take]
    omega
  · exact write_filled _ hdata (Nat.le_max_left _ _) (by omega)

theorem filled_append (v : UInt8) (lengths lengths' : List Nat) :
    filled v (lengths ++ lengths') = filled v lengths ++ filled v lengths' := List.map_append

/-- Pieces that each would end before the end of the storage, but pass it together, are written outside. -/
theorem growAll_outside (v : UInt8) (pre post : List Nat) (h1 : s.mRawBufferToPush_X.Size1_U32 = 0)
    (h2 : s.mRawBufferToPush_X.Size2_U32 = 0) (hindex : s.mRawBufferToPush_X.IndexInBuffer_U32 ≤ s.size)
    (hpre : ∀ m ∈ pre, s.mRawBufferToPush_X.IndexInBuffer_U32 + m ≤ s.size)
    (hover : s.size < s.mRawBufferToPush_X.IndexInBuffer_U32 + pre.sum)
    (hlt : s.mRawBufferToPush_X.IndexInBuffer_U32 + pre.sum < 4294967296) :
    (s.enterAppend.growAll (filled v (pre ++ post))).mpData_U8 s.size = v := by
  have hstart : s.enterAppend.mRawBufferToPush_X = s.mRawBufferToPush_X := rfl
  have hends : ∀ x ∈ filled v pre, s.mRawBufferToPush_X.IndexInBuffer_U32 + x.length ≤ s.size := fun x hx => by
    obtain ⟨m, hm, rfl⟩ := List.mem_map.mp hx
    rw [List.length_replicate]
    exact hpre m hm
  have hlen := length_flatten_filled v pre
  have hbefore := growAll_part1 (s := s.enterAppend) (filled v pre)
  rw [hstart, h1, Nat.add_zero, Nat.zero_add] at hbefore
  obtain ⟨hdata, -⟩ := hbefore h2 hends (by omega)
  rw [filled_append, growAll_append]
  refine growAll_const ?_ fun x hx => eq_of_mem_filled hx
  rw [hdata]
  exact write_filled _ (fun x hx => eq_of_mem_filled hx) hindex (by omega)

/-- The last entry that reads without a limit return. -/
theorem content_last_eq {a b : RawCircularBuffer} {e f : RawBuffer} (ha : Books a (es ++ [e]))
    (hb : Books b (es ++ [f])) (hpops : ∀ pops : List Op, (∀ op ∈ pops, IsPop op) →
      (Machine.run step a pops).2.map RawOut.data = (Machine.run step b pops).2.map RawOut.data) :
    (content a e).take (entrySize e) = (content b f).take (entrySize f) := by
  have hall := hpops (List.replicate (es.length + 1) (.popBuffer (some 4294967295) true)) fun op hop => by
    rw [List.eq_of_mem_replicate hop]
    trivial
  have houta := ha.run_pops
  have houtb := hb.run_pops
  rw [List.length_append, List.length_singleton] at houta houtb
  rw [houta, houtb, List.map_append, List.map_append] at hall
  exact List.singleton_inj.mp (List.append_inj_right' hall rfl)

theorem take_content {e : RawBuffer} (h : unreadSize e < 4294967296) (s : RawCircularBuffer) :
    (content s e).take (entrySize e) = content s e := by
  refine List.take_of_length_le ?_
  rw [content, List.length_map, length_cells]
  exact Nat.le_of_eq (u32_of_lt h).symm

/-- Two entries with first parts of one size, and second parts at the start of the storage: if their bytes are the same,
then so are the second parts. -/
theorem part2_eq {a b : RawCircularBuffer} {e f : RawBuffer} (h1 : e.Size1_U32 = f.Size1_U32)
    (he : e.pData2_U8 = some 0) (hf : f.pData2_U8 = some 0) (h : content a e = content b f) :
    e.Size2_U32 = f.Size2_U32 ∧ ∀ c < f.Size2_U32, a.mpData_U8 c = b.mpData_U8 c := by
  rw [content, content, cells, cells, he, hf, List.map_append, List.map_append] at h
  have hsecond := List.append_inj_right h (by
    rw [List.length_map, List.length_map, List.length_range', List.length_range', h1])
  have hlen := congrArg List.length hsecond
  rw [List.length_map, List.length_map, List.length_range', List.length_range'] at hlen
  rw [hlen] at hsecond
  refine ⟨hlen, fun c hc => List.map_inj_left.mp hsecond c ?_⟩
  rw [List.mem_range'_1, Option.getD_some, Nat.zero_add]
  exact ⟨Nat.zero_le c, hc⟩

/-- Behind a cut, the bytes between those of the cut piece and the start of the entry stay as they are. -/
theorem growAll_behind_cut (pre : List (List UInt8)) (data : List UInt8) (post : List (List UInt8)) (nb1 : Nat)
    (h1 : s.mRawBufferToPush_X.Size1_U32 = 0) (h2 : s.mRawBufferToPush_X.Size2_U32 = 0)
    (hnb1 : s.mRawBufferToPush_X.IndexInBuffer_U32 + pre.flatten.length + nb1 = s.size)
    (hn : s.size < s.mRawBufferToPush_X.IndexInBuffer_U32 + data.length)
    (hlt : s.mRawBufferToPush_X.IndexInBuffer_U32 + pre.flatten.length + data.length + post.flatten.length < 4294967296)
    (hcut : nb1 < data.length) :
    (∀ c < s.mRawBufferToPush_X.IndexInBuffer_U32, data.length - nb1 ≤ c →
      (s.enterAppend.growAll (pre ++ [data] ++ post)).mpData_U8 c = s.mpData_U8 c) ∧
    ∃ size2, size2 ≤ data.length - nb1 + post.flatten.length ∧
      (s.enterAppend.growAll (pre ++ [data] ++ post)).mRawBufferToPush_X =
        { s.mRawBufferToPush_X with
          Size1_U32 := s.size - s.mRawBufferToPush_X.IndexInBuffer_U32
          pData2_U8 := some 0
          Size2_U32 := size2 } := by
  obtain ⟨hdata, hentry⟩ := growAll_cut pre data nb1 h1 h2 hnb1 hn (by omega)
  have hbehind := growAll_part2 (s := s.enterAppend.growAll (pre ++ [data])) post
  rw [hentry, hdata] at hbehind
  obtain ⟨hsame, size2, hsize2, hentry'⟩ := hbehind (by dsimp only; omega) (by dsimp only; omega)
  rw [← growAll_append] at hsame hentry'
  refine ⟨fun c hc hle => ?_, size2, hsize2, hentry'⟩
  rw [hsame c hc, write_of_outside, write_of_outside, write_of_outside]
  · exact Or.inl hc
  · exact Or.inl (by omega)
  · right
    rw [List.length_drop]
    omega

/-- Bytes behind a cut are missing, or are stored elsewhere: the first of them is not where it is read. -/
theorem Reached.not_buildsOne_of_cut (h : Reached s es) (hoff : s.mAppendMode_B = false) (hfree : s.isFull = false)
    {v : UInt8} {pre post : List Nat} {n c : Nat} (hnb : (pre ++ n :: post).sum ≤ s.mCrtBufferRemain_U32)
    (hpre : s.mRawBufferToPush_X.IndexInBuffer_U32 + pre.sum ≤ s.size)
    (hn : s.size < s.mRawBufferToPush_X.IndexInBuffer_U32 + n)
    (hlt : s.mRawBufferToPush_X.IndexInBuffer_U32 + (pre ++ n :: post).sum < 4294967296) (hpost : post.sum ≠ 0)
    (hc : s.mRawBufferToPush_X.IndexInBuffer_U32 + pre.sum + n = s.size + c) (hv : v ≠ s.mpData_U8 c) :
    ¬ BuildsOne s (filled v (pre ++ n :: post)) := by
  intro hbuilds
  have hroom := h.default.isFull_iff.mp hfree
  obtain ⟨h1, h2⟩ := h.nothingPending hoff
  have hsum := h.default.books.sum_le h.default.slot
  have hlen := length_flatten_filled v (pre ++ n :: post)
  have hlenpre := length_flatten_filled v pre
  have hlenpost := length_flatten_filled v post
  have hlenn : (List.replicate n v).length = n := List.length_replicate
  have hpieces : filled v (pre ++ n :: post) = filled v pre ++ [List.replicate n v] ++ filled v post := by
    rw [filled_append, filled, filled, filled, List.map_cons, List.append_assoc]
    rfl
  have htotal : (pre ++ n :: post).sum = pre.sum + n + post.sum := by
    rw [List.sum_append, List.sum_cons, Nat.add_assoc]
  rw [htotal] at hlen hnb hlt
  obtain ⟨nb1, hnb1⟩ := Nat.exists_eq_add_of_le hpre
  -- the entry that grows piece by piece, and the one that is stored at once
  obtain ⟨hsame, size2, hsize2, hentryA⟩ := growAll_behind_cut (filled v pre) (List.replicate n v)
    (filled v post) nb1 h1 h2 (by omega) (by omega) (by omega) (by omega)
  rw [← hpieces] at hsame hentryA
  obtain ⟨hdataB, hentryB⟩ := appendToEntry_cut (filled v (pre ++ n :: post)).flatten
    (s.size - s.mRawBufferToPush_X.IndexInBuffer_U32) h2 (by omega) (by omega) (by omega)
  obtain ⟨hbooksA, hgrown⟩ := h.default.run_appendCalls hroom hoff (filled v (pre ++ n :: post)) (by omega)
  obtain ⟨hbooksB, hwhole⟩ := h.default.pushBuffer_whole hroom hoff
    (filled v (pre ++ n :: post)).flatten (by omega) (by omega)
  have hread := content_last_eq hbooksA hbooksB hbuilds.pops
  rw [hentryA, hentryB, take_content, take_content] at hread
  · obtain ⟨hlen2, hcells⟩ := part2_eq (by rfl) (by rfl) (by rfl) hread
    dsimp only at hlen2 hcells
    have hcell := hcells c (by omega)
    have hcB : (s.appendToEntry (filled v (pre ++ n :: post)).flatten).1.mpData_U8 c = v := by
      rw [hdataB]
      refine write_filled _ (fun x hx => eq_of_mem_filled (List.mem_of_mem_drop hx)) (Nat.zero_le c) ?_
      rw [List.length_drop]
      omega
    rw [hgrown, hsame c (by omega) (by omega), hwhole, hcB] at hcell
    exact hv hcell.symm
  · dsimp only [unreadSize]
    omega
  · dsimp only [unreadSize]
    omega

/-- The condition is necessary. -/
theorem Reached.cutsOnlyLast (h : Reached s es) (hoff : s.mAppendMode_B = false) (hfree : s.isFull = false)
    {lengths : List Nat} (hnb : lengths.sum ≤ s.mCrtBufferRemain_U32)
    (hall : ∀ pieces, pieces.map List.length = lengths → BuildsOne s pieces) :
    CutsOnlyLast s.size s.mRawBufferToPush_X.IndexInBuffer_U32 lengths := by
  have hroom := h.default.isFull_iff.mp hfree
  obtain ⟨h1, h2⟩ := h.nothingPending hoff
  have hsum := h.default.books.sum_le h.default.slot
  by_contra hnot
  rw [CutsOnlyLast, not_or, not_or] at hnot
  obtain ⟨hne, hout, hlast⟩ := hnot
  have hbuilds : ∀ v, BuildsOne s (filled v lengths) := fun v => hall _ (map_length_filled v lengths)
  have hlen : ∀ v, (filled v lengths).flatten.length = lengths.sum := fun v => length_flatten_filled v lengths
  by_cases hbad : s.size < s.mRawBufferToPush_X.IndexInBuffer_U32 ∨
      4294967296 ≤ s.mRawBufferToPush_X.IndexInBuffer_U32 + lengths.sum
  · obtain ⟨v, hv⟩ := exists_other (s.mpData_U8 (max s.mRawBufferToPush_X.IndexInBuffer_U32 s.size))
    have hwhole := (h.default.pushBuffer_whole hroom hoff (filled v lengths).flatten (by rw [hlen]; exact hne)
      (by rw [hlen]; exact hnb)).2
    have hcell := appendToEntry_outside (filled v lengths).flatten h.default.books.index_lt h1 h2
      (by rw [hlen]; omega) (by rw [hlen]; exact hne) (by rw [hlen]; omega) (by rw [hlen]; exact hbad)
      (fun x hx => eq_of_mem_filled hx)
    have hin := ((hbuilds v).inside (max s.mRawBufferToPush_X.IndexInBuffer_U32 s.size) (Nat.le_max_right _ _)).2
    rw [hwhole, hcell] at hin
    exact hv hin
  · rw [not_or, Nat.not_lt, Nat.not_le] at hbad
    obtain ⟨hindex, hlt⟩ := hbad
    -- nothing may be written just behind the storage
    have hin : ∀ v, v ≠ s.mpData_U8 s.size → (s.enterAppend.growAll (filled v lengths)).mpData_U8 s.size ≠ v := by
      intro v hv hcell
      have hgrown := (h.default.run_appendCalls hroom hoff (filled v lengths) (by rw [hlen]; exact hnb)).2
      have hin := ((hbuilds v).inside _ (Nat.le_refl _)).1
      rw [hgrown, hcell] at hin
      exact hv hin
    rcases exists_cut s.size s.mRawBufferToPush_X.IndexInBuffer_U32 lengths with
      hends | ⟨pre, n, post, rfl, hpre, hn⟩
    · obtain ⟨v, hv⟩ := exists_other (s.mpData_U8 s.size)
      have hcell := growAll_outside v lengths [] h1 h2 hindex hends (by omega) hlt
      rw [List.append_nil] at hcell
      exact hin v hv hcell
    · by_cases hover : s.size < s.mRawBufferToPush_X.IndexInBuffer_U32 + pre.sum
      · obtain ⟨v, hv⟩ := exists_other (s.mpData_U8 s.size)
        rw [List.sum_append] at hlt
        exact hin v hv (growAll_outside v pre (n :: post) h1 h2 hindex hpre hover (by omega))
      · have hpost : post.sum ≠ 0 := fun hzero => hlast
          ⟨hlt, pre, n, post, rfl, List.sum_eq_zero_iff_forall_eq_nat.mp hzero, Nat.not_lt.mp hover, hn⟩
        obtain ⟨c, hc⟩ := Nat.exists_eq_add_of_le (show s.size ≤ s.mRawBufferToPush_X.IndexInBuffer_U32 + pre.sum + n by
          omega)
        obtain ⟨v, hv⟩ := exists_other (s.mpData_U8 c)
        exact h.not_buildsOne_of_cut hoff hfree hnb (Nat.not_lt.mp hover) hn hlt hpost hc hv (hbuilds v)

/-! ## Every sequence of calls -/

/-- After any sequence of calls in the default mode that leaves the append mode off and an entry free: pieces of the
given lengths, whatever their bytes, make one buffer exactly if only the last one is cut by the end of the storage. -/
theorem rawCircularBuffer_buildsOne_iff (param : RawCircularBufferParam) (hmode : DefaultMode param)
    (pData : Nat → UInt8) (pEntry : Nat → RawBuffer) (hB : 0 < param.BufferSizeInByte_U32)
    (hN : 0 < param.NbMaxBufferEntry_U32) (ops : List Op) (hops : ∀ op ∈ ops, op ≠ .setOverWriteMode true)
    (hoff : (Machine.run step (create param pData pEntry) ops).1.mAppendMode_B = false)
    (hfree : (Machine.run step (create param pData pEntry) ops).1.isFull = false) (lengths : List Nat)
    (hnb : lengths.sum ≤ (Machine.run step (create param pData pEntry) ops).1.mCrtBufferRemain_U32) :
    (∀ pieces, pieces.map List.length = lengths →
      BuildsOne (Machine.run step (create param pData pEntry) ops).1 pieces) ↔
    CutsOnlyLast (Machine.run step (create param pData pEntry) ops).1.size
      (Machine.run step (create param pData pEntry) ops).1.mRawBufferToPush_X.IndexInBuffer_U32 lengths := by
  obtain ⟨hslot, hcontiguous, hoverwrite⟩ := hmode
  have hslot' : ¬ param.SlotMode_B = true := by
    rw [hslot]
    exact Bool.false_ne_true
  have hstart : Reached (create param pData pEntry) [] :=
    ⟨⟨books_create hB hN pData pEntry, if_neg hslot', hcontiguous, hoverwrite⟩, Or.inl ⟨rfl, rfl⟩⟩
  obtain ⟨es, h⟩ := Machine.inv_run (P := fun s => ∃ es, Reached s es) (fun s op ⟨es, h⟩ hop => h.step op hop.2)
    ⟨[], hstart⟩ (Machine.meets_and (Machine.meets_of_forall (fun _ _ => (trivial : True)) _ ops) hops)
  refine ⟨fun hall => h.cutsOnlyLast hoff hfree hnb hall, fun hcut pieces hlengths => ?_⟩
  subst hlengths
  rw [← List.length_flatten] at hnb
  exact h.buildsOne hoff hfree hnb hcut

/-- The entry starts at 5 of 10 bytes: the second piece is cut, and is the last one. -/
theorem buildsOne_three_and_six :
    BuildsOne (Machine.run step (create ⟨10, by decide, false, false, 2, by decide, false, false⟩ (fun _ => 0)
      (fun _ => {})) [.pushBuffer (some [1, 2, 3, 4, 5]), .popBuffer (some 10) true]).1
      [[1, 2, 3], [4, 5, 6, 7, 8, 9]] :=
  (rawCircularBuffer_buildsOne_iff ⟨10, by decide, false, false, 2, by decide, false, false⟩ ⟨rfl, rfl, rfl⟩
    (fun _ => 0) (fun _ => {}) (by decide) (by decide) [.pushBuffer (some [1, 2, 3, 4, 5]), .popBuffer (some 10) true]
    (by decide) (by decide) (by decide) [3, 6] (by decide)).mpr
    (Or.inr (Or.inr ⟨by decide, [3], 6, [], rfl, by decide, by decide, by decide⟩)) _ rfl

/-- The second piece is cut, and the third one is not stored behind it. -/
theorem not_buildsOne_behind_cut :
    ¬ BuildsOne (Machine.run step (create ⟨10, by decide, false, false, 2, by decide, false, false⟩ (fun _ => 0)
      (fun _ => {})) [.pushBuffer (some [1, 2, 3, 4, 5]), .popBuffer (some 10) true]).1
      [[1, 2, 3], [4, 5, 6, 7, 8, 9], [10]] := by
  intro h
  exact absurd (h.pops [.popBuffer (some 10) true] fun op hop => by rw [List.mem_singleton.mp hop]; trivial) (by decide)

end BofStd.RawCircularBuffer
