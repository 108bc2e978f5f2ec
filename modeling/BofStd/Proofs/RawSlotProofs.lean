import BofStd.Proofs.RawAccountProofs

/-!
# `BofRawCircularBuffer`: the slot mode

As long as every pop takes a whole buffer, the slot mode refines the bounded queue of buffers. The slot
of a buffer is not stored anywhere: the invariant is that the buffers lie in consecutive slots from some
slot `p` on and that the head is at the start of the slot behind them.
-/

namespace BofStd.RawCircularBuffer

open Memory Machine

variable {s : RawCircularBuffer} {param : RawCircularBufferParam} {p : Nat}

/-- The slot size of the parameters in slot mode. -/
def slotOf (param : RawCircularBufferParam) : Nat :=
  param.BufferSizeInByte_U32 / param.NbMaxBufferEntry_U32

/-- The entry of the buffer `x` in the slot `j`. -/
def slotEntry (slot j : Nat) (x : List UInt8) : RawBuffer :=
  { emptyEntry (j * slot) with Size1_U32 := x.length, SlotEmpySpace_U32 := slot - x.length }

/-- The entries of the buffers `items` in the slots from `p` on. -/
def slotEntries (param : RawCircularBufferParam) (p : Nat) (items : List (List UInt8)) :
    List RawBuffer :=
  items.mapIdx fun k x => slotEntry (slotOf param) ((p + k) % param.NbMaxBufferEntry_U32) x

/-- The storage holds the buffers `items` in the slots from `p` on. -/
def SlotsHold (param : RawCircularBufferParam) (mem : Nat → UInt8) (p : Nat)
    (items : List (List UInt8)) : Prop :=
  ∀ k x, items[k]? = some x → x.length ≤ slotOf param ∧
    read mem ((p + k) % param.NbMaxBufferEntry_U32 * slotOf param) x.length = x

/-- The buffer holds the items of the queue in the slots from `p` on. -/
structure SlotRel (param : RawCircularBufferParam) (s : RawCircularBuffer) (q : SlotFifo)
    (p : Nat) : Prop where
  account : Account param s (slotEntries param p q.items)
  nbMax : q.nbMax = param.NbMaxBufferEntry_U32
  slot : q.slotSize = slotOf param
  overwrite : s.mRawCircularBufferParam_X.Overwrite_B = q.overwrite
  hold : SlotsHold param s.mpData_U8 p q.items
  head : s.mpCrtBufferHead_U8 =
    (p + q.items.length) % param.NbMaxBufferEntry_U32 * slotOf param

/-! ## Slots -/

theorem length_slotEntries (items : List (List UInt8)) :
    (slotEntries param p items).length = items.length := List.length_mapIdx

theorem slotEntries_cons (x : List UInt8) (items : List (List UInt8)) :
    slotEntries param p (x :: items) =
      slotEntry (slotOf param) (p % param.NbMaxBufferEntry_U32) x :: slotEntries param (p + 1) items := by
  rw [slotEntries, List.mapIdx_cons, slotEntries]
  simp only [Nat.add_zero, Nat.add_comm 1, Nat.add_assoc]

theorem slotEntries_append (items : List (List UInt8)) (x : List UInt8) :
    slotEntries param p (items ++ [x]) = slotEntries param p items ++
      [slotEntry (slotOf param) ((p + items.length) % param.NbMaxBufferEntry_U32) x] :=
  List.mapIdx_concat

theorem slotEntries_tail {items : List (List UInt8)} :
    (slotEntries param p items).tail = slotEntries param (p + 1) items.tail := by
  cases items with
  | nil => rfl
  | cons x items => rw [slotEntries_cons]; rfl

theorem SlotsHold.tail {mem : Nat → UInt8} {items : List (List UInt8)}
    (h : SlotsHold param mem p items) : SlotsHold param mem (p + 1) items.tail := by
  intro k x hk
  have hk' : items[k + 1]? = some x := by
    rw [← hk]
    cases items with
    | nil => rfl
    | cons y items => rfl
  have hold := h (k + 1) x hk'
  rw [Nat.add_comm k 1, ← Nat.add_assoc] at hold
  exact hold

/-- Two slots are apart. -/
theorem slots_apart {slot i j m n : Nat} (hij : i ≠ j) (hm : m ≤ slot) (hn : n ≤ slot) :
    i * slot + m ≤ j * slot ∨ j * slot + n ≤ i * slot := by
  rcases Nat.lt_or_gt_of_ne hij with hlt | hlt
  · have hmul := Nat.mul_le_mul_right slot (Nat.succ_le_of_lt hlt)
    rw [Nat.succ_mul] at hmul
    omega
  · have hmul := Nat.mul_le_mul_right slot (Nat.succ_le_of_lt hlt)
    rw [Nat.succ_mul] at hmul
    omega

/-- Writing a buffer into the slot behind the stored ones. -/
theorem SlotsHold.append {mem : Nat → UInt8} {items : List (List UInt8)}
    (h : SlotsHold param mem p items) (hlen : items.length < param.NbMaxBufferEntry_U32)
    {data : List UInt8} (hdata : data.length ≤ slotOf param) :
    SlotsHold param (write mem ((p + items.length) % param.NbMaxBufferEntry_U32 * slotOf param) data) p
      (items ++ [data]) := by
  intro k x hk
  by_cases hlt : k < items.length
  · rw [List.getElem?_append_left hlt] at hk
    obtain ⟨hle, hread⟩ := h k x hk
    refine ⟨hle, ?_⟩
    rw [read_write_of_disjoint _ _ _ (slots_apart (mod_ne_mod hlt (by omega)) hle hdata), hread]
  · rw [List.getElem?_append_right (Nat.not_lt.mp hlt)] at hk
    have hk0 : k - items.length = 0 := by
      by_contra hne
      rw [List.getElem?_eq_none (by rw [List.length_singleton]; omega)] at hk
      exact absurd hk (by simp)
    rw [hk0, List.getElem?_cons_zero, Option.some.injEq] at hk
    subst hk
    rw [show k = items.length by omega]
    exact ⟨hdata, read_write_self _ _ _⟩

theorem content_slotEntry {mem : Nat → UInt8} (hmem : s.mpData_U8 = mem) (slot j : Nat)
    (x : List UInt8) : content s (slotEntry slot j x) = read mem (j * slot) x.length := by
  rw [read_eq_map, content, hmem]
  simp [cells, slotEntry, emptyEntry]

/-- The stored contents are the items. -/
theorem SlotsHold.map_content {items : List (List UInt8)}
    (h : SlotsHold param s.mpData_U8 p items) :
    (slotEntries param p items).map (content s) = items := by
  apply List.ext_getElem?
  intro k
  rw [List.getElem?_map, slotEntries, List.getElem?_mapIdx, Option.map_map]
  cases hk : items[k]? with
  | none => rfl
  | some x =>
    rw [Option.map_some, Function.comp_apply, content_slotEntry rfl, (h k x hk).2]

/-- The head after a buffer of `nb` bytes in the slot `j` is the start of the next slot. -/
theorem wrapHead_slot {N slot j nb : Nat} (hj : j < N) (hnb : nb ≤ slot) (hpos : 0 < slot) :
    wrapHead (N * slot) (wrapHead (N * slot) (j * slot + nb) + (slot - nb)) = (j + 1) % N * slot := by
  have hmul := Nat.mul_le_mul_right slot (Nat.succ_le_of_lt hj)
  rw [Nat.succ_mul] at hmul
  have hNpos : 0 < N * slot := by omega
  unfold wrapHead
  by_cases hlast : j + 1 = N
  · subst hlast
    rw [Nat.mod_self, Nat.zero_mul]
    rw [Nat.succ_mul] at hNpos ⊢
    by_cases hfull : j * slot + nb ≥ j * slot + slot
    · rw [if_pos hfull, if_neg (by omega)]
      omega
    · rw [if_neg hfull, if_pos (by omega)]
  · have hlt : j + 1 < N := by omega
    have hmul' := Nat.mul_le_mul_right slot (Nat.succ_le_of_lt hlt)
    rw [Nat.succ_mul, Nat.succ_mul] at hmul'
    have hinner : (if j * slot + nb ≥ N * slot then 0 else j * slot + nb) = j * slot + nb :=
      if_neg (by omega)
    rw [Nat.mod_eq_of_lt hlt, hinner, if_neg (by omega), Nat.succ_mul]
    omega

/-! ## The calls -/

/-- The oldest item has been taken out or dropped: the next one is in the next slot. -/
theorem SlotRel.tail {q : SlotFifo} (h : SlotRel param s q p) (hne : q.items ≠ []) {s' : RawCircularBuffer}
    (hacc : Account param s' (slotEntries param p q.items).tail) (hsame : SameSetup s s')
    (hmem : s'.mpData_U8 = s.mpData_U8) (hhead : s'.mpCrtBufferHead_U8 = s.mpCrtBufferHead_U8) :
    SlotRel param s' { q with items := q.items.tail } (p + 1) := by
  have hlen : q.items.length = q.items.tail.length + 1 := by
    rw [List.length_tail]
    have hpos := List.length_pos_iff.mpr hne
    omega
  refine ⟨?_, h.nbMax, h.slot, ?_, ?_, ?_⟩
  · rw [slotEntries_tail] at hacc
    exact hacc
  · rw [hsame.param]
    exact h.overwrite
  · rw [hmem]
    exact h.hold.tail
  · rw [hhead, h.head, hlen]
    simp only [Nat.add_assoc, Nat.add_comm 1]

/-- All the entries take whole slots. -/
theorem SlotRel.sum_used {q : SlotFifo} (h : SlotRel param s q p) :
    ((slotEntries param p q.items).map usedSize).sum = q.items.length * slotOf param := by
  rw [← length_slotEntries (p := p)]
  apply sum_usedSize
  intro f hf
  obtain ⟨k, hk⟩ := List.getElem?_of_mem hf
  rw [slotEntries, List.getElem?_mapIdx, Option.map_eq_some_iff] at hk
  obtain ⟨x, hx, rfl⟩ := hk
  show x.length + 0 + (slotOf param - x.length) = slotOf param
  have hle := (h.hold k x hx).1
  omega

section

variable {q : SlotFifo} (hmode : param.SlotMode_B = true)
  (hdvd : param.NbMaxBufferEntry_U32 ∣ param.BufferSizeInByte_U32)

include hmode hdvd

theorem Account.slot_eq {es : List RawBuffer} (h : Account param s es) :
    s.mSlotSize_U32 = slotOf param ∧ s.size = param.NbMaxBufferEntry_U32 * slotOf param := by
  refine ⟨by rw [h.setup.slot, hmode, if_pos rfl]; rfl, ?_⟩
  rw [h.setup.size_eq, slotOf, Nat.mul_div_cancel' hdvd]

/-- Storing a buffer behind the items of the queue. -/
theorem SlotRel.storeBuffer (h : SlotRel param s q p)
    (hroom : q.items.length < param.NbMaxBufferEntry_U32) {data : List UInt8}
    (hfit : data.length ≤ slotOf param) (hfree : slotOf param ≤ s.mCrtBufferRemain_U32) :
    ∃ s', s.storeBuffer 0 data = (s', .noError) ∧
      SlotRel param s' { q with items := q.items ++ [data] } p := by
  have hbase := h.account.base
  obtain ⟨hslot, hsize⟩ := h.account.slot_eq hmode hdvd
  obtain ⟨hpos, -⟩ := h.account.remain_of_tight hmode hdvd
  rw [hslot] at hpos
  have hB := s.size_lt
  have hj : (p + q.items.length) % param.NbMaxBufferEntry_U32 < param.NbMaxBufferEntry_U32 :=
    Nat.mod_lt _ (by omega)
  have hhead := h.head
  have hend := Nat.mul_le_mul_right (slotOf param) (Nat.succ_le_of_lt hj)
  rw [Nat.succ_mul] at hend
  have hlin : u32 (startIndex s 0 + data.length) ≤ s.size := by
    show u32 (s.mpCrtBufferHead_U8 + data.length) ≤ s.size
    rw [hhead, hsize, u32_of_lt (by omega)]
    omega
  obtain ⟨s', heq, hsame, hmem, hhead', hbase'⟩ := hbase.storeBuffer_eq
    (hbase.update_linear 0 (Nat.le_trans hfit hfree) hlin)
    (by rw [length_slotEntries, h.account.setup.nbMax_eq]; exact hroom) (Nat.le_trans hfit hfree)
    (wrapHead_lt (Nat.zero_lt_of_lt hbase.head_lt) _) rfl rfl ⟨⟨_, rfl⟩, fun h0 => absurd rfl h0⟩
    (fun _ => by rw [hslot]; exact ⟨hfit, hfree⟩)
  have hstart : startIndex s 0 =
      (p + q.items.length) % param.NbMaxBufferEntry_U32 * slotOf param := hhead
  rw [hstart] at hmem hhead' hbase'
  rw [hslot] at hhead' hbase'
  have hused : usedSize (slotEntry (slotOf param)
      ((p + q.items.length) % param.NbMaxBufferEntry_U32) data) = slotOf param := by
    show data.length + 0 + (slotOf param - data.length) = slotOf param
    omega
  refine ⟨s', heq, ⟨⟨?_, h.account.setup.of_same hsame, fun hm => ?_⟩, h.nbMax, h.slot, ?_, ?_, ?_⟩⟩
  · rw [slotEntries_append]
    exact hbase'
  · have htight := h.account.tight hm
    rw [hsame.slot, hslot, slotEntries_append]
    rw [hslot] at htight
    exact htight.append hused
  · rw [hsame.param]
    exact h.overwrite
  · rw [hmem]
    exact h.hold.append hroom hfit
  · rw [hhead', hsize, wrapHead_slot hj hfit hpos, List.length_append, List.length_singleton,
      Nat.mod_add_mod, ← Nat.add_assoc]

/-- A full buffer has no free byte. -/
theorem SlotRel.keepsAccount (h : SlotRel param s q p) {data : List UInt8} (hne : data.length ≠ 0) :
    KeepsAccount s (.pushBuffer (some data)) := by
  intro _ hfull
  left
  obtain ⟨hslot, hsize⟩ := h.account.slot_eq hmode hdvd
  have hlen : q.items.length = param.NbMaxBufferEntry_U32 := by
    rw [h.account.base.isFull_eq, decide_eq_true_eq, length_slotEntries,
      h.account.setup.nbMax_eq] at hfull
    exact hfull
  have hremain := h.account.base.remain
  rw [h.sum_used, hlen, hsize] at hremain
  omega

/-- A push does what it does on the queue, and a push that is refused changes nothing. -/
theorem SlotRel.pushBuffer (h : SlotRel param s q p) {data : List UInt8} (hne : data.length ≠ 0) :
    ((∃ p', SlotRel param (s.pushBuffer (some data)).1 (q.step (.pushBuffer (some data))).1 p') ∧
      ((s.pushBuffer (some data)).2, []) = (q.step (.pushBuffer (some data))).2) ∧
    (q.items.length = param.NbMaxBufferEntry_U32 → q.overwrite = false →
      (s.pushBuffer (some data)).1 = s) := by
  obtain ⟨hslot, -⟩ := h.account.slot_eq hmode hdvd
  have hnbMax := h.account.setup.nbMax_eq
  have hlen : (slotEntries param p q.items).length = q.items.length := length_slotEntries _
  have hle := h.account.base.length_le
  rcases h.account.pushBuffer_cases hmode hdvd hne (h.keepsAccount hmode hdvd hne) with
    ⟨t, fs, hpush, hacc, hsame, hmem, hhead, hfit, hfree, hroom, hcase⟩ | ⟨hpush, hcase⟩
  · rw [hslot] at hfit hfree
    rcases hcase with rfl | ⟨hfull, ho, rfl⟩
    · have hrel : SlotRel param t q p :=
        ⟨hacc, h.nbMax, h.slot, by rw [hsame.param]; exact h.overwrite, by rw [hmem]; exact h.hold,
          by rw [hhead]; exact h.head⟩
      obtain ⟨s', heq, hrel'⟩ := hrel.storeBuffer hmode hdvd (by omega) hfit hfree
      rw [hpush, heq, SlotFifo.step, if_neg hne, if_pos ⟨by rw [h.slot]; exact hfit,
        by rw [h.nbMax]; omega⟩]
      exact ⟨⟨⟨p, hrel'⟩, rfl⟩, fun hfull => by omega⟩
    · have hN := h.account.base.nbMax_pos
      have hitems : q.items ≠ [] := by
        intro hnil
        have hzero : q.items.length = 0 := by rw [hnil]; rfl
        omega
      have hrel := h.tail hitems hacc hsame hmem hhead
      have hroom' : q.items.tail.length < param.NbMaxBufferEntry_U32 := by
        rw [List.length_tail]
        omega
      obtain ⟨s', heq, hrel'⟩ := hrel.storeBuffer hmode hdvd hroom' hfit hfree
      rw [hpush, heq, SlotFifo.step, if_neg hne, if_neg (by rw [h.nbMax]; omega),
        if_pos ⟨by rw [h.slot]; exact hfit, by rw [← h.overwrite]; exact ho⟩]
      refine ⟨⟨⟨p + 1, hrel'⟩, rfl⟩, fun _ hover => ?_⟩
      rw [← h.overwrite, ho] at hover
      exact absurd hover (by decide)
  · rw [hpush, SlotFifo.step, if_neg hne]
    refine ⟨?_, fun _ _ => rfl⟩
    rcases hcase with hbig | ⟨hfull, ho⟩
    · rw [hslot, ← h.slot] at hbig
      rw [if_neg (fun hand => absurd hand.1 (Nat.not_le.mpr hbig)),
        if_neg (fun hand => absurd hand.1 (Nat.not_le.mpr hbig))]
      exact ⟨⟨p, h⟩, rfl⟩
    · rw [if_neg (by rw [h.nbMax]; omega), if_neg (by
        rintro ⟨-, hover⟩
        rw [← h.overwrite, ho] at hover
        exact absurd hover (by decide))]
      exact ⟨⟨p, h⟩, rfl⟩

omit hmode hdvd in
/-- A pop of a whole buffer does what it does on the queue. -/
theorem SlotRel.popBuffer (h : SlotRel param s q p) {nbMax : Nat} (hnb : nbMax ≠ 0)
    (hwhole : PopsWhole s (.popBuffer (some nbMax) true)) :
    (∃ p', SlotRel param (s.popBuffer (some nbMax) true).1
        (q.step (.popBuffer (some nbMax) true)).1 p') ∧
      ((s.popBuffer (some nbMax) true).2.err, (s.popBuffer (some nbMax) true).2.data) =
        (q.step (.popBuffer (some nbMax) true)).2 := by
  have hbase := h.account.base
  cases hitems : q.items with
  | nil =>
    rw [hitems] at hbase
    rw [hbase.popBuffer_empty hnb, SlotFifo.step, if_neg hnb, hitems]
    exact ⟨⟨p, h⟩, rfl⟩
  | cons x items =>
    have hbase' := hbase
    rw [hitems, slotEntries_cons] at hbase'
    have hle : unreadSize (slotEntry (slotOf param) (p % param.NbMaxBufferEntry_U32) x) ≤ nbMax := by
      refine hwhole _ ?_
      rw [hbase'.entries_eq]
      rfl
    have hx : content s (slotEntry (slotOf param) (p % param.NbMaxBufferEntry_U32) x) = x := by
      rw [content_slotEntry rfl]
      exact (h.hold 0 x (by rw [hitems]; rfl)).2
    obtain ⟨s', heq, hsame, hmem, hhead, hbase''⟩ := hbase'.popBuffer_whole hnb hle
    have htail : (slotEntries param p q.items).tail = slotEntries param (p + 1) items := by
      rw [slotEntries_tail, hitems]
      rfl
    have hacc : Account param s' (slotEntries param p q.items).tail := by
      refine ⟨by rw [htail]; exact hbase'', h.account.setup.of_same hsame, fun hm => ?_⟩
      have htight := h.account.tight hm
      rw [hitems, slotEntries_cons] at htight
      rw [htail, hsame.slot]
      exact htight.tail
    have hrel := h.tail (by rw [hitems]; simp) hacc hsame hmem hhead
    rw [hitems, List.tail_cons] at hrel
    rw [heq, SlotFifo.step, if_neg hnb, hitems]
    exact ⟨⟨p + 1, hrel⟩, by rw [hx]⟩

/-- One call on the buffer and on the queue. -/
theorem SlotRel.step (h : SlotRel param s q p) (op : Op) (hcall : SlotCall op)
    (hwhole : PopsWhole s op) :
    (∃ p', SlotRel param (s.step op).1 (q.step op).1 p') ∧
      ((s.step op).2.err, (s.step op).2.data) = (q.step op).2 := by
  match op, hcall with
  | .pushBuffer none, _ => exact ⟨⟨p, h⟩, rfl⟩
  | .pushBuffer (some data), _ =>
    by_cases hne : data.length = 0
    · simp only [RawCircularBuffer.step, RawCircularBuffer.pushBuffer, SlotFifo.step, hne, if_true]
      exact ⟨⟨p, h⟩, trivial⟩
    · exact (h.pushBuffer hmode hdvd hne).1
  | .popBuffer (some nbMax) true, _ =>
    by_cases hnb : nbMax = 0
    · have heinval : s.popBuffer (some nbMax) true = (s, { err := .einval }) :=
        popBuffer_einval fun n h1 h2 _ => h2 (by rw [← Option.some.inj h1, hnb])
      rw [RawCircularBuffer.step, heinval, SlotFifo.step, if_pos hnb]
      exact ⟨⟨p, h⟩, rfl⟩
    · exact h.popBuffer hnb hwhole
  | .popBuffer none pData, _ => exact ⟨⟨p, h⟩, rfl⟩
  | .popBuffer (some nbMax) false, _ =>
    have heinval : s.popBuffer (some nbMax) false = (s, { err := .einval }) :=
      popBuffer_einval fun _ _ _ h3 => absurd h3 (by decide)
    simp only [RawCircularBuffer.step, heinval, SlotFifo.step]
    exact ⟨⟨p, h⟩, trivial⟩
  | .setOverWriteMode b, _ =>
    exact ⟨⟨p, ⟨h.account.base.setOverWriteMode b, h.account.setup.setOverWriteMode b,
      h.account.tight⟩, h.nbMax, h.slot, rfl, h.hold, h.head⟩, rfl⟩
  | .reset, _ =>
    refine ⟨⟨0, ⟨h.account.base.reset, ⟨h.account.setup.modes, h.account.setup.slot⟩, fun _ => trivial⟩,
      h.nbMax, h.slot, h.overwrite, fun k x hk => absurd hk (by simp [SlotFifo.step]), ?_⟩, rfl⟩
    show 0 = (0 + 0) % param.NbMaxBufferEntry_U32 * slotOf param
    rw [Nat.zero_mod, Nat.zero_mul]

end

/-! ## Runs -/

theorem slotRel_create (param : RawCircularBufferParam) (pData : Nat → UInt8)
    (pEntry : Nat → RawBuffer) (hB : 0 < param.BufferSizeInByte_U32)
    (hN : 0 < param.NbMaxBufferEntry_U32) :
    SlotRel param (create param pData pEntry)
      ⟨param.NbMaxBufferEntry_U32, slotOf param, param.Overwrite_B, []⟩ 0 := by
  refine ⟨⟨base_create param pData pEntry hB hN, setupOf_create param pData pEntry, fun _ => trivial⟩,
    rfl, rfl, rfl, fun k x hk => absurd hk (by simp), ?_⟩
  show 0 = (0 + 0) % param.NbMaxBufferEntry_U32 * slotOf param
  rw [Nat.zero_mod, Nat.zero_mul]

/-- The buffer and the queue at the end of the same run. -/
theorem slotRel_run (param : RawCircularBufferParam) (pData : Nat → UInt8)
    (pEntry : Nat → RawBuffer) (hB : 0 < param.BufferSizeInByte_U32)
    (hN : 0 < param.NbMaxBufferEntry_U32) (hmode : param.SlotMode_B = true)
    (hdvd : param.NbMaxBufferEntry_U32 ∣ param.BufferSizeInByte_U32) (ops : List Op)
    (hcalls : ∀ op ∈ ops, SlotCall op)
    (hc : Meets step PopsWhole (create param pData pEntry) ops) :
    (∃ p, SlotRel param (run step (create param pData pEntry) ops).1
      (run SlotFifo.step ⟨param.NbMaxBufferEntry_U32, slotOf param, param.Overwrite_B, []⟩ ops).1 p) ∧
    (run step (create param pData pEntry) ops).2.map (fun out => (out.err, out.data)) =
      (run SlotFifo.step ⟨param.NbMaxBufferEntry_U32, slotOf param, param.Overwrite_B, []⟩ ops).2 := by
  refine sim_run (R := fun s q => ∃ p, SlotRel param s q p) ?_
    ⟨0, slotRel_create param pData pEntry hB hN⟩ (meets_and hc hcalls)
  rintro s q op ⟨p, hrel⟩ ⟨hwhole, hcall⟩
  exact hrel.step hmode hdvd op hcall hwhole

/-- In slot mode, with slots that fill the storage and pops that take whole buffers, the buffer refines
the bounded queue. -/
theorem rawCircularBuffer_refinesSlotFifo (param : RawCircularBufferParam) (pData : Nat → UInt8)
    (pEntry : Nat → RawBuffer) (hB : 0 < param.BufferSizeInByte_U32)
    (hN : 0 < param.NbMaxBufferEntry_U32) (hmode : param.SlotMode_B = true)
    (hdvd : param.NbMaxBufferEntry_U32 ∣ param.BufferSizeInByte_U32) (ops : List Op)
    (hcalls : ∀ op ∈ ops, SlotCall op)
    (hc : Meets step PopsWhole (create param pData pEntry) ops) :
    RefinesSlotFifo param pData pEntry ops := by
  obtain ⟨⟨p, hrel⟩, hresults⟩ := slotRel_run param pData pEntry hB hN hmode hdvd ops hcalls hc
  have hentries := hrel.account.base.entries_eq
  refine ⟨?_, hresults, ⟨p, ?_⟩, ?_, ?_⟩
  · rw [hentries]
    exact hrel.hold.map_content
  · intro i e he
    rw [hentries, slotEntries, List.getElem?_mapIdx, Option.map_eq_some_iff] at he
    obtain ⟨x, hx, rfl⟩ := he
    exact ⟨rfl, (hrel.hold i x hx).1, rfl⟩
  · obtain ⟨-, hsum⟩ := hrel.account.remain_of_tight hmode hdvd
    obtain ⟨hslot, -⟩ := hrel.account.slot_eq hmode hdvd
    rw [hrel.sum_used, hslot, hrel.account.setup.nbMax_eq] at hsum
    rw [hentries, length_slotEntries, Nat.sub_mul]
    show _ = param.NbMaxBufferEntry_U32 * slotOf param - _ * slotOf param
    omega
  · rintro ops₁ data ops₂ rfl hfull ho
    rw [meets_append] at hc
    have hcalls₁ : ∀ op ∈ ops₁, SlotCall op := fun o hmem => hcalls o (by simp [hmem])
    obtain ⟨⟨p₁, hrel₁⟩, -⟩ := slotRel_run param pData pEntry hB hN hmode hdvd ops₁ hcalls₁ hc.1
    rw [hrel₁.account.base.entries_eq, length_slotEntries] at hfull
    by_cases hne : data.length = 0
    · simp [pushBuffer, hne]
    · exact (hrel₁.pushBuffer hmode hdvd hne).2 hfull (by rw [← hrel₁.overwrite]; exact ho)

/-- Two slots of four bytes: the oldest buffer is replaced in overwrite mode, and read whole. -/
theorem refinesSlotFifo_two_slots :
    RefinesSlotFifo ⟨8, by decide, true, false, 2, by decide, false, false⟩ (fun _ => 0) (fun _ => {})
      [.pushBuffer (some [1, 2]), .pushBuffer (some [3, 4, 5]), .setOverWriteMode true,
        .pushBuffer (some [6]), .popBuffer (some 4) true] :=
  rawCircularBuffer_refinesSlotFifo _ _ _ (by decide) (by decide) rfl (by decide) _
    (by simp [SlotCall]) ⟨trivial, trivial, trivial, trivial, by unfold PopsWhole; decide, trivial⟩

end BofStd.RawCircularBuffer
