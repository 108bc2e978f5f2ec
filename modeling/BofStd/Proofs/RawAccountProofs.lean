import BofStd.Proofs.RawCircularBufferProofs

/-!
# `BofRawCircularBuffer`: the accounting of the free bytes

In the default mode the free bytes are exact on every run. In slot mode they are exact as long as no
push meets a full buffer whose oldest entry is partly read, and no skip drops an entry with padding.
What makes the slot mode work is that only the oldest entry can be smaller than its slot (`Tight`).
-/

namespace BofStd.RawCircularBuffer

open Machine

variable {s : RawCircularBuffer} {es : List RawBuffer} {param : RawCircularBufferParam}

/-- Every entry but the oldest takes a whole slot, and the oldest at most that. -/
def Tight (slot : Nat) : List RawBuffer → Prop
  | [] => True
  | e :: es => usedSize e ≤ slot ∧ ∀ f ∈ es, usedSize f = slot

theorem sum_usedSize {slot : Nat} (h : ∀ f ∈ es, usedSize f = slot) :
    (es.map usedSize).sum = es.length * slot := by
  induction es with
  | nil => exact (Nat.zero_mul slot).symm
  | cons e es ih =>
    rw [List.forall_mem_cons] at h
    rw [List.map_cons, List.sum_cons, h.1, ih h.2, List.length_cons, Nat.succ_mul, Nat.add_comm]

theorem Tight.sum_tail {slot : Nat} {e : RawBuffer} (h : Tight slot (e :: es)) :
    ((e :: es).map usedSize).sum = usedSize e + es.length * slot := by
  rw [List.map_cons, List.sum_cons, sum_usedSize h.2]

theorem Tight.sum_le {slot : Nat} (h : Tight slot es) : (es.map usedSize).sum ≤ es.length * slot := by
  cases es with
  | nil => exact Nat.zero_le _
  | cons e es =>
    have hle := h.1
    rw [h.sum_tail, List.length_cons, Nat.succ_mul]
    omega

theorem Tight.append {slot : Nat} (h : Tight slot es) {e : RawBuffer} (he : usedSize e = slot) :
    Tight slot (es ++ [e]) := by
  cases es with
  | nil => exact ⟨Nat.le_of_eq he, fun f hf => absurd hf List.not_mem_nil⟩
  | cons f es =>
    refine ⟨h.1, fun g hg => ?_⟩
    rcases List.mem_append.mp hg with hg | hg
    · exact h.2 g hg
    · rw [List.mem_singleton.mp hg]
      exact he

theorem Tight.tail {slot : Nat} {e : RawBuffer} (h : Tight slot (e :: es)) : Tight slot es := by
  cases es with
  | nil => trivial
  | cons f es =>
    exact ⟨Nat.le_of_eq (h.2 f List.mem_cons_self), fun g hg => h.2 g (List.mem_cons_of_mem _ hg)⟩

/-- What holds between calls in the modes whose bytes are accounted for. -/
structure Account (param : RawCircularBufferParam) (s : RawCircularBuffer)
    (es : List RawBuffer) : Prop where
  base : Base s es
  setup : SetupOf param s
  tight : param.SlotMode_B = true → Tight s.mSlotSize_U32 es

/-- Storing a buffer at the head. In slot mode it takes its whole slot. -/
theorem Base.storeBuffer_used (h : Base s es) {data : List UInt8}
    (hroom : es.length < s.mRawCircularBufferParam_X.NbMaxBufferEntry_U32)
    (hnb : data.length ≤ s.mCrtBufferRemain_U32)
    (hslot : s.mSlotSize_U32 ≠ 0 →
      data.length ≤ s.mSlotSize_U32 ∧ s.mSlotSize_U32 ≤ s.mCrtBufferRemain_U32) :
    ∃ s' e, s.storeBuffer 0 data = (s', .noError) ∧ SameSetup s s' ∧ Base s' (es ++ [e]) ∧
      usedSize e = data.length + (s.mSlotSize_U32 - data.length) := by
  have hhead := h.head_lt
  have hB := s.size_lt
  have hrem := h.remain_le
  by_cases hlin : u32 (s.mpCrtBufferHead_U8 + data.length) ≤ s.size
  · obtain ⟨s', heq, hsame, -, -, hbase⟩ := h.storeBuffer_eq (h.update_linear 0 hnb hlin) hroom hnb
      (wrapHead_lt (by omega) _) rfl rfl ⟨⟨_, rfl⟩, fun h0 => absurd rfl h0⟩ hslot
    exact ⟨s', _, heq, hsame, hbase, rfl⟩
  · -- the head and the size are below the end, so a wrapped sum would be below the end too
    have hlt : s.mpCrtBufferHead_U8 + data.length < 4294967296 := by
      rw [u32_eq_mod] at hlin
      omega
    rw [u32_of_lt hlt] at hlin
    have hsize : s.size - s.mpCrtBufferHead_U8 +
        (data.length - (s.size - s.mpCrtBufferHead_U8)) = data.length := by omega
    obtain ⟨s', heq, hsame, -, -, hbase⟩ := h.storeBuffer_eq
      (h.update_split hnb (by omega) hlt) hroom hnb (wrapHead_lt (by omega) _) rfl hsize
      ⟨⟨_, rfl⟩, fun _ => ⟨_, rfl⟩⟩ hslot
    refine ⟨s', _, heq, hsame, hbase, ?_⟩
    show s.size - s.mpCrtBufferHead_U8 + (data.length - (s.size - s.mpCrtBufferHead_U8)) + _ = _
    rw [hsize]

theorem makeRoom_default {s' : RawCircularBuffer} {nb : Nat} (h0 : s.mSlotSize_U32 = 0)
    (hcont : s.mRawCircularBufferParam_X.AlwaysContiguous_B = false) (hfit : nb ≤ s.size)
    (hrec : recover (s.mpuBufferCollection.mNbElementInBuffer_U32 + 1) nb
      { s with mOverflow_B := true } = (s', .noError)) :
    s.makeRoom nb 0 = (s', true, 0, .noError) := by
  unfold makeRoom dropOldest
  rw [if_neg (not_not.mpr h0)]
  dsimp only
  rw [if_pos hfit, hcont, if_neg Bool.false_ne_true, if_neg (not_not.mpr rfl), hrec]

/-- A push in the default mode. -/
theorem Account.pushBuffer_default (h : Account param s es) (hslot : param.SlotMode_B = false)
    (hcont : param.AlwaysContiguous_B = false) {data : List UInt8} (hne : data.length ≠ 0) :
    ∃ es', Account param (s.pushBuffer (some data)).1 es' := by
  have h0 : s.mSlotSize_U32 = 0 := by rw [h.setup.slot, hslot, if_neg (by decide)]
  have hcont' := h.setup.contiguous_eq.trans hcont
  have hlen := h.base.length_le
  have hN := h.base.nbMax_pos
  have hstore : ∀ {t : RawCircularBuffer} {fs : List RawBuffer}, Base t fs → SameSetup s t →
      fs.length < s.mRawCircularBufferParam_X.NbMaxBufferEntry_U32 →
      data.length ≤ t.mCrtBufferRemain_U32 →
      ∃ es', Account param (t.storeBuffer 0 data).1 es' := by
    intro t fs hbase hsame hroom hnb
    obtain ⟨s', e, heq, hsame', hbase', -⟩ := hbase.storeBuffer_used (by rw [hsame.param]; exact hroom)
      hnb (fun hne0 => absurd (hsame.slot.trans h0) hne0)
    rw [heq]
    exact ⟨_, hbase', (h.setup.of_same hsame).of_same hsame', fun hs => absurd hslot (by rw [hs]; decide)⟩
  have henough := enoughSpace_default h.base h0 hcont' data.length
  by_cases hspace : data.length ≤ s.mCrtBufferRemain_U32 ∧
      es.length ≠ s.mRawCircularBufferParam_X.NbMaxBufferEntry_U32
  · rw [pushBuffer_store hne (by rw [henough, decide_eq_true hspace])]
    exact hstore h.base ⟨rfl, rfl⟩ (by omega) hspace.1
  · have hfalse : (s.enoughSpace data.length).1 = false := by
      rw [henough]
      exact decide_eq_false hspace
    cases ho : s.mRawCircularBufferParam_X.Overwrite_B with
    | false =>
      rw [pushBuffer_refused hne hfalse ho]
      exact ⟨es, h⟩
    | true =>
      by_cases hfit : data.length ≤ s.size
      · -- without entries all the bytes are free, and there would have been enough space
        have hes : es ≠ [] := by
          rintro rfl
          have hall := h.base.remain
          simp only [List.map_nil, List.sum_nil, Nat.add_zero] at hall
          exact hspace ⟨by omega, by simp only [List.length_nil]; omega⟩
        have hcount : s.mpuBufferCollection.mNbElementInBuffer_U32 = es.length :=
          h.base.ring.count_eq
        obtain ⟨s', k, hrec, hsame, -, -, hk, hbase, hrem⟩ :=
          (h.base.setOverflow true).recover_spec h0 hes (Nat.lt_succ_of_le (Nat.le_of_eq hcount.symm))
            hfit
        have hroom : s.makeRoom data.length (s.enoughSpace data.length).2 =
            (s', true, 0, .noError) := by
          rw [henough]
          exact makeRoom_default h0 hcont' hfit hrec
        rw [pushBuffer_over hne hfalse h.base.append ho hroom]
        refine hstore hbase ⟨hsame.param, hsame.slot⟩ ?_ hrem
        have hpos := List.length_pos_iff.mpr hes
        rw [List.length_drop]
        omega
      · have hroom : s.makeRoom data.length (s.enoughSpace data.length).2 =
            (s, false, 0, .noError) := by
          simp [makeRoom, h0, hcont', hfit, henough]
        rw [pushBuffer_over_refused hne hfalse h.base.append ho hroom]
        exact ⟨es, h⟩

/-- In slot mode the free bytes are a number of slots and what was read of the oldest entry. -/
theorem Account.remain_of_tight (h : Account param s es) (hslot : param.SlotMode_B = true)
    (hdvd : param.NbMaxBufferEntry_U32 ∣ param.BufferSizeInByte_U32) :
    0 < s.mSlotSize_U32 ∧
    s.mCrtBufferRemain_U32 + (es.map usedSize).sum =
      s.mRawCircularBufferParam_X.NbMaxBufferEntry_U32 * s.mSlotSize_U32 := by
  have hsize := h.base.remain
  have hhead := h.base.head_lt
  have heq : s.size = s.mRawCircularBufferParam_X.NbMaxBufferEntry_U32 * s.mSlotSize_U32 := by
    rw [h.setup.size_eq, h.setup.nbMax_eq, h.setup.slot, hslot, if_pos rfl, Nat.mul_div_cancel' hdvd]
  refine ⟨Nat.pos_of_ne_zero fun h0 => ?_, hsize.trans heq⟩
  rw [h0, Nat.mul_zero] at heq
  omega

/-- With a slot free, at least a slot of bytes is free. -/
theorem Account.slot_le_remain (h : Account param s es) (hslot : param.SlotMode_B = true)
    (hdvd : param.NbMaxBufferEntry_U32 ∣ param.BufferSizeInByte_U32)
    (hroom : es.length < s.mRawCircularBufferParam_X.NbMaxBufferEntry_U32) :
    s.mSlotSize_U32 ≤ s.mCrtBufferRemain_U32 := by
  obtain ⟨-, hsum⟩ := h.remain_of_tight hslot hdvd
  have hle := (h.tight hslot).sum_le
  have hmul := Nat.mul_le_mul_right s.mSlotSize_U32 (Nat.succ_le_of_lt hroom)
  rw [Nat.succ_mul] at hmul
  omega

/-- With all the slots taken, what is free is the read part of the oldest slot. -/
theorem Account.remain_of_full {e : RawBuffer} (h : Account param s (e :: es))
    (hslot : param.SlotMode_B = true)
    (hdvd : param.NbMaxBufferEntry_U32 ∣ param.BufferSizeInByte_U32)
    (hfull : (e :: es).length = s.mRawCircularBufferParam_X.NbMaxBufferEntry_U32) :
    s.mCrtBufferRemain_U32 + usedSize e = s.mSlotSize_U32 := by
  obtain ⟨-, hsum⟩ := h.remain_of_tight hslot hdvd
  rw [(h.tight hslot).sum_tail, ← hfull, List.length_cons, Nat.succ_mul] at hsum
  omega

theorem makeRoom_slot {s' : RawCircularBuffer} {nb : Nat} (hslot : s.mSlotSize_U32 ≠ 0)
    (hfit : nb ≤ s.mSlotSize_U32)
    (hdrop : ({ s with mOverflow_B := true } : RawCircularBuffer).dropOldestSlot = (s', .noError)) :
    s.makeRoom nb 0 = (s', true, 0, .noError) := by
  unfold makeRoom
  rw [if_pos hslot, if_pos hfit, hdrop]

theorem makeRoom_slot_refused {nb : Nat} (hslot : s.mSlotSize_U32 ≠ 0) (hfit : ¬ nb ≤ s.mSlotSize_U32) :
    s.makeRoom nb 0 = (s, false, 0, .noError) := by
  unfold makeRoom
  rw [if_pos hslot, if_neg hfit]

/-- A push in slot mode, by its outcomes: the buffer gets a free slot or the slot of the oldest one, or
it is refused and nothing changes. -/
theorem Account.pushBuffer_cases (h : Account param s es) (hmode : param.SlotMode_B = true)
    (hdvd : param.NbMaxBufferEntry_U32 ∣ param.BufferSizeInByte_U32) {data : List UInt8}
    (hne : data.length ≠ 0) (hop : KeepsAccount s (.pushBuffer (some data))) :
    (∃ t fs, s.pushBuffer (some data) = t.storeBuffer 0 data ∧ Account param t fs ∧ SameSetup s t ∧
      t.mpData_U8 = s.mpData_U8 ∧ t.mpCrtBufferHead_U8 = s.mpCrtBufferHead_U8 ∧
      data.length ≤ s.mSlotSize_U32 ∧ s.mSlotSize_U32 ≤ t.mCrtBufferRemain_U32 ∧
      fs.length < s.mRawCircularBufferParam_X.NbMaxBufferEntry_U32 ∧
      (fs = es ∨ (es.length = s.mRawCircularBufferParam_X.NbMaxBufferEntry_U32 ∧
        s.mRawCircularBufferParam_X.Overwrite_B = true ∧ fs = es.tail))) ∨
    (s.pushBuffer (some data) = (s, .tooBig) ∧
      (s.mSlotSize_U32 < data.length ∨
        (es.length = s.mRawCircularBufferParam_X.NbMaxBufferEntry_U32 ∧
          s.mRawCircularBufferParam_X.Overwrite_B = false))) := by
  obtain ⟨hpos, -⟩ := h.remain_of_tight hmode hdvd
  have hslot : s.mSlotSize_U32 ≠ 0 := Nat.ne_of_gt hpos
  have hlen := h.base.length_le
  have henough := enoughSpace_slot h.base hslot data.length
  by_cases hspace : data.length ≤ s.mCrtBufferRemain_U32 ∧ data.length ≤ s.mSlotSize_U32
  · have hroom : es.length < s.mRawCircularBufferParam_X.NbMaxBufferEntry_U32 := by
      refine Nat.lt_of_le_of_ne hlen fun hfull => ?_
      have hcase := hop hslot (by rw [h.base.isFull_eq, decide_eq_true hfull])
      omega
    left
    exact ⟨s, es, pushBuffer_store hne (by rw [henough, decide_eq_true hspace]), h, ⟨rfl, rfl⟩, rfl, rfl,
      hspace.2, h.slot_le_remain hmode hdvd hroom, hroom, Or.inl rfl⟩
  · have hfalse : (s.enoughSpace data.length).1 = false := by
      rw [henough]
      exact decide_eq_false hspace
    -- a buffer that fits into a slot is only refused when all the slots are taken
    have hfull : data.length ≤ s.mSlotSize_U32 →
        es.length = s.mRawCircularBufferParam_X.NbMaxBufferEntry_U32 := by
      intro hfit
      refine Nat.le_antisymm hlen (Nat.not_lt.mp fun hroom => ?_)
      have hfree := h.slot_le_remain hmode hdvd hroom
      omega
    cases ho : s.mRawCircularBufferParam_X.Overwrite_B with
    | false =>
      right
      refine ⟨pushBuffer_refused hne hfalse ho, ?_⟩
      by_cases hfit : data.length ≤ s.mSlotSize_U32
      · exact Or.inr ⟨hfull hfit, rfl⟩
      · exact Or.inl (Nat.not_le.mp hfit)
    | true =>
      by_cases hfit : data.length ≤ s.mSlotSize_U32
      · left
        have hN := h.base.nbMax_pos
        have hfull' := hfull hfit
        obtain ⟨e, es, rfl⟩ := List.exists_cons_of_length_pos (l := es) (by omega)
        obtain ⟨s', hdrop, hsame, hmem, hhead, hbase, hrem⟩ :=
          (h.base.setOverflow true).dropOldestSlot_spec (h.remain_of_full hmode hdvd hfull')
        have hroom : s.makeRoom data.length (s.enoughSpace data.length).2 =
            (s', true, 0, .noError) := by
          rw [henough]
          exact makeRoom_slot hslot hfit hdrop
        have hsame' : SameSetup s s' := ⟨hsame.param, hsame.slot⟩
        refine ⟨s', es, pushBuffer_over hne hfalse h.base.append ho hroom,
          ⟨hbase, h.setup.of_same hsame', fun hm => ?_⟩, hsame', hmem, hhead, hfit,
          Nat.le_of_eq hrem.symm, ?_, Or.inr ⟨hfull', rfl, rfl⟩⟩
        · rw [hsame'.slot]
          exact (h.tight hm).tail
        · rw [List.length_cons] at hfull'
          omega
      · right
        have hroom : s.makeRoom data.length (s.enoughSpace data.length).2 =
            (s, false, 0, .noError) := by
          rw [henough]
          exact makeRoom_slot_refused hslot hfit
        exact ⟨pushBuffer_over_refused hne hfalse h.base.append ho hroom,
          Or.inl (Nat.not_le.mp hfit)⟩

theorem Account.pushBuffer_slot (h : Account param s es) (hmode : param.SlotMode_B = true)
    (hdvd : param.NbMaxBufferEntry_U32 ∣ param.BufferSizeInByte_U32) {data : List UInt8}
    (hne : data.length ≠ 0) (hop : KeepsAccount s (.pushBuffer (some data))) :
    ∃ es', Account param (s.pushBuffer (some data)).1 es' := by
  rcases h.pushBuffer_cases hmode hdvd hne hop with
    ⟨t, fs, hpush, hacc, hsame, -, -, hfit, hfree, hroom, -⟩ | ⟨hpush, -⟩
  · obtain ⟨s', e, heq, hsame', hbase', hused⟩ :=
      hacc.base.storeBuffer_used (by rw [hsame.param]; exact hroom) (Nat.le_trans hfit hfree)
        (fun _ => by rw [hsame.slot]; exact ⟨hfit, hfree⟩)
    rw [hpush, heq]
    refine ⟨_, hbase', hacc.setup.of_same hsame', fun _ => ?_⟩
    rw [hsame'.slot]
    exact (hacc.tight hmode).append (by rw [hused, hsame.slot]; omega)
  · rw [hpush]
    exact ⟨es, h⟩

/-- A pop, with any limit. -/
theorem Account.popBuffer (h : Account param s es) (pNbMax : Option Nat) (pData : Bool) :
    ∃ es', Account param (s.popBuffer pNbMax pData).1 es' := by
  by_cases hvalid : ∃ nbMax, pNbMax = some nbMax ∧ nbMax ≠ 0 ∧ pData = true
  · obtain ⟨nbMax, rfl, hnb, rfl⟩ := hvalid
    cases es with
    | nil =>
      rw [h.base.popBuffer_empty hnb]
      exact ⟨[], h⟩
    | cons e es =>
      by_cases hlt : nbMax < unreadSize e
      · obtain ⟨s', heq, hsame, -, -, hbase⟩ := h.base.popBuffer_part hnb hlt
        rw [heq]
        refine ⟨_, hbase, h.setup.of_same hsame, fun hm => ?_⟩
        have htight := h.tight hm
        rw [hsame.slot]
        refine ⟨Nat.le_trans ?_ htight.1, htight.2⟩
        show unreadSize (consume e nbMax) + e.SlotEmpySpace_U32 ≤ _
        rw [unreadSize_consume (h.base.pointers e List.mem_cons_self), usedSize]
        omega
      · obtain ⟨s', heq, hsame, -, -, hbase⟩ := h.base.popBuffer_whole hnb (Nat.not_lt.mp hlt)
        rw [heq]
        refine ⟨_, hbase, h.setup.of_same hsame, fun hm => ?_⟩
        rw [hsame.slot]
        exact (h.tight hm).tail
  · rw [popBuffer_einval fun nbMax h1 h2 h3 => hvalid ⟨nbMax, h1, h2, h3⟩]
    exact ⟨es, h⟩

/-- One call. -/
theorem Account.step (h : Account param s es) (hmode : AccountMode param) (op : Op)
    (hcall : AccountCall op) (hop : KeepsAccount s op) : ∃ es', Account param (s.step op).1 es' := by
  match op, hcall with
  | .pushBuffer none, _ => exact ⟨es, h⟩
  | .pushBuffer (some data), _ =>
    by_cases hne : data.length = 0
    · refine ⟨es, ?_⟩
      simpa [RawCircularBuffer.step, pushBuffer, hne] using h
    · rcases hmode with ⟨hslot, hcont⟩ | ⟨hslot, hdvd⟩
      · exact h.pushBuffer_default hslot hcont hne
      · exact h.pushBuffer_slot hslot hdvd hne hop
  | .popBuffer pNbMax pData, _ => exact h.popBuffer pNbMax pData
  | .getBufferPtr, _ => exact ⟨es, h⟩
  | .skip b, _ =>
    cases es with
    | nil =>
      refine ⟨[], ?_⟩
      simp only [RawCircularBuffer.step, h.base.skip_nil b]
      exact h
    | cons e es =>
      have hpad : s.mSlotSize_U32 ≠ 0 → e.SlotEmpySpace_U32 = 0 := by
        intro hslot
        refine hop hslot e ?_
        rw [h.base.entries_eq]
        rfl
      obtain ⟨s', heq, hsame, hbase⟩ := h.base.skip_cons b hpad
      simp only [RawCircularBuffer.step, heq]
      refine ⟨es, hbase, h.setup.of_same hsame, fun hm => ?_⟩
      rw [hsame.slot]
      exact (h.tight hm).tail
  | .setOverWriteMode b, _ =>
    exact ⟨es, h.base.setOverWriteMode b, h.setup.setOverWriteMode b, h.tight⟩
  | .reset, _ => exact ⟨[], h.base.reset, ⟨h.setup.modes, h.setup.slot⟩, fun _ => trivial⟩

/-- The free bytes are accounted for exactly on every run of calls that keep the account. -/
theorem rawCircularBuffer_accountsExactly (param : RawCircularBufferParam) (pData : Nat → UInt8)
    (pEntry : Nat → RawBuffer) (hB : 0 < param.BufferSizeInByte_U32)
    (hN : 0 < param.NbMaxBufferEntry_U32) (hmode : AccountMode param) (ops : List Op)
    (hcalls : ∀ op ∈ ops, AccountCall op)
    (hc : Meets step KeepsAccount (create param pData pEntry) ops) :
    AccountsExactly (run step (create param pData pEntry) ops).1 := by
  have h0 : ∃ es, Account param (create param pData pEntry) es :=
    ⟨[], base_create param pData pEntry hB hN, setupOf_create param pData pEntry, fun _ => trivial⟩
  obtain ⟨es, hacc⟩ := inv_run (P := fun s => ∃ es, Account param s es)
    (fun s op hs hop => by
      obtain ⟨es, hacc⟩ := hs
      exact hacc.step hmode op hop.2 hop.1) h0 (meets_and hc hcalls)
  refine ⟨hacc.base.remain_le, ?_⟩
  rw [hacc.base.entries_eq]
  exact hacc.base.remain

/-- Two slots of four bytes: a whole slot is skipped, a short one is read in two pieces. -/
theorem accountsExactly_two_slots :
    AccountsExactly (run step (create ⟨8, by decide, true, false, 2, by decide, false, false⟩
      (fun _ => 0) (fun _ => {})) [.pushBuffer (some [1, 2, 3, 4]), .pushBuffer (some [5, 6]),
        .getBufferPtr, .skip true, .popBuffer (some 1) true, .popBuffer (some 4) true]).1 :=
  rawCircularBuffer_accountsExactly _ _ _ (by decide) (by decide) (Or.inr ⟨rfl, by decide⟩) _
    (by simp [AccountCall])
    ⟨fun _ hfull => absurd hfull (by decide), fun _ hfull => absurd hfull (by decide), trivial,
      fun _ => by decide, trivial, trivial, trivial⟩

/-- Skipping a short buffer in slot mode does not give its padding back: 7 of 8 bytes are free. -/
theorem not_accountsExactly_of_skip :
    ¬ AccountsExactly (run step (create ⟨8, by decide, true, false, 2, by decide, false, false⟩
      (fun _ => 0) (fun _ => {})) [.pushBuffer (some [1, 2, 3]), .getBufferPtr, .skip true]).1 := by
  decide

end BofStd.RawCircularBuffer
