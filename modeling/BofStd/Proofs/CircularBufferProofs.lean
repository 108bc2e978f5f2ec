import BofStd.CircularBufferSpec
import Mathlib.Tactic.Ring

/-!
# `BofCircularBuffer`: the invariant and what each call does

`Inv` is the invariant of the buffer in both modes: the ready elements are the window of
`mNbElementInBuffer_U32 - mNbElementLockedInBuffer_U32` slots from `mPopIndex_U32` on, the push index
is the slot behind it, and no slot of the window is locked. The locked slots lie anywhere outside the
window. A push onto a full buffer is only safe because then every slot outside the window is locked
(`Inv.locked_eq_zero_of_full`).
-/

namespace BofStd.CircularBuffer

open Memory

variable {α : Type*} {s : CircularBuffer α}

theorem capacity_lt (s : CircularBuffer α) : s.capacity < 4294967296 :=
  s.mCircularBufferParam_X.nbMaxElement_lt

/-! ## Consequences of the invariant -/

theorem Inv.push_lt (h : Inv s) : s.mPushIndex_U32 < s.capacity := by
  rw [h.push_eq]
  exact Nat.mod_lt _ h.pos

theorem Inv.nbReady_eq (h : Inv s) :
    s.nbReady = s.mNbElementInBuffer_U32 - s.mNbElementLockedInBuffer_U32 := by
  have h1 := h.count_le
  have h2 := s.capacity_lt
  exact u32Sub_of_le h.locked_le

theorem Inv.length_ready (h : Inv s) : (ready s).length = s.nbReady := by
  rw [h.nbReady_eq, ready, length_circ]

theorem nextIndex_eq_mod {N i : Nat} (hN : N < 4294967296) (hi : i < N) : nextIndex N i = (i + 1) % N := by
  rw [nextIndex, u32_of_lt (by omega)]
  exact ite_succ_eq_mod hi

theorem Inv.nextIndex_eq (_ : Inv s) {i : Nat} (hi : i < s.capacity) :
    nextIndex s.capacity i = (i + 1) % s.capacity := by
  exact nextIndex_eq_mod s.capacity_lt hi

/-- The slot at the pop index is never locked when an element is ready. -/
theorem Inv.pop_unlocked (h : Inv s) (hr : s.nbReady ≠ 0) : s.mpLock_U8 s.mPopIndex_U32 = false := by
  rw [h.nbReady_eq] at hr
  have := h.ready_unlocked 0 (by omega)
  rwa [Nat.add_zero, Nat.mod_eq_of_lt h.pop_lt] at this

theorem Inv.locked_eq_zero_of_unlocked (h : Inv s) (hu : ∀ i, s.mpLock_U8 i = false) :
    s.mNbElementLockedInBuffer_U32 = 0 := by
  rw [h.locked_eq, Finset.card_eq_zero, lockedSlots, Finset.filter_eq_empty_iff]
  intro i _
  simp [hu i]

/-- Without `PopLockMode_B` nothing is locked. -/
theorem Inv.locked_eq_zero (h : Inv s) (hm : s.mCircularBufferParam_X.PopLockMode_B = false) :
    s.mNbElementLockedInBuffer_U32 = 0 :=
  h.locked_eq_zero_of_unlocked (h.unlocked_of_mode hm)

theorem Inv.unlocked_of_locked_eq_zero (h : Inv s) (h0 : s.mNbElementLockedInBuffer_U32 = 0) {i : Nat}
    (hi : i < s.capacity) : s.mpLock_U8 i = false := by
  have hempty : s.lockedSlots = ∅ := Finset.card_eq_zero.mp (by rw [← h.locked_eq, h0])
  rw [lockedSlots, Finset.filter_eq_empty_iff] at hempty
  exact Bool.eq_false_iff.mpr (hempty (Finset.mem_range.mpr hi))

/-- The locked slots, the window of ready elements and one more slot all fit in the storage. -/
theorem Inv.locked_add_ready_lt_of_free (h : Inv s) {j : Nat} (hj : j < s.capacity) (hl : s.mpLock_U8 j = false)
    (hout : ∀ k < s.nbReady, (s.mPopIndex_U32 + k) % s.capacity ≠ j) :
    s.mNbElementLockedInBuffer_U32 + s.nbReady < s.capacity := by
  have hn := h.nbReady_eq
  have hcount := h.count_le
  -- the window as a set of slots
  set W := (Finset.range s.nbReady).image fun k => (s.mPopIndex_U32 + k) % s.capacity with hW
  have hcard : W.card = s.nbReady := by
    rw [hW, Finset.card_image_of_injOn, Finset.card_range]
    intro a ha b hb hab
    simp only [Finset.coe_range, Set.mem_Iio] at ha hb
    by_contra hne
    rcases Nat.lt_or_gt_of_ne hne with hlt | hlt
    · exact mod_ne_mod hlt (by omega) hab
    · exact mod_ne_mod hlt (by omega) hab.symm
  have hdisj : Disjoint s.lockedSlots W := by
    rw [Finset.disjoint_left]
    intro i hi hiW
    simp only [lockedSlots, Finset.mem_filter] at hi
    obtain ⟨k, hk, rfl⟩ := Finset.mem_image.mp hiW
    have hk' : k < s.nbReady := Finset.mem_range.mp hk
    exact absurd hi.2 (by simp [h.ready_unlocked k (by omega)])
  have hnot : j ∉ s.lockedSlots ∪ W := by
    rw [Finset.mem_union, not_or]
    refine ⟨by simp [lockedSlots, hl], ?_⟩
    intro hjW
    obtain ⟨k, hk, hkj⟩ := Finset.mem_image.mp hjW
    exact hout k (Finset.mem_range.mp hk) hkj
  have hsub : insert j (s.lockedSlots ∪ W) ⊆ Finset.range s.capacity := by
    refine Finset.insert_subset (Finset.mem_range.mpr hj) (Finset.union_subset (Finset.filter_subset _ _) ?_)
    intro i hi
    obtain ⟨k, _, rfl⟩ := Finset.mem_image.mp hi
    exact Finset.mem_range.mpr (Nat.mod_lt _ h.pos)
  have hle := Finset.card_le_card hsub
  rw [Finset.card_insert_of_notMem hnot, Finset.card_union_of_disjoint hdisj, hcard, Finset.card_range,
    ← h.locked_eq] at hle
  omega

/-- The locked slots, the window of ready elements and one more unlocked slot behind it all fit in the
storage. -/
theorem Inv.locked_add_ready_lt (h : Inv s) (hr : s.nbReady < s.capacity)
    (hl : s.mpLock_U8 s.mPushIndex_U32 = false) :
    s.mNbElementLockedInBuffer_U32 + s.nbReady < s.capacity := by
  refine h.locked_add_ready_lt_of_free h.push_lt hl ?_
  intro k hk
  rw [h.push_eq, ← h.nbReady_eq]
  exact mod_ne_mod hk (by omega)

/-- A full buffer whose next slot is not locked has no locked slot at all. -/
theorem Inv.locked_eq_zero_of_full (h : Inv s) (hf : s.mNbElementInBuffer_U32 = s.capacity)
    (hl : s.mpLock_U8 s.mPushIndex_U32 = false) : s.mNbElementLockedInBuffer_U32 = 0 := by
  by_contra hne
  have hn := h.nbReady_eq
  have hle := h.locked_le
  have hlt := h.locked_add_ready_lt (by omega) hl
  omega

/-! ## The events carry no data -/

/-- Signaling changes the event flags only, and succeeds. -/
theorem signalReadWrite_eq (s : CircularBuffer α) : ∃ r w,
    s.signalReadWrite = ({ s with mCanReadEvent_X := r, mCanWriteEvent_X := w }, .noError) := by
  unfold signalReadWrite
  dsimp only
  split_ifs <;> exact ⟨_, _, rfl⟩

theorem signalIfNoError_eq (r : CircularBuffer α × ElementOut α) : ∃ rd wr,
    signalIfNoError r = ({ r.1 with mCanReadEvent_X := rd, mCanWriteEvent_X := wr }, r.2) := by
  unfold signalIfNoError
  split_ifs with hc
  · obtain ⟨rd, wr, he⟩ := signalReadWrite_eq r.1
    refine ⟨rd, wr, ?_⟩
    rw [he]
    simp [← hc.2]
  · exact ⟨_, _, rfl⟩

theorem Inv.setEvents (h : Inv s) (rd wr : Bool) :
    Inv { s with mCanReadEvent_X := rd, mCanWriteEvent_X := wr } :=
  ⟨h.pos, h.pop_lt, h.locked_eq, h.locked_le, h.count_le, h.push_eq, h.ready_unlocked,
    h.unlocked_of_mode⟩

/-- The constructor and `Reset` establish the invariant. -/
theorem inv_of_cleared (hpos : 0 < s.capacity) (h1 : s.mPushIndex_U32 = 0) (h2 : s.mPopIndex_U32 = 0)
    (h3 : s.mNbElementInBuffer_U32 = 0) (h4 : s.mNbElementLockedInBuffer_U32 = 0)
    (h5 : ∀ i, s.mpLock_U8 i = false) : Inv s where
  pos := hpos
  pop_lt := by omega
  locked_eq := by simp [lockedSlots, h4, h5]
  locked_le := by omega
  count_le := by omega
  push_eq := by simp [h1, h2, h3]
  ready_unlocked := fun _ _ => h5 _
  unlocked_of_mode := fun _ => h5

theorem inv_create (param : CircularBufferParam) (pData : Nat → α) (h : 0 < param.NbMaxElement_U32) :
    Inv (create param pData) :=
  inv_of_cleared h rfl rfl rfl rfl fun _ => rfl

theorem Inv.reset (h : Inv s) : Inv s.reset :=
  inv_of_cleared h.pos rfl rfl rfl rfl fun _ => rfl

theorem Inv.setOverWriteMode (h : Inv s) (b : Bool) : Inv (s.setOverWriteMode b) :=
  ⟨h.pos, h.pop_lt, h.locked_eq, h.locked_le, h.count_le, h.push_eq, h.ready_unlocked,
    h.unlocked_of_mode⟩

/-! ## `Push` -/

theorem updateLevelMax_eq (s : CircularBuffer α) :
    ∃ level, s.updateLevelMax = { s with mLevelMax_U32 := level } := by
  unfold updateLevelMax
  split_ifs
  · exact ⟨_, rfl⟩
  · exact ⟨s.mLevelMax_U32, rfl⟩

theorem Inv.setLevelMax (h : Inv s) (level : Nat) : Inv { s with mLevelMax_U32 := level } :=
  ⟨h.pos, h.pop_lt, h.locked_eq, h.locked_le, h.count_le, h.push_eq, h.ready_unlocked,
    h.unlocked_of_mode⟩

/-- Storing into a buffer that is not full. -/
theorem Inv.storeElement_eq (h : Inv s) (x : α) (hw : s.mNbElementInBuffer_U32 ≠ 4294967295) :
    s.storeElement x = { s with
      mpData_T := Function.update s.mpData_T s.mPushIndex_U32 x
      mPushIndex_U32 := (s.mPushIndex_U32 + 1) % s.capacity
      mNbElementInBuffer_U32 := s.mNbElementInBuffer_U32 + 1 } := by
  have hcap := s.capacity_lt
  have hle := h.count_le
  rw [storeElement, h.nextIndex_eq h.push_lt, u32_of_lt (by omega)]

theorem Inv.clip_room (h : Inv s) (x : α) (hroom : s.mNbElementInBuffer_U32 < s.capacity) :
    (s.storeElement x).clipToCapacity = s.storeElement x := by
  have hcap := s.capacity_lt
  rw [h.storeElement_eq x (by omega), clipToCapacity, if_neg]
  rintro ⟨-, hgt⟩
  exact absurd hgt (Nat.not_lt.mpr hroom)

/-- A push into a free slot keeps the invariant. -/
theorem Inv.storeElement_room (h : Inv s) (x : α) (hroom : s.mNbElementInBuffer_U32 < s.capacity)
    (hl : s.mpLock_U8 s.mPushIndex_U32 = false) : Inv (s.storeElement x) := by
  have hcap := s.capacity_lt
  have hle := h.locked_le
  rw [h.storeElement_eq x (by omega)]
  refine ⟨h.pos, h.pop_lt, h.locked_eq, Nat.le_succ_of_le hle, hroom, ?_, ?_, h.unlocked_of_mode⟩
  · show (s.mPushIndex_U32 + 1) % s.capacity = (s.mPopIndex_U32 +
      (s.mNbElementInBuffer_U32 + 1 - s.mNbElementLockedInBuffer_U32)) % s.capacity
    rw [h.push_eq, Nat.mod_add_mod, Nat.add_assoc, ← Nat.sub_add_comm hle]
  · intro k hk
    show s.mpLock_U8 ((s.mPopIndex_U32 + k) % s.capacity) = false
    rcases Nat.lt_or_ge k (s.mNbElementInBuffer_U32 - s.mNbElementLockedInBuffer_U32) with hlt | hge
    · exact h.ready_unlocked k hlt
    · have hk' : k = s.mNbElementInBuffer_U32 - s.mNbElementLockedInBuffer_U32 := by
        dsimp only at hk
        omega
      rw [hk', ← h.push_eq]
      exact hl

theorem Inv.ready_storeElement (h : Inv s) (x : α)
    (hroom : s.mNbElementInBuffer_U32 < s.capacity) :
    ready (s.storeElement x) = ready s ++ [x] := by
  have hcap := s.capacity_lt
  have hle := h.locked_le
  rw [h.storeElement_eq x (by omega)]
  show circ s.capacity _ _ (s.mNbElementInBuffer_U32 + 1 - s.mNbElementLockedInBuffer_U32) = _
  rw [Nat.sub_add_comm hle, h.push_eq]
  exact circ_update_succ _ _ (by omega)

/-- A full buffer in overwrite mode: the slot of the oldest element is reused. -/
theorem Inv.clip_full (h : Inv s) (x : α) (hf : s.mNbElementInBuffer_U32 = s.capacity)
    (ho : s.mCircularBufferParam_X.Overwrite_B = true) (hw : s.mNbElementInBuffer_U32 ≠ 4294967295) :
    (s.storeElement x).clipToCapacity = { s with
      mpData_T := Function.update s.mpData_T s.mPushIndex_U32 x
      mPushIndex_U32 := (s.mPushIndex_U32 + 1) % s.capacity
      mPopIndex_U32 := (s.mPushIndex_U32 + 1) % s.capacity
      mNbElementInBuffer_U32 := s.capacity
      mOverflow_B := true } := by
  rw [h.storeElement_eq x hw, clipToCapacity, if_pos]
  · rfl
  · exact ⟨ho, by rw [hf]; exact Nat.lt_succ_self _⟩

theorem Inv.storeElement_full (h : Inv s) (x : α) (hf : s.mNbElementInBuffer_U32 = s.capacity)
    (ho : s.mCircularBufferParam_X.Overwrite_B = true)
    (hl : s.mpLock_U8 s.mPushIndex_U32 = false) (hw : s.mNbElementInBuffer_U32 ≠ 4294967295) :
    Inv (s.storeElement x).clipToCapacity := by
  have h0 := h.locked_eq_zero_of_full hf hl
  rw [h.clip_full x hf ho hw]
  refine ⟨h.pos, Nat.mod_lt _ h.pos, h.locked_eq, ?_, le_rfl, ?_, ?_, h.unlocked_of_mode⟩
  · show s.mNbElementLockedInBuffer_U32 ≤ s.capacity
    omega
  · show (s.mPushIndex_U32 + 1) % s.capacity = ((s.mPushIndex_U32 + 1) % s.capacity +
      (s.capacity - s.mNbElementLockedInBuffer_U32)) % s.capacity
    rw [h0, Nat.sub_zero, Nat.add_mod_right, Nat.mod_mod]
  · exact fun k _ => h.unlocked_of_locked_eq_zero h0 (Nat.mod_lt _ h.pos)

theorem Inv.ready_storeElement_full (h : Inv s) (x : α) (hf : s.mNbElementInBuffer_U32 = s.capacity)
    (ho : s.mCircularBufferParam_X.Overwrite_B = true)
    (hl : s.mpLock_U8 s.mPushIndex_U32 = false) (hw : s.mNbElementInBuffer_U32 ≠ 4294967295) :
    ready (s.storeElement x).clipToCapacity = (ready s).tail ++ [x] := by
  have h0 := h.locked_eq_zero_of_full hf hl
  have hpos := h.pos
  obtain ⟨n, hn⟩ : ∃ n, s.capacity = n + 1 := ⟨s.capacity - 1, by omega⟩
  -- the push index is the pop index, the last slot of the window that starts behind it
  have hpush : s.mPushIndex_U32 = (s.mPopIndex_U32 + 1 + n) % s.capacity := by
    rw [h.push_eq, h0, hf]
    congr 1
    omega
  have htail : (ready s).tail = circ s.capacity s.mpData_T (s.mPopIndex_U32 + 1) n := by
    rw [ready, h0, hf, Nat.sub_zero, hn, circ_succ_left]
    rfl
  have hnext : (s.mPushIndex_U32 + 1) % s.capacity = (s.mPopIndex_U32 + 1) % s.capacity := by
    rw [hpush, Nat.mod_add_mod, show s.mPopIndex_U32 + 1 + n + 1 = s.mPopIndex_U32 + 1 + s.capacity by
      omega, Nat.add_mod_right]
  rw [h.clip_full x hf ho hw]
  show circ s.capacity (Function.update s.mpData_T s.mPushIndex_U32 x)
    ((s.mPushIndex_U32 + 1) % s.capacity) (s.capacity - s.mNbElementLockedInBuffer_U32) = _
  rw [htail, h0, Nat.sub_zero, hnext, circ_mod, hpush]
  have hgoal := circ_update_succ (N := s.capacity) (i := s.mPopIndex_U32 + 1) (n := n) s.mpData_T x
    (by omega)
  rwa [← hn] at hgoal

/-! ## `Pop`, `Skip` and `Peek` -/

theorem Inv.ready_eq_cons (h : Inv s) (hr : s.nbReady ≠ 0) :
    ready s = s.mpData_T s.mPopIndex_U32 ::
      circ s.capacity s.mpData_T (s.mPopIndex_U32 + 1) (s.nbReady - 1) := by
  obtain ⟨n, hn⟩ := Nat.exists_eq_succ_of_ne_zero hr
  have hn' := h.nbReady_eq
  rw [ready, ← hn', hn, circ_succ_left, Nat.mod_eq_of_lt h.pop_lt]
  rfl

/-- The oldest element leaves the buffer: `Skip`, and `Pop` without `PopLockMode_B`. -/
theorem Inv.dropFirst (h : Inv s) (hr : s.nbReady ≠ 0) :
    Inv { s with
      mNbElementInBuffer_U32 := u32Sub s.mNbElementInBuffer_U32 1
      mPopIndex_U32 := nextIndex s.capacity s.mPopIndex_U32 } ∧
    ready { s with
      mNbElementInBuffer_U32 := u32Sub s.mNbElementInBuffer_U32 1
      mPopIndex_U32 := nextIndex s.capacity s.mPopIndex_U32 } = (ready s).tail := by
  have hcap := s.capacity_lt
  have hcount := h.count_le
  have hle := h.locked_le
  have hn := h.nbReady_eq
  rw [u32Sub_of_le (by omega), h.nextIndex_eq h.pop_lt]
  refine ⟨⟨h.pos, Nat.mod_lt _ h.pos, h.locked_eq, ?_, ?_, ?_, ?_, h.unlocked_of_mode⟩, ?_⟩
  · show s.mNbElementLockedInBuffer_U32 ≤ s.mNbElementInBuffer_U32 - 1
    omega
  · show s.mNbElementInBuffer_U32 - 1 ≤ s.capacity
    omega
  · show s.mPushIndex_U32 = ((s.mPopIndex_U32 + 1) % s.capacity +
      (s.mNbElementInBuffer_U32 - 1 - s.mNbElementLockedInBuffer_U32)) % s.capacity
    rw [h.push_eq, Nat.mod_add_mod]
    congr 1
    omega
  · intro k hk
    dsimp only at hk
    show s.mpLock_U8 (((s.mPopIndex_U32 + 1) % s.capacity + k) % s.capacity) = false
    rw [Nat.mod_add_mod, Nat.add_assoc, Nat.add_comm 1 k]
    exact h.ready_unlocked (k + 1) (by omega)
  · rw [h.ready_eq_cons hr, List.tail_cons]
    show circ s.capacity s.mpData_T ((s.mPopIndex_U32 + 1) % s.capacity)
      (s.mNbElementInBuffer_U32 - 1 - s.mNbElementLockedInBuffer_U32) = _
    rw [circ_mod]
    congr 1
    omega

theorem card_lockedSlots_update_true {i : Nat} (hi : i < s.capacity) (hl : s.mpLock_U8 i = false) :
    (lockedSlots { s with mpLock_U8 := Function.update s.mpLock_U8 i true }).card =
      s.lockedSlots.card + 1 := by
  rw [← Finset.card_insert_of_notMem (show i ∉ s.lockedSlots by simp [lockedSlots, hl])]
  congr 1
  ext j
  by_cases hj : j = i
  · subst hj
    simpa [lockedSlots, capacity] using hi
  · simp [lockedSlots, hj, capacity]

theorem card_lockedSlots_update_false {i : Nat} (hi : i < s.capacity) (hl : s.mpLock_U8 i = true) :
    (lockedSlots { s with mpLock_U8 := Function.update s.mpLock_U8 i false }).card + 1 =
      s.lockedSlots.card := by
  rw [← Finset.card_erase_add_one (show i ∈ s.lockedSlots by simp [lockedSlots, hi, hl])]
  congr 2
  ext j
  by_cases hj : j = i
  · subst hj
    simp [lockedSlots]
  · simp [lockedSlots, hj, capacity]

/-- The oldest element is handed out and its slot locked: `Pop` with `PopLockMode_B`. -/
theorem Inv.lockFirst (h : Inv s) (hr : s.nbReady ≠ 0)
    (hm : s.mCircularBufferParam_X.PopLockMode_B = true) :
    Inv { s with
      mNbElementLockedInBuffer_U32 := u32 (s.mNbElementLockedInBuffer_U32 + 1)
      mpLock_U8 := Function.update s.mpLock_U8 s.mPopIndex_U32 true
      mPopIndex_U32 := nextIndex s.capacity s.mPopIndex_U32 } ∧
    ready { s with
      mNbElementLockedInBuffer_U32 := u32 (s.mNbElementLockedInBuffer_U32 + 1)
      mpLock_U8 := Function.update s.mpLock_U8 s.mPopIndex_U32 true
      mPopIndex_U32 := nextIndex s.capacity s.mPopIndex_U32 } = (ready s).tail := by
  have hcap := s.capacity_lt
  have hcount := h.count_le
  have hle := h.locked_le
  have hn := h.nbReady_eq
  have hpl := h.pop_unlocked hr
  rw [u32_of_lt (by omega), h.nextIndex_eq h.pop_lt]
  refine ⟨⟨h.pos, Nat.mod_lt _ h.pos, ?_, ?_, hcount, ?_, ?_, ?_⟩, ?_⟩
  · show s.mNbElementLockedInBuffer_U32 + 1 = _
    rw [h.locked_eq]
    exact (card_lockedSlots_update_true h.pop_lt hpl).symm
  · show s.mNbElementLockedInBuffer_U32 + 1 ≤ s.mNbElementInBuffer_U32
    omega
  · show s.mPushIndex_U32 = ((s.mPopIndex_U32 + 1) % s.capacity +
      (s.mNbElementInBuffer_U32 - (s.mNbElementLockedInBuffer_U32 + 1))) % s.capacity
    rw [h.push_eq, Nat.mod_add_mod]
    congr 1
    omega
  · intro k hk
    dsimp only at hk
    show Function.update s.mpLock_U8 s.mPopIndex_U32 true
      (((s.mPopIndex_U32 + 1) % s.capacity + k) % s.capacity) = false
    rw [Nat.mod_add_mod, Nat.add_assoc, Nat.add_comm 1 k, Function.update_of_ne]
    · exact h.ready_unlocked (k + 1) (by omega)
    · have hne := mod_ne_mod (N := s.capacity) (i := s.mPopIndex_U32) (k := 0) (l := k + 1) (by omega)
        (by omega)
      rw [Nat.add_zero, Nat.mod_eq_of_lt h.pop_lt] at hne
      exact hne.symm
  · intro hm'
    exact absurd hm (by simp [show s.mCircularBufferParam_X.PopLockMode_B = false from hm'])
  · rw [h.ready_eq_cons hr, List.tail_cons]
    show circ s.capacity s.mpData_T ((s.mPopIndex_U32 + 1) % s.capacity)
      (s.mNbElementInBuffer_U32 - (s.mNbElementLockedInBuffer_U32 + 1)) = _
    rw [circ_mod]
    congr 1
    omega

/-! ## `PopLastPush` and `UnlockPop` -/

/-- The index that `PopLastPush` steps back to is the last slot of the window. -/
theorem Inv.lastPushIndex_eq (h : Inv s) {r : Nat} (hr : s.nbReady = r + 1) :
    previousIndex s.capacity s.mPushIndex_U32 = (s.mPopIndex_U32 + r) % s.capacity := by
  have hcap := s.capacity_lt
  have hpos := h.pos
  have hpush := h.push_lt
  have heq : s.mPushIndex_U32 = (s.mPopIndex_U32 + r + 1) % s.capacity := by
    rw [h.push_eq, ← h.nbReady_eq, hr, Nat.add_assoc]
  rw [previousIndex, ← ite_pred_eq_mod hpos, ← heq, u32Sub_of_le hpos]
  rcases Nat.eq_zero_or_pos s.mPushIndex_U32 with h0 | h0
  · have hwrap : u32Sub s.mPushIndex_U32 1 ≥ s.capacity := by
      rw [h0, u32Sub_zero_one]
      omega
    rw [if_pos hwrap, if_pos h0]
  · rw [u32Sub_of_le h0, if_neg (by omega), if_neg (by omega)]

/-- The newest element leaves the buffer. -/
theorem Inv.dropLast (h : Inv s) {r : Nat} (hr : s.nbReady = r + 1) :
    Inv { s with
      mPushIndex_U32 := (s.mPopIndex_U32 + r) % s.capacity
      mNbElementInBuffer_U32 := u32Sub s.mNbElementInBuffer_U32 1 } ∧
    ready s = ready { s with
      mPushIndex_U32 := (s.mPopIndex_U32 + r) % s.capacity
      mNbElementInBuffer_U32 := u32Sub s.mNbElementInBuffer_U32 1 } ++
        [s.mpData_T ((s.mPopIndex_U32 + r) % s.capacity)] := by
  have hcap := s.capacity_lt
  have hcount := h.count_le
  have hle := h.locked_le
  have hn := h.nbReady_eq
  rw [hr] at hn
  have hsub : s.mNbElementInBuffer_U32 - 1 - s.mNbElementLockedInBuffer_U32 = r := by omega
  rw [u32Sub_of_le (by omega)]
  refine ⟨⟨h.pos, h.pop_lt, h.locked_eq, ?_, ?_, ?_, ?_, h.unlocked_of_mode⟩, ?_⟩
  · show s.mNbElementLockedInBuffer_U32 ≤ s.mNbElementInBuffer_U32 - 1
    omega
  · show s.mNbElementInBuffer_U32 - 1 ≤ s.capacity
    omega
  · show (s.mPopIndex_U32 + r) % s.capacity = (s.mPopIndex_U32 +
      (s.mNbElementInBuffer_U32 - 1 - s.mNbElementLockedInBuffer_U32)) % s.capacity
    rw [hsub]
  · intro k hk
    dsimp only at hk
    exact h.ready_unlocked k (by omega)
  · show ready s = circ s.capacity s.mpData_T s.mPopIndex_U32
      (s.mNbElementInBuffer_U32 - 1 - s.mNbElementLockedInBuffer_U32) ++ _
    rw [hsub, ← circ_succ, ready, ← hn]

/-- A locked slot is given back. -/
theorem Inv.unlockSlot (h : Inv s) {i : Nat} (hi : i < s.capacity) (hl : s.mpLock_U8 i = true) :
    Inv { s with
      mpLock_U8 := Function.update s.mpLock_U8 i false
      mNbElementInBuffer_U32 := u32Sub s.mNbElementInBuffer_U32 1
      mNbElementLockedInBuffer_U32 := u32Sub s.mNbElementLockedInBuffer_U32 1 } ∧
    ready { s with
      mpLock_U8 := Function.update s.mpLock_U8 i false
      mNbElementInBuffer_U32 := u32Sub s.mNbElementInBuffer_U32 1
      mNbElementLockedInBuffer_U32 := u32Sub s.mNbElementLockedInBuffer_U32 1 } = ready s := by
  have hcap := s.capacity_lt
  have hcount := h.count_le
  have hle := h.locked_le
  have hcard := card_lockedSlots_update_false hi hl
  rw [← h.locked_eq] at hcard
  rw [u32Sub_of_le (by omega), u32Sub_of_le (by omega)]
  have hsub : s.mNbElementInBuffer_U32 - 1 - (s.mNbElementLockedInBuffer_U32 - 1) =
      s.mNbElementInBuffer_U32 - s.mNbElementLockedInBuffer_U32 := by omega
  have hfalse : ∀ j, s.mpLock_U8 j = false → Function.update s.mpLock_U8 i false j = false := by
    intro j hj
    by_cases hji : j = i
    · rw [hji, Function.update_self]
    · rw [Function.update_of_ne hji, hj]
  refine ⟨⟨h.pos, h.pop_lt, ?_, ?_, ?_, ?_, ?_, ?_⟩, ?_⟩
  · show s.mNbElementLockedInBuffer_U32 - 1 = _
    exact Nat.sub_eq_of_eq_add hcard.symm
  · show s.mNbElementLockedInBuffer_U32 - 1 ≤ s.mNbElementInBuffer_U32 - 1
    omega
  · show s.mNbElementInBuffer_U32 - 1 ≤ s.capacity
    omega
  · show s.mPushIndex_U32 = (s.mPopIndex_U32 +
      (s.mNbElementInBuffer_U32 - 1 - (s.mNbElementLockedInBuffer_U32 - 1))) % s.capacity
    rw [hsub, h.push_eq]
  · intro k hk
    dsimp only at hk
    exact hfalse _ (h.ready_unlocked k (by omega))
  · intro hm j
    exact hfalse j (h.unlocked_of_mode hm j)
  · show circ s.capacity s.mpData_T s.mPopIndex_U32
      (s.mNbElementInBuffer_U32 - 1 - (s.mNbElementLockedInBuffer_U32 - 1)) = _
    rw [hsub]
    rfl

end BofStd.CircularBuffer
