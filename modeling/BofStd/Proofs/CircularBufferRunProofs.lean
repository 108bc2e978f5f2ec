import BofStd.Proofs.CircularBufferProofs

/-!
# `BofCircularBuffer`: one call at a time

For each call: the invariant is kept, the list of ready elements changes as the deque does, and the
content of a locked slot stays. The only call that can break the invariant is a push that counts past
`0xFFFFFFFF` elements (`NoCountWrap`).
-/

namespace BofStd.CircularBuffer

open Memory

variable {α : Type*} {s : CircularBuffer α}

/-- What a call keeps: the invariant, the construction parameters and the locked data. -/
structure Kept (s s' : CircularBuffer α) : Prop where
  inv : Inv s'
  capacity : s'.capacity = s.capacity
  mode : s'.mCircularBufferParam_X.PopLockMode_B = s.mCircularBufferParam_X.PopLockMode_B
  overwrite : s'.mCircularBufferParam_X.Overwrite_B = s.mCircularBufferParam_X.Overwrite_B
  content : ∀ i, s.mpLock_U8 i = true → s'.mpData_T i = s.mpData_T i

theorem Inv.kept_self (h : Inv s) : Kept s s := ⟨h, rfl, rfl, rfl, fun _ _ => rfl⟩

theorem Kept.setEvents {s' : CircularBuffer α} (h : Kept s s') (rd wr : Bool) :
    Kept s { s' with mCanReadEvent_X := rd, mCanWriteEvent_X := wr } :=
  ⟨h.inv.setEvents rd wr, h.capacity, h.mode, h.overwrite, h.content⟩

/-- The content of the locked slots is kept by a write to a slot that is not locked. -/
theorem update_locked {i j : Nat} (x : α) (hi : s.mpLock_U8 i = false) (hj : s.mpLock_U8 j = true) :
    Function.update s.mpData_T i x j = s.mpData_T j := by
  refine Function.update_of_ne ?_ _ _
  rintro rfl
  rw [hi] at hj
  exact absurd hj (by decide)

/-- The critical section of `Push`, by its four outcomes: a free slot is filled, the oldest element
is overwritten, the next slot is locked, or the buffer is full. -/
theorem Inv.pushLocked_cases (h : Inv s) (x : α) (hw : NoCountWrap s (.push (some x))) :
    Kept s (s.pushLocked x).1 ∧ (s.pushLocked x).1.mpLock_U8 = s.mpLock_U8 ∧
    (s.pushLocked x).2.data = none ∧
    (((s.pushLocked x).2.err = .noError ∧ s.mNbElementInBuffer_U32 < s.capacity ∧
        ready (s.pushLocked x).1 = ready s ++ [x]) ∨
     ((s.pushLocked x).2.err = .noError ∧ s.mNbElementInBuffer_U32 = s.capacity ∧
        s.mCircularBufferParam_X.Overwrite_B = true ∧ s.mNbElementLockedInBuffer_U32 = 0 ∧
        ready (s.pushLocked x).1 = (ready s).tail ++ [x]) ∨
     ((s.pushLocked x).2.err = .lock ∧ s.mpLock_U8 s.mPushIndex_U32 = true ∧
        ready (s.pushLocked x).1 = ready s) ∨
     ((s.pushLocked x).2.err = .full ∧ s.mNbElementInBuffer_U32 = s.capacity ∧
        s.mCircularBufferParam_X.Overwrite_B = false ∧ ready (s.pushLocked x).1 = ready s)) := by
  have hcount := h.count_le
  have hflag : Kept s { s with mOverflow_B := true } :=
    ⟨⟨h.pos, h.pop_lt, h.locked_eq, h.locked_le, h.count_le, h.push_eq, h.ready_unlocked,
      h.unlocked_of_mode⟩, rfl, rfl, rfl, fun _ _ => rfl⟩
  unfold pushLocked
  by_cases hacc : s.mCircularBufferParam_X.Overwrite_B = true ∨ s.mNbElementInBuffer_U32 < s.capacity
  · rw [if_pos hacc]
    by_cases hl : s.mpLock_U8 s.mPushIndex_U32 = false
    · rw [if_pos hl]
      obtain ⟨level, hlevel⟩ := updateLevelMax_eq (s.storeElement x).clipToCapacity
      dsimp only
      rw [hlevel]
      rcases Nat.lt_or_ge s.mNbElementInBuffer_U32 s.capacity with hroom | hfull
      · rw [h.clip_room x hroom]
        have hinv := h.storeElement_room x hroom hl
        refine ⟨⟨hinv.setLevelMax level, rfl, rfl, rfl, fun j hj => update_locked x hl hj⟩, rfl, rfl,
          Or.inl ⟨rfl, hroom, h.ready_storeElement x hroom⟩⟩
      · have hf : s.mNbElementInBuffer_U32 = s.capacity := by omega
        have ho : s.mCircularBufferParam_X.Overwrite_B = true := by
          rcases hacc with ho | hlt
          · exact ho
          · omega
        have hinv := h.storeElement_full x hf ho hl (hw ho hl)
        have hready := h.ready_storeElement_full x hf ho hl (hw ho hl)
        rw [h.clip_full x hf ho (hw ho hl)] at hinv hready ⊢
        exact ⟨⟨hinv.setLevelMax level, rfl, rfl, rfl, fun j hj => update_locked x hl hj⟩, rfl, rfl,
          Or.inr (Or.inl ⟨rfl, hf, ho, h.locked_eq_zero_of_full hf hl, hready⟩)⟩
    · rw [if_neg hl]
      exact ⟨hflag, rfl, rfl, Or.inr (Or.inr (Or.inl ⟨rfl, by simpa using hl, rfl⟩))⟩
  · rw [if_neg hacc]
    rw [not_or, Bool.not_eq_true, Nat.not_lt] at hacc
    exact ⟨hflag, rfl, rfl,
      Or.inr (Or.inr (Or.inr ⟨rfl, Nat.le_antisymm hcount hacc.2, hacc.1, rfl⟩))⟩

/-- The critical section of `Pop`: it hands out the oldest ready element, which in lock mode keeps
its slot. -/
theorem Inv.popLocked_cases (h : Inv s) :
    Kept s s.popLocked.1 ∧ (∀ i, s.mpLock_U8 i = true → s.popLocked.1.mpLock_U8 i = true) ∧
    s.popLocked.1.mpData_T = s.mpData_T ∧
    ((s.popLocked.2.err = .empty ∧ s.popLocked.2.data = none ∧ ready s = [] ∧ s.popLocked.1 = s) ∨
     ∃ x, s.popLocked.2.err = .noError ∧ s.popLocked.2.data = some x ∧
        ready s = x :: ready s.popLocked.1) := by
  unfold popLocked
  by_cases hr : s.nbReady ≠ 0
  · have hl := h.pop_unlocked hr
    have hcons := h.ready_eq_cons hr
    rw [if_pos hr, if_pos hl]
    have htail : (ready s).head? = some (s.mpData_T s.mPopIndex_U32) := by rw [hcons]; rfl
    by_cases hm : s.mCircularBufferParam_X.PopLockMode_B = true
    · obtain ⟨hinv, hready⟩ := h.lockFirst hr hm
      dsimp only
      rw [if_pos hm]
      refine ⟨⟨hinv, rfl, rfl, rfl, fun _ _ => rfl⟩, fun i hi => ?_, rfl, Or.inr ⟨_, rfl, rfl, ?_⟩⟩
      · show Function.update s.mpLock_U8 s.mPopIndex_U32 true i = true
        by_cases hi' : i = s.mPopIndex_U32
        · rw [hi', Function.update_self]
        · rw [Function.update_of_ne hi', hi]
      · exact (List.eq_cons_of_mem_head? htail).trans (congrArg (_ :: ·) hready.symm)
    · obtain ⟨hinv, hready⟩ := h.dropFirst hr
      dsimp only
      rw [if_neg hm]
      exact ⟨⟨hinv, rfl, rfl, rfl, fun _ _ => rfl⟩, fun _ hi => hi, rfl, Or.inr ⟨_, rfl, rfl,
        (List.eq_cons_of_mem_head? htail).trans (congrArg (_ :: ·) hready.symm)⟩⟩
  · rw [if_neg hr]
    refine ⟨h.kept_self, fun _ hi => hi, rfl, Or.inl ⟨rfl, rfl, ?_, rfl⟩⟩
    exact List.eq_nil_of_length_eq_zero (by rw [h.length_ready]; exact not_not.mp hr)

/-- `Peek` hands out the oldest ready element and changes nothing. -/
theorem Inv.peek_cases (h : Inv s) :
    s.peek.1 = s ∧
    ((s.peek.2.err = .empty ∧ s.peek.2.data = none ∧ ready s = []) ∨
     ∃ x xs, s.peek.2 = { err := .noError, index := some s.mPopIndex_U32, data := some x } ∧
        ready s = x :: xs ∧ x = s.mpData_T s.mPopIndex_U32) := by
  unfold peek
  by_cases hr : s.nbReady ≠ 0
  · rw [if_pos hr, if_pos (h.pop_unlocked hr)]
    exact ⟨rfl, Or.inr ⟨_, _, rfl, h.ready_eq_cons hr, rfl⟩⟩
  · rw [if_neg hr]
    refine ⟨rfl, Or.inl ⟨rfl, rfl, ?_⟩⟩
    exact List.eq_nil_of_length_eq_zero (by rw [h.length_ready]; exact not_not.mp hr)

/-- `Skip` drops the oldest ready element, in lock mode too. -/
theorem Inv.skip_cases (h : Inv s) (b : Bool) :
    Kept s (s.skip b).1 ∧ (s.skip b).1.mpLock_U8 = s.mpLock_U8 ∧
    (s.skip b).1.mpData_T = s.mpData_T ∧
    (((s.skip b).2.err = .empty ∧ (s.skip b).2.data = none ∧ ready s = [] ∧ (s.skip b).1 = s) ∨
     ∃ x, (s.skip b).2.err = .noError ∧ (s.skip b).2.data = some x ∧
        ready s = x :: ready (s.skip b).1) := by
  unfold skip
  by_cases hr : s.nbReady ≠ 0
  · have hl := h.pop_unlocked hr
    have hcons := h.ready_eq_cons hr
    have htail : (ready s).head? = some (s.mpData_T s.mPopIndex_U32) := by rw [hcons]; rfl
    obtain ⟨hinv, hready⟩ := h.dropFirst hr
    have hready' := (List.eq_cons_of_mem_head? htail).trans (congrArg (_ :: ·) hready.symm)
    have hkept : Kept s { s with
        mNbElementInBuffer_U32 := u32Sub s.mNbElementInBuffer_U32 1
        mPopIndex_U32 := nextIndex s.capacity s.mPopIndex_U32 } := ⟨hinv, rfl, rfl, rfl, fun _ _ => rfl⟩
    rw [if_pos hr]
    dsimp only
    rw [if_pos hl]
    by_cases hb : s.mCircularBufferParam_X.Blocking_B = true ∧ b = true
    · rw [if_pos hb]
      obtain ⟨rd, wr, he⟩ := signalReadWrite_eq { s with
        mNbElementInBuffer_U32 := u32Sub s.mNbElementInBuffer_U32 1
        mPopIndex_U32 := nextIndex s.capacity s.mPopIndex_U32 }
      rw [he]
      exact ⟨hkept.setEvents rd wr, rfl, rfl, Or.inr ⟨_, rfl, rfl, hready'⟩⟩
    · rw [if_neg hb]
      exact ⟨hkept, rfl, rfl, Or.inr ⟨_, rfl, rfl, hready'⟩⟩
  · rw [if_neg hr]
    refine ⟨h.kept_self, rfl, rfl, Or.inl ⟨rfl, rfl, ?_, rfl⟩⟩
    exact List.eq_nil_of_length_eq_zero (by rw [h.length_ready]; exact not_not.mp hr)

/-- The critical section of `PopLastPush`: it takes the newest ready element back. -/
theorem Inv.popLastPushLocked_cases (h : Inv s) :
    Kept s s.popLastPushLocked.1 ∧ s.popLastPushLocked.1.mpLock_U8 = s.mpLock_U8 ∧
    ((s.popLastPushLocked.2.err = .empty ∧ s.popLastPushLocked.2.data = none ∧ ready s = [] ∧
        s.popLastPushLocked.1 = s) ∨
     ∃ x, s.popLastPushLocked.2.err = .noError ∧ s.popLastPushLocked.2.data = some x ∧
        ready s = ready s.popLastPushLocked.1 ++ [x]) := by
  unfold popLastPushLocked
  by_cases hr : s.nbReady ≠ 0
  · obtain ⟨r, hr'⟩ := Nat.exists_eq_succ_of_ne_zero hr
    obtain ⟨hinv, hready⟩ := h.dropLast hr'
    have hn := h.nbReady_eq
    have hl : s.mpLock_U8 ((s.mPopIndex_U32 + r) % s.capacity) = false :=
      h.ready_unlocked r (by omega)
    rw [if_pos hr, h.lastPushIndex_eq hr']
    dsimp only
    rw [hl, if_neg Bool.false_ne_true]
    exact ⟨⟨hinv, rfl, rfl, rfl, fun _ _ => rfl⟩, rfl, Or.inr ⟨_, rfl, rfl, hready⟩⟩
  · rw [if_neg hr]
    refine ⟨h.kept_self, rfl, Or.inl ⟨rfl, rfl, ?_, rfl⟩⟩
    exact List.eq_nil_of_length_eq_zero (by rw [h.length_ready]; exact not_not.mp hr)

/-- `UnlockPop` frees at most the slot it names, and leaves the ready elements alone. -/
theorem Inv.unlockPop_cases (h : Inv s) (i : Nat) :
    Kept s (s.unlockPop i).1 ∧ (s.unlockPop i).2.data = none ∧ ready (s.unlockPop i).1 = ready s ∧
    (∀ j, j ≠ i → (s.unlockPop i).1.mpLock_U8 j = s.mpLock_U8 j) ∧
    (s.mCircularBufferParam_X.PopLockMode_B = false →
      (s.unlockPop i).1 = s ∧ (s.unlockPop i).2.err = .wrongMode) := by
  unfold unlockPop
  by_cases hm : s.mCircularBufferParam_X.PopLockMode_B = true
  · rw [if_pos hm]
    by_cases hi : i < s.capacity
    · rw [if_pos hi]
      by_cases hl : s.mpLock_U8 i = true
      · rw [if_pos hl]
        obtain ⟨hinv, hready⟩ := h.unlockSlot hi hl
        obtain ⟨rd, wr, he⟩ := signalReadWrite_eq { s with
          mpLock_U8 := Function.update s.mpLock_U8 i false
          mNbElementInBuffer_U32 := u32Sub s.mNbElementInBuffer_U32 1
          mNbElementLockedInBuffer_U32 := u32Sub s.mNbElementLockedInBuffer_U32 1 }
        dsimp only
        rw [he]
        refine ⟨⟨hinv.setEvents rd wr, rfl, rfl, rfl, fun _ _ => rfl⟩, rfl, hready, ?_, ?_⟩
        · exact fun j hj => Function.update_of_ne hj _ _
        · intro hm'
          rw [hm] at hm'
          exact absurd hm' (by decide)
      · rw [if_neg hl]
        exact ⟨h.kept_self, rfl, rfl, fun _ _ => rfl, fun hm' => absurd (hm.symm.trans hm') (by decide)⟩
    · rw [if_neg hi]
      exact ⟨h.kept_self, rfl, rfl, fun _ _ => rfl, fun hm' => absurd (hm.symm.trans hm') (by decide)⟩
  · rw [if_neg hm]
    exact ⟨h.kept_self, rfl, rfl, fun _ _ => rfl, fun _ => ⟨rfl, rfl⟩⟩

end BofStd.CircularBuffer

/-!
# `BofCircularBuffer`: whole runs

Without `PopLockMode_B` the buffer refines the bounded deque; with it, the locked slots are safe and
the ready elements form a deque. Both hold on every run that never counts past `0xFFFFFFFF` elements.
The last section is the run that does: a buffer of `0xFFFFFFFF` slots is filled and then pushed to in
overwrite mode, which makes it count 0 elements.
-/

namespace BofStd.CircularBuffer

open Memory Machine

variable {α : Type*} {s : CircularBuffer α}

/-! ## Runs without `PopLockMode_B` -/

theorem capacity_dequeStep (d : BoundedDeque α) (op : Op α) :
    (d.step op).1.capacity = d.capacity := by
  cases op with
  | push pData =>
    cases pData with
    | none => rfl
    | some x => simp only [BoundedDeque.step]; split_ifs <;> rfl
  | pop | peek | skip => simp only [BoundedDeque.step]; split <;> rfl
  | popLastPush => simp only [BoundedDeque.step]; split_ifs <;> rfl
  | unlockPop | setOverWriteMode | reset => rfl

/-- The buffer `s` holds the elements of the deque `d`, in the same mode. -/
structure DequeRel (s : CircularBuffer α) (d : BoundedDeque α) : Prop where
  inv : Inv s
  mode : s.mCircularBufferParam_X.PopLockMode_B = false
  capacity : s.capacity = d.capacity
  overwrite : s.mCircularBufferParam_X.Overwrite_B = d.overwrite
  items : ready s = d.items

theorem DequeRel.of_kept {d : BoundedDeque α} (h : DequeRel s d) {s' : CircularBuffer α}
    (hk : Kept s s') {items : List α} (hi : ready s' = items) :
    DequeRel s' { d with items := items } :=
  ⟨hk.inv, hk.mode.trans h.mode, hk.capacity.trans h.capacity, hk.overwrite.trans h.overwrite, hi⟩

theorem DequeRel.setEvents {d : BoundedDeque α} (h : DequeRel s d) (rd wr : Bool) :
    DequeRel { s with mCanReadEvent_X := rd, mCanWriteEvent_X := wr } d :=
  ⟨h.inv.setEvents rd wr, h.mode, h.capacity, h.overwrite, h.items⟩

/-- Without locks the elements in the buffer are the ready ones. -/
theorem DequeRel.stored_eq {d : BoundedDeque α} (h : DequeRel s d) : stored s = d.items := by
  rw [← h.items, stored, ready, h.inv.locked_eq_zero h.mode, Nat.sub_zero]

theorem DequeRel.count_eq {d : BoundedDeque α} (h : DequeRel s d) :
    s.mNbElementInBuffer_U32 = d.items.length := by
  rw [← h.stored_eq, stored, length_circ]

theorem DequeRel.push {d : BoundedDeque α} (h : DequeRel s d) (x : α)
    (hw : NoCountWrap s (.push (some x))) :
    DequeRel (s.push (some x)).1 (d.step (.push (some x))).1 ∧
      view (s.push (some x)).2 = (d.step (.push (some x))).2 := by
  obtain ⟨rd, wr, he⟩ := signalIfNoError_eq (s.pushLocked x)
  obtain ⟨hk, -, hdata, hcases⟩ := h.inv.pushLocked_cases x hw
  have hcount := h.count_eq
  have hcap := h.capacity
  have hitems := h.items
  have hpush : s.push (some x) = _ := he
  rw [hpush]
  simp only [BoundedDeque.step, view, hdata]
  rcases hcases with ⟨herr, hroom, hready⟩ | ⟨herr, hfull, ho, -, hready⟩ | ⟨-, hl, -⟩ |
    ⟨herr, hfull, ho, hready⟩
  · rw [if_pos (by omega), herr]
    exact ⟨(h.of_kept hk (by rw [hready, hitems])).setEvents rd wr, rfl⟩
  · rw [if_neg (by omega), if_pos (h.overwrite ▸ ho), herr]
    exact ⟨(h.of_kept hk (by rw [hready, hitems])).setEvents rd wr, rfl⟩
  · rw [h.inv.unlocked_of_mode h.mode] at hl
    exact absurd hl (by decide)
  · rw [if_neg (by omega), if_neg (by rw [← h.overwrite, ho]; decide), herr]
    exact ⟨(h.of_kept hk (by rw [hready, hitems])).setEvents rd wr, rfl⟩

theorem DequeRel.pop {d : BoundedDeque α} (h : DequeRel s d) :
    DequeRel s.pop.1 (d.step .pop).1 ∧ view s.pop.2 = (d.step .pop).2 := by
  obtain ⟨rd, wr, he⟩ := signalIfNoError_eq s.popLocked
  obtain ⟨hk, -, -, hcases⟩ := h.inv.popLocked_cases
  have hitems := h.items
  have hpop : s.pop = _ := he
  rw [hpop]
  rcases hcases with ⟨herr, hdata, hnil, hs⟩ | ⟨x, herr, hdata, hcons⟩
  · simp only [BoundedDeque.step, view, herr, hdata, ← hitems, hnil, hs]
    exact ⟨h.setEvents rd wr, trivial⟩
  · simp only [BoundedDeque.step, view, herr, hdata, ← hitems, hcons]
    exact ⟨(h.of_kept hk rfl).setEvents rd wr, trivial⟩

theorem DequeRel.skip {d : BoundedDeque α} (h : DequeRel s d) (b : Bool) :
    DequeRel (s.skip b).1 (d.step (.skip b)).1 ∧ view (s.skip b).2 = (d.step (.skip b)).2 := by
  obtain ⟨hk, -, -, hcases⟩ := h.inv.skip_cases b
  have hitems := h.items
  rcases hcases with ⟨herr, hdata, hnil, hs⟩ | ⟨x, herr, hdata, hcons⟩
  · simp only [BoundedDeque.step, view, herr, hdata, ← hitems, hnil, hs]
    exact ⟨h, trivial⟩
  · simp only [BoundedDeque.step, view, herr, hdata, ← hitems, hcons]
    exact ⟨h.of_kept hk rfl, trivial⟩

theorem DequeRel.popLastPush {d : BoundedDeque α} (h : DequeRel s d) :
    DequeRel s.popLastPush.1 (d.step .popLastPush).1 ∧
      view s.popLastPush.2 = (d.step .popLastPush).2 := by
  obtain ⟨rd, wr, he⟩ := signalIfNoError_eq s.popLastPushLocked
  obtain ⟨hk, -, hcases⟩ := h.inv.popLastPushLocked_cases
  have hitems := h.items
  have hpop : s.popLastPush = _ := he
  rw [hpop]
  rcases hcases with ⟨herr, hdata, hnil, hs⟩ | ⟨x, herr, hdata, happ⟩
  · rw [hitems] at hnil
    simp only [BoundedDeque.step, view, herr, hdata, hnil, hs]
    exact ⟨h.setEvents rd wr, rfl⟩
  · rw [hitems] at happ
    have hne : d.items ≠ [] := by rw [happ]; simp
    simp only [BoundedDeque.step, view, herr, hdata, hne, dif_neg, not_false_eq_true]
    refine ⟨(h.of_kept hk ?_).setEvents rd wr, ?_⟩
    · rw [happ, List.dropLast_concat]
    · simp [happ]

/-- One call on the buffer and on the deque. -/
theorem DequeRel.step {d : BoundedDeque α} (h : DequeRel s d) (op : Op α) (hc : NoCountWrap s op) :
    DequeRel (s.step op).1 (d.step op).1 ∧ view (s.step op).2 = (d.step op).2 := by
  cases op with
  | push pData =>
    cases pData with
    | none => exact ⟨h, rfl⟩
    | some x => exact h.push x hc
  | pop => exact h.pop
  | peek =>
    obtain ⟨hs, hcases⟩ := h.inv.peek_cases
    rcases hcases with ⟨herr, hdata, hnil⟩ | ⟨x, xs, hout, hcons, -⟩
    · simp only [CircularBuffer.step, BoundedDeque.step, view, herr, hdata, hs, ← h.items, hnil]
      exact ⟨h, trivial⟩
    · simp only [CircularBuffer.step, BoundedDeque.step, view, hout, hs, ← h.items, hcons]
      exact ⟨h, trivial⟩
  | skip b => exact h.skip b
  | popLastPush => exact h.popLastPush
  | unlockPop i =>
    obtain ⟨-, hdata, -, -, hmode⟩ := h.inv.unlockPop_cases i
    obtain ⟨hs, herr⟩ := hmode h.mode
    simp only [CircularBuffer.step, BoundedDeque.step, view, hs, herr, hdata]
    exact ⟨h, trivial⟩
  | setOverWriteMode b =>
    exact ⟨⟨h.inv.setOverWriteMode b, h.mode, h.capacity, rfl, h.items⟩, rfl⟩
  | reset => exact ⟨⟨h.inv.reset, h.mode, h.capacity, h.overwrite, rfl⟩, rfl⟩

theorem dequeRel_create {param : CircularBufferParam} (pData : Nat → α)
    (hN : 0 < param.NbMaxElement_U32) (hm : param.PopLockMode_B = false) :
    DequeRel (create param pData) ⟨param.NbMaxElement_U32, param.Overwrite_B, []⟩ :=
  ⟨inv_create param pData hN, hm, rfl, rfl, rfl⟩

/-- A run without `PopLockMode_B` and without a wrap of the element count refines the bounded deque. -/
theorem circularBuffer_refines_deque (param : CircularBufferParam) (pData : Nat → α)
    (hN : 0 < param.NbMaxElement_U32) (hm : param.PopLockMode_B = false) (ops : List (Op α))
    (hc : Meets CircularBuffer.step NoCountWrap (create param pData) ops) :
    RefinesDeque param pData ops := by
  have hstep : ∀ (s : CircularBuffer α) (d : BoundedDeque α) (op : Op α),
      DequeRel s d ∧ d.capacity = param.NbMaxElement_U32 → NoCountWrap s op →
      (DequeRel (s.step op).1 (d.step op).1 ∧ (d.step op).1.capacity = param.NbMaxElement_U32) ∧
        view (s.step op).2 = (d.step op).2 := by
    rintro s d op ⟨hrel, hcap⟩ hop
    obtain ⟨hrel', hout⟩ := hrel.step op hop
    exact ⟨⟨hrel', by rw [capacity_dequeStep, hcap]⟩, hout⟩
  obtain ⟨⟨hrel, hdcap⟩, hout⟩ := sim_run hstep ⟨dequeRel_create pData hN hm, rfl⟩ hc
  have hcap := hrel.capacity.trans hdcap
  have hpush := hrel.inv.push_eq
  have hlt := hrel.inv.push_lt
  have hpop := hrel.inv.pop_lt
  rw [hcap] at hlt hpop
  rw [hcap, hrel.inv.locked_eq_zero hrel.mode, Nat.sub_zero] at hpush
  exact ⟨hrel.stored_eq, hout, hpush, hlt, hpop⟩

/-- Three pushes in overwrite mode into two slots, then one pop. -/
theorem refines_deque_two_slots :
    RefinesDeque ⟨2, by decide, true, false, false⟩ (fun _ => 0 : Nat → Nat)
      [.push (some 1), .push (some 2), .push (some 3), .pop] :=
  circularBuffer_refines_deque _ _ (by decide) rfl _
    ⟨fun _ _ => by decide, fun _ _ => by decide, fun _ _ => by decide, trivial, trivial⟩

/-! ## Runs with `PopLockMode_B` -/

/-- One call, as seen by the list of the ready elements. -/
theorem Inv.step_ready (h : Inv s) (op : Op α) (hc : NoCountWrap s op) :
    (Inv (s.step op).1 ∧ (s.step op).1.capacity = s.capacity) ∧
      ReadyStep s.capacity (ready s) op (view (s.step op).2) (ready (s.step op).1) := by
  cases op with
  | push pData =>
    cases pData with
    | none => exact ⟨⟨h, rfl⟩, .pushNull⟩
    | some x =>
      obtain ⟨rd, wr, he⟩ := signalIfNoError_eq (s.pushLocked x)
      obtain ⟨hk, -, hdata, hcases⟩ := h.pushLocked_cases x hc
      have hpush : s.step (.push (some x)) = _ := he
      have hlen := h.length_ready
      have hn := h.nbReady_eq
      have hle := h.locked_le
      rw [hpush]
      refine ⟨⟨hk.inv.setEvents rd wr, hk.capacity⟩, ?_⟩
      show ReadyStep _ _ _ (_, (s.pushLocked x).2.data) (ready (s.pushLocked x).1)
      rw [hdata]
      rcases hcases with ⟨herr, hroom, hready⟩ | ⟨herr, hfull, -, h0, hready⟩ | ⟨herr, -, hready⟩ |
        ⟨herr, -, -, hready⟩
      · rw [herr, hready]
        exact .push (by omega)
      · rw [herr, hready]
        exact .overwrite (by omega)
      · rw [herr, hready]
        exact .refused (Or.inr rfl)
      · rw [herr, hready]
        exact .refused (Or.inl rfl)
  | pop =>
    obtain ⟨rd, wr, he⟩ := signalIfNoError_eq s.popLocked
    obtain ⟨hk, -, -, hcases⟩ := h.popLocked_cases
    have hpop : s.step .pop = _ := he
    rw [hpop]
    refine ⟨⟨hk.inv.setEvents rd wr, hk.capacity⟩, ?_⟩
    show ReadyStep _ _ _ (s.popLocked.2.err, s.popLocked.2.data) (ready s.popLocked.1)
    rcases hcases with ⟨herr, hdata, hnil, hs⟩ | ⟨x, herr, hdata, hcons⟩
    · rw [herr, hdata, hs, hnil]
      exact .popEmpty
    · rw [herr, hdata, hcons]
      exact .pop
  | peek =>
    obtain ⟨hs, hcases⟩ := h.peek_cases
    simp only [CircularBuffer.step, hs, view]
    refine ⟨⟨h, trivial⟩, ?_⟩
    rcases hcases with ⟨herr, hdata, hnil⟩ | ⟨x, xs, hout, hcons, -⟩
    · rw [herr, hdata, hnil]
      exact .peekEmpty
    · rw [hout, hcons]
      exact .peek
  | skip b =>
    obtain ⟨hk, -, -, hcases⟩ := h.skip_cases b
    refine ⟨⟨hk.inv, hk.capacity⟩, ?_⟩
    show ReadyStep _ _ _ ((s.skip b).2.err, (s.skip b).2.data) (ready (s.skip b).1)
    rcases hcases with ⟨herr, hdata, hnil, hs⟩ | ⟨x, herr, hdata, hcons⟩
    · rw [herr, hdata, hs, hnil]
      exact .skipEmpty
    · rw [herr, hdata, hcons]
      exact .skip
  | popLastPush =>
    obtain ⟨rd, wr, he⟩ := signalIfNoError_eq s.popLastPushLocked
    obtain ⟨hk, -, hcases⟩ := h.popLastPushLocked_cases
    have hpop : s.step .popLastPush = _ := he
    rw [hpop]
    refine ⟨⟨hk.inv.setEvents rd wr, hk.capacity⟩, ?_⟩
    show ReadyStep _ _ _ (s.popLastPushLocked.2.err, s.popLastPushLocked.2.data)
      (ready s.popLastPushLocked.1)
    rcases hcases with ⟨herr, hdata, hnil, hs⟩ | ⟨x, herr, hdata, happ⟩
    · rw [herr, hdata, hs, hnil]
      exact .popLastPushEmpty
    · rw [herr, hdata, happ]
      exact .popLastPush
  | unlockPop i =>
    obtain ⟨hk, hdata, hready, -, -⟩ := h.unlockPop_cases i
    refine ⟨⟨hk.inv, hk.capacity⟩, ?_⟩
    show ReadyStep _ _ _ (_, (s.unlockPop i).2.data) (ready (s.unlockPop i).1)
    rw [hdata, hready]
    exact .unlockPop
  | setOverWriteMode b => exact ⟨⟨h.setOverWriteMode b, rfl⟩, .setOverWriteMode⟩
  | reset => exact ⟨⟨h.reset, rfl⟩, .reset⟩

/-- A locked slot stays locked and keeps its content through every call that does not free it. -/
theorem Inv.step_locked (h : Inv s) (op : Op α) (hc : NoCountWrap s op) {i : Nat}
    (hi : s.mpLock_U8 i = true) (hop : ¬ op.Frees i) :
    (s.step op).1.mpLock_U8 i = true ∧ (s.step op).1.mpData_T i = s.mpData_T i := by
  cases op with
  | push pData =>
    cases pData with
    | none => exact ⟨hi, rfl⟩
    | some x =>
      obtain ⟨rd, wr, he⟩ := signalIfNoError_eq (s.pushLocked x)
      obtain ⟨hk, hlock, -, -⟩ := h.pushLocked_cases x hc
      have hpush : s.step (.push (some x)) = _ := he
      rw [hpush]
      exact ⟨by rw [show _ = s.mpLock_U8 from hlock, hi], hk.content i hi⟩
  | pop =>
    obtain ⟨rd, wr, he⟩ := signalIfNoError_eq s.popLocked
    obtain ⟨hk, hlock, -, -⟩ := h.popLocked_cases
    have hpop : s.step .pop = _ := he
    rw [hpop]
    exact ⟨hlock i hi, hk.content i hi⟩
  | peek =>
    have hs : (s.step .peek).1 = s := h.peek_cases.1
    rw [hs]
    exact ⟨hi, rfl⟩
  | skip b =>
    obtain ⟨hk, hlock, -, -⟩ := h.skip_cases b
    exact ⟨by rw [show (s.step (.skip b)).1.mpLock_U8 = s.mpLock_U8 from hlock, hi],
      hk.content i hi⟩
  | popLastPush =>
    obtain ⟨rd, wr, he⟩ := signalIfNoError_eq s.popLastPushLocked
    obtain ⟨hk, hlock, -⟩ := h.popLastPushLocked_cases
    have hpop : s.step .popLastPush = _ := he
    rw [hpop]
    exact ⟨by rw [show _ = s.mpLock_U8 from hlock, hi], hk.content i hi⟩
  | unlockPop j =>
    obtain ⟨hk, -, -, hlock, -⟩ := h.unlockPop_cases j
    exact ⟨(hlock i fun hij => hop hij.symm).trans hi, hk.content i hi⟩
  | setOverWriteMode b => exact ⟨hi, rfl⟩
  | reset => exact absurd trivial hop

/-- `Pop` moves no element. -/
theorem Inv.pop_data (h : Inv s) : (s.step .pop).1.mpData_T = s.mpData_T := by
  obtain ⟨rd, wr, he⟩ := signalIfNoError_eq s.popLocked
  obtain ⟨-, -, hdata, -⟩ := h.popLocked_cases
  have hpop : s.step .pop = _ := he
  rw [hpop]
  exact hdata

theorem ReadyStep.ne_lock {N : Nat} {items items' : List α} {op : Op α} {o : BofErr × Option α}
    (h : ReadyStep N items op o items') (ht : op.TakesOldest) : o.1 ≠ .lock := by
  cases h <;> first | exact absurd ht id | simp

/-- Every run without a wrap of the element count is safe, with `PopLockMode_B` or without. -/
theorem circularBuffer_lockSafe (param : CircularBufferParam) (pData : Nat → α)
    (hN : 0 < param.NbMaxElement_U32) (ops : List (Op α))
    (hc : Meets CircularBuffer.step NoCountWrap (create param pData) ops) :
    LockSafe param pData ops := by
  have h0 : Inv (create param pData) ∧ (create param pData).capacity = param.NbMaxElement_U32 :=
    ⟨inv_create param pData hN, rfl⟩
  have hstep : ∀ (s : CircularBuffer α) (op : Op α),
      Inv s ∧ s.capacity = param.NbMaxElement_U32 → NoCountWrap s op →
      (Inv (s.step op).1 ∧ (s.step op).1.capacity = param.NbMaxElement_U32) ∧
      ReadyStep param.NbMaxElement_U32 (ready s) op (view (s.step op).2) (ready (s.step op).1) := by
    rintro s op ⟨hinv, hcap⟩ hop
    obtain ⟨⟨hinv', hcap'⟩, hready⟩ := hinv.step_ready op hop
    rw [hcap] at hcap' hready
    exact ⟨⟨hinv', hcap'⟩, hready⟩
  have hinv : ∀ is, Meets CircularBuffer.step NoCountWrap (create param pData) is →
      Inv (run CircularBuffer.step (create param pData) is).1 := by
    intro is his
    exact (inv_run (fun s op hs hop => (hstep s op hs hop).1) h0 his).1
  refine ⟨hinv ops hc, trace_run ready view hstep h0 hc, ?_, ?_⟩
  · refine forall₂_run (P := fun s : CircularBuffer α => Inv s ∧
      s.capacity = param.NbMaxElement_U32) (fun s op hs hop => ?_) h0 hc
    obtain ⟨hs', hready⟩ := hstep s op hs hop
    exact ⟨hs', hready.ne_lock⟩
  · intro ops₁ ops₂ i hops hfree hlock
    have hsplit : ops = (ops₁ ++ [.pop]) ++ ops₂ := by rw [hops]; simp
    rw [hsplit, meets_append] at hc
    obtain ⟨hc₁, hc₂⟩ := hc
    have hinv₁ := hinv ops₁ ((meets_append _ _ _).mp hc₁).1
    set s₁ := (run CircularBuffer.step (create param pData) (ops₁ ++ [.pop])).1 with hs₁
    have hdata : s₁.mpData_T = (run CircularBuffer.step (create param pData) ops₁).1.mpData_T := by
      rw [hs₁, run_append]
      exact hinv₁.pop_data
    -- the slot stays locked with this content on the rest of the run
    have hrun := inv_run (P := fun s : CircularBuffer α => Inv s ∧ s.mpLock_U8 i = true ∧
        s.mpData_T i = s₁.mpData_T i)
      (fun s op hs hop => by
        obtain ⟨hl, hd⟩ := hs.1.step_locked op hop.1 hs.2.1 hop.2
        exact ⟨(hs.1.step_ready op hop.1).1.1, hl, hd.trans hs.2.2⟩)
      ⟨hinv _ hc₁, hlock, rfl⟩ (meets_and hc₂ hfree)
    rw [hsplit, run_append]
    exact ⟨hrun.2.1, by rw [hrun.2.2, hdata]⟩

/-- A popped slot stays locked while the buffer is pushed to, until it is unlocked. -/
theorem lockSafe_two_slots :
    LockSafe ⟨2, by decide, true, false, true⟩ (fun _ => 0 : Nat → Nat)
      [.push (some 1), .pop, .push (some 2), .push (some 3), .unlockPop 0, .push (some 4)] :=
  circularBuffer_lockSafe _ _ (by decide) _
    ⟨fun _ => by decide, trivial, fun _ => by decide, fun _ => by decide, trivial,
      fun _ => by decide, trivial⟩

/-! ## The wrap of the element count -/

/-- A buffer with `n` elements, none locked and overwrite mode off. -/
structure Filled (s : CircularBuffer α) (N n : Nat) : Prop where
  inv : Inv s
  capacity : s.capacity = N
  overwrite : s.mCircularBufferParam_X.Overwrite_B = false
  unlocked : ∀ i, s.mpLock_U8 i = false
  count : s.mNbElementInBuffer_U32 = n

theorem Filled.push {N n : Nat} (h : Filled s N n) (hn : n < N) (x : α) :
    NoCountWrap s (.push (some x)) ∧ Filled (s.step (.push (some x))).1 N (n + 1) := by
  have hw : NoCountWrap s (.push (some x)) := by
    intro ho
    rw [h.overwrite] at ho
    exact absurd ho (by decide)
  obtain ⟨rd, wr, he⟩ := signalIfNoError_eq (s.pushLocked x)
  obtain ⟨hk, hlock, -, hcases⟩ := h.inv.pushLocked_cases x hw
  have hpush : s.step (.push (some x)) = _ := he
  have hcap := h.capacity
  have hcount := h.count
  have hunl : ∀ i, (s.pushLocked x).1.mpLock_U8 i = false := fun i => by rw [hlock, h.unlocked]
  have hready : ready (s.pushLocked x).1 = ready s ++ [x] := by
    rcases hcases with ⟨-, -, hr⟩ | ⟨-, hf, -⟩ | ⟨-, hl, -⟩ | ⟨-, hf, -⟩
    · exact hr
    · omega
    · rw [h.unlocked] at hl
      exact absurd hl (by decide)
    · omega
  have hlen := congrArg List.length hready
  rw [List.length_append, hk.inv.length_ready, h.inv.length_ready, hk.inv.nbReady_eq,
    h.inv.nbReady_eq, hk.inv.locked_eq_zero_of_unlocked hunl,
    h.inv.locked_eq_zero_of_unlocked h.unlocked, hcount] at hlen
  rw [hpush]
  exact ⟨hw, ⟨hk.inv.setEvents rd wr, hk.capacity.trans hcap, hk.overwrite.trans h.overwrite, hunl,
    hlen⟩⟩

theorem filled_run (param : CircularBufferParam) (pData : Nat → α) (x : α)
    (hN : 0 < param.NbMaxElement_U32) (ho : param.Overwrite_B = false) (n : Nat)
    (hn : n ≤ param.NbMaxElement_U32) :
    Filled (run CircularBuffer.step (create param pData) (List.replicate n (.push (some x)))).1
      param.NbMaxElement_U32 n := by
  induction n with
  | zero => exact ⟨inv_create param pData hN, rfl, ho, fun _ => rfl, rfl⟩
  | succ n ih =>
    rw [List.replicate_succ', run_append]
    exact ((ih (by omega)).push hn x).2

theorem deque_run_replicate (N : Nat) (x : α) (n : Nat) (hn : n ≤ N) :
    (run BoundedDeque.step ⟨N, false, []⟩ (List.replicate n (.push (some x)))).1 =
      ⟨N, false, List.replicate n x⟩ := by
  induction n with
  | zero => rfl
  | succ n ih =>
    rw [List.replicate_succ', run_append, ih (by omega)]
    simp [BoundedDeque.step, show n < N by omega, List.replicate_succ']

/-- A push in overwrite mode whose new count is not above the capacity. -/
theorem push_unclipped (x : α) (ho : s.mCircularBufferParam_X.Overwrite_B = true)
    (hl : s.mpLock_U8 s.mPushIndex_U32 = false) (hle : u32 (s.mNbElementInBuffer_U32 + 1) ≤ s.capacity) :
    ∃ level rd wr, (s.push (some x)).1 =
      { s.storeElement x with mLevelMax_U32 := level, mCanReadEvent_X := rd, mCanWriteEvent_X := wr } := by
  obtain ⟨rd, wr, he⟩ := signalIfNoError_eq (s.pushLocked x)
  obtain ⟨level, hlevel⟩ := updateLevelMax_eq (s.storeElement x).clipToCapacity
  have hclip : (s.storeElement x).clipToCapacity = s.storeElement x := by
    rw [clipToCapacity, if_neg]
    rintro ⟨-, hgt⟩
    exact absurd hgt (Nat.not_lt.mpr hle)
  have hpush : s.push (some x) = _ := he
  rw [hpush, pushLocked, if_pos (Or.inl ho), if_pos hl]
  dsimp only
  rw [hlevel, hclip]
  exact ⟨level, rd, wr, rfl⟩

/-- Pushing in overwrite mode onto `0xFFFFFFFF` elements leaves a count of 0. -/
theorem push_wraps (x : α) (ho : s.mCircularBufferParam_X.Overwrite_B = true)
    (hl : s.mpLock_U8 s.mPushIndex_U32 = false) (hcount : s.mNbElementInBuffer_U32 = 4294967295) :
    (s.push (some x)).1.mNbElementInBuffer_U32 = 0 ∧
    (s.push (some x)).1.mPopIndex_U32 = s.mPopIndex_U32 ∧
    (s.push (some x)).1.mPushIndex_U32 = nextIndex s.capacity s.mPushIndex_U32 := by
  have hzero : u32 (s.mNbElementInBuffer_U32 + 1) = 0 := by
    rw [hcount, u32_eq_mod]
  obtain ⟨level, rd, wr, hpush⟩ := push_unclipped x ho hl (by omega)
  rw [hpush]
  exact ⟨hzero, rfl, rfl⟩

/-- The run that fills the buffer and then pushes once more in overwrite mode. -/
def wrapRun (param : CircularBufferParam) (x : α) : List (Op α) :=
  List.replicate param.NbMaxElement_U32 (.push (some x)) ++ [.setOverWriteMode true, .push (some x)]

theorem wrapRun_final (param : CircularBufferParam) (pData : Nat → α) (x : α)
    (hN : param.NbMaxElement_U32 = 4294967295) (ho : param.Overwrite_B = false) :
    ∃ s : CircularBuffer α, Inv s ∧ s.capacity = 4294967295 ∧
      (run CircularBuffer.step (create param pData) (wrapRun param x)).1.mNbElementInBuffer_U32 = 0 ∧
      (run CircularBuffer.step (create param pData) (wrapRun param x)).1.mPopIndex_U32 =
        s.mPopIndex_U32 ∧
      (run CircularBuffer.step (create param pData) (wrapRun param x)).1.mPushIndex_U32 =
        nextIndex s.capacity s.mPopIndex_U32 := by
  have hf := filled_run param pData x (by omega) ho _ le_rfl
  set s₁ := (run CircularBuffer.step (create param pData)
    (List.replicate param.NbMaxElement_U32 (.push (some x)))).1 with hs₁
  have hrun : (run CircularBuffer.step (create param pData) (wrapRun param x)).1 =
      ((s₁.setOverWriteMode true).push (some x)).1 := by
    rw [wrapRun, run_append]
    rfl
  obtain ⟨h0, hpop, hpush⟩ := push_wraps (s := s₁.setOverWriteMode true) x rfl
    (hf.unlocked _) (hf.count.trans hN)
  refine ⟨s₁, hf.inv, hf.capacity.trans hN, by rw [hrun, h0], by rw [hrun, hpop]; rfl, ?_⟩
  rw [hrun, hpush]
  show nextIndex s₁.capacity s₁.mPushIndex_U32 = _
  rw [hf.inv.push_eq, hf.inv.locked_eq_zero_of_unlocked hf.unlocked, hf.count, ← hf.capacity,
    Nat.sub_zero, Nat.add_mod_right, Nat.mod_eq_of_lt hf.inv.pop_lt]

theorem wrapRun_not_refinesDeque (param : CircularBufferParam) (pData : Nat → α) (x : α)
    (hN : param.NbMaxElement_U32 = 4294967295) (ho : param.Overwrite_B = false) :
    ¬ RefinesDeque param pData (wrapRun param x) := by
  intro h
  obtain ⟨s, -, -, h0, -, -⟩ := wrapRun_final param pData x hN ho
  have hlen : (stored (run CircularBuffer.step (create param pData) (wrapRun param x)).1).length =
      (run BoundedDeque.step ⟨param.NbMaxElement_U32, param.Overwrite_B, []⟩
        (wrapRun param x)).1.items.length := congrArg List.length h.1
  rw [stored, length_circ, h0, wrapRun, run_append, ho, deque_run_replicate _ _ _ le_rfl] at hlen
  simp [BoundedDeque.step] at hlen

/-- The bounded deque is not refined by a buffer of `0xFFFFFFFF` slots that is filled and then pushed
to in overwrite mode. -/
theorem not_refinesDeque_of_wrap :
    ¬ RefinesDeque ⟨4294967295, by decide, false, false, false⟩ (fun _ => 0 : Nat → Nat)
      (wrapRun ⟨4294967295, by decide, false, false, false⟩ 0) :=
  wrapRun_not_refinesDeque _ _ _ rfl rfl

theorem wrapRun_not_lockSafe (param : CircularBufferParam) (pData : Nat → α) (x : α)
    (hN : param.NbMaxElement_U32 = 4294967295) (ho : param.Overwrite_B = false) :
    ¬ LockSafe param pData (wrapRun param x) := by
  intro h
  obtain ⟨s, hinv, hcap, h0, hpop, hpush⟩ := wrapRun_final param pData x hN ho
  have heq := h.inv.push_eq
  have hlt := h.inv.pop_lt
  rw [h0, Nat.zero_sub, Nat.add_zero, Nat.mod_eq_of_lt hlt, hpush, hpop,
    hinv.nextIndex_eq hinv.pop_lt] at heq
  have hne := mod_ne_mod (N := s.capacity) (i := s.mPopIndex_U32) (k := 0) (l := 1) (by omega)
    (by omega)
  rw [Nat.add_zero, Nat.mod_eq_of_lt hinv.pop_lt] at hne
  exact hne heq.symm

/-- The same run in lock mode. -/
theorem not_lockSafe_of_wrap :
    ¬ LockSafe ⟨4294967295, by decide, false, false, true⟩ (fun _ => 0 : Nat → Nat)
      (wrapRun ⟨4294967295, by decide, false, false, true⟩ 0) :=
  wrapRun_not_lockSafe _ _ _ rfl rfl

end BofStd.CircularBuffer
