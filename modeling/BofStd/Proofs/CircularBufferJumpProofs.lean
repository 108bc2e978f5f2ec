import BofStd.Proofs.CircularBufferAccessProofs

/-!
# `PushForNextPop`

Into a buffer that is neither empty nor full, without locks, `PushForNextPop` puts the element in front of the window
of ready elements (`Inv.storeFront`). In the other states it miscounts: it takes equal indices for a full buffer also
when it is empty, it leaves the push index where it is when the buffer is full, and in lock mode it counts and marks
the new element as locked. Then one of the following calls of `Pop` fails (`exists_nthPop_fails`), or the push index is
no longer behind the ready elements.
-/

namespace BofStd.CircularBuffer

open Memory Machine

variable {α : Type*} {s : CircularBuffer α}

theorem indexBefore_eq_mod {N i : Nat} (hi : i < N) : indexBefore N i = (i + (N - 1)) % N := by
  have hstep : i + (N - 1) + 1 = i + N := by omega
  rw [← ite_pred_eq_mod (by omega), hstep, Nat.add_mod_right, Nat.mod_eq_of_lt hi, indexBefore,
    u32Sub_of_le (by omega)]

/-- A call that is not refused. -/
theorem pushForNextPop_accepted (x : α) {forceIfFull : Bool} (hacc : ¬ s.RefusesInFront forceIfFull) :
    ∃ level rd wr, s.pushForNextPop (some x) forceIfFull =
      ({ (s.countForNextPop.storeForNextPop x).clipForNextPop with
          mLevelMax_U32 := level, mCanReadEvent_X := rd, mCanWriteEvent_X := wr }, { err := .noError }) := by
  obtain ⟨rd, wr, he⟩ := signalIfNoError_eq (s.pushForNextPopLocked x forceIfFull)
  obtain ⟨level, hlevel⟩ := updateLevelMax_eq (s.countForNextPop.storeForNextPop x).clipForNextPop
  have hpush : s.pushForNextPop (some x) forceIfFull = _ := he
  have hcond : s.mCircularBufferParam_X.Overwrite_B = true ∨ forceIfFull = true ∨
      s.mNbElementInBuffer_U32 < s.capacity := by
    by_contra hno
    simp only [not_or, Bool.not_eq_true, Nat.not_lt] at hno
    exact hacc hno
  rw [hpush, pushForNextPopLocked, if_pos hcond, hlevel]
  exact ⟨level, rd, wr, rfl⟩

theorem pushForNextPop_refused (x : α) {forceIfFull : Bool} (h : s.RefusesInFront forceIfFull) :
    (s.pushForNextPop (some x) forceIfFull).1 = { s with mOverflow_B := true } ∧
      (s.pushForNextPop (some x) forceIfFull).2.err = .full := by
  have hcond : ¬ (s.mCircularBufferParam_X.Overwrite_B = true ∨ forceIfFull = true ∨
      s.mNbElementInBuffer_U32 < s.capacity) := by
    simp only [not_or, Bool.not_eq_true, Nat.not_lt]
    exact h
  rw [pushForNextPop, pushForNextPopLocked, if_neg hcond, signalIfNoError, if_neg]
  · exact ⟨rfl, rfl⟩
  · rintro ⟨-, herr⟩
    exact BofErr.noConfusion herr

/-! ## The slot in front of the window -/

/-- Without locks no lock flag changes. -/
theorem storeForNextPop_unlocked (x : α) (hm : s.mCircularBufferParam_X.PopLockMode_B = false)
    (hl : ∀ i, s.mpLock_U8 i = false) : s.storeForNextPop x = { s with
      mPopIndex_U32 := indexBefore s.capacity s.mPopIndex_U32
      mpData_T := Function.update s.mpData_T (indexBefore s.capacity s.mPopIndex_U32) x } := by
  have hlock : Function.update s.mpLock_U8 (indexBefore s.capacity s.mPopIndex_U32) false = s.mpLock_U8 :=
    Function.update_eq_self_iff.mpr (hl _).symm
  rw [storeForNextPop, hm, hlock]

/-- Without locks, the element goes in front of the ready ones as long as a slot is free. -/
theorem Inv.storeFront (h : Inv s) (hm : s.mCircularBufferParam_X.PopLockMode_B = false) (x : α)
    (hpos : 0 < s.mNbElementInBuffer_U32) (hlt : s.mNbElementInBuffer_U32 < s.capacity) :
    Inv (s.countForNextPop.storeForNextPop x).clipForNextPop ∧
      ready (s.countForNextPop.storeForNextPop x).clipForNextPop = x :: ready s := by
  have hcap := s.capacity_lt
  have hpop := h.pop_lt
  have h0 := h.locked_eq_zero hm
  have hl := h.unlocked_of_mode hm
  have hne : s.mPopIndex_U32 ≠ s.mPushIndex_U32 := by
    have hdiff := mod_ne_mod (N := s.capacity) (i := s.mPopIndex_U32) hpos (by omega)
    rw [h.push_eq, h0, Nat.sub_zero]
    rwa [Nat.add_zero, Nat.mod_eq_of_lt hpop] at hdiff
  have hcounted : s.countForNextPop = { s with mNbElementInBuffer_U32 := s.mNbElementInBuffer_U32 + 1 } := by
    rw [countForNextPop, if_pos hne, u32_of_lt (by omega)]
    dsimp only
    rw [if_neg (by rw [hm]; exact Bool.false_ne_true)]
  have hstored : (s.countForNextPop.storeForNextPop x).clipForNextPop = { s with
      mNbElementInBuffer_U32 := s.mNbElementInBuffer_U32 + 1
      mPopIndex_U32 := (s.mPopIndex_U32 + (s.capacity - 1)) % s.capacity
      mpData_T := Function.update s.mpData_T ((s.mPopIndex_U32 + (s.capacity - 1)) % s.capacity) x } := by
    rw [hcounted,
      storeForNextPop_unlocked (s := { s with mNbElementInBuffer_U32 := s.mNbElementInBuffer_U32 + 1 }) x hm hl,
      clipForNextPop, if_neg, ← indexBefore_eq_mod hpop]
    · rfl
    · rintro ⟨-, hgt⟩
      exact absurd hgt (Nat.not_lt.mpr hlt)
  -- the window now starts one slot earlier
  have hstart : s.mPopIndex_U32 + (s.capacity - 1) + 1 = s.mPopIndex_U32 + s.capacity := by omega
  rw [hstored]
  refine ⟨⟨h.pos, Nat.mod_lt _ h.pos, h.locked_eq, ?_, hlt, ?_, fun _ _ => hl _, h.unlocked_of_mode⟩, ?_⟩
  · show s.mNbElementLockedInBuffer_U32 ≤ s.mNbElementInBuffer_U32 + 1
    omega
  · show s.mPushIndex_U32 = ((s.mPopIndex_U32 + (s.capacity - 1)) % s.capacity +
      (s.mNbElementInBuffer_U32 + 1 - s.mNbElementLockedInBuffer_U32)) % s.capacity
    rw [h.push_eq, h0, Nat.sub_zero, Nat.sub_zero, Nat.mod_add_mod, Nat.add_comm s.mNbElementInBuffer_U32 1,
      ← Nat.add_assoc, hstart, Nat.add_right_comm, Nat.add_mod_right]
  · show circ s.capacity (Function.update s.mpData_T _ x) ((s.mPopIndex_U32 + (s.capacity - 1)) % s.capacity)
      (s.mNbElementInBuffer_U32 + 1 - s.mNbElementLockedInBuffer_U32) = _
    rw [h0, Nat.sub_zero, circ_mod, circ_update_front _ _ hlt, hstart, ← circ_mod, Nat.add_mod_right, circ_mod, ready,
      h0, Nat.sub_zero]

/-- In a full buffer of one slot the element takes the place of the other one. -/
theorem Inv.storeFront_one (h : Inv s) (hm : s.mCircularBufferParam_X.PopLockMode_B = false) (x : α)
    (hcount : s.mNbElementInBuffer_U32 = 1) (hone : s.capacity = 1) :
    Inv (s.countForNextPop.storeForNextPop x).clipForNextPop ∧
      ready (s.countForNextPop.storeForNextPop x).clipForNextPop = [x] := by
  have hpop : s.mPopIndex_U32 = 0 := by
    have := h.pop_lt
    omega
  have hpush : s.mPushIndex_U32 = 0 := by
    have := h.push_lt
    omega
  have h0 := h.locked_eq_zero hm
  have hl := h.unlocked_of_mode hm
  have hstored : (s.countForNextPop.storeForNextPop x).clipForNextPop =
      { s with mpData_T := Function.update s.mpData_T 0 x } := by
    rw [countForNextPop, if_neg (by rw [hpop, hpush, ne_eq, not_not]), storeForNextPop_unlocked x hm hl,
      clipForNextPop, if_neg, hone, hpop]
    · rfl
    · rintro ⟨-, hgt⟩
      exact absurd hgt (Nat.not_lt.mpr (by show s.mNbElementInBuffer_U32 ≤ s.capacity; omega))
  rw [hstored]
  refine ⟨⟨h.pos, h.pop_lt, h.locked_eq, h.locked_le, h.count_le, h.push_eq, h.ready_unlocked, h.unlocked_of_mode⟩, ?_⟩
  show circ s.capacity (Function.update s.mpData_T 0 x) s.mPopIndex_U32
    (s.mNbElementInBuffer_U32 - s.mNbElementLockedInBuffer_U32) = _
  rw [h0, hcount, hpop, hone]
  rfl

/-- Where `PushForNextPop` finds the slot in front of a run of elements, it jumps the queue. -/
theorem Inv.jumpsQueue (h : Inv s) (x : α) {forceIfFull : Bool} (hacc : ¬ s.RefusesInFront forceIfFull)
    (hfront : s.HasFrontSlot) :
    Inv (s.pushForNextPop (some x) forceIfFull).1 ∧ JumpsQueue s x forceIfFull := by
  obtain ⟨hm, hpos, hcase⟩ := hfront
  obtain ⟨level, rd, wr, he⟩ := pushForNextPop_accepted x hacc
  have hlen := h.length_ready
  rw [h.nbReady_eq, h.locked_eq_zero hm, Nat.sub_zero] at hlen
  -- the invariant, and the elements that are ready afterwards
  have hstate : Inv (s.countForNextPop.storeForNextPop x).clipForNextPop ∧
      ready (s.countForNextPop.storeForNextPop x).clipForNextPop =
        x :: (if s.isFull then (ready s).dropLast else ready s) := by
    rcases Nat.lt_or_ge s.mNbElementInBuffer_U32 s.capacity with hlt | hge
    · rw [if_neg (by simp only [isFull, beq_iff_eq]; omega)]
      exact h.storeFront hm x hpos hlt
    · have hone : s.capacity = 1 := by
        rcases hcase with hlt | hone
        · omega
        · exact hone
      have hcount : s.mNbElementInBuffer_U32 = 1 := by
        have := h.count_le
        omega
      obtain ⟨y, hy⟩ := List.length_eq_one_iff.mp (hlen.trans hcount)
      rw [if_pos (by simp only [isFull, beq_iff_eq]; omega), hy]
      exact h.storeFront_one hm x hcount hone
  have hinv := (hstate.1.setLevelMax level).setEvents rd wr
  rw [JumpsQueue, he]
  refine ⟨hinv, ?_⟩
  intro _
  have hlen' := congrArg List.length hstate.2
  rw [hstate.1.length_ready, List.length_cons] at hlen'
  refine ⟨?_, ?_⟩
  · intro k hk
    rw [hinv.view_nthPop (lt_of_lt_of_eq (Nat.lt_succ_of_le hk) hlen'.symm)]
    exact congrArg (fun l => (BofErr.noError, l[k]?)) hstate.2
  · rw [hinv.nbReady_eq]
    exact hinv.push_eq

/-! ## The other states -/

/-- A `Pop` fails or takes one of the elements that count as ready, whatever the state of the buffer. -/
theorem pop_fails_or (hle : s.mNbElementLockedInBuffer_U32 ≤ s.mNbElementInBuffer_U32)
    (hlt : s.mNbElementInBuffer_U32 < 4294967296) : s.pop.2.err ≠ .noError ∨
      (s.pop.1.nbReady + 1 = s.nbReady ∧
        s.pop.1.mNbElementLockedInBuffer_U32 ≤ s.pop.1.mNbElementInBuffer_U32 ∧
        s.pop.1.mNbElementInBuffer_U32 < 4294967296) := by
  obtain ⟨rd, wr, he⟩ := signalIfNoError_eq s.popLocked
  have hpop : s.pop = _ := he
  have hready : s.nbReady = s.mNbElementInBuffer_U32 - s.mNbElementLockedInBuffer_U32 := u32Sub_of_le hle
  rw [hpop, popLocked]
  split_ifs with hr hl hmode
  · -- the element is locked
    right
    have hlocked : u32 (s.mNbElementLockedInBuffer_U32 + 1) = s.mNbElementLockedInBuffer_U32 + 1 :=
      u32_of_lt (by omega)
    refine ⟨?_, ?_, hlt⟩
    · show u32Sub s.mNbElementInBuffer_U32 (u32 (s.mNbElementLockedInBuffer_U32 + 1)) + 1 = _
      rw [hlocked, u32Sub_of_le (by omega)]
      omega
    · show u32 (s.mNbElementLockedInBuffer_U32 + 1) ≤ s.mNbElementInBuffer_U32
      omega
  · -- the element is removed
    right
    have hcount : u32Sub s.mNbElementInBuffer_U32 1 = s.mNbElementInBuffer_U32 - 1 := u32Sub_of_le (by omega)
    refine ⟨?_, ?_, ?_⟩
    · show u32Sub (u32Sub s.mNbElementInBuffer_U32 1) s.mNbElementLockedInBuffer_U32 + 1 = _
      rw [hcount, u32Sub_of_le (by omega)]
      omega
    · show s.mNbElementLockedInBuffer_U32 ≤ u32Sub s.mNbElementInBuffer_U32 1
      omega
    · show u32Sub s.mNbElementInBuffer_U32 1 < 4294967296
      omega
  · exact Or.inl BofErr.noConfusion
  · exact Or.inl BofErr.noConfusion

/-- As many calls of `Pop` as elements count as ready, and one more: one of them fails. -/
theorem exists_nthPop_fails (hle : s.mNbElementLockedInBuffer_U32 ≤ s.mNbElementInBuffer_U32)
    (hlt : s.mNbElementInBuffer_U32 < 4294967296) : ∃ k ≤ s.nbReady, (s.nthPop k).err ≠ .noError := by
  generalize hn : s.nbReady = n
  induction n generalizing s with
  | zero =>
    refine ⟨0, Nat.le_refl 0, ?_⟩
    rcases pop_fails_or hle hlt with hfail | ⟨hready, -⟩
    · exact hfail
    · omega
  | succ n ih =>
    rcases pop_fails_or hle hlt with hfail | ⟨hready, hle', hlt'⟩
    · exact ⟨0, Nat.zero_le _, hfail⟩
    · obtain ⟨k, hk, hfail⟩ := ih hle' hlt' (by omega)
      exact ⟨k + 1, by omega, hfail⟩

/-- No `Pop` succeeds while the slot at the pop index is locked. -/
theorem pop_fails_of_locked (hl : s.mpLock_U8 s.mPopIndex_U32 = true) : s.pop.2.err ≠ .noError := by
  obtain ⟨rd, wr, he⟩ := signalIfNoError_eq s.popLocked
  have hpop : s.pop = _ := he
  rw [hpop, popLocked]
  split_ifs with hr hfree
  · rw [hl] at hfree
    exact absurd hfree.symm Bool.false_ne_true
  · rw [hl] at hfree
    exact absurd hfree.symm Bool.false_ne_true
  · exact BofErr.noConfusion
  · exact BofErr.noConfusion

/-- With equal indices nothing is counted, and nothing has to be set back. -/
theorem Inv.storeForNextPop_of_eq (h : Inv s) (x : α) (heq : s.mPopIndex_U32 = s.mPushIndex_U32) :
    (s.countForNextPop.storeForNextPop x).clipForNextPop = s.storeForNextPop x := by
  rw [countForNextPop, if_neg (not_not.mpr heq), clipForNextPop, if_neg]
  rintro ⟨-, hgt⟩
  exact absurd hgt (Nat.not_lt.mpr h.count_le)

@[simp] theorem countForNextPop_param (s : CircularBuffer α) :
    s.countForNextPop.mCircularBufferParam_X = s.mCircularBufferParam_X := by
  unfold countForNextPop
  dsimp only
  split_ifs <;> rfl

/-- In lock mode the slot at the pop index is locked afterwards, unless the count is set back: then one element fewer
is ready in a buffer that was full. -/
theorem Inv.forNextPop_locked_or (h : Inv s) (x : α) (hm : s.mCircularBufferParam_X.PopLockMode_B = true) :
    let t := (s.countForNextPop.storeForNextPop x).clipForNextPop
    t.mpLock_U8 t.mPopIndex_U32 = true ∨
      (s.isFull = true ∧ 0 < s.nbReady ∧ t.mNbElementInBuffer_U32 = s.capacity ∧
        t.mNbElementLockedInBuffer_U32 = s.mNbElementLockedInBuffer_U32 + 1) := by
  dsimp only
  have hcap := s.capacity_lt
  have hcount := h.count_le
  have hready := h.nbReady_eq
  have hcap' : (s.countForNextPop.storeForNextPop x).capacity = s.capacity :=
    congrArg CircularBufferParam.NbMaxElement_U32 (countForNextPop_param s)
  rw [clipForNextPop]
  split_ifs with hclip
  · right
    have hgt : s.countForNextPop.mNbElementInBuffer_U32 > s.capacity := hcap' ▸ hclip.2
    by_cases heq : s.mPopIndex_U32 = s.mPushIndex_U32
    · rw [countForNextPop, if_neg (not_not.mpr heq)] at hgt
      omega
    · have hcounted : s.countForNextPop = { s with
          mNbElementInBuffer_U32 := u32 (s.mNbElementInBuffer_U32 + 1)
          mNbElementLockedInBuffer_U32 := u32 (s.mNbElementLockedInBuffer_U32 + 1) } := by
        rw [countForNextPop, if_pos heq]
        dsimp only
        rw [if_pos hm]
      have hfull : s.mNbElementInBuffer_U32 = s.capacity := by
        by_contra hne
        rw [hcounted] at hgt
        have hone : u32 (s.mNbElementInBuffer_U32 + 1) = s.mNbElementInBuffer_U32 + 1 := u32_of_lt (by omega)
        dsimp only at hgt
        omega
      -- equal indices would mean that no element is ready
      have hsome : s.nbReady ≠ 0 := by
        intro hzero
        rw [h.push_eq, ← hready, hzero, Nat.add_zero, Nat.mod_eq_of_lt h.pop_lt] at heq
        exact heq rfl
      refine ⟨beq_iff_eq.mpr hfull, Nat.pos_of_ne_zero hsome, hcap', ?_⟩
      show s.countForNextPop.mNbElementLockedInBuffer_U32 = _
      rw [hcounted]
      exact u32_of_lt (by omega)
  · left
    have hlock : s.countForNextPop.mCircularBufferParam_X.PopLockMode_B = true := by
      rw [countForNextPop_param, hm]
    simp only [storeForNextPop, Function.update_self, hlock]

/-- In lock mode, one of the calls of `Pop` that should return the new element and those behind it fails. -/
theorem Inv.exists_nthPop_fails_of_mode (h : Inv s) (x : α) (level : Nat) (rd wr : Bool)
    (hm : s.mCircularBufferParam_X.PopLockMode_B = true) :
    ∃ k ≤ (if s.isFull then (ready s).dropLast else ready s).length,
      (nthPop { (s.countForNextPop.storeForNextPop x).clipForNextPop with
        mLevelMax_U32 := level, mCanReadEvent_X := rd, mCanWriteEvent_X := wr } k).err ≠ .noError := by
  have hcap := s.capacity_lt
  have hready := h.nbReady_eq
  have hle := h.locked_le
  have hcases := h.forNextPop_locked_or x hm
  set t := (s.countForNextPop.storeForNextPop x).clipForNextPop with ht
  rcases hcases with hl | ⟨hfull, hsome, hcount, hlocked⟩
  · exact ⟨0, Nat.zero_le _, pop_fails_of_locked hl⟩
  · have hcap' : s.mNbElementInBuffer_U32 = s.capacity := beq_iff_eq.mp hfull
    have hle' : t.mNbElementLockedInBuffer_U32 ≤ t.mNbElementInBuffer_U32 := by omega
    obtain ⟨k, hk, hfail⟩ := exists_nthPop_fails
      (s := { t with mLevelMax_U32 := level, mCanReadEvent_X := rd, mCanWriteEvent_X := wr }) hle'
      (by show t.mNbElementInBuffer_U32 < _; omega)
    have hnb : u32Sub t.mNbElementInBuffer_U32 t.mNbElementLockedInBuffer_U32 = s.nbReady - 1 := by
      rw [u32Sub_of_le hle']
      omega
    refine ⟨k, ?_, hfail⟩
    rw [if_pos hfull, List.length_dropLast, h.length_ready, ← hnb]
    exact hk

/-- A call that is not refused jumps the queue only if it finds the slot in front of a run of elements. -/
theorem Inv.hasFrontSlot_of_jumpsQueue (h : Inv s) (x : α) {forceIfFull : Bool} (hacc : ¬ s.RefusesInFront forceIfFull)
    (hj : JumpsQueue s x forceIfFull) : s.HasFrontSlot := by
  obtain ⟨level, rd, wr, he⟩ := pushForNextPop_accepted x hacc
  rw [JumpsQueue, he] at hj
  obtain ⟨hpops, hrel⟩ := hj rfl
  have hnever : ∀ k ≤ (if s.isFull then (ready s).dropLast else ready s).length,
      (nthPop { (s.countForNextPop.storeForNextPop x).clipForNextPop with
        mLevelMax_U32 := level, mCanReadEvent_X := rd, mCanWriteEvent_X := wr } k).err = .noError :=
    fun k hk => congrArg Prod.fst (hpops k hk)
  by_cases hm : s.mCircularBufferParam_X.PopLockMode_B = true
  · obtain ⟨k, hk, hfail⟩ := h.exists_nthPop_fails_of_mode x level rd wr hm
    exact absurd (hnever k hk) hfail
  · rw [Bool.not_eq_true] at hm
    have hcap := s.capacity_lt
    have hcount := h.count_le
    have h0 := h.locked_eq_zero hm
    have hpush := h.push_eq
    rw [h0, Nat.sub_zero] at hpush
    refine ⟨hm, ?_, ?_⟩
    · -- an empty buffer stays empty
      by_contra hzero
      have hempty : s.mNbElementInBuffer_U32 = 0 := by omega
      have heq : s.mPopIndex_U32 = s.mPushIndex_U32 := by
        rw [hpush, hempty, Nat.add_zero, Nat.mod_eq_of_lt h.pop_lt]
      rw [h.storeForNextPop_of_eq x heq, storeForNextPop_unlocked x hm (h.unlocked_of_mode hm)] at hnever
      obtain ⟨k, hk, hfail⟩ := exists_nthPop_fails (s := { s with
          mPopIndex_U32 := indexBefore s.capacity s.mPopIndex_U32
          mpData_T := Function.update s.mpData_T (indexBefore s.capacity s.mPopIndex_U32) x
          mLevelMax_U32 := level, mCanReadEvent_X := rd, mCanWriteEvent_X := wr }) h.locked_le
        (by show s.mNbElementInBuffer_U32 < _; omega)
      have hnb : s.nbReady = 0 := by
        rw [h.nbReady_eq]
        omega
      exact hfail (hnever k (le_trans hk (le_of_eq_of_le hnb (Nat.zero_le _))))
    · -- in a full buffer the push index stays behind
      by_contra hno
      rw [not_or, Nat.not_lt] at hno
      have hfull : s.mNbElementInBuffer_U32 = s.capacity := by omega
      have heq : s.mPopIndex_U32 = s.mPushIndex_U32 := by
        rw [hpush, hfull, Nat.add_mod_right, Nat.mod_eq_of_lt h.pop_lt]
      have hpos := h.pos
      have hne := mod_ne_mod (N := s.capacity) (i := s.mPopIndex_U32) (k := 0) (l := s.capacity - 1) (by omega)
        (by omega)
      rw [Nat.add_zero, Nat.mod_eq_of_lt h.pop_lt] at hne
      rw [h.storeForNextPop_of_eq x heq, storeForNextPop_unlocked x hm (h.unlocked_of_mode hm)] at hrel
      have hrel' : s.mPushIndex_U32 = (indexBefore s.capacity s.mPopIndex_U32 + s.nbReady) % s.capacity := hrel
      rw [h.nbReady_eq, h0, hfull, Nat.sub_zero, Nat.add_mod_right, indexBefore_eq_mod h.pop_lt, Nat.mod_mod,
        ← heq] at hrel'
      exact hne hrel'

/-! ## Whole runs -/

/-- A `PushForNextPop` jumps the queue exactly if it is refused or finds the slot in front of a run of elements. -/
theorem Inv.stepJumps_iff (h : Inv s) (op : JumpOp α) : s.StepJumps op ↔ s.StepHasFront op := by
  cases op with
  | call op => exact Iff.rfl
  | pushForNextPop pData forceIfFull =>
    cases pData with
    | none => exact Iff.rfl
    | some x =>
      by_cases href : s.RefusesInFront forceIfFull
      · refine iff_of_true ?_ (Or.inl href)
        intro herr
        rw [(pushForNextPop_refused x href).2] at herr
        exact BofErr.noConfusion herr
      · constructor
        · exact fun hj => Or.inr (h.hasFrontSlot_of_jumpsQueue x href hj)
        · exact fun hf => (h.jumpsQueue x href (hf.resolve_left href)).2

/-- A step that jumps the queue keeps the invariant. -/
theorem Inv.jumpStep (h : Inv s) (op : JumpOp α) (hw : s.JumpNoCountWrap op) (hf : s.StepHasFront op) :
    Inv (s.jumpStep op).1 := by
  cases op with
  | call op => exact (h.step_ready op hw).1.1
  | pushForNextPop pData forceIfFull =>
    cases pData with
    | none => exact h
    | some x =>
      by_cases href : s.RefusesInFront forceIfFull
      · rw [CircularBuffer.jumpStep, (pushForNextPop_refused x href).1]
        exact ⟨h.pos, h.pop_lt, h.locked_eq, h.locked_le, h.count_le, h.push_eq, h.ready_unlocked,
          h.unlocked_of_mode⟩
      · exact (h.jumpsQueue x href (hf.resolve_left href)).1

/-- On a run without a wrap of the element count: every `PushForNextPop` jumps the queue exactly if each of them is
refused or finds the slot in front of a run of elements. -/
theorem circularBuffer_jumps_iff (param : CircularBufferParam) (pData : Nat → α) (hN : 0 < param.NbMaxElement_U32)
    (ops : List (JumpOp α)) (hc : Meets CircularBuffer.jumpStep JumpNoCountWrap (create param pData) ops) :
    Meets CircularBuffer.jumpStep StepJumps (create param pData) ops ↔
      Meets CircularBuffer.jumpStep StepHasFront (create param pData) ops :=
  meets_iff_meets_of_inv (fun _ op hs _ => hs.stepJumps_iff op) (fun _ op hs hw hf => hs.jumpStep op hw hf)
    (inv_create param pData hN) hc

/-- Two elements pushed in front of one. -/
theorem jumps_four_slots :
    Meets CircularBuffer.jumpStep StepJumps (create ⟨4, by decide, false, false, false⟩ (fun _ => 0 : Nat → Nat))
      [.call (.push (some 1)), .pushForNextPop (some 2) false, .pushForNextPop (some 3) true, .call .pop] := by
  refine (circularBuffer_jumps_iff _ _ (by decide) _ ?_).mpr ?_
  · exact ⟨fun _ => by decide, trivial, trivial, trivial, trivial⟩
  · exact ⟨trivial, Or.inr ⟨rfl, by decide, Or.inl (by decide)⟩, Or.inr ⟨rfl, by decide, Or.inl (by decide)⟩,
      trivial, trivial⟩

/-- In a new buffer the pushed element is lost. -/
theorem not_jumps_empty :
    ¬ Meets CircularBuffer.jumpStep StepJumps (create ⟨4, by decide, false, false, false⟩ (fun _ => 0 : Nat → Nat))
      [.pushForNextPop (some 5) false] := by
  rintro ⟨hj, -⟩
  exact absurd (congrArg Prod.fst ((hj rfl).1 0 (Nat.zero_le _))) (by decide)

end BofStd.CircularBuffer
