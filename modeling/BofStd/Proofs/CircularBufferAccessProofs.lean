import BofStd.CircularBufferSpec
import BofStd.Proofs.CircularBufferRunProofs

/-!
# `PeekFromPop` and `IsEntryFree`

What the `i`-th of successive calls of `Pop` returns is the `i`-th element of the window of ready elements
(`Inv.nthPop_eq`). `PeekFromPop` compares the index with the push index although the window may be cut by the end of
the storage, and then sees its second part only; `IsEntryFree` tells the two cases apart and is exact in both lock
modes.
-/

namespace BofStd.CircularBuffer

open Memory Machine

variable {α : Type*} {s : CircularBuffer α}

/-! ## Successive calls of `Pop` -/

/-- A `Pop` that finds a ready element. -/
theorem Inv.pop_step (h : Inv s) (hr : s.nbReady ≠ 0) :
    Kept s s.pop.1 ∧ s.pop.1.mpData_T = s.mpData_T ∧
    s.pop.1.mPopIndex_U32 = (s.mPopIndex_U32 + 1) % s.capacity ∧ s.pop.1.nbReady + 1 = s.nbReady ∧
    s.pop.2 = { err := .noError, index := some s.mPopIndex_U32, data := some (s.mpData_T s.mPopIndex_U32) } := by
  obtain ⟨rd, wr, he⟩ := signalIfNoError_eq s.popLocked
  obtain ⟨hk, -, hdata, hcases⟩ := h.popLocked_cases
  have hpop : s.pop = _ := he
  have hl := h.pop_unlocked hr
  have hlen := h.length_ready
  have hindex : s.popLocked.1.mPopIndex_U32 = (s.mPopIndex_U32 + 1) % s.capacity := by
    rw [← h.nextIndex_eq h.pop_lt, popLocked, if_pos hr, if_pos hl]
    dsimp only
    split_ifs <;> rfl
  have hout : s.popLocked.2 =
      { err := .noError, index := some s.mPopIndex_U32, data := some (s.mpData_T s.mPopIndex_U32) } := by
    rw [popLocked, if_pos hr, if_pos hl]
  have hready : s.popLocked.1.nbReady + 1 = s.nbReady := by
    rcases hcases with ⟨herr, -⟩ | ⟨x, -, -, hcons⟩
    · rw [hout] at herr
      exact absurd herr BofErr.noConfusion
    · rw [hcons, List.length_cons, hk.inv.length_ready] at hlen
      exact hlen
  rw [hpop]
  exact ⟨hk.setEvents rd wr, hdata, hindex, hready, hout⟩

theorem nthPop_zero (s : CircularBuffer α) : s.nthPop 0 = s.pop.2 := rfl

theorem nthPop_succ (s : CircularBuffer α) (i : Nat) : s.nthPop (i + 1) = s.pop.1.nthPop i := rfl

/-- The `i`-th `Pop` hands out the `i`-th slot of the window of ready elements. -/
theorem Inv.nthPop_eq (h : Inv s) {i : Nat} (hi : i < s.nbReady) :
    s.nthPop i = { err := .noError, index := some ((s.mPopIndex_U32 + i) % s.capacity),
                   data := some (s.mpData_T ((s.mPopIndex_U32 + i) % s.capacity)) } := by
  induction i generalizing s with
  | zero =>
    obtain ⟨-, -, -, -, hout⟩ := h.pop_step (by omega)
    rw [nthPop_zero, hout, Nat.add_zero, Nat.mod_eq_of_lt h.pop_lt]
  | succ i ih =>
    obtain ⟨hk, hdata, hindex, hready, -⟩ := h.pop_step (by omega)
    rw [nthPop_succ, ih hk.inv (by omega), hdata, hindex, hk.capacity, Nat.mod_add_mod, Nat.add_assoc,
      Nat.add_comm 1 i]

theorem getElem?_circ {N : Nat} {mem : Nat → α} {i n k : Nat} (hk : k < n) :
    (circ N mem i n)[k]? = some (mem ((i + k) % N)) := by
  rw [circ, List.getElem?_map, List.getElem?_range hk, Option.map_some]

/-- The `i`-th `Pop` returns the `i`-th ready element. -/
theorem Inv.view_nthPop (h : Inv s) {i : Nat} (hi : i < s.nbReady) :
    view (s.nthPop i) = (.noError, (ready s)[i]?) := by
  rw [h.nthPop_eq hi, ready, getElem?_circ (by rw [← h.nbReady_eq]; exact hi)]
  rfl

/-! ## `PeekFromPop` -/

/-- A single wrap at `N` is enough for a sum of less than `2 * N`, unless the sum wraps as a `uint32_t`. -/
theorem wrapIndex_u32_eq_mod {N i : Nat} (hN : N < 4294967296) (hi : i < 2 * N) :
    wrapIndex N (u32 i) = i % N ↔ i < 4294967296 := by
  have hmod : i % N = if N ≤ i then i - N else i := by
    split_ifs with h
    · rw [Nat.mod_eq_sub_mod h, Nat.mod_eq_of_lt (by omega)]
    · exact Nat.mod_eq_of_lt (by omega)
  rw [hmod]
  constructor
  · intro heq
    by_contra hge
    rw [u32_eq_mod, Nat.mod_eq_sub_mod (by omega), Nat.mod_eq_of_lt (by omega), wrapIndex,
      if_neg (by omega), if_pos (by omega)] at heq
    omega
  · intro hlt
    rw [u32_of_lt hlt, wrapIndex]
    split_ifs with h
    · exact u32Sub_of_le h
    · rfl

/-- The slot of the `i`-th element is below the push index unless the stored run is cut by the end of the storage
behind it. -/
theorem Inv.mod_lt_push_iff (h : Inv s) (h0 : s.mNbElementLockedInBuffer_U32 = 0) {i : Nat}
    (hi : i < s.mNbElementInBuffer_U32) : (s.mPopIndex_U32 + i) % s.capacity < s.mPushIndex_U32 ↔
      s.mPopIndex_U32 + s.mNbElementInBuffer_U32 < s.capacity ∨ s.capacity ≤ s.mPopIndex_U32 + i := by
  have hlt := h.pop_lt
  have hcount := h.count_le
  rw [h.push_eq, h0, Nat.sub_zero]
  rcases Nat.lt_or_ge (s.mPopIndex_U32 + s.mNbElementInBuffer_U32) s.capacity with hend | hend
  · rw [Nat.mod_eq_of_lt hend, Nat.mod_eq_of_lt (by omega)]
    omega
  · rw [Nat.mod_eq_sub_mod hend, Nat.mod_eq_of_lt (a := s.mPopIndex_U32 + s.mNbElementInBuffer_U32 - _) (by omega)]
    rcases Nat.lt_or_ge (s.mPopIndex_U32 + i) s.capacity with hbefore | hbehind
    · rw [Nat.mod_eq_of_lt hbefore]
      omega
    · rw [Nat.mod_eq_sub_mod hbehind, Nat.mod_eq_of_lt (by omega)]
      omega

/-- Without locks, `PeekFromPop` finds the element that the `i`-th `Pop` returns exactly under the condition. -/
theorem Inv.peeksStored_iff (h : Inv s) (hm : s.mCircularBufferParam_X.PopLockMode_B = false) (i : Nat) :
    PeeksStored s i ↔ PeekIsRight s i := by
  have hlt := h.pop_lt
  have hcount := h.count_le
  have h0 := h.locked_eq_zero hm
  have hready := h.nbReady_eq
  rw [h0, Nat.sub_zero] at hready
  by_cases hi : i < s.mNbElementInBuffer_U32
  · have hpop := h.nthPop_eq (i := i) (by omega)
    have hview : view (s.nthPop i) = (.noError, (stored s)[i]?) := by
      rw [h.view_nthPop (by omega), stored, ready, h0, Nat.sub_zero]
    have hindex := wrapIndex_u32_eq_mod (i := s.mPopIndex_U32 + i) s.capacity_lt (by omega)
    rw [PeekIsRight, ← h.mod_lt_push_iff h0 hi, ← hindex]
    constructor
    · intro hpeek _
      have hfound := (hpeek.found hi).1
      rw [hpop, peekFromPop, if_pos hi] at hfound
      dsimp only at hfound
      split_ifs at hfound with hbelow
      · have hslot : wrapIndex s.capacity (u32 (s.mPopIndex_U32 + i)) = (s.mPopIndex_U32 + i) % s.capacity := by
          simpa using congrArg ElementOut.index hfound
        exact ⟨hslot ▸ hbelow, hslot⟩
      · exact absurd (congrArg ElementOut.err hfound) BofErr.noConfusion
    · intro hright
      obtain ⟨hbelow, hslot⟩ := hright hi
      have hpeek : s.peekFromPop i = (s, { s.nthPop i with locked := some false }) := by
        rw [hpop, peekFromPop, if_pos hi, hslot]
        dsimp only
        rw [if_pos hbelow, h.unlocked_of_mode hm]
      exact ⟨by rw [hpeek], fun _ => ⟨by rw [hpeek], hview⟩, fun hge => absurd hi (Nat.not_lt.mpr hge)⟩
  · have hpeek : s.peekFromPop i = (s, { err := .empty }) := by
      rw [peekFromPop, if_neg hi]
    refine iff_of_true ⟨by rw [hpeek], fun hlt => absurd hlt hi, ?_⟩ (fun hlt => absurd hlt hi)
    intro _
    rw [hpeek]
    exact BofErr.noConfusion

/-- On a run without a wrap of the element count, in every state and for every index. -/
theorem circularBuffer_peeksStored_iff (param : CircularBufferParam) (pData : Nat → α)
    (hN : 0 < param.NbMaxElement_U32) (hm : param.PopLockMode_B = false) (ops : List (Op α))
    (hc : Meets CircularBuffer.step NoCountWrap (create param pData) ops) (i : Nat) :
    PeeksStored (run CircularBuffer.step (create param pData) ops).1 i ↔
      PeekIsRight (run CircularBuffer.step (create param pData) ops).1 i := by
  have hrun : Inv (run CircularBuffer.step (create param pData) ops).1 ∧
      (run CircularBuffer.step (create param pData) ops).1.mCircularBufferParam_X.PopLockMode_B = false := by
    refine inv_run (P := fun s : CircularBuffer α => Inv s ∧ s.mCircularBufferParam_X.PopLockMode_B = false) ?_
      ⟨inv_create param pData hN, hm⟩ hc
    rintro s op ⟨hinv, hmode⟩ hop
    have hrel : DequeRel s ⟨s.capacity, s.mCircularBufferParam_X.Overwrite_B, ready s⟩ := ⟨hinv, hmode, rfl, rfl, rfl⟩
    exact ⟨(hrel.step op hop).1.inv, (hrel.step op hop).1.mode⟩
  exact hrun.1.peeksStored_iff hrun.2 i

/-- The second of two elements behind the end of the storage is found. -/
theorem peeksStored_wrapped :
    PeeksStored (run CircularBuffer.step (create ⟨2, by decide, false, false, false⟩ (fun _ => 0 : Nat → Nat))
      [.push (some 1), .push (some 2), .pop, .push (some 3)]).1 1 := by
  refine (circularBuffer_peeksStored_iff _ _ (by decide) rfl _ ?_ 1).mpr ?_
  · exact ⟨fun _ => by decide, fun _ => by decide, trivial, fun _ => by decide, trivial⟩
  · intro _
    decide

/-- In a full buffer whose run starts at slot 0, `PeekFromPop 0` does not find the oldest element. -/
theorem not_peeksStored_full :
    ¬ PeeksStored (run CircularBuffer.step (create ⟨2, by decide, false, false, false⟩ (fun _ => 0 : Nat → Nat))
      [.push (some 1), .push (some 2)]).1 0 := by
  intro h
  exact absurd (congrArg ElementOut.err (h.found (by decide)).1) (by decide)

/-! ## `IsEntryFree` -/

/-- The ready elements of a buffer that is not full, by the two ways in which the indices can lie. -/
theorem Inv.holdsReady_iff (h : Inv s) (hlt : s.mNbElementInBuffer_U32 < s.capacity) {i : Nat} (hi : i < s.capacity) :
    s.HoldsReady i ↔ if s.mPopIndex_U32 ≤ s.mPushIndex_U32 then s.mPopIndex_U32 ≤ i ∧ i < s.mPushIndex_U32
      else i < s.mPushIndex_U32 ∨ s.mPopIndex_U32 ≤ i := by
  have hpop := h.pop_lt
  have hready := h.nbReady_eq
  have hpush := h.push_eq
  rw [← hready] at hpush
  rcases Nat.lt_or_ge (s.mPopIndex_U32 + s.nbReady) s.capacity with hend | hend
  · -- the run is straight
    rw [Nat.mod_eq_of_lt hend] at hpush
    rw [if_pos (by omega), hpush]
    constructor
    · rintro ⟨k, hk, rfl⟩
      rw [Nat.mod_eq_of_lt (by omega)]
      omega
    · rintro ⟨h1, h2⟩
      refine ⟨i - s.mPopIndex_U32, by omega, ?_⟩
      rw [Nat.add_sub_cancel' h1, Nat.mod_eq_of_lt hi]
  · -- the run is cut by the end of the storage
    rw [Nat.mod_eq_sub_mod hend, Nat.mod_eq_of_lt (by omega)] at hpush
    rw [if_neg (by omega), hpush]
    constructor
    · rintro ⟨k, hk, rfl⟩
      rcases Nat.lt_or_ge (s.mPopIndex_U32 + k) s.capacity with hbefore | hbehind
      · rw [Nat.mod_eq_of_lt hbefore]
        omega
      · rw [Nat.mod_eq_sub_mod hbehind, Nat.mod_eq_of_lt (by omega)]
        omega
    · rintro (h1 | h1)
      · refine ⟨i + s.capacity - s.mPopIndex_U32, by omega, ?_⟩
        rw [Nat.add_sub_cancel' (by omega), Nat.add_mod_right, Nat.mod_eq_of_lt hi]
      · refine ⟨i - s.mPopIndex_U32, by omega, ?_⟩
        rw [Nat.add_sub_cancel' h1, Nat.mod_eq_of_lt hi]

/-- In a full buffer every slot holds a ready element or a locked one. -/
theorem Inv.holdsReady_or_locked (h : Inv s) (hfull : s.mNbElementInBuffer_U32 = s.capacity) {i : Nat}
    (hi : i < s.capacity) : s.HoldsReady i ∨ s.mpLock_U8 i = true := by
  by_contra hfree
  rw [not_or, Bool.not_eq_true] at hfree
  have hlt := h.locked_add_ready_lt_of_free hi hfree.2 fun k hk heq => hfree.1 ⟨k, hk, heq⟩
  have hready := h.nbReady_eq
  have hle := h.locked_le
  omega

/-- `IsEntryFree` is exact. -/
theorem Inv.entryFreeIsExact (h : Inv s) : EntryFreeIsExact s := by
  intro i hi
  have hcount := h.count_le
  rw [isEntryFree]
  dsimp only
  rw [if_pos hi]
  rcases Nat.eq_zero_or_pos s.mNbElementInBuffer_U32 with hzero | hpos
  · have hle := h.locked_le
    have hready := h.nbReady_eq
    rw [if_neg (by omega)]
    refine iff_of_true rfl ⟨?_, h.unlocked_of_locked_eq_zero (by omega) hi⟩
    rintro ⟨k, hk, -⟩
    omega
  · rw [if_pos (by omega)]
    rcases Nat.lt_or_ge s.mNbElementInBuffer_U32 s.capacity with hlt | hfull
    · rw [if_pos hlt, h.holdsReady_iff hlt hi]
      split_ifs with hle hout hout
      · simp only [Bool.not_eq_true']
        refine ⟨fun hl => ⟨by omega, hl⟩, fun hl => hl.2⟩
      · simp only [false_iff]
        omega
      · simp only [Bool.not_eq_true']
        refine ⟨fun hl => ⟨by omega, hl⟩, fun hl => hl.2⟩
      · simp only [false_iff]
        omega
    · rw [if_neg (by omega)]
      refine iff_of_false Bool.false_ne_true ?_
      rintro ⟨hnot, hl⟩
      rcases h.holdsReady_or_locked (by omega) hi with hready | hlocked
      · exact hnot hready
      · rw [hl] at hlocked
        exact Bool.false_ne_true hlocked

/-- On a run without a wrap of the element count, in every mode. -/
theorem circularBuffer_entryFreeIsExact (param : CircularBufferParam) (pData : Nat → α)
    (hN : 0 < param.NbMaxElement_U32) (ops : List (Op α))
    (hc : Meets CircularBuffer.step NoCountWrap (create param pData) ops) :
    EntryFreeIsExact (run CircularBuffer.step (create param pData) ops).1 :=
  (inv_run (fun _ op hs hop => (hs.step_ready op hop).1.1) (inv_create param pData hN) hc).entryFreeIsExact

/-- Two slots in lock mode, one of them locked. -/
theorem entryFreeIsExact_two_slots :
    EntryFreeIsExact (run CircularBuffer.step (create ⟨2, by decide, false, false, true⟩ (fun _ => 0 : Nat → Nat))
      [.push (some 1), .pop, .push (some 2)]).1 :=
  circularBuffer_entryFreeIsExact _ _ (by decide) _ ⟨fun _ _ => by decide, trivial, fun _ _ => by decide, trivial⟩

/-- One element is counted, and the push index is two slots further than the pop index: the second slot is taken for
used although it holds nothing. -/
theorem not_entryFreeIsExact_of_count (hcap : 3 ≤ s.capacity) (hpop : s.mPopIndex_U32 < s.capacity)
    (hpush : s.mPushIndex_U32 = (s.mPopIndex_U32 + 2) % s.capacity) (hcount : s.mNbElementInBuffer_U32 = 1)
    (hlocked : s.mNbElementLockedInBuffer_U32 = 0) (hl : ∀ i, s.mpLock_U8 i = false) : ¬ EntryFreeIsExact s := by
  intro h
  have hready : s.nbReady = 1 := by
    rw [nbReady, hcount, hlocked]
    rfl
  have hfree := (h ((s.mPopIndex_U32 + 1) % s.capacity) (Nat.mod_lt _ (by omega))).mpr ⟨?_, hl _⟩
  · rw [isEntryFree, hcount, hpush] at hfree
    dsimp only at hfree
    rw [if_pos (Nat.mod_lt _ (by omega)), if_pos Nat.one_ne_zero, if_pos (by omega)] at hfree
    rcases Nat.lt_or_ge (s.mPopIndex_U32 + 2) s.capacity with hlt | hge
    · rw [Nat.mod_eq_of_lt hlt, Nat.mod_eq_of_lt (by omega), if_pos (by omega), if_neg (by omega)] at hfree
      exact Bool.false_ne_true hfree
    · rw [Nat.mod_eq_sub_mod hge, Nat.mod_eq_of_lt (a := s.mPopIndex_U32 + 2 - _) (by omega), if_neg (by omega),
        if_neg] at hfree
      · exact Bool.false_ne_true hfree
      · rcases Nat.lt_or_ge (s.mPopIndex_U32 + 1) s.capacity with hlt | hge'
        · rw [Nat.mod_eq_of_lt hlt]
          omega
        · rw [Nat.mod_eq_sub_mod hge', Nat.mod_eq_of_lt (by omega)]
          omega
  · rintro ⟨k, hk, heq⟩
    exact mod_ne_mod (l := 1) (by omega) (by omega) heq

/-- Two pushes in overwrite mode onto `0xFFFFFFFF` elements, none of them locked. -/
theorem Filled.not_entryFreeIsExact {N : Nat} (h : Filled s N N) (hN : N = 4294967295) (x : α) :
    ¬ EntryFreeIsExact (run CircularBuffer.step s [.setOverWriteMode true, .push (some x), .push (some x)]).1 := by
  have hcap := h.capacity
  have hcount := h.count
  have hlt := s.capacity_lt
  have hpop := h.inv.pop_lt
  have hpush : s.mPushIndex_U32 = s.mPopIndex_U32 := by
    rw [h.inv.push_eq, h.inv.locked_eq_zero_of_unlocked h.unlocked, hcount, ← hcap, Nat.sub_zero,
      Nat.add_mod_right, Nat.mod_eq_of_lt hpop]
  have hzero : u32 (s.mNbElementInBuffer_U32 + 1) = 0 := by
    rw [hcount, hN, u32_eq_mod]
  -- the push that wraps the count
  obtain ⟨level, rd, wr, h1⟩ := push_unclipped (s := s.setOverWriteMode true) x rfl (h.unlocked _)
    (show u32 (s.mNbElementInBuffer_U32 + 1) ≤ s.capacity by omega)
  set s₁ := ((s.setOverWriteMode true).push (some x)).1 with hs₁
  have hcount₁ : s₁.mNbElementInBuffer_U32 = 0 := by
    rw [h1]
    exact hzero
  have hpush₁ : s₁.mPushIndex_U32 = (s.mPopIndex_U32 + 1) % s.capacity := by
    rw [← h.inv.nextIndex_eq hpop, ← hpush, h1]
    rfl
  have hcap₁ : s₁.capacity = s.capacity := by
    rw [h1]
    rfl
  -- the next one
  have hone : u32 (s₁.mNbElementInBuffer_U32 + 1) = 1 := by
    rw [hcount₁]
    rfl
  obtain ⟨level', rd', wr', h2⟩ := push_unclipped (s := s₁) x (by rw [h1]; rfl) (by rw [h1]; exact h.unlocked _)
    (by omega)
  show ¬ EntryFreeIsExact (s₁.push (some x)).1
  rw [h2]
  refine not_entryFreeIsExact_of_count ?_ ?_ ?_ hone ?_ ?_
  · show 3 ≤ s₁.capacity
    omega
  · show s₁.mPopIndex_U32 < s₁.capacity
    rw [hcap₁, h1]
    exact hpop
  · show nextIndex s₁.capacity s₁.mPushIndex_U32 = (s₁.mPopIndex_U32 + 2) % s₁.capacity
    rw [hcap₁, hpush₁, nextIndex_eq_mod hlt (Nat.mod_lt _ h.inv.pos), Nat.mod_add_mod, h1]
    rfl
  · show s₁.mNbElementLockedInBuffer_U32 = 0
    rw [h1]
    exact h.inv.locked_eq_zero_of_unlocked h.unlocked
  · intro i
    show s₁.mpLock_U8 i = false
    rw [h1]
    exact h.unlocked i

theorem wrapRun_not_entryFreeIsExact (param : CircularBufferParam) (pData : Nat → α) (x : α)
    (hN : param.NbMaxElement_U32 = 4294967295) (ho : param.Overwrite_B = false) :
    ¬ EntryFreeIsExact (run CircularBuffer.step (create param pData) (wrapRun param x ++ [.push (some x)])).1 := by
  rw [wrapRun, List.append_assoc, run_append]
  exact (filled_run param pData x (by omega) ho _ le_rfl).not_entryFreeIsExact hN x

/-- A buffer of `0xFFFFFFFF` slots that is filled and then pushed to twice in overwrite mode. -/
theorem not_entryFreeIsExact_of_wrap :
    ¬ EntryFreeIsExact (run CircularBuffer.step
      (create ⟨4294967295, by decide, false, false, false⟩ (fun _ => 0 : Nat → Nat))
      (wrapRun ⟨4294967295, by decide, false, false, false⟩ 0 ++ [.push (some 0)])).1 :=
  wrapRun_not_entryFreeIsExact _ _ _ rfl rfl

end BofStd.CircularBuffer
