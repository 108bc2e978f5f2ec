import BofStd.PotSpec

/-!
# Each slot is handed out at most once

The two layouts of the marks are dealt with once, in `inUse_mark`, `inUse_free` and `inUse_clear`: what
marking and freeing a slot does to all the marks. A slot is freed by a zero word, which is a mark when the
complement of the magic number is zero; everything else holds for every magic number.
-/

namespace BofStd.Pot

variable {s : Pot} {i j : Nat}

/-! ## Marks -/

@[simp] theorem param_mark (lock : Bool) (pData pLocked : Nat) :
    (s.mark lock pData pLocked).param = s.param := by
  unfold mark
  split <;> rfl

@[simp] theorem param_clear : (s.clear i).param = s.param := by
  unfold clear
  split <;> rfl

@[simp] theorem param_free : (s.free i).param = s.param := by
  unfold free
  split <;> rfl

@[simp] theorem nbOut_mark (lock : Bool) (pData pLocked : Nat) :
    (s.mark lock pData pLocked).nbOut = s.nbOut := by
  unfold mark
  split <;> rfl

@[simp] theorem nbOut_clear : (s.clear i).nbOut = s.nbOut := by
  unfold clear
  split <;> rfl

@[simp] theorem nbOut_free : (s.free i).nbOut = s.nbOut := by
  unfold free
  split <;> rfl

@[simp] theorem first_free : (s.free i).first = s.first := by
  unfold free
  split <;> rfl

/-- The marks of a pot with a magic number. -/
theorem inUse_of_magic (hm : s.param.magicNumber ≠ 0) :
    s.inUse i = true ↔ (s.storage i).word = s.param.magicNumber ∨ (s.storage i).word = s.notMagic := by
  rw [inUse, if_pos hm, Bool.or_eq_true, decide_eq_true_iff, decide_eq_true_iff]

/-- Marking a slot marks this slot. -/
theorem inUse_mark (lock : Bool) : (s.mark lock i i).inUse j = if j = i then true else s.inUse j := by
  by_cases hm : s.param.magicNumber ≠ 0
  · simp only [mark, if_pos hm, setWord, inUse]
    by_cases hj : j = i
    · subst hj
      cases lock
      · simp [notMagic]
      · simp [notMagic]
    · simp only [Function.update_of_ne hj, if_neg hj]
      rfl
  · simp only [mark, if_neg hm, setFlag, inUse]
    by_cases hj : j = i
    · subst hj
      cases lock
      · simp
      · simp
    · simp only [Function.update_of_ne hj, if_neg hj]

/-- Freeing a slot frees this slot, unless zero is the mark of a locked one. -/
theorem inUse_free (hm : s.param.magicNumber ≠ 4294967295) :
    (s.free i).inUse j = if j = i then false else s.inUse j := by
  have hlt := s.param.magicNumber_lt
  by_cases h0 : s.param.magicNumber ≠ 0
  · simp only [free, if_pos h0, setWord, inUse]
    by_cases hj : j = i
    · subst hj
      simp only [Function.update_self, if_true, notMagic]
      rw [decide_eq_false (by omega), decide_eq_false (by omega)]
      rfl
    · simp only [Function.update_of_ne hj, if_neg hj]
      rfl
  · simp only [free, if_neg h0, setFlag, inUse]
    by_cases hj : j = i
    · subst hj
      simp
    · simp only [Function.update_of_ne hj, if_neg hj]

/-- Erasing the content of a slot leaves the marks of the others. -/
theorem inUse_clear (hj : j ≠ i) : (s.clear i).inUse j = s.inUse j := by
  unfold clear
  split
  · rfl
  · simp only [inUse, Function.update_of_ne hj]
    rfl

/-- The marked slots after one slot was marked. -/
theorem out_of_mark {s' : Pot} (hc : s'.capacity = s.capacity) (hi : i < s.capacity)
    (h : ∀ j, s'.inUse j = if j = i then true else s.inUse j) : s'.out = insert i s.out := by
  ext j
  simp only [out, Finset.mem_filter, Finset.mem_insert, Finset.mem_range, hc, h]
  by_cases hj : j = i
  · subst hj
    simp [hi]
  · simp [hj]

/-- The marked slots after one slot was freed. -/
theorem out_of_free {s' : Pot} (hc : s'.capacity = s.capacity)
    (h : ∀ j, s'.inUse j = if j = i then false else s.inUse j) : s'.out = s.out.erase i := by
  ext j
  simp only [out, Finset.mem_filter, Finset.mem_erase, Finset.mem_range, hc, h]
  by_cases hj : j = i
  · simp [hj]
  · simp [hj]

theorem out_of_eq {s' : Pot} (hc : s'.capacity = s.capacity) (h : ∀ j, s'.inUse j = s.inUse j) :
    s'.out = s.out := by
  ext j
  simp only [out, Finset.mem_filter, Finset.mem_range, hc, h]

theorem mem_out : i ∈ s.out ↔ i < s.capacity ∧ s.inUse i = true := by
  rw [out, Finset.mem_filter, Finset.mem_range]

theorem mem_freeSlots : i ∈ s.freeSlots ↔ i < s.capacity ∧ s.inUse i = false := by
  rw [freeSlots, Finset.mem_filter, Finset.mem_range, Bool.not_eq_true]

/-- The marked and the free slots together are the slots. -/
theorem card_out_add_card_freeSlots : s.out.card + s.freeSlots.card = s.capacity := by
  rw [out, freeSlots, Finset.card_filter_add_card_filter_not, Finset.card_range]

/-! ## The search -/

/-- The invariant: the count is exact and the search starts inside the pot. -/
structure Inv (s : Pot) : Prop where
  exact : s.Exact
  first_lt : s.capacity = 0 ∨ s.first < s.capacity

/-- The test of the loop is the mark of the slot. -/
theorem free_test (d : Nat) :
    (if s.param.magicNumber ≠ 0 then
      decide ((s.storage d).word ≠ s.param.magicNumber) && decide ((s.storage d).word ≠ s.notMagic)
    else s.inUseList d == 0) = !s.inUse d := by
  unfold inUse
  by_cases hm : s.param.magicNumber ≠ 0
  · rw [if_pos hm, if_pos hm, Bool.not_or, decide_not, decide_not]
  · rw [if_neg hm, if_neg hm, bne, Bool.not_not]

/-- One place is tried. -/
theorem searchFree_succ {n pData : Nat} (hc : 0 < s.capacity) (hp : pData ≤ s.capacity) :
    s.searchFree (n + 1) pData pData =
      if s.inUse (pData % s.capacity) then
        s.searchFree n (pData % s.capacity + 1) (pData % s.capacity + 1)
      else some (pData % s.capacity, pData % s.capacity) := by
  have hwrap : (if pData > s.capacity - 1 then (0, 0) else (pData, pData)) =
      (pData % s.capacity, pData % s.capacity) := by
    split
    · have hend : pData = s.capacity := by omega
      rw [hend, Nat.mod_self]
    · rw [Nat.mod_eq_of_lt (by omega)]
  simp only [searchFree, hwrap, free_test]
  cases s.inUse (pData % s.capacity) with
  | true => rfl
  | false => rfl

/-- The search ends at a free slot, or all the slots it has tried are marked. -/
theorem searchFree_spec (hc : 0 < s.capacity) (n : Nat) {pData : Nat} (hp : pData ≤ s.capacity) :
    (∃ d ∈ s.freeSlots, s.searchFree n pData pData = some (d, d)) ∨
      (s.searchFree n pData pData = none ∧ ∀ k < n, s.inUse ((pData + k) % s.capacity) = true) := by
  induction n generalizing pData with
  | zero =>
    right
    constructor
    · rfl
    · intro k hk
      omega
  | succ n ih =>
    have hlt : pData % s.capacity < s.capacity := Nat.mod_lt _ hc
    rw [searchFree_succ hc hp]
    by_cases huse : s.inUse (pData % s.capacity) = true
    · rw [if_pos huse]
      rcases @ih (pData % s.capacity + 1) (by omega) with hfound | ⟨hnone, hall⟩
      · left
        exact hfound
      · right
        refine ⟨hnone, ?_⟩
        intro k hk
        cases k with
        | zero => exact huse
        | succ k =>
          have hk' := hall k (by omega)
          rwa [Nat.add_assoc, Nat.mod_add_mod, Nat.add_comm 1 k] at hk'
    · rw [if_neg huse]
      left
      refine ⟨pData % s.capacity, mem_freeSlots.mpr ⟨hlt, ?_⟩, rfl⟩
      exact Bool.eq_false_iff.mpr huse

/-- A search over all the places finds a free slot if there is one. -/
theorem searchFree_of_nonempty (h : s.freeSlots.Nonempty) (hfirst : s.first < s.capacity) :
    ∃ d ∈ s.freeSlots, s.searchFree s.capacity s.first s.first = some (d, d) := by
  rcases searchFree_spec (by omega) s.capacity (Nat.le_of_lt hfirst) with hfound | ⟨-, hall⟩
  · exact hfound
  · -- every slot is tried
    obtain ⟨j, hj⟩ := h
    obtain ⟨hlt, hfree⟩ := mem_freeSlots.mp hj
    have hj' : (s.first + (j + s.capacity - s.first) % s.capacity) % s.capacity = j := by
      rw [Nat.add_mod_mod, Nat.add_sub_cancel' (by omega), Nat.add_mod_right, Nat.mod_eq_of_lt hlt]
    have huse := hall ((j + s.capacity - s.first) % s.capacity) (Nat.mod_lt _ (by omega))
    rw [hj', hfree] at huse
    exact absurd huse Bool.false_ne_true

/-! ## The calls -/

theorem Inv.freeSlots_nonempty (h : s.Inv) : s.freeSlots.Nonempty ↔ s.nbOut < s.capacity := by
  have hcard := card_out_add_card_freeSlots (s := s)
  have hexact := h.exact.1
  rw [← Finset.card_pos]
  omega

/-- A slot is handed out. -/
theorem getElement_spec (h : s.Inv) (lock : Bool) :
    (s.getElement lock).1.Inv ∧ Allocates s (s.getElement lock).1 (s.getElement lock).2 := by
  by_cases hlt : s.nbOut < s.capacity
  · have hfirst : s.first < s.capacity := by
      rcases h.first_lt with hzero | hfirst
      · omega
      · exact hfirst
    obtain ⟨d, hd, hsearch⟩ := searchFree_of_nonempty (h.freeSlots_nonempty.mpr hlt) hfirst
    obtain ⟨hdlt, hfree⟩ := mem_freeSlots.mp hd
    have hget : s.getElement lock =
        ({ (s.clear d).mark lock d d with
            nbOut := s.nbOut + 1
            levelMax := if s.nbOut + 1 > ((s.clear d).mark lock d d).levelMax then s.nbOut + 1
              else ((s.clear d).mark lock d d).levelMax
            first := if d + 1 > s.capacity - 1 then 0 else d + 1 }, some d) := by
      rw [getElement, if_pos hlt, hsearch]
      simp only [nbOut_mark, nbOut_clear, capacity, param_mark, param_clear]
      rfl
    have hout : (s.getElement lock).1.out = insert d s.out := by
      rw [hget]
      refine out_of_mark (by simp [capacity]) hdlt fun j => ?_
      show ((s.clear d).mark lock d d).inUse j = _
      rw [inUse_mark]
      by_cases hj : j = d
      · rw [if_pos hj, if_pos hj]
      · rw [if_neg hj, if_neg hj, inUse_clear hj]
    have hnot : d ∉ s.out := by
      intro hmem
      rw [mem_out, hfree] at hmem
      exact absurd hmem.2 Bool.false_ne_true
    have hcard : (s.getElement lock).1.out.card = s.out.card + 1 := by
      rw [hout, Finset.card_insert_of_notMem hnot]
    have hcap : (s.getElement lock).1.capacity = s.capacity := by
      rw [hget]
      simp [capacity]
    have hexact := h.exact.1
    constructor
    · refine ⟨⟨?_, ?_⟩, ?_⟩
      · rw [hcard, hget, ← hexact]
      · rw [hcap, hget]
        exact hlt
      · right
        rw [hcap, hget]
        show (if d + 1 > s.capacity - 1 then 0 else d + 1) < s.capacity
        split <;> omega
    · refine ⟨?_, ?_, ?_⟩
      · rw [hget, h.freeSlots_nonempty]
        simp [hlt]
      · intro i hi
        rw [hget] at hi
        cases hi
        exact ⟨hd, hout⟩
      · intro hnone
        rw [hget] at hnone
        cases hnone
  · rw [getElement, if_neg hlt]
    refine ⟨h, ?_, ?_, ?_⟩
    · rw [h.freeSlots_nonempty]
      simp [hlt]
    · intro i hi
      cases hi
    · intro _
      rfl

/-- The index of a pointer to a slot. -/
theorem index_eq_some {p : Option Int} : s.index p = some i ↔ i < s.capacity ∧ p = some (i : Int) := by
  cases p with
  | none => simp [index]
  | some p =>
    simp only [index, Option.some.injEq]
    constructor
    · intro h
      by_cases hp : 0 ≤ p ∧ p < s.capacity
      · rw [if_pos hp] at h
        cases h
        exact ⟨by omega, (Int.toNat_of_nonneg hp.1).symm⟩
      · rw [if_neg hp] at h
        cases h
    · rintro ⟨hi, rfl⟩
      rw [if_pos (by omega), Int.toNat_natCast]

/-- A pointer to a slot that is in use, and any other pointer. -/
theorem isPotElementInUse_eq_noError {p : Option Int} :
    s.isPotElementInUse p = .noError ↔ ∃ i ∈ s.out, p = some (i : Int) := by
  unfold isPotElementInUse
  constructor
  · intro h
    split at h
    · cases h
    · rename_i i hi
      obtain ⟨hlt, hp⟩ := index_eq_some.mp hi
      split at h
      · rename_i huse
        exact ⟨i, mem_out.mpr ⟨hlt, huse⟩, hp⟩
      · cases h
  · rintro ⟨i, hmem, hp⟩
    obtain ⟨hlt, huse⟩ := mem_out.mp hmem
    rw [index_eq_some.mpr ⟨hlt, hp⟩]
    simp only [huse, if_true]

theorem Inv.of_out (h : s.Inv) {s' : Pot} (hc : s'.capacity = s.capacity) (hout : s'.out = s.out)
    (hnb : s'.nbOut = s.nbOut) (hfirst : s'.first = s.first) : s'.Inv := by
  refine ⟨⟨?_, ?_⟩, ?_⟩
  · rw [hout, hnb]
    exact h.exact.1
  · rw [hc, hnb]
    exact h.exact.2
  · rw [hc, hfirst]
    exact h.first_lt

theorem release_spec (h : s.Inv) (hm : s.param.magicNumber ≠ 4294967295) (p : Option Int) :
    (s.release p).1.Inv ∧ Releases s (s.release p).1 p (s.release p).2 := by
  by_cases hp : ∃ i ∈ s.out, p = some (i : Int)
  · have huse := isPotElementInUse_eq_noError.mpr hp
    obtain ⟨i, hi, hpi⟩ := hp
    have hcard : 0 < s.out.card := Finset.card_pos.mpr ⟨i, hi⟩
    have hexact := h.exact.1
    have hle := h.exact.2
    have hrel : s.release p = ({ s with nbOut := s.nbOut - 1 }.free i, .noError) := by
      rw [release, huse, index_eq_some.mpr ⟨(mem_out.mp hi).1, hpi⟩]
      simp only
      rw [if_pos (by omega)]
    have hout : (s.release p).1.out = s.out.erase i := by
      rw [hrel]
      exact out_of_free (by simp [capacity]) fun j => inUse_free hm
    constructor
    · refine ⟨⟨?_, ?_⟩, ?_⟩
      · rw [hout, Finset.card_erase_of_mem hi, ← hexact, hrel, nbOut_free]
      · rw [hrel, nbOut_free, capacity, param_free]
        show s.nbOut - 1 ≤ s.capacity
        omega
      · rw [hrel, first_free, capacity, param_free]
        exact h.first_lt
    · constructor
      · intro j hj hpj
        rw [hpi] at hpj
        have hij : i = j := by
          cases hpj
          rfl
        rw [← hij]
        exact ⟨by rw [hrel], hout⟩
      · intro hnone
        exact absurd hpi (hnone i hi)
  · have huse : s.isPotElementInUse p ≠ .noError := fun he => hp (isPotElementInUse_eq_noError.mp he)
    have hrel : s.release p = (s, .notAvailable) := by
      unfold release
      split
      · rename_i he _
        exact absurd he huse
      · rfl
    rw [hrel]
    refine ⟨h, ?_, ?_⟩
    · intro i hi hpi
      exact absurd ⟨i, hi, hpi⟩ hp
    · intro _
      refine ⟨?_, rfl⟩
      intro he
      cases he

/-- A locked slot is marked, and unlocking it leaves it marked. -/
theorem unlock_spec (h : s.Inv) (p : Option Int) :
    (s.unlock p).1.Inv ∧ (s.unlock p).1.out = s.out := by
  cases hp : s.index p with
  | none =>
    have hun : s.unlock p = (s, .einval) := by simp only [unlock, isPotElementLocked, hp]
    rw [hun]
    exact ⟨h, rfl⟩
  | some i =>
    by_cases hlocked : s.locked i = true
    · have huse : s.inUse i = true := by
        unfold locked at hlocked
        unfold inUse
        split
        · rename_i hm
          rw [if_pos hm] at hlocked
          rw [hlocked, Bool.or_true]
        · rename_i hm
          rw [if_neg hm, beq_iff_eq] at hlocked
          rw [hlocked]
          rfl
      have hun : s.unlock p = (s.mark false i i, .noError) := by
        simp only [unlock, isPotElementLocked, hp, hlocked, if_true, mark, Bool.false_eq_true, if_false]
      have hout : (s.mark false i i).out = s.out := by
        refine out_of_eq (by simp [capacity]) fun j => ?_
        rw [inUse_mark]
        by_cases hj : j = i
        · rw [if_pos hj, hj, huse]
        · rw [if_neg hj]
      rw [hun]
      refine ⟨h.of_out (by simp [capacity]) hout (nbOut_mark ..) ?_, hout⟩
      unfold mark
      split <;> rfl
    · have hun : s.unlock p = (s, .unlock) := by
        simp only [unlock, isPotElementLocked, hp, hlocked, if_false, Bool.false_eq_true]
      rw [hun]
      exact ⟨h, rfl⟩

/-- Freeing a list of slots, one after the other. -/
theorem foldl_free_spec (hm : s.param.magicNumber ≠ 4294967295) (l : List Nat) :
    (l.foldl free s).param = s.param ∧ ∀ j, (l.foldl free s).inUse j = (s.inUse j && !decide (j ∈ l)) := by
  induction l generalizing s with
  | nil =>
    refine ⟨rfl, ?_⟩
    intro j
    simp
  | cons i l ih =>
    obtain ⟨hparam, huse⟩ := ih (s := s.free i) (by rwa [param_free])
    refine ⟨?_, ?_⟩
    · rw [List.foldl_cons, hparam, param_free]
    · intro j
      rw [List.foldl_cons, huse, inUse_free hm]
      by_cases hj : j = i
      · simp [hj]
      · simp [hj]

/-- The marks that are left when the slots from `n` on are freed. -/
theorem freeLoop_spec (hm : s.param.magicNumber ≠ 4294967295) (n : Nat) :
    (s.freeLoop n s.capacity).param = s.param ∧
      (s.freeLoop n s.capacity).out = s.out.filter fun i => i < n := by
  obtain ⟨hparam, huse⟩ := foldl_free_spec hm (List.range' n (s.capacity - n))
  refine ⟨hparam, ?_⟩
  ext j
  have hmem := huse j
  rw [Finset.mem_filter, mem_out, mem_out, capacity, freeLoop, hparam, hmem]
  simp only [List.mem_range'_1, Bool.and_eq_true, Bool.not_eq_true', decide_eq_false_iff_not]
  constructor
  · rintro ⟨hlt, hs, hnot⟩
    have hcap : s.param.potCapacity = s.capacity := rfl
    refine ⟨⟨hlt, hs⟩, ?_⟩
    omega
  · rintro ⟨⟨hlt, hs⟩, hn⟩
    refine ⟨hlt, hs, ?_⟩
    omega

theorem clearPot_spec (h : s.Inv) (hm : s.param.magicNumber ≠ 4294967295) (n : Nat) :
    (s.clearPot n).1.Inv ∧ Clears s (s.clearPot n).1 n := by
  by_cases hn : n < s.capacity
  · obtain ⟨hparam, hfree⟩ := freeLoop_spec hm n
    have hclear : s.clearPot n = ({ s.freeLoop n s.capacity with
        nbOut := (List.range n).countP fun i : Nat => s.isPotElementInUse (some (i : Int)) = .noError
        first := n }, .noError) := by
      rw [clearPot, if_pos hn]
    have hout : (s.clearPot n).1.out = s.out.filter fun i => i < n := by
      rw [hclear]
      exact hfree
    have hcount : ((List.range n).countP fun i : Nat => s.isPotElementInUse (some (i : Int)) = .noError) =
        (s.out.filter fun i => i < n).card := by
      have hkept : (s.out.filter fun i => i < n) = (Finset.range n).filter fun i => s.inUse i := by
        ext i
        simp only [Finset.mem_filter, mem_out, Finset.mem_range]
        constructor
        · rintro ⟨⟨-, huse⟩, hi⟩
          exact ⟨hi, huse⟩
        · rintro ⟨hi, huse⟩
          exact ⟨⟨by omega, huse⟩, hi⟩
      rw [hkept, List.countP_eq_length_filter]
      rw [Finset.card_def, Finset.filter_val, Finset.range_val, Multiset.range, Multiset.filter_coe,
        Multiset.coe_card]
      congr 1
      refine List.filter_congr fun i hi => ?_
      rw [List.mem_range] at hi
      rw [decide_eq_decide, isPotElementInUse_eq_noError]
      constructor
      · rintro ⟨k, hk, hik⟩
        have hki : k = i := by
          cases hik
          rfl
        rw [← hki]
        exact (mem_out.mp hk).2
      · intro huse
        exact ⟨i, mem_out.mpr ⟨by omega, huse⟩, rfl⟩
    have hle : (s.out.filter fun i => i < n).card ≤ s.capacity := by
      have hsub := Finset.card_filter_le s.out fun i => i < n
      have hall := card_out_add_card_freeSlots (s := s)
      omega
    refine ⟨⟨⟨?_, ?_⟩, ?_⟩, hout⟩
    · rw [hout, hclear]
      exact hcount
    · rw [hclear]
      show _ ≤ (s.freeLoop n s.capacity).param.potCapacity
      rw [hparam, hcount]
      exact hle
    · right
      rw [hclear]
      show n < (s.freeLoop n s.capacity).param.potCapacity
      rw [hparam]
      exact hn
  · have hclear : s.clearPot n = (s, .einval) := by rw [clearPot, if_neg hn]
    rw [hclear]
    refine ⟨h, ?_⟩
    -- there are no slots from `n` on
    rw [Clears, Finset.filter_true_of_mem]
    intro i hi
    have hlt := (mem_out.mp hi).1
    omega

theorem nbOut_foldl_free (l : List Nat) : (l.foldl free s).nbOut = s.nbOut := by
  induction l generalizing s with
  | nil => rfl
  | cons i l ih => rw [List.foldl_cons, ih, nbOut_free]

theorem first_foldl_free (l : List Nat) : (l.foldl free s).first = s.first := by
  induction l generalizing s with
  | nil => rfl
  | cons i l ih => rw [List.foldl_cons, ih, first_free]

theorem reset_spec (hm : s.param.magicNumber ≠ 4294967295) : s.reset.Inv ∧ s.reset.out = ∅ := by
  obtain ⟨hparam, hfree⟩ := freeLoop_spec (s := { s with levelMax := 0, first := 0, nbOut := 0 }) hm 0
  have hout : s.reset.out = ∅ := by
    refine hfree.trans ?_
    simp only [Nat.not_lt_zero, Finset.filter_false]
  have hnb : s.reset.nbOut = 0 := nbOut_foldl_free _
  have hfirst : s.reset.first = 0 := first_foldl_free _
  refine ⟨⟨⟨?_, ?_⟩, ?_⟩, hout⟩
  · rw [hnb, hout, Finset.card_empty]
  · rw [hnb]
    exact Nat.zero_le _
  · rw [hfirst]
    omega

/-- The writes of the callers leave the marks. -/
theorem store_spec (h : s.Inv) (i : Nat) (e : PotElement) :
    (s.store i e).Inv ∧ (s.store i e).out = s.out := by
  have hout : (s.store i e).out = s.out := by
    refine out_of_eq rfl fun j => ?_
    by_cases hm : s.param.magicNumber ≠ 0
    · simp only [inUse, store, if_pos hm, notMagic]
      by_cases hj : j = i
      · rw [hj, Function.update_self]
        rfl
      · rw [Function.update_of_ne hj]
        rfl
    · simp only [inUse, store, if_neg hm]
  exact ⟨h.of_out rfl hout rfl rfl, hout⟩

/-! ## Runs -/

/-- One call. -/
theorem step_spec (h : s.Inv) (hm : s.param.magicNumber ≠ 4294967295) (op : Op) :
    (step s op).1.Inv ∧ Conforms s (step s op).1 op (step s op).2 := by
  cases op with
  | get => exact getElement_spec h false
  | lock =>
    simp only [step, lockElement, Conforms]
    by_cases h0 : s.param.magicNumber = 0
    · rw [if_neg (not_not.mpr h0), if_pos h0]
      exact getElement_spec h true
    · rw [if_pos h0, if_neg h0]
      exact ⟨h, rfl, rfl⟩
  | unlock p => exact unlock_spec h p
  | release p => exact release_spec h hm p
  | clearPot n => exact clearPot_spec h hm n
  | reset => exact reset_spec hm
  | store i e => exact store_spec h i e

theorem getElement_param (lock : Bool) : (s.getElement lock).1.param = s.param := by
  unfold getElement
  split
  · split
    · rfl
    · simp only [param_mark, param_clear]
  · rfl

/-- The parameters are those of the constructor. -/
theorem step_param (hm : s.param.magicNumber ≠ 4294967295) (op : Op) :
    (step s op).1.param = s.param := by
  cases op with
  | get => exact getElement_param false
  | lock =>
    simp only [step, lockElement]
    split
    · rfl
    · exact getElement_param true
  | unlock p =>
    simp only [step, unlock]
    split
    · split <;> rfl
    · rfl
  | release p =>
    simp only [step, release]
    split
    · split
      · exact param_free
      · rfl
    · rfl
  | clearPot n =>
    simp only [step, clearPot]
    split
    · exact (freeLoop_spec hm n).1
    · rfl
  | reset => exact (freeLoop_spec (s := { s with levelMax := 0, first := 0, nbOut := 0 }) hm 0).1
  | store i e => rfl

/-- A fresh pot without marks. -/
theorem inv_of_fresh {s : Pot} (hnb : s.nbOut = 0) (hfirst : s.first = 0)
    (huse : ∀ i < s.capacity, s.inUse i = false) : s.Inv := by
  have hout : s.out = ∅ := by
    rw [Finset.eq_empty_iff_forall_notMem]
    intro i hi
    obtain ⟨hlt, hi⟩ := mem_out.mp hi
    rw [huse i hlt] at hi
    exact absurd hi Bool.false_ne_true
  refine ⟨⟨?_, ?_⟩, ?_⟩
  · rw [hnb, hout, Finset.card_empty]
  · rw [hnb]
    exact Nat.zero_le _
  · rw [hfirst]
    omega

/-- A fresh pot has all its slots free, unless zero is a mark. -/
theorem create_inv (param : PotParam) (data : Nat → PotElement)
    (hm : param.magicNumber ≠ 4294967295 ∨ param.potCapacity = 0) :
    (create param data).Inv ∧ (create param data).param.magicNumber ≠ 4294967295 := by
  have hlt := param.magicNumber_lt
  unfold create
  by_cases hc : param.potCapacity = 0
  · rw [if_pos hc]
    refine ⟨inv_of_fresh rfl rfl ?_, Nat.ne_of_lt (by decide : (0 : Nat) < 4294967295)⟩
    intro i hi
    exact absurd hi (Nat.not_lt_zero i)
  · have hm' : param.magicNumber ≠ 4294967295 := by
      rcases hm with hm | hm
      · exact hm
      · exact absurd hm hc
    rw [if_neg hc]
    by_cases h0 : param.magicNumber ≠ 0
    · rw [if_pos h0]
      refine ⟨inv_of_fresh rfl rfl ?_, hm'⟩
      intro i _
      rw [Bool.eq_false_iff, ne_eq, inUse_of_magic h0, notMagic]
      simp only
      omega
    · rw [if_neg h0]
      refine ⟨inv_of_fresh rfl rfl ?_, hm'⟩
      intro i _
      simp only [inUse, if_neg h0]
      rfl

/-- In a fresh pot whose free word is the mark of a locked slot all the slots are marked. -/
theorem create_not_exact (param : PotParam) (data : Nat → PotElement)
    (hm : param.magicNumber = 4294967295) (hc : param.potCapacity ≠ 0) : ¬ (create param data).Exact := by
  have hcreate : create param data = ⟨param, fun i => { data i with word := 0 }, 0, 0, fun _ => 0, 0⟩ := by
    rw [create, if_neg hc, if_pos (by omega)]
  intro hexact
  rw [hcreate] at hexact
  have hmem : 0 ∈ (⟨param, fun i => { data i with word := 0 }, 0, 0, fun _ => 0, 0⟩ : Pot).out := by
    rw [mem_out]
    refine ⟨Nat.pos_of_ne_zero hc, ?_⟩
    rw [inUse_of_magic (by show param.magicNumber ≠ 0; omega), notMagic, hm]
    right
    rfl
  have hcard := Finset.card_pos.mpr ⟨0, hmem⟩
  exact absurd hexact.1 (Nat.ne_of_lt hcard)

/-- The pot hands out each slot at most once exactly when the complement of its magic number is not the
word of a free slot. -/
theorem allocatesOnce_iff (param : PotParam) :
    AllocatesOnce param ↔ param.magicNumber ≠ 4294967295 ∨ param.potCapacity = 0 := by
  constructor
  · intro h
    by_contra hno
    rw [not_or, not_not] at hno
    exact create_not_exact param (fun _ => ⟨0, []⟩) hno.1 hno.2 (h (fun _ => ⟨0, []⟩) []).1
  · intro hm data ops
    obtain ⟨hinv, hmagic⟩ := create_inv param data hm
    have hstep : ∀ (s : Pot) (op : Op), s.Inv ∧ s.param.magicNumber ≠ 4294967295 → True →
        (step s op).1.Inv ∧ (step s op).1.param.magicNumber ≠ 4294967295 := by
      intro s op hs _
      rw [step_param hs.2]
      exact ⟨(step_spec hs.1 hs.2 op).1, hs.2⟩
    have hrun := Machine.inv_run hstep ⟨hinv, hmagic⟩ (Machine.meets_of_forall (fun _ _ => trivial) _ ops)
    exact ⟨hrun.1.exact, fun op => (step_spec hrun.1 hrun.2 op).2⟩

/-- A fresh pot of one slot with the magic number `0xFFFFFFFF`: nothing is out of the pot, but its slot is
marked as locked, so that `Get` fails. -/
theorem not_allocatesOnce_ones :
    ¬ AllocatesOnce ⟨0xFFFFFFFF, false, 1, by decide, by decide⟩ ∧
      (step (create ⟨0xFFFFFFFF, false, 1, by decide, by decide⟩ fun _ => ⟨0, []⟩) .get).2 = .slot none := by
  constructor
  · intro h
    exact create_not_exact _ (fun _ => ⟨0, []⟩) rfl (by decide) (h (fun _ => ⟨0, []⟩) []).1
  · decide

end BofStd.Pot
