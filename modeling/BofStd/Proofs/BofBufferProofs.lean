import BofStd.BofBufferSpec

/-!
# The buffer reads back what was written

`Inv` holds in every state; with it each call but `Memset` does what it should for all arguments. The test of
`Memset` is compared with the sum of the two arguments in `memset_test`.
-/

namespace BofStd.BofBuffer

open Machine

variable {s : BofBuffer} {a b : UInt64}

/-! ## Words -/

theorem toNat_min (a b : UInt64) : (if a < b then a else b).toNat = min a.toNat b.toNat := by
  split
  · rename_i h
    have hlt := UInt64.lt_iff_toNat_lt.mp h
    omega
  · rename_i h
    have hge : ¬ a.toNat < b.toNat := fun hlt => h (UInt64.lt_iff_toNat_lt.mpr hlt)
    omega

/-- A sum that is bounded by a word does not wrap. -/
theorem toNat_add_of_le (h : a.toNat + b.toNat < 2 ^ 64) : (a + b).toNat = a.toNat + b.toNat := by
  rw [UInt64.toNat_add]
  exact Nat.mod_eq_of_lt h

/-! ## Every state -/

/-- The positions are in order, and a null pointer has no capacity. -/
structure Inv (s : BofBuffer) : Prop where
  ordered : s.Ordered
  null : s.storage = none → s.capacity = 0

theorem inv_create : create.Inv := ⟨⟨Nat.le_refl _, Nat.le_refl _⟩, fun _ => rfl⟩

theorem Inv.offset_le (h : s.Inv) : s.offset.toNat ≤ s.size.toNat := UInt64.le_iff_toNat_le.mp h.ordered.1

theorem Inv.size_le (h : s.Inv) : s.size.toNat ≤ s.capacity.toNat := UInt64.le_iff_toNat_le.mp h.ordered.2

theorem Inv.isValid_iff (h : s.Inv) : s.isValid = true ↔ s.capacity ≠ 0 := by
  unfold isValid
  rw [decide_eq_true h.ordered.1, decide_eq_true h.ordered.2, Bool.and_true, Bool.and_true, Bool.and_eq_true,
    decide_eq_true_iff, and_iff_right_iff_imp]
  intro hcap
  rw [Option.isSome_iff_ne_none]
  exact fun hnull => hcap (h.null hnull)

theorem Inv.storage_of_valid (h : s.Inv) (hv : s.isValid = true) : ∃ st, s.storage = some st := by
  refine Option.ne_none_iff_exists'.mp fun hnull => ?_
  exact h.isValid_iff.mp hv (h.null hnull)

/-- A buffer that is not valid has no bytes. -/
theorem Inv.empty (h : s.Inv) (hv : ¬ s.isValid = true) :
    s.capacity.toNat = 0 ∧ s.size.toNat = 0 ∧ s.offset.toNat = 0 := by
  rw [h.isValid_iff, not_not] at hv
  have hcap : s.capacity.toNat = 0 := by
    rw [hv]
    rfl
  have hsize := h.size_le
  have hoffset := h.offset_le
  omega

theorem Inv.remainToWrite_eq (h : s.Inv) : s.remainToWrite.toNat = s.capacity.toNat - s.size.toNat := by
  unfold remainToWrite
  rw [if_pos h.ordered.2]
  exact UInt64.toNat_sub_of_le _ _ h.ordered.2

theorem Inv.remainToRead_eq (h : s.Inv) : s.remainToRead.toNat = s.size.toNat - s.offset.toNat := by
  unfold remainToRead
  split
  · exact UInt64.toNat_sub_of_le _ _ h.ordered.1
  · rename_i hnot
    have hge : ¬ s.offset.toNat < s.size.toNat := fun hlt => hnot (UInt64.lt_iff_toNat_lt.mpr hlt)
    have hzero : (0 : UInt64).toNat = 0 := rfl
    omega

theorem keepsBehind_of_storage {s' : BofBuffer} (h : s'.storage = s.storage) (op : Op) : KeepsBehind s s' op := by
  have hbyte : ∀ i, s'.byte i = s.byte i := by
    intro i
    unfold byte
    rw [h]
  cases op with
  | setStorage => trivial
  | _ => exact fun i _ => hbyte i

/-! ## Seeks -/

/-- A seek to a position within the content, or a seek that is refused. -/
theorem seek_spec (h : s.Inv) (target : UInt64) {r : BofBuffer × Option Nat × Option UInt64}
    (hr : r = if target ≤ s.size then ({ s with offset := target }, s.pointer target, some (s.size - target))
      else (s, none, none)) :
    r.1.Inv ∧ (r.2.1 = none → r.1 = s) ∧ r.1.storage = s.storage := by
  subst hr
  split
  · rename_i hle
    refine ⟨⟨⟨hle, h.ordered.2⟩, h.null⟩, ?_, rfl⟩
    intro hnull
    -- a null pointer: the content is empty, and so is the way to the target
    have hstorage : s.storage = none := Option.map_eq_none_iff.mp hnull
    have hcap : s.capacity.toNat = 0 := by
      rw [h.null hstorage]
      rfl
    have htarget := UInt64.le_iff_toNat_le.mp hle
    have hsize := h.size_le
    have hoffset := h.offset_le
    have heq : target = s.offset := UInt64.toNat_inj.mp (by omega)
    rw [heq]
  · exact ⟨h, fun _ => rfl, rfl⟩

/-! ## Reading and writing -/

theorem bytes_eq {st : Storage} (h : s.storage = some st) (start n : Nat) : s.bytes start n = Memory.read st.data start n := by
  unfold bytes
  rw [h]

theorem byte_eq {st : Storage} (h : s.storage = some st) (i : Nat) : s.byte i = some (st.data i) := by
  unfold byte
  rw [h]
  rfl

theorem drop_read {α : Type*} (mem : Nat → α) (start n k : Nat) (h : k ≤ n) :
    (Memory.read mem start n).drop k = Memory.read mem (start + k) (n - k) := by
  rw [Memory.read_eq_map, Memory.read_eq_map, ← List.map_drop, Memory.drop_range', Nat.min_eq_left h]

theorem read_spec (h : s.Inv) (size : UInt64) :
    (s.read size).1.Inv ∧ Reads s (s.read size).1 size (s.read size).2.1 (s.read size).2.2 ∧
      (s.read size).1.storage = s.storage := by
  have hcount : (if s.remainToRead < size then s.remainToRead else size).toNat =
      min size.toNat (s.size.toNat - s.offset.toNat) := by
    rw [toNat_min, h.remainToRead_eq, Nat.min_comm]
  have hoffset := h.offset_le
  unfold read
  by_cases hv : s.isValid = true
  · rw [if_pos hv]
    dsimp only
    obtain ⟨st, hst⟩ := h.storage_of_valid hv
    generalize (if s.remainToRead < size then s.remainToRead else size) = count at hcount ⊢
    split
    · rename_i hne
      have hsum : (s.offset + count).toNat = s.offset.toNat + count.toNat :=
        toNat_add_of_le (by have hlt := s.size.toNat_lt; omega)
      refine ⟨⟨⟨?_, h.ordered.2⟩, h.null⟩, ⟨hcount, ?_, ?_, rfl, hsum⟩, rfl⟩
      · apply UInt64.le_iff_toNat_le.mpr
        dsimp only
        omega
      · intro p hp
        unfold pointer at hp
        rw [hst] at hp
        cases hp
        unfold content
        rw [bytes_eq hst, bytes_eq (s := { s with offset := s.offset + count }) hst, drop_read _ _ _ _ hoffset,
          Memory.take_read_min, hcount, Nat.zero_add]
      · intro hnull
        unfold pointer at hnull
        rw [hst] at hnull
        cases hnull
    · rename_i hzero
      have hzero' : count.toNat = 0 := by
        rw [not_not.mp hzero]
        rfl
      refine ⟨h, ⟨hcount, nofun, fun _ => not_not.mp hzero, rfl, ?_⟩, rfl⟩
      rw [hzero']
      rfl
  · obtain ⟨-, hsize, -⟩ := h.empty hv
    rw [if_neg hv]
    refine ⟨h, ⟨?_, nofun, fun _ => rfl, rfl, rfl⟩, rfl⟩
    have hzero : (0 : UInt64).toNat = 0 := rfl
    dsimp only
    omega

theorem write_spec (h : s.Inv) (size : UInt64) (src : Nat → UInt8) :
    (s.write size (some src)).1.Inv ∧ Writes s (s.write size (some src)).1 size src (s.write size (some src)).2.2 := by
  have hcount : (if size < s.remainToWrite then size else s.remainToWrite).toNat =
      min size.toNat (s.capacity.toNat - s.size.toNat) := by
    rw [toNat_min, h.remainToWrite_eq]
  have hsize := h.size_le
  have hnothing : ∀ count : UInt64, count.toNat = 0 → s.content = s.content ++ Memory.read src 0 count.toNat ∧
      s.size.toNat = s.size.toNat + count.toNat := by
    intro count hzero
    rw [hzero]
    exact ⟨(List.append_nil _).symm, rfl⟩
  unfold write
  by_cases hv : s.isValid = true
  · dsimp only
    rw [if_pos hv]
    obtain ⟨st, hst⟩ := h.storage_of_valid hv
    generalize (if size < s.remainToWrite then size else s.remainToWrite) = count at hcount ⊢
    split
    · rename_i hne
      have hsum : (s.size + count).toNat = s.size.toNat + count.toNat :=
        toNat_add_of_le (by have hlt := s.capacity.toNat_lt; omega)
      have hstorage : (s.storage.map fun st => st.copy s.size.toNat count.toNat src) =
          some (st.copy s.size.toNat count.toNat src) := by
        rw [hst]
        rfl
      rw [hstorage]
      refine ⟨⟨⟨?_, ?_⟩, nofun⟩, hcount, ?_, hsum, rfl, rfl, ?_⟩
      · apply UInt64.le_iff_toNat_le.mpr
        have hoffset := h.offset_le
        dsimp only
        omega
      · apply UInt64.le_iff_toNat_le.mpr
        dsimp only
        omega
      · unfold content
        rw [bytes_eq rfl, bytes_eq hst]
        dsimp only [Storage.copy]
        have hlen : count.toNat = (Memory.read src 0 count.toNat).length := (Memory.length_read ..).symm
        have hbehind := Memory.read_write_behind st.data 0 s.size.toNat (Memory.read src 0 count.toNat)
        rw [← hlen, Nat.zero_add] at hbehind
        rw [hsum, hbehind]
      · intro i hi
        rw [byte_eq rfl, byte_eq hst]
        dsimp only [Storage.copy]
        rw [Memory.write_of_outside]
        rw [Memory.length_read]
        exact hi
    · rename_i hzero
      have hzero' : count.toNat = 0 := by
        rw [not_not.mp hzero]
        rfl
      exact ⟨h, hcount, (hnothing count hzero').1, (hnothing count hzero').2, rfl, rfl, fun _ _ => rfl⟩
  · obtain ⟨hcap, hsize', -⟩ := h.empty hv
    dsimp only
    rw [if_neg hv]
    refine ⟨h, ?_, (hnothing 0 rfl).1, (hnothing 0 rfl).2, rfl, rfl, fun _ _ => rfl⟩
    have hzero : (0 : UInt64).toNat = 0 := rfl
    dsimp only
    omega

/-! ## `Memset` -/

/-- The result of `Memset` in numbers; an invalid buffer has the capacity 0. -/
theorem memset_test (h : s.Inv) (val : UInt8) (size offset : UInt64) :
    (s.memset val size offset).2 = true ↔
      offset.toNat < s.capacity.toNat ∧ (size.toNat + offset.toNat) % 2 ^ 64 < s.capacity.toNat := by
  have hword : offset < s.capacity ∧ size + offset < s.capacity ↔
      offset.toNat < s.capacity.toNat ∧ (size.toNat + offset.toNat) % 2 ^ 64 < s.capacity.toNat := by
    rw [UInt64.lt_iff_toNat_lt, UInt64.lt_iff_toNat_lt, UInt64.toNat_add]
  rw [← hword]
  unfold memset
  by_cases hv : s.isValid = true
  · rw [if_pos hv]
    split
    · rename_i htest
      exact iff_of_true rfl htest
    · rename_i htest
      exact iff_of_false Bool.false_ne_true htest
  · rw [if_neg hv, hword]
    obtain ⟨hcap, -⟩ := h.empty hv
    refine iff_of_false Bool.false_ne_true ?_
    rintro ⟨hlt, -⟩
    omega

/-- The test is that of the sum exactly if the sum is not the capacity, and does not wrap to a number below. -/
theorem memset_test_iff {o n c : Nat} (ho : o < 2 ^ 64) (hn : n < 2 ^ 64) (hc : c < 2 ^ 64) :
    (o < c ∧ (n + o) % 2 ^ 64 < c ↔ o + n ≤ c) ↔ o + n ≠ c ∧ (2 ^ 64 ≤ o + n → c ≤ o) := by
  rcases Nat.lt_or_ge (o + n) (2 ^ 64) with hlt | hge
  · rw [Nat.mod_eq_of_lt (by omega)]
    omega
  · have hmod : (n + o) % 2 ^ 64 = n + o - 2 ^ 64 := by
      rw [Nat.mod_eq_sub_mod (by omega), Nat.mod_eq_of_lt (by omega)]
    rw [hmod]
    omega

theorem memset_state (val : UInt8) (size offset : UInt64) :
    (s.memset val size offset).1 =
      if (s.memset val size offset).2 = true then
        { s with storage := s.storage.map fun st => st.fill offset.toNat size.toNat val }
      else s := by
  unfold memset
  split
  · split <;> rfl
  · rfl

theorem memset_inv (h : s.Inv) (val : UInt8) (size offset : UInt64) : (s.memset val size offset).1.Inv := by
  rw [memset_state]
  split
  · exact ⟨h.ordered, fun hnull => h.null (Option.map_eq_none_iff.mp hnull)⟩
  · exact h

/-- The bytes after a `Memset` that does not pass the capacity. -/
theorem byte_memset (h : s.Inv) (val : UInt8) (size offset : UInt64) (i : Nat) :
    (s.memset val size offset).1.byte i =
      if (s.memset val size offset).2 = true ∧ offset.toNat ≤ i ∧ i < offset.toNat + size.toNat then some val
      else s.byte i := by
  rw [memset_state]
  by_cases hok : (s.memset val size offset).2 = true
  · obtain ⟨st, hst⟩ : ∃ st, s.storage = some st := by
      refine Option.ne_none_iff_exists'.mp fun hnull => ?_
      have hlt := ((memset_test h val size offset).mp hok).1
      rw [h.null hnull] at hlt
      exact absurd hlt (Nat.not_lt_zero _)
    have hstorage : (s.storage.map fun st => st.fill offset.toNat size.toNat val) =
        some (st.fill offset.toNat size.toNat val) := by
      rw [hst]
      rfl
    rw [if_pos hok, byte_eq hstorage, byte_eq hst]
    by_cases hin : offset.toNat ≤ i ∧ i < offset.toNat + size.toNat
    · rw [if_pos ⟨hok, hin⟩]
      have hread := Memory.read_write_self st.data offset.toNat (List.replicate size.toNat val)
      have hmem : (st.fill offset.toNat size.toNat val).data i ∈ List.replicate size.toNat val := by
        rw [← hread, Memory.read, List.mem_map]
        refine ⟨i - offset.toNat, ?_, ?_⟩
        · rw [List.mem_range, List.length_replicate]
          omega
        · rw [Nat.add_sub_cancel' hin.1]
          rfl
      rw [List.eq_of_mem_replicate hmem]
    · rw [if_neg fun hall => hin hall.2]
      refine congrArg some (Memory.write_of_outside _ _ _ ?_)
      rw [List.length_replicate]
      omega
  · rw [if_neg hok, if_neg fun hin => hok hin.1]

theorem memset_iff (h : s.Inv) (val : UInt8) (size offset : UInt64) :
    Conforms s (.memset val size offset) ↔ MemsetFits s (.memset val size offset) := by
  have htest := memset_test h val size offset
  have hiff := memset_test_iff offset.toNat_lt size.toNat_lt s.capacity.toNat_lt
  constructor
  · rintro ⟨-, hdoes, -⟩
    exact hiff.mp (htest.symm.trans hdoes.1)
  · intro hfits
    have hok : (s.memset val size offset).2 = true ↔ offset.toNat + size.toNat ≤ s.capacity.toNat :=
      htest.trans (hiff.mpr hfits)
    have hpositions : SamePositions s (s.memset val size offset).1 := by
      rw [memset_state]
      split <;> exact ⟨rfl, rfl, rfl⟩
    refine ⟨(memset_inv h val size offset).ordered, ⟨hok, hpositions, byte_memset h val size offset⟩, ?_⟩
    intro i hi
    refine (byte_memset h val size offset i).trans (if_neg ?_)
    rintro ⟨htrue, -, hlt⟩
    have hle := hok.mp htrue
    omega

/-! ## Runs -/

theorem setStorage_inv (capacity size : UInt64) (pData : Option Storage) (fresh : Nat → UInt8) :
    (s.setStorage capacity size pData fresh).Inv := by
  have hsize : (0 : UInt64) ≤ (if size ≤ capacity then size else 0) ∧ (if size ≤ capacity then size else 0) ≤ capacity := by
    split
    · rename_i hle
      exact ⟨UInt64.le_iff_toNat_le.mpr (Nat.zero_le _), hle⟩
    · exact ⟨Nat.le_refl _, UInt64.le_iff_toNat_le.mpr (Nat.zero_le _)⟩
  refine ⟨hsize, ?_⟩
  cases pData <;> exact nofun

/-- One call keeps the invariant, whatever it does. -/
theorem Inv.step (h : s.Inv) (op : Op) : (step s op).1.Inv := by
  cases op with
  | clear => exact ⟨⟨Nat.le_refl _, UInt64.le_iff_toNat_le.mpr (Nat.zero_le _)⟩, h.null⟩
  | setStorage capacity size pData fresh => exact setStorage_inv capacity size pData fresh
  | seekAbs offset => exact (seek_spec h _ rfl).1
  | seekRel amount => exact (seek_spec h _ rfl).1
  | read size => exact (read_spec h size).1
  | write size pData =>
    cases pData with
    | none => exact h
    | some src => exact (write_spec h size src).1
  | memset val size offset => exact memset_inv h val size offset

/-- One call does what it should, exactly if it is no `Memset` at the limits. -/
theorem Inv.conforms_iff (h : s.Inv) (op : Op) : Conforms s op ↔ MemsetFits s op := by
  have hordered : (BofBuffer.step s op).1.Ordered := (h.step op).ordered
  cases op with
  | clear => exact iff_of_true ⟨hordered, rfl, fun _ _ => rfl⟩ trivial
  | setStorage capacity size pData fresh => exact iff_of_true ⟨hordered, rfl, trivial⟩ trivial
  | seekAbs offset =>
    obtain ⟨-, hrefused, hstorage⟩ := seek_spec h offset rfl
    exact iff_of_true ⟨hordered, hrefused, keepsBehind_of_storage hstorage _⟩ trivial
  | seekRel amount =>
    obtain ⟨-, hrefused, hstorage⟩ := seek_spec h (s.offset + amount.toUInt64) rfl
    exact iff_of_true ⟨hordered, hrefused, keepsBehind_of_storage hstorage _⟩ trivial
  | read size =>
    obtain ⟨-, hreads, hstorage⟩ := read_spec h size
    exact iff_of_true ⟨hordered, hreads, keepsBehind_of_storage hstorage _⟩ trivial
  | write size pData =>
    cases pData with
    | none => exact iff_of_true ⟨hordered, rfl, fun _ _ => rfl⟩ trivial
    | some src =>
      obtain ⟨-, hwrites⟩ := write_spec h size src
      refine iff_of_true ⟨hordered, hwrites, ?_⟩ trivial
      obtain ⟨hcount, -, -, -, -, hframe⟩ := hwrites
      intro i hi
      have hsize := h.size_le
      exact hframe i (.inr (by omega))
  | memset val size offset => exact memset_iff h val size offset

/-- A call that keeps the storage, or changes bytes in it. -/
theorem Backed.of_map {s' : BofBuffer} (h : s.Backed) {f : Storage → Storage} (hf : ∀ st, (f st).bytes = st.bytes)
    (hcap : s'.capacity = s.capacity) (hstorage : s'.storage = s.storage ∨ s'.storage = s.storage.map f) :
    s'.Backed := by
  intro st hst
  rw [hcap]
  rcases hstorage with hsame | hmap
  · exact h st (hsame.symm.trans hst)
  · rw [hmap] at hst
    obtain ⟨st₀, hst₀, rfl⟩ := Option.map_eq_some_iff.mp hst
    rw [hf]
    exact h st₀ hst₀

theorem write_storage (size : UInt64) (pData : Option (Nat → UInt8)) :
    ∃ f : Storage → Storage, (∀ st, (f st).bytes = st.bytes) ∧ (s.write size pData).1.capacity = s.capacity ∧
      ((s.write size pData).1.storage = s.storage ∨ (s.write size pData).1.storage = s.storage.map f) := by
  unfold write
  cases pData with
  | none => exact ⟨id, fun _ => rfl, rfl, .inl rfl⟩
  | some src =>
    dsimp only
    generalize (if size < s.remainToWrite then size else s.remainToWrite) = count
    split
    · split
      · exact ⟨fun st => st.copy s.size.toNat count.toNat src, fun _ => rfl, rfl, .inr rfl⟩
      · exact ⟨id, fun _ => rfl, rfl, .inl rfl⟩
    · exact ⟨id, fun _ => rfl, rfl, .inl rfl⟩

theorem seek_storage (target : UInt64) {r : BofBuffer × Option Nat × Option UInt64}
    (hr : r = if target ≤ s.size then ({ s with offset := target }, s.pointer target, some (s.size - target))
      else (s, none, none)) : r.1.capacity = s.capacity ∧ r.1.storage = s.storage := by
  subst hr
  split <;> exact ⟨rfl, rfl⟩

theorem read_storage (size : UInt64) :
    (s.read size).1.capacity = s.capacity ∧ (s.read size).1.storage = s.storage := by
  unfold read
  dsimp only
  generalize (if s.remainToRead < size then s.remainToRead else size) = count
  split
  · split <;> exact ⟨rfl, rfl⟩
  · exact ⟨rfl, rfl⟩

theorem toNat_toUInt32_eq_iff (a : UInt64) : a.toNat ≤ a.toUInt32.toNat ↔ a.toNat < 2 ^ 32 := by
  rw [UInt64.toNat_toUInt32]
  omega

/-- One call leaves a storage that is large enough, exactly if it is no `SetStorage` with too large a capacity. -/
theorem backed_iff (h : s.Backed) (op : Op) : (BofBuffer.step s op).1.Backed ↔ StorageFits s op := by
  cases op with
  | clear => exact iff_of_true h trivial
  | setStorage capacity size pData fresh =>
    cases pData with
    | none =>
      refine Iff.trans ?_ (toNat_toUInt32_eq_iff capacity)
      constructor
      · intro hbacked
        exact hbacked _ rfl
      · rintro hle st ⟨⟩
        exact hle
    | some st =>
      constructor
      · intro hbacked
        exact hbacked st rfl
      · rintro hle st' ⟨⟩
        exact hle
  | seekAbs offset =>
    obtain ⟨hcap, hstorage⟩ := seek_storage (s := s) offset rfl
    exact iff_of_true (h.of_map (f := id) (fun _ => rfl) hcap (.inl hstorage)) trivial
  | seekRel amount =>
    obtain ⟨hcap, hstorage⟩ := seek_storage (s := s) (s.offset + amount.toUInt64) rfl
    exact iff_of_true (h.of_map (f := id) (fun _ => rfl) hcap (.inl hstorage)) trivial
  | read size =>
    obtain ⟨hcap, hstorage⟩ := read_storage (s := s) size
    exact iff_of_true (h.of_map (f := id) (fun _ => rfl) hcap (.inl hstorage)) trivial
  | write size pData =>
    obtain ⟨f, hf, hcap, hstorage⟩ := write_storage (s := s) size pData
    exact iff_of_true (h.of_map hf hcap hstorage) trivial
  | memset val size offset =>
    refine iff_of_true ?_ trivial
    have hstate := memset_state (s := s) val size offset
    change (s.memset val size offset).1.Backed
    rw [hstate]
    split
    · exact h.of_map (f := fun st => st.fill offset.toNat size.toNat val) (fun _ => rfl) rfl (.inr rfl)
    · exact h

/-- Along a run every call does what it should exactly if no `Memset` is at the limits, and the bytes below the
capacity are there in every state exactly if `SetStorage` is given or allocates enough of them. -/
theorem conforms_run_iff (ops : List Op) :
    (Meets step Conforms create ops ↔ Meets step MemsetFits create ops) ∧
      ((∀ ops', ops' <+: ops → Backed (run step create ops').1) ↔ Meets step StorageFits create ops) := by
  constructor
  · refine meets_iff_meets (R := fun s t => s = t ∧ s.Inv) ?_ ?_ ⟨rfl, inv_create⟩
    · rintro s _ op ⟨rfl, hinv⟩
      exact hinv.conforms_iff op
    · rintro s _ op ⟨rfl, hinv⟩ -
      exact ⟨rfl, hinv.step op⟩
  · have hcreate : Backed create := by
      intro st hst
      cases hst
    exact forall_prefix_iff_meets (P := Backed) (fun s op hbacked _ => backed_iff hbacked op) hcreate
      (meets_of_forall (fun _ _ => True.intro) _ ops)

/-- A buffer of four bytes: `Memset` refuses all four of them, and accepts `2^64 - 1` bytes from the second on. -/
theorem not_conforms_limits :
    ¬ Meets step Conforms create [.setStorage 4 0 none fun _ => 0, .memset 0xAA 4 0] ∧
      ¬ Meets step Conforms create [.setStorage 4 0 none fun _ => 0, .memset 0xAA 0xFFFFFFFFFFFFFFFF 1] := by
  constructor
  · rintro ⟨-, ⟨-, hdoes, -⟩, -⟩
    exact absurd (hdoes.1.mpr (by decide)) (by decide)
  · rintro ⟨-, ⟨-, hdoes, -⟩, -⟩
    have hok : ((setStorage create 4 0 none fun _ => 0).memset 0xAA 0xFFFFFFFFFFFFFFFF 1).2 = true := by decide
    exact absurd (hdoes.1.mp hok) (by decide)

end BofStd.BofBuffer
