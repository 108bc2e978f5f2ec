import Mathlib.Data.Nat.Log
import Mathlib.Data.Nat.Factorization.Basic
import BofStd.BofBit

/-!
# Rounding up, and positions of bits

Clearing the lowest bit of a number with more than one bit keeps its highest bit, so the loop of
`Bof_NextHighestPowerOf2` ends with the highest bit of the decremented value. It finds none in zero: this is
the only case in which the next power of two is missed. The position of the highest bit is read from the table
for its byte, and that of the lowest bit is the highest one of the lowest bit alone.
-/

namespace BofStd

namespace BofBit

/-- A step of the loop keeps the highest bit. -/
theorem log2_clearLowest {v : UInt64} (h : clearLowest v ≠ 0) : (clearLowest v).toNat.log2 = v.toNat.log2 := by
  have hv := ne_zero_of_clearLowest h
  have hpos : v.toNat ≠ 0 := fun h0 => hv (UInt64.toNat_inj.mp h0)
  have hclear : v.toNat &&& (v.toNat - 1) ≠ 0 := by
    rw [← toNat_clearLowest hv]
    exact fun h0 => h (UInt64.toNat_inj.mp h0)
  have hpow : ¬ v.toNat.isPowerOfTwo := fun hp =>
    hclear ((Nat.and_sub_one_eq_zero_iff_isPowerOfTwo hpos).mpr hp)
  have hbit := Nat.and_sub_one_testBit_log2 hpos hpow
  rw [toNat_clearLowest hv]
  rw [Nat.log2_eq_iff hclear]
  have hle : v.toNat &&& (v.toNat - 1) ≤ v.toNat := Nat.and_le_left
  exact ⟨Nat.ge_two_pow_of_testBit hbit, Nat.lt_of_le_of_lt hle Nat.lt_log2_self⟩

/-- What the loop leaves of a word with a bit set: its highest bit. -/
theorem toNat_oneBitLeft {v : UInt64} (h : v ≠ 0) : (oneBitLeft v).toNat = 2 ^ v.toNat.log2 := by
  -- the steps of the loop make the word smaller
  induction hn : v.toNat using Nat.strong_induction_on generalizing v with
  | _ n ih =>
    have hpos : v.toNat ≠ 0 := fun h0 => h (UInt64.toNat_inj.mp h0)
    rw [oneBitLeft]
    by_cases hclear : clearLowest v = 0
    · rw [if_neg (not_not.mpr hclear)]
      have hzero : v.toNat &&& (v.toNat - 1) = 0 := by
        rw [← toNat_clearLowest h, hclear]
        rfl
      obtain ⟨k, hk⟩ := (Nat.and_sub_one_eq_zero_iff_isPowerOfTwo hpos).mp hzero
      rw [← hn, hk, Nat.log2_two_pow]
    · rw [if_pos hclear, ← hn, ← log2_clearLowest hclear]
      refine ih _ ?_ hclear rfl
      have hle : v.toNat &&& (v.toNat - 1) ≤ v.toNat - 1 := Nat.and_le_right
      rw [toNat_clearLowest h]
      omega

/-- The next power of two of a number above one, from the highest bit of its predecessor. -/
theorem leastPowerOf2_log2 {v : Nat} (h : 2 ≤ v) : LeastPowerOf2 v (2 ^ ((v - 1).log2 + 1)) := by
  have hne : v - 1 ≠ 0 := by omega
  constructor
  · have hlt : v - 1 < 2 ^ ((v - 1).log2 + 1) := Nat.lt_log2_self
    exact ⟨⟨_, rfl⟩, by omega⟩
  · rintro p ⟨⟨k, rfl⟩, hk⟩
    have hlog : (v - 1).log2 < k := (Nat.log2_lt hne).mpr (by omega)
    exact Nat.pow_le_pow_right (by omega) hlog

/-- The value of `Bof_NextHighestPowerOf2` above one. -/
theorem toNat_nextHighestPowerOf2 {v : UInt64} (h : 2 ≤ v.toNat) (hmax : v.toNat ≤ 2 ^ 63) :
    (nextHighestPowerOf2 v).toNat = 2 ^ ((v.toNat - 1).log2 + 1) := by
  have hzero : (0 : UInt64).toNat = 0 := rfl
  have hne : v ≠ 0 := by
    rintro rfl
    omega
  have hsub : (v - 1).toNat = v.toNat - 1 := toNat_sub_one hne
  have hne' : v - 1 ≠ 0 := by
    intro h0
    rw [h0] at hsub
    omega
  have hlog : (v.toNat - 1).log2 < 63 := (Nat.log2_lt (by omega)).mpr (by omega)
  have hpow : 2 ^ ((v.toNat - 1).log2 + 1) < 2 ^ 64 := Nat.pow_lt_pow_right (by omega) (by omega)
  rw [nextHighestPowerOf2, UInt64.toNat_shiftLeft, toNat_oneBitLeft hne', hsub]
  show 2 ^ (v.toNat - 1).log2 <<< 1 % 2 ^ 64 = _
  rw [Nat.shiftLeft_eq, Nat.pow_one, ← Nat.pow_succ, Nat.mod_eq_of_lt hpow]

/-- The decrement makes zero of one, and the loop finds no bit to keep. -/
theorem nextHighestPowerOf2_one : nextHighestPowerOf2 1 = 0 := by
  rw [nextHighestPowerOf2, oneBitLeft, if_neg (by decide)]
  decide

/-- Rounding up to a multiple, as a function of the remainder. -/
theorem leastMultiple_sub_mod {v m : Nat} (h : v % m ≠ 0) (hm : 0 < m) : LeastMultiple v m (v + (m - v % m)) := by
  have hmod := Nat.mod_lt v hm
  have hdiv := Nat.div_add_mod v m
  have hnext : m * (v / m + 1) = v + (m - v % m) := by
    rw [Nat.mul_add, Nat.mul_one]
    omega
  constructor
  · exact ⟨⟨_, hnext.symm⟩, by omega⟩
  · rintro n ⟨⟨k, rfl⟩, hk⟩
    have hlt : v / m < k := by
      by_contra hle
      have hmul : m * k ≤ m * (v / m) := Nat.mul_le_mul_left m (by omega)
      omega
    rw [← hnext]
    exact Nat.mul_le_mul_left m hlt

theorem leastMultiple_self {v m : Nat} (h : v % m = 0) : LeastMultiple v m v :=
  ⟨⟨Nat.dvd_of_mod_eq_zero h, le_refl v⟩, fun _ hn => hn.2⟩

/-- `Bof_RoundUpOnMultipleOf` when some multiple that is not below the value is a 64 bit word. -/
theorem leastMultiple_roundUpOnMultipleOf {v m : UInt64} (hm : 1 ≤ m.toNat)
    (hfit : ∃ n < 2 ^ 64, m.toNat ∣ n ∧ v.toNat ≤ n) :
    LeastMultiple v.toNat m.toNat (roundUpOnMultipleOf v m).toNat := by
  have hrem : (v % m).toNat = v.toNat % m.toNat := UInt64.toNat_mod v m
  have hlt := Nat.mod_lt v.toNat hm
  unfold roundUpOnMultipleOf
  by_cases h : v % m = 0
  · simp only [h, ne_eq, not_true_eq_false, if_false]
    refine leastMultiple_self ?_
    rw [← hrem, h]
    rfl
  · simp only [if_pos h]
    have hne : v.toNat % m.toNat ≠ 0 := by
      rw [← hrem]
      exact fun h0 => h (UInt64.toNat_inj.mp h0)
    have hleast := leastMultiple_sub_mod hne hm
    obtain ⟨n, hn, hmem⟩ := hfit
    have hbound : v.toNat + (m.toNat - v.toNat % m.toNat) ≤ n := hleast.2 hmem
    have hsub : (m - v % m).toNat = m.toNat - v.toNat % m.toNat := by
      rw [UInt64.toNat_sub_of_le _ _ (UInt64.le_iff_toNat_le.mpr (by omega)), hrem]
    rw [UInt64.toNat_add, hsub, Nat.mod_eq_of_lt (by omega)]
    exact hleast

/-- `Bof_NextHighestPowerOf2` gives the next power of two of every value but one; `Bof_RoundUpOnMultipleOf` always gives
the next multiple. -/
theorem roundUp_least (v m : UInt64) :
    (1 ≤ v.toNat → v.toNat ≤ 2 ^ 63 → (LeastPowerOf2 v.toNat (nextHighestPowerOf2 v).toNat ↔ v.toNat ≠ 1)) ∧
      (1 ≤ m.toNat → (∃ n < 2 ^ 64, m.toNat ∣ n ∧ v.toNat ≤ n) →
        LeastMultiple v.toNat m.toNat (roundUpOnMultipleOf v m).toNat) := by
  refine ⟨fun h1 hmax => ⟨fun hleast hone => ?_, fun hne => ?_⟩, fun hm hfit =>
    leastMultiple_roundUpOnMultipleOf hm hfit⟩
  · have hv : v = 1 := UInt64.toNat_inj.mp hone
    rw [hv, nextHighestPowerOf2_one] at hleast
    have hle : (1 : UInt64).toNat ≤ (0 : UInt64).toNat := hleast.1.2
    exact absurd hle (by decide)
  · rw [toNat_nextHighestPowerOf2 (by omega) hmax]
    exact leastPowerOf2_log2 (by omega)

/-- At one the result is zero. -/
theorem nextHighestPowerOf2_fails_one : ¬ LeastPowerOf2 (1 : UInt64).toNat (nextHighestPowerOf2 1).toNat := by
  intro hleast
  rw [nextHighestPowerOf2_one] at hleast
  have hle : (1 : UInt64).toNat ≤ (0 : UInt64).toNat := hleast.1.2
  exact absurd hle (by decide)

/-- The top of the range, and the last multiple of seven. -/
theorem roundUp_least_top :
    LeastPowerOf2 (9223372036854775808 : UInt64).toNat (nextHighestPowerOf2 9223372036854775808).toNat ∧
      LeastMultiple (18446744073709551613 : UInt64).toNat (7 : UInt64).toNat
        (roundUpOnMultipleOf 18446744073709551613 7).toNat :=
  ⟨((roundUp_least 9223372036854775808 7).1 (by decide) (by decide)).mpr (by decide),
    (roundUp_least 18446744073709551613 7).2 (by decide) ⟨18446744073709551614, by decide, by decide, by decide⟩⟩

/-! ## Positions -/

/-- The highest bit is that of the upper part, when there is one. -/
theorem log2_of_shiftRight {n s : Nat} (h : n >>> s ≠ 0) : n.log2 = s + (n >>> s).log2 := by
  have hn : n ≠ 0 := by
    rintro rfl
    exact h (Nat.zero_shiftRight s)
  rw [Nat.log2_eq_iff hn]
  have hlow : 2 ^ (n >>> s).log2 ≤ n >>> s := Nat.log2_self_le h
  have hhigh : n >>> s < 2 ^ ((n >>> s).log2 + 1) := Nat.lt_log2_self
  rw [Nat.shiftRight_eq_div_pow] at hlow hhigh ⊢
  constructor
  · rw [Nat.pow_add, Nat.mul_comm]
    exact (Nat.le_div_iff_mul_le (Nat.two_pow_pos s)).mp hlow
  · rw [Nat.add_assoc, Nat.pow_add, Nat.mul_comm]
    exact (Nat.div_lt_iff_lt_mul (Nat.two_pow_pos s)).mp hhigh

/-- The table holds the logarithms. -/
theorem tableAt_eq (base : UInt8) {i : UInt32} (hpos : i ≠ 0) (h : i.toNat < 256) :
    tableAt base i = some (base + UInt8.ofNat i.toNat.log2) := by
  have htable : ∀ n < 256, n ≠ 0 → logTable256[n]? = some (UInt8.ofNat n.log2) := by decide +kernel
  rw [tableAt, htable _ h fun h0 => hpos (UInt32.toNat_inj.mp h0)]
  rfl

theorem halfPosition_eq (base : UInt8) {v : UInt32} (h : v ≠ 0) :
    halfPosition base v = some (base + UInt8.ofNat v.toNat.log2) := by
  have hlt := v.toNat_lt
  have hne : ∀ {x : UInt32}, x ≠ 0 → x.toNat ≠ 0 := fun hx h0 => hx (UInt32.toNat_inj.mp h0)
  have h16 : (v >>> 16).toNat = v.toNat >>> 16 := UInt32.toNat_shiftRight v 16
  have h8 : (v >>> 8).toNat = v.toNat >>> 8 := UInt32.toNat_shiftRight v 8
  have h24 : (v >>> 16 >>> 8).toNat = v.toNat >>> 16 >>> 8 := by
    rw [UInt32.toNat_shiftRight, h16]
    rfl
  have hadd : ∀ a b : Nat, base + UInt8.ofNat a + UInt8.ofNat b = base + UInt8.ofNat (a + b) := by
    intro a b
    rw [UInt8.ofNat_add, UInt8.add_assoc]
  unfold halfPosition
  dsimp only
  by_cases hhigh : v >>> 16 = 0
  · rw [if_neg (not_not_intro hhigh)]
    have hsmall : v.toNat >>> 16 = 0 := by rw [← h16, hhigh]; rfl
    rw [Nat.shiftRight_eq_div_pow] at hsmall
    by_cases hbyte : v >>> 8 = 0
    · rw [if_neg (not_not_intro hbyte)]
      have hsmall8 : v.toNat >>> 8 = 0 := by rw [← h8, hbyte]; rfl
      rw [Nat.shiftRight_eq_div_pow] at hsmall8
      exact tableAt_eq base h (by omega)
    · rw [if_pos hbyte]
      have hn : v.toNat >>> 8 ≠ 0 := h8 ▸ hne hbyte
      have hindex : (v >>> 8).toNat < 256 := by
        rw [h8, Nat.shiftRight_eq_div_pow]
        omega
      rw [tableAt_eq _ hbyte hindex, h8, log2_of_shiftRight hn, ← hadd]
      rfl
  · rw [if_pos hhigh]
    have hn : v.toNat >>> 16 ≠ 0 := h16 ▸ hne hhigh
    by_cases hbyte : v >>> 16 >>> 8 = 0
    · rw [if_neg (not_not_intro hbyte)]
      have hsmall : v.toNat >>> 16 >>> 8 = 0 := by rw [← h24, hbyte]; rfl
      have hindex : (v >>> 16).toNat < 256 := by
        rw [h16]
        rw [Nat.shiftRight_eq_div_pow _ 8] at hsmall
        omega
      rw [tableAt_eq _ hhigh hindex, h16, log2_of_shiftRight hn, ← hadd]
      rfl
    · rw [if_pos hbyte]
      have hn' : v.toNat >>> 16 >>> 8 ≠ 0 := h24 ▸ hne hbyte
      have hindex : (v >>> 16 >>> 8).toNat < 256 := by
        rw [h24, ← Nat.shiftRight_add, Nat.shiftRight_eq_div_pow]
        omega
      rw [tableAt_eq _ hbyte hindex, h24, log2_of_shiftRight hn, log2_of_shiftRight hn', ← Nat.add_assoc, ← hadd]
      rfl

/-- The position of the highest bit. -/
theorem mostSignificantBitSetPosition_eq {v : UInt64} (h : v ≠ 0) :
    mostSignificantBitSetPosition v = some (UInt8.ofNat v.toNat.log2) := by
  have hlt := v.toNat_lt
  have h32 : (v >>> 32).toUInt32.toNat = v.toNat >>> 32 := by
    rw [UInt64.toNat_toUInt32, UInt64.toNat_shiftRight, Nat.mod_eq_of_lt]
    · rfl
    · show v.toNat >>> 32 < 2 ^ 32
      rw [Nat.shiftRight_eq_div_pow]
      omega
  unfold mostSignificantBitSetPosition
  rw [if_neg h]
  by_cases hone : v = 1
  · rw [if_pos hone, hone]
    rfl
  · rw [if_neg hone]
    dsimp only
    by_cases hhigh : (v >>> 32).toUInt32 = 0
    · rw [if_neg (not_not_intro hhigh)]
      have hsmall : v.toNat >>> 32 = 0 := by rw [← h32, hhigh]; rfl
      rw [Nat.shiftRight_eq_div_pow] at hsmall
      have hlow : v.toUInt32.toNat = v.toNat := by
        rw [UInt64.toNat_toUInt32, Nat.mod_eq_of_lt (by omega)]
      have hne : v.toUInt32 ≠ 0 := by
        intro h0
        rw [h0] at hlow
        exact h (UInt64.toNat_inj.mp hlow.symm)
      rw [halfPosition_eq 0 hne, hlow, UInt8.zero_add]
    · rw [if_pos hhigh, halfPosition_eq 32 hhigh, h32]
      have hn : v.toNat >>> 32 ≠ 0 := h32 ▸ fun h0 => hhigh (UInt32.toNat_inj.mp h0)
      rw [log2_of_shiftRight hn, UInt8.ofNat_add]
      rfl

/-- The greatest power of two below a number. -/
theorem isGreatest_log2 {n : Nat} (h : n ≠ 0) : IsGreatest {k | 2 ^ k ≤ n} n.log2 :=
  ⟨Nat.log2_self_le h, fun _ hk => (Nat.le_log2 h).mpr hk⟩

/-! ## The lowest bit -/

/-- A number with its lowest bit at `k`. -/
theorem testBit_lowest (k j i : Nat) :
    (2 ^ k * (2 * j + 1)).testBit i = if i < k then false else if i = k then true else j.testBit (i - k - 1) := by
  rw [Nat.testBit_two_pow_mul]
  by_cases hlt : i < k
  · rw [if_pos hlt, decide_eq_false (by omega), Bool.false_and]
  · rw [if_neg hlt, decide_eq_true (by omega), Bool.true_and]
    by_cases heq : i = k
    · rw [if_pos heq, heq, Nat.sub_self]
      simp
    · obtain ⟨d, rfl⟩ : ∃ d, i = k + (d + 1) := ⟨i - k - 1, by omega⟩
      rw [if_neg heq, Nat.add_sub_cancel_left, Nat.testBit_succ, Nat.add_sub_cancel]
      congr 1
      omega

/-- Its predecessor: the bits up to `k` are turned over. -/
theorem testBit_sub_one (k j i : Nat) : (2 ^ k * (2 * j + 1) - 1).testBit i =
    if i < k then true else if i = k then false else j.testBit (i - k - 1) := by
  have hpos := Nat.two_pow_pos k
  have hsplit : 2 ^ k * (2 * j + 1) - 1 = 2 ^ k * (2 * j) + (2 ^ k - 1) := by
    rw [Nat.mul_add, Nat.mul_one]
    omega
  rw [hsplit, Nat.testBit_two_pow_mul_add _ (by omega)]
  by_cases hlt : i < k
  · rw [if_pos hlt, if_pos hlt, Nat.testBit_two_pow_sub_one, decide_eq_true hlt]
  · rw [if_neg hlt, if_neg hlt]
    by_cases heq : i = k
    · rw [if_pos heq, heq, Nat.sub_self]
      simp
    · obtain ⟨d, rfl⟩ : ∃ d, i = k + (d + 1) := ⟨i - k - 1, by omega⟩
      rw [if_neg heq, Nat.add_sub_cancel_left, Nat.testBit_succ, Nat.add_sub_cancel]
      congr 1
      omega

/-- Every word with a bit has a lowest one. -/
theorem exists_lowest {v : UInt64} (h : v ≠ 0) : ∃ k j, v.toNat = 2 ^ k * (2 * j + 1) := by
  obtain ⟨k, m, ⟨j, rfl⟩, hm⟩ := Nat.exists_eq_two_pow_mul_odd fun h0 => h (UInt64.toNat_inj.mp h0)
  exact ⟨k, j, hm⟩

/-- The bits of the predecessor of a word. -/
theorem getLsbD_sub_one {v : UInt64} {k j : Nat} (hv : v.toNat = 2 ^ k * (2 * j + 1)) (i : Nat) :
    (v - 1).toBitVec.getLsbD i = if i < k then true else if i = k then false else j.testBit (i - k - 1) := by
  have hne : v ≠ 0 := by
    rintro rfl
    have hpos := Nat.mul_pos (Nat.two_pow_pos k) (Nat.succ_pos (2 * j))
    exact absurd hv (Nat.ne_of_lt hpos)
  rw [← testBit_sub_one, ← hv, ← toNat_sub_one hne]
  rfl

theorem getLsbD_lowest {v : UInt64} {k j : Nat} (hv : v.toNat = 2 ^ k * (2 * j + 1)) (i : Nat) :
    v.toBitVec.getLsbD i = if i < k then false else if i = k then true else j.testBit (i - k - 1) := by
  rw [← testBit_lowest, ← hv]
  rfl

/-- The lowest bit alone. -/
theorem toNat_and_not_sub_one {v : UInt64} {k j : Nat} (hv : v.toNat = 2 ^ k * (2 * j + 1)) :
    (v &&& ~~~(v - 1)).toNat = 2 ^ k := by
  refine Nat.eq_of_testBit_eq fun i => ?_
  have hbits : (v &&& ~~~(v - 1)).toNat.testBit i =
      (v.toBitVec.getLsbD i && (decide (i < 64) && !(v - 1).toBitVec.getLsbD i)) := by
    rw [← BitVec.getLsbD_not, ← BitVec.getLsbD_and]
    rfl
  have hlt : v.toBitVec.getLsbD i = true → i < 64 := BitVec.lt_of_getLsbD
  rw [hbits, getLsbD_sub_one hv, Nat.testBit_two_pow]
  rw [getLsbD_lowest hv] at hlt ⊢
  rcases Nat.lt_trichotomy i k with hik | rfl | hik
  · rw [if_pos hik, Bool.false_and, decide_eq_false (by omega)]
  · rw [if_neg (Nat.lt_irrefl i), if_pos rfl] at hlt
    simp [hlt]
  · have hnot : ¬i < k := by omega
    have hne : i ≠ k := by omega
    rw [if_neg hnot, if_neg hne, if_neg hnot, if_neg hne, decide_eq_false (Ne.symm hne)]
    cases j.testBit (i - k - 1) <;> simp

/-- Clearing the lowest bit takes its position away. -/
theorem positions_clearLowest {v : UInt64} {k j : Nat} (hv : v.toNat = 2 ^ k * (2 * j + 1)) :
    BitMask.positions (clearLowest v).toBitVec = (BitMask.positions v.toBitVec).erase k := by
  ext i
  have hbits : (clearLowest v).toBitVec.getLsbD i = (v.toBitVec.getLsbD i && (v - 1).toBitVec.getLsbD i) := by
    rw [← BitVec.getLsbD_and]
    rfl
  rw [Finset.mem_erase, BitMask.mem_positions, BitMask.mem_positions, hbits, getLsbD_sub_one hv, getLsbD_lowest hv]
  rcases Nat.lt_trichotomy i k with hik | rfl | hik
  · simp [hik]
  · simp
  · have hnot : ¬i < k := by omega
    have hne : i ≠ k := by omega
    simp [hnot, hne]

/-- The loop counts the positions. -/
theorem toNat_bitSetLoop {v : UInt64} {rts : UInt8} (h : rts.toNat + (BitMask.positions v.toBitVec).card < 256) :
    (bitSetLoop rts v).toNat = rts.toNat + (BitMask.positions v.toBitVec).card := by
  induction hn : (BitMask.positions v.toBitVec).card generalizing rts v with
  | zero =>
    have hzero : v = 0 := UInt64.toBitVec_inj.mp (BitMask.positions_eq_empty.mp (Finset.card_eq_zero.mp hn))
    rw [bitSetLoop, if_neg (not_not_intro hzero), Nat.add_zero]
  | succ n ih =>
    have hne : v ≠ 0 := by
      rintro rfl
      rw [show (0 : UInt64).toBitVec = 0 from rfl, BitMask.positions_zero] at hn
      exact absurd hn (Nat.succ_ne_zero n).symm
    obtain ⟨k, j, hv⟩ := exists_lowest hne
    have hmem : k ∈ BitMask.positions v.toBitVec := by
      rw [BitMask.mem_positions, getLsbD_lowest hv]
      simp
    have hcard : (BitMask.positions (clearLowest v).toBitVec).card = n := by
      rw [positions_clearLowest hv, Finset.card_erase_of_mem hmem, hn, Nat.add_sub_cancel]
    have hsucc : (rts + 1).toNat = rts.toNat + 1 := by
      rw [UInt8.toNat_add, Nat.mod_eq_of_lt (by show rts.toNat + 1 < 256; omega)]
      rfl
    rw [bitSetLoop, if_pos hne, ih (by rw [hsucc, hcard]; omega) hcard, hsucc]
    omega

theorem card_positions_le {w : Nat} (m : BitVec w) : (BitMask.positions m).card ≤ w := by
  have hsub : BitMask.positions m ⊆ Finset.range w :=
    fun i hi => Finset.mem_range.mpr (BitMask.lt_of_mem_positions hi)
  exact (Finset.card_le_card hsub).trans (Finset.card_range w).le

/-- The position of the highest bit fits into a byte. -/
theorem toNat_ofNat_log2 (v : UInt64) : (UInt8.ofNat v.toNat.log2).toNat = v.toNat.log2 := by
  by_cases hne : v.toNat = 0
  · rw [hne]
    decide
  · have hlt : v.toNat.log2 < 64 := (Nat.log2_lt hne).mpr v.toNat_lt
    exact UInt8.toNat_ofNat_of_lt' (by show v.toNat.log2 < 256; omega)

theorem mostSignificantBitSetPosition_isGreatest {v : UInt64} (h : 0 < v.toNat) :
    ∃ k, mostSignificantBitSetPosition v = some k ∧ IsGreatest {k | 2 ^ k ≤ v.toNat} k.toNat := by
  have hne : v ≠ 0 := by
    rintro rfl
    exact absurd h (by decide)
  refine ⟨_, mostSignificantBitSetPosition_eq hne, ?_⟩
  rw [toNat_ofNat_log2]
  exact isGreatest_log2 (Nat.pos_iff_ne_zero.mp h)

theorem lessSignificantBitSetPosition_isGreatest {v : UInt64} (h : 0 < v.toNat) :
    ∃ k, lessSignificantBitSetPosition v = some k ∧ IsGreatest {k | 2 ^ k ∣ v.toNat} k.toNat := by
  have hne : v ≠ 0 := by
    rintro rfl
    exact absurd h (by decide)
  obtain ⟨k, j, hv⟩ := exists_lowest hne
  have hlow := toNat_and_not_sub_one hv
  have hlowne : v &&& ~~~(v - 1) ≠ 0 := by
    intro h0
    rw [h0] at hlow
    exact absurd hlow (Nat.two_pow_pos k).ne
  refine ⟨_, mostSignificantBitSetPosition_eq hlowne, ?_⟩
  rw [toNat_ofNat_log2, hlow, Nat.log2_two_pow, hv]
  constructor
  · exact Dvd.intro _ rfl
  · intro i hi
    by_contra hlt
    -- a higher power of two would divide the odd factor
    have hdvd : 2 ^ (k + 1) ∣ 2 ^ k * (2 * j + 1) := (Nat.pow_dvd_pow 2 (by omega)).trans hi
    rw [Nat.pow_succ] at hdvd
    have htwo := Nat.dvd_of_mul_dvd_mul_left (Nat.two_pow_pos k) hdvd
    omega

/-- The queries are those of arithmetic, for every word. -/
theorem bitQueries (v : UInt64) : BitQueries v where
  most := mostSignificantBitSetPosition_isGreatest
  log := mostSignificantBitSetPosition_isGreatest
  less := lessSignificantBitSetPosition_isGreatest
  number := by
    have hle := card_positions_le v.toBitVec
    rw [findNumberOfBitSet, toNat_bitSetLoop (by show 0 + _ < 256; omega)]
    exact Nat.zero_add _

end BofBit

end BofStd
