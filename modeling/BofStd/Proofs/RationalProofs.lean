import Mathlib.Algebra.Order.Field.Basic
import Mathlib.Data.Rat.Floor
import Mathlib.Tactic.FieldSimp
import Mathlib.Tactic.Linarith
import BofStd.RationalSpec

/-!
# The arithmetic of `BofRational`

The operands of `Set` are followed modulo `2^64`, and `Set` is compared with the reduction of a fraction of
integers: the quotient of a negative numerator by the greatest common divisor is taken of the converted
numerator and comes out positive.
-/

namespace BofStd.Rational

variable {a b r : Rational} {u v : UInt64} {x y n m : Int} {q : ℚ}

/-! ## Conversions -/

/-- The word holds the integer modulo `2^64`. -/
def Holds (u : UInt64) (n : Int) : Prop := (u.toNat : Int) = n % 2 ^ 64

theorem bmod_emod_word (n : Int) : n.bmod (2 ^ 64) % 2 ^ 64 = n % 2 ^ 64 := Int.bmod_emod

theorem emod_bmod_word (n : Int) : (n % 2 ^ 64).bmod (2 ^ 64) = n.bmod (2 ^ 64) := Int.emod_bmod _ _

theorem holds_toNat (u : UInt64) : Holds u u.toNat := (Int.emod_eq_of_lt (Int.natCast_nonneg _) (by exact_mod_cast u.toNat_lt)).symm

theorem holds_toUInt64 (x : Int64) : Holds x.toUInt64 x.toInt := by
  have hint : x.toInt = (x.toUInt64.toNat : Int).bmod (2 ^ 64) := BitVec.toInt_eq_toNat_bmod x.toBitVec
  rw [hint]
  unfold Holds
  rw [bmod_emod_word]
  exact holds_toNat _

theorem Holds.mul (hu : Holds u x) (hv : Holds v y) : Holds (u * v) (x * y) := by
  unfold Holds at *
  rw [UInt64.toNat_mul, Int.natCast_emod, Int.natCast_mul, hu, hv]
  exact (Int.mul_emod _ _ _).symm

theorem Holds.add (hu : Holds u x) (hv : Holds v y) : Holds (u + v) (x + y) := by
  unfold Holds at *
  rw [UInt64.toNat_add, Int.natCast_emod, Int.natCast_add, hu, hv]
  exact (Int.add_emod _ _ _).symm

theorem Holds.sub (hu : Holds u x) (hv : Holds v y) : Holds (u - v) (x - y) := by
  have hlt := v.toNat_lt
  unfold Holds at *
  rw [UInt64.toNat_sub]
  omega

theorem Holds.toInt (hu : Holds u x) (hx : IsS64 x) : u.toInt64.toInt = x := by
  have hint : u.toInt64.toInt = (u.toNat : Int).bmod (2 ^ 64) := BitVec.toInt_eq_toNat_bmod u.toBitVec
  unfold Holds at hu
  unfold IsS64 at hx
  rw [hint, hu, emod_bmod_word]
  exact Int.bmod_eq_of_le (by omega) (by omega)

theorem Holds.toNat (hu : Holds u x) (h0 : 0 ≤ x) (hx : IsU64 x) : u.toNat = x.natAbs := by
  unfold Holds at hu
  unfold IsU64 at hx
  omega

theorem holds_cross (a b : Rational) : Holds (a.num.toUInt64 * b.den) (cross a b) :=
  (holds_toUInt64 _).mul (holds_toNat _)

/-- The word that `operator/` stores as the denominator. -/
theorem holds_divDen (a b : Rational) : Holds (a.den * b.num.toUInt64) (cross b a) := by
  rw [cross, Int.mul_comm]
  exact (holds_toNat _).mul (holds_toUInt64 _)

theorem toNat_denProduct (h : IsU64 (denProduct a b)) : (a.den * b.den).toNat = denProduct a b := by
  have hholds : Holds (a.den * b.den) (denProduct a b) := (holds_toNat a.den).mul (holds_toNat b.den)
  exact hholds.toNat (Int.natCast_nonneg _) h

/-! ## The greatest common divisor -/

theorem toNat_gcdLoop (u v : UInt64) : (gcdLoop u v).toNat = Nat.gcd u.toNat v.toNat := by
  induction u, v using gcdLoop.induct with
  | case1 u v hu ih =>
    rw [gcdLoop, if_pos hu, ih, UInt64.toNat_mod, ← Nat.gcd_rec]
  | case2 u v hu =>
    have hzero : u.toNat = 0 := Nat.eq_zero_of_not_pos fun h => hu (UInt64.lt_iff_toNat_lt.mpr h)
    rw [gcdLoop, if_neg hu, hzero, Nat.gcd_zero_left]

/-- The word that the loop starts with is the absolute value of the numerator. -/
theorem toNat_abs (x : Int64) : (if x ≥ 0 then x.toUInt64 else (-x).toUInt64).toNat = x.toInt.natAbs := by
  have hle := x.le_toInt
  have hlt := x.toInt_lt
  by_cases hx : x ≥ 0
  · have hx' : 0 ≤ x.toInt := Int64.le_iff_toInt_le.mp hx
    rw [if_pos hx]
    have hholds := holds_toUInt64 x
    unfold Holds at hholds
    omega
  · have hx' : ¬ 0 ≤ x.toInt := fun h => hx (Int64.le_iff_toInt_le.mpr h)
    rw [if_neg hx]
    have hholds := holds_toUInt64 (-x)
    unfold Holds at hholds
    rw [Int64.toInt_neg, bmod_emod_word] at hholds
    omega

/-! ## Reduction -/

/-- What `Normalize` computes. A negative numerator is divided as the word that it is converted to. -/
theorem normalize_eq {g : Nat} (hd : 0 < r.den.toNat) (hg : r.den.toNat.gcd r.num.toInt.natAbs = g) :
    r.normalize.den.toNat = r.den.toNat / g ∧
      r.normalize.num.toInt =
        if g = 1 then r.num.toInt
        else if 0 ≤ r.num.toInt then r.num.toInt / g else (2 ^ 64 + r.num.toInt) / g := by
  have hgcd : (gcdLoop (if r.num ≥ 0 then r.num.toUInt64 else (-r.num).toUInt64) r.den).toNat = g := by
    rw [toNat_gcdLoop, toNat_abs, Nat.gcd_comm, hg]
  have hpos : 0 < g := by
    rw [← hg]
    exact Nat.gcd_pos_of_pos_left _ hd
  simp only [normalize]
  generalize gcdLoop (if r.num ≥ 0 then r.num.toUInt64 else (-r.num).toUInt64) r.den = w at hgcd
  by_cases hone : g = 1
  · have hw : ¬ w > 1 := by
      intro hw
      have hlt : 1 < w.toNat := UInt64.lt_iff_toNat_lt.mp hw
      omega
    rw [if_neg hw, if_pos hone, hone, Nat.div_one]
    exact ⟨rfl, rfl⟩
  · have hw : w > 1 := UInt64.lt_iff_toNat_lt.mpr (by show 1 < w.toNat; omega)
    rw [if_pos hw, if_neg hone]
    have hle := r.num.le_toInt
    have hlt := r.num.toInt_lt
    have hword := holds_toUInt64 r.num
    unfold Holds at hword
    have hquot : Holds (r.num.toUInt64 / w) ((r.num.toUInt64.toNat / g : Nat) : Int) := by
      rw [← hgcd, ← UInt64.toNat_div]
      exact holds_toNat _
    have hhalf : r.num.toUInt64.toNat / g ≤ r.num.toUInt64.toNat / 2 := Nat.div_le_div_left (by omega) (by omega)
    have hrange : IsS64 ((r.num.toUInt64.toNat / g : Nat) : Int) := by
      have hword_lt := r.num.toUInt64.toNat_lt
      have hbound : r.num.toUInt64.toNat / g < 9223372036854775808 := by omega
      unfold IsS64
      exact ⟨by have := Int.natCast_nonneg (r.num.toUInt64.toNat / g); omega, by exact_mod_cast hbound⟩
    constructor
    · rw [UInt64.toNat_div, hgcd]
    · rw [hquot.toInt hrange, Int.natCast_ediv]
      split
      · congr 1
        omega
      · congr 1
        omega

/-- The reduction leaves a positive denominator, not a greater one. -/
theorem normalize_den (hd : 0 < r.den.toNat) :
    0 < r.normalize.den.toNat ∧ r.normalize.den.toNat ≤ r.den.toNat := by
  rw [(normalize_eq hd rfl).1]
  exact ⟨Nat.div_pos (Nat.gcd_le_left _ hd) (Nat.gcd_pos_of_pos_left _ hd), Nat.div_le_self _ _⟩

/-- The reduction of a number is zero if the number is. -/
theorem normalize_num_eq_zero_iff (hd : 0 < r.den.toNat) : r.normalize.num = 0 ↔ r.num = 0 := by
  obtain ⟨-, hnum⟩ := normalize_eq hd rfl
  generalize hg : r.den.toNat.gcd r.num.toInt.natAbs = g at hnum
  have hgpos : (0 : Int) < g := by exact_mod_cast hg ▸ Nat.gcd_pos_of_pos_left _ hd
  have hle := r.num.le_toInt
  rw [← Int64.toInt_inj, ← Int64.toInt_inj, Int64.toInt_zero, hnum]
  constructor
  · intro h
    by_contra hne
    have hgle : g ≤ r.num.toInt.natAbs := hg ▸ Nat.gcd_le_right _ (Int.natAbs_pos.mpr hne)
    -- the numerator, or the word for it, is at least the divisor
    have hone (x : Int) (hx : (g : Int) ≤ x) : 1 ≤ x / g := (Int.le_ediv_iff_mul_le hgpos).mpr (by rwa [one_mul])
    split at h
    · exact hne h
    · split at h
      · have := hone _ (by omega : (g : Int) ≤ r.num.toInt)
        omega
      · have := hone _ (by omega : (g : Int) ≤ 2 ^ 64 + r.num.toInt)
        omega
  · intro h
    rw [h, if_pos (le_refl 0), Int.zero_ediv, ite_self]

theorem represents_iff : r.Represents q ↔ r.num.toInt = q.num ∧ r.den.toNat = q.den := by
  constructor
  · intro ⟨⟨hpos, hcop⟩, hq⟩
    have hden : (0 : Int) < (r.den.toNat : Int) := Int.natCast_pos.mpr hpos
    have hcop' : r.num.toInt.natAbs.Coprime (r.den.toNat : Int).natAbs := hcop
    have hvalue : q = (r.num.toInt : ℚ) / ((r.den.toNat : Int) : ℚ) := hq.symm
    constructor
    · rw [hvalue, Rat.num_div_eq_of_coprime hden hcop']
    · have := Rat.den_div_eq_of_coprime hden hcop'
      rw [← hvalue] at this
      exact_mod_cast this.symm
  · intro ⟨hnum, hden⟩
    refine ⟨⟨hden ▸ q.den_pos, ?_⟩, ?_⟩
    · rw [hnum, hden]
      exact q.reduced
    · rw [value, hnum, hden, Rat.num_div_den]

/-- `Set` is exact unless a negative numerator is to be reduced. -/
theorem set_represents_iff {num : Int64} {den : UInt64} {D : Nat} (hn : num.toInt = n) (hd : den.toNat = D) (hpos : 0 < D) :
    (set num den).Represents (mkRat n D) ↔ Reduces n D := by
  subst hn hd
  have hne : den ≠ 0 := by
    rintro rfl
    exact absurd hpos (Nat.lt_irrefl 0)
  obtain ⟨g, hg⟩ : ∃ g, den.toNat.gcd num.toInt.natAbs = g := ⟨_, rfl⟩
  obtain ⟨hden, hnum⟩ := normalize_eq (r := ⟨num, den⟩) hpos hg
  have hD : den.toNat ≠ 0 := Nat.ne_of_gt hpos
  simp only at hden hnum
  rw [represents_iff, set, if_pos hne, Rat.num_mkRat, Rat.den_mkRat, if_neg hD, if_neg hD, hden, hnum, hg]
  unfold Reduces
  rw [Nat.coprime_comm, Nat.Coprime, hg]
  have hgpos : 0 < g := by
    rw [← hg]
    exact Nat.gcd_pos_of_pos_left _ hpos
  by_cases hone : g = 1
  · simp [hone]
  · rw [if_neg hone]
    by_cases hneg : 0 ≤ num.toInt
    · simp [hneg]
    · have hle := num.le_toInt
      have hq : 0 ≤ (2 ^ 64 + num.toInt) / (g : Int) := Int.ediv_nonneg (by omega) (by omega)
      have hlt : num.toInt / (g : Int) < 0 := Int.ediv_neg_of_neg_of_pos (by omega) (by omega)
      constructor
      · rintro ⟨h, -⟩
        rw [if_neg hneg] at h
        omega
      · intro h
        omega

/-- A negative divisor: the denominator is the complement of its absolute value. The two fractions are equal
in one case only, which the bounds leave over. -/
theorem eq_of_complement {k m g h : Nat} (hk : 0 < k) (hk63 : k ≤ 2 ^ 63) (hm : 0 < m) (hm64 : m < 2 ^ 64)
    (hg : (2 ^ 64 - m).gcd k = g) (hh : m.gcd k = h) (hnum : (2 ^ 64 - k) / g = k / h)
    (hden : (2 ^ 64 - m) / g = m / h) : k = 2 ^ 63 ∧ m = 2 ^ 63 := by
  have hhpos : 0 < h := by
    rw [← hh]
    exact Nat.gcd_pos_of_pos_left _ hm
  have hgpos : 0 < g := by
    rw [← hg]
    exact Nat.gcd_pos_of_pos_right _ hk
  obtain ⟨b, hb⟩ : h ∣ m := hh ▸ Nat.gcd_dvd_left m k
  obtain ⟨a, ha⟩ : h ∣ k := hh ▸ Nat.gcd_dvd_right m k
  have hgm : g ∣ 2 ^ 64 - m := hg ▸ Nat.gcd_dvd_left _ k
  have hgk : g ∣ k := hg ▸ Nat.gcd_dvd_right _ k
  have hcop : Nat.Coprime b a := by
    have hdiv := Nat.coprime_div_gcd_div_gcd (hh ▸ hhpos : 0 < m.gcd k)
    rwa [hh, hb, ha, Nat.mul_div_cancel_left _ hhpos, Nat.mul_div_cancel_left _ hhpos] at hdiv
  rw [ha, Nat.mul_div_cancel_left _ hhpos] at hnum
  rw [hb, Nat.mul_div_cancel_left _ hhpos] at hden
  rw [← ha] at hnum
  rw [← hb] at hden
  -- the denominators agree exactly, the numerators up to the remainder
  have hsum : b * (g + h) = 2 ^ 64 := by
    have hmul : g * b = 2 ^ 64 - m := by rw [← hden, Nat.mul_div_cancel' hgm]
    rw [Nat.mul_add, Nat.mul_comm b g, hmul, Nat.mul_comm b h, ← hb]
    omega
  have hlow : a * (g + h) ≤ 2 ^ 64 := by
    have hle : g * a ≤ 2 ^ 64 - k := hnum ▸ Nat.mul_div_le _ _
    rw [Nat.mul_add, Nat.mul_comm a g, Nat.mul_comm a h, ← ha]
    omega
  have hhigh : 2 ^ 64 < a * (g + h) + g := by
    have hlt : 2 ^ 64 - k < g * (a + 1) := hnum ▸ Nat.lt_mul_div_succ _ hgpos
    rw [Nat.mul_add, Nat.mul_one] at hlt
    rw [Nat.mul_add, Nat.mul_comm a g, Nat.mul_comm a h, ← ha]
    omega
  have hab : a = b := by
    apply Nat.le_antisymm
    · exact Nat.le_of_mul_le_mul_right (by rw [hsum]; exact hlow) (by omega : 0 < g + h)
    · have hlt : b * (g + h) < (a + 1) * (g + h) := by
        rw [hsum, Nat.add_mul, Nat.one_mul]
        omega
      exact Nat.le_of_lt_succ (Nat.lt_of_mul_lt_mul_right hlt)
  have hone : a = 1 := by
    rw [hab, Nat.coprime_self] at hcop
    rw [hab, hcop]
  rw [hone, Nat.mul_one] at ha
  rw [← hab, hone, Nat.mul_one] at hb
  rw [← hab, hone, Nat.one_mul] at hsum
  have hgle : g ≤ k := Nat.le_of_dvd hk hgk
  omega

theorem set_complement_iff {num : Int64} {den : UInt64} {m : Nat} (hn : num.toInt = n) (hd : den.toNat = 2 ^ 64 - m)
    (hm : 0 < m) (hm64 : m < 2 ^ 64) :
    (set num den).Represents (mkRat (-n) m) ↔ n = 0 ∨ (n = -2 ^ 63 ∧ m = 2 ^ 63) := by
  subst hn
  have hpos : 0 < den.toNat := by omega
  have hne : den ≠ 0 := by
    rintro rfl
    exact absurd hpos (Nat.lt_irrefl 0)
  obtain ⟨g, hg⟩ : ∃ g, den.toNat.gcd num.toInt.natAbs = g := ⟨_, rfl⟩
  obtain ⟨h, hh⟩ : ∃ h, m.gcd num.toInt.natAbs = h := ⟨_, rfl⟩
  obtain ⟨hden, hnum⟩ := normalize_eq (r := ⟨num, den⟩) hpos hg
  have hle := num.le_toInt
  have hgpos : 0 < g := by
    rw [← hg]
    exact Nat.gcd_pos_of_pos_left _ hpos
  have hhpos : 0 < h := by
    rw [← hh]
    exact Nat.gcd_pos_of_pos_left _ hm
  have hm0 : m ≠ 0 := Nat.ne_of_gt hm
  simp only at hden hnum
  rw [represents_iff, set, if_pos hne, Rat.num_mkRat, Rat.den_mkRat, if_neg hm0, if_neg hm0, hden, hnum, Int.natAbs_neg, hh, hd]
  rcases Int.lt_trichotomy num.toInt 0 with hneg | hzero | hposn
  · -- both quotients are quotients of natural numbers
    obtain ⟨k, hk⟩ : ∃ k : Nat, num.toInt = -k := ⟨num.toInt.natAbs, by omega⟩
    rw [hk, Int.natAbs_neg, Int.natAbs_natCast] at hg hh
    rw [hd] at hg
    rw [hk, Int.neg_neg, if_neg (by omega : ¬ (0 : Int) ≤ -k)]
    constructor
    · intro ⟨h1, h2⟩
      right
      by_cases hone : g = 1
      · rw [if_pos hone] at h1
        have hq : (0 : Int) ≤ (k : Int) / h := Int.ediv_nonneg (by omega) (by omega)
        omega
      · rw [if_neg hone] at h1
        have hcast : (2 ^ 64 + -(k : Int)) = ((2 ^ 64 - k : Nat) : Int) := by omega
        rw [hcast] at h1
        have hcomp := eq_of_complement (by omega) (by omega) hm hm64 hg hh (by exact_mod_cast h1) h2
        omega
    · intro hcase
      have hk63 : k = 2 ^ 63 := by omega
      have hm63 : m = 2 ^ 63 := by omega
      subst hk63 hm63
      have hg63 : g = 2 ^ 63 := by rw [← hg]; decide +kernel
      have hh63 : h = 2 ^ 63 := by rw [← hh]; decide +kernel
      rw [hg63, hh63]
      decide +kernel
  · rw [hzero, Int.natAbs_zero, Nat.gcd_zero_right] at hg hh
    rw [hd] at hg
    rw [← hg, ← hh, hzero, Nat.div_self (by omega), Nat.div_self hm]
    simp
  · constructor
    · rintro ⟨h1, -⟩
      exfalso
      have hlt : -num.toInt / (h : Int) < 0 := Int.ediv_neg_of_neg_of_pos (by omega) (by omega)
      have hge : 0 ≤ num.toInt / (g : Int) := Int.ediv_nonneg (by omega) (by omega)
      rw [if_pos (by omega : 0 ≤ num.toInt)] at h1
      split at h1
      · omega
      · omega
    · intro hcase
      omega

/-! ## The operations -/

/-- A quotient of integers as a fraction with a positive denominator. -/
theorem div_eq_mkRat_of_pos (x : Int) (hy : 0 < y) : (x : ℚ) / (y : ℚ) = mkRat x y.natAbs := by
  rw [Rat.mkRat_eq_div, Nat.cast_natAbs, abs_of_pos hy]

theorem div_eq_mkRat_of_neg (x : Int) (hy : y < 0) : (x : ℚ) / (y : ℚ) = mkRat (-x) y.natAbs := by
  rw [Rat.mkRat_eq_div, Nat.cast_natAbs, abs_of_neg hy]
  push_cast
  rw [neg_div_neg_eq]

theorem Lowest.den_pos (ha : a.Lowest) : (0 : ℚ) < a.den.toNat := by exact_mod_cast ha.1

section

variable (ha : a.Lowest) (hb : b.Lowest)
include ha hb

theorem denProduct_pos : 0 < denProduct a b := Nat.mul_pos ha.1 hb.1

/-- The two numbers over the product of the denominators. -/
theorem value_eq_cross : a.value = (cross a b : ℚ) / denProduct a b ∧ b.value = (cross b a : ℚ) / denProduct a b := by
  have hda := ha.den_pos.ne'
  have hdb := hb.den_pos.ne'
  rw [value, value, cross, cross, denProduct]
  push_cast
  constructor
  · field_simp
  · field_simp

theorem add_iff (hf : Fits a b .add) : Exact a b .add ↔ HoldsWhen a b .add := by
  obtain ⟨-, -, hsum, hden⟩ := hf
  obtain ⟨hleft, hright⟩ := value_eq_cross ha hb
  have hvalue : a.value + b.value = mkRat (cross a b + cross b a) (denProduct a b) := by
    rw [hleft, hright, Rat.mkRat_eq_div, ← add_div]
    push_cast
    rfl
  unfold Exact HoldsWhen
  rw [hvalue]
  exact set_represents_iff (((holds_cross a b).add (holds_cross b a)).toInt hsum) (toNat_denProduct hden)
    (denProduct_pos ha hb)

theorem sub_iff (hf : Fits a b .sub) : Exact a b .sub ↔ HoldsWhen a b .sub := by
  obtain ⟨-, -, hsum, hden⟩ := hf
  obtain ⟨hleft, hright⟩ := value_eq_cross ha hb
  have hvalue : a.value - b.value = mkRat (cross a b - cross b a) (denProduct a b) := by
    rw [hleft, hright, Rat.mkRat_eq_div, ← sub_div]
    push_cast
    rfl
  unfold Exact HoldsWhen
  rw [hvalue]
  exact set_represents_iff (((holds_cross a b).sub (holds_cross b a)).toInt hsum) (toNat_denProduct hden)
    (denProduct_pos ha hb)

theorem mul_iff (hf : Fits a b .mul) : Exact a b .mul ↔ HoldsWhen a b .mul := by
  obtain ⟨hprod, hden⟩ := hf
  have hvalue : a.value * b.value = mkRat (a.num.toInt * b.num.toInt) (denProduct a b) := by
    rw [Rat.mkRat_eq_div, value, value, denProduct, div_mul_div_comm]
    push_cast
    rfl
  have hnum : (a.num * b.num).toInt = a.num.toInt * b.num.toInt := by
    unfold IsS64 at hprod
    rw [Int64.toInt_mul]
    exact Int.bmod_eq_of_le (by omega) (by omega)
  unfold Exact HoldsWhen
  rw [hvalue]
  exact set_represents_iff hnum (toNat_denProduct hden) (denProduct_pos ha hb)

theorem div_iff (hd : Defined a b .div) (hf : Fits a b .div) : Exact a b .div ↔ HoldsWhen a b .div := by
  obtain ⟨hnum, hden⟩ := hf
  have hcross := (holds_cross a b).toInt hnum
  have hword := holds_divDen a b
  have hda : (0 : Int) < a.den.toNat := by exact_mod_cast ha.1
  have hne : b.num.toInt ≠ 0 := fun h => hd (Int64.toInt_inj.mp h)
  have hquot : a.value / b.value = (cross a b : ℚ) / (cross b a : ℚ) := by
    obtain ⟨hleft, hright⟩ := value_eq_cross ha hb
    have hden0 : (denProduct a b : ℚ) ≠ 0 := by exact_mod_cast (denProduct_pos ha hb).ne'
    rw [hleft, hright, div_div_div_cancel_right₀ hden0]
  unfold IsU64 at hden
  unfold Exact HoldsWhen
  rw [hquot]
  by_cases hpos : 0 < b.num.toInt
  · have hc : 0 < cross b a := Int.mul_pos hpos hda
    rw [if_pos hpos, div_eq_mkRat_of_pos _ hc]
    exact set_represents_iff hcross (hword.toNat (Int.le_of_lt hc) hden) (by omega)
  · have hc : cross b a < 0 := Int.mul_neg_of_neg_of_pos (by omega) hda
    have hcomp : (a.den * b.num.toUInt64).toNat = 2 ^ 64 - (cross b a).natAbs := by
      unfold Holds at hword
      omega
    rw [if_neg hpos, div_eq_mkRat_of_neg _ hc, div, set_complement_iff hcross hcomp (by omega) hden]
    have hzero : cross a b = 0 ↔ a.num = 0 := by
      rw [cross, Int.mul_eq_zero, ← Int64.toInt_inj]
      constructor
      · intro h
        rcases h with h | h
        · exact h
        · exact absurd h (by have := hb.1; omega)
      · exact .inl
    rw [hzero]
    constructor
    · intro h
      rcases h with h | ⟨h1, h2⟩
      · exact .inl h
      · right
        omega
    · intro h
      rcases h with h | ⟨h1, h2⟩
      · exact .inl h
      · right
        omega

omit hb in
theorem inv_iff (hd : Defined a b .inv) (hf : Fits a b .inv) : Exact a b .inv ↔ HoldsWhen a b .inv := by
  have hne : a.num.toInt ≠ 0 := fun h => hd (Int64.toInt_inj.mp h)
  have hden : a.den.toInt64.toInt = a.den.toNat := (holds_toNat a.den).toInt hf
  have hpos : (0 : Int) < a.den.toNat := by exact_mod_cast ha.1
  have hle := a.num.le_toInt
  have hlt := a.num.toInt_lt
  have hword := holds_toUInt64 a.num
  have hinv : a.value⁻¹ = ((a.den.toNat : Int) : ℚ) / (a.num.toInt : ℚ) := by
    rw [value, inv_div, Int.cast_natCast]
  unfold Exact HoldsWhen
  rw [hinv]
  by_cases hsign : 0 < a.num.toInt
  · have hnum : a.num.toUInt64.toNat = a.num.toInt.natAbs := hword.toNat (Int.le_of_lt hsign) (by unfold IsU64; omega)
    rw [div_eq_mkRat_of_pos _ hsign, inv, set_represents_iff hden hnum (by omega)]
    exact ⟨fun _ => hsign, fun _ => .inl (Int.le_of_lt hpos)⟩
  · have hneg : a.num.toInt < 0 := by omega
    have hnum : a.num.toUInt64.toNat = 2 ^ 64 - a.num.toInt.natAbs := by
      unfold Holds at hword
      omega
    rw [div_eq_mkRat_of_neg _ hneg, inv, set_complement_iff hden hnum (by omega) (by omega)]
    constructor
    · omega
    · intro h
      exact absurd h hsign

theorem eq_iff : a.eq b = true ↔ a.value = b.value := by
  have hself : ∀ {r : Rational}, r.Lowest → r.num.toInt = r.value.num ∧ r.den.toNat = r.value.den :=
    fun hr => represents_iff.mp ⟨hr, rfl⟩
  obtain ⟨hna, hda⟩ := hself ha
  obtain ⟨hnb, hdb⟩ := hself hb
  rw [eq, Bool.and_eq_true, beq_iff_eq, beq_iff_eq, ← Int64.toInt_inj, ← UInt64.toNat_inj, hna, hnb, hda, hdb]
  constructor
  · intro ⟨hn, hd⟩
    exact Rat.ext hn hd
  · intro h
    rw [h]
    exact ⟨rfl, rfl⟩

/-- The order of the numbers is that of the cross products. -/
theorem value_lt_iff : a.value < b.value ↔ cross a b < cross b a := by
  rw [value, value, div_lt_div_iff₀ ha.den_pos hb.den_pos, cross, cross]
  exact_mod_cast Iff.rfl

theorem value_le_iff : a.value ≤ b.value ↔ cross a b ≤ cross b a := by
  rw [value, value, div_le_div_iff₀ ha.den_pos hb.den_pos, cross, cross]
  exact_mod_cast Iff.rfl

theorem order_exact (hleft : IsS64 (cross a b)) (hright : IsS64 (cross b a)) :
    (a.lt b = true ↔ a.value < b.value) ∧ (a.le b = true ↔ a.value ≤ b.value) ∧
      (a.gt b = true ↔ a.value > b.value) ∧ (a.ge b = true ↔ a.value ≥ b.value) := by
  have hl : (a.leftProduct b).toInt = cross a b := (holds_cross a b).toInt hleft
  have hr : (a.rightProduct b).toInt = cross b a := (holds_divDen a b).toInt hright
  rw [lt, le, gt, ge, decide_eq_true_iff, decide_eq_true_iff, decide_eq_true_iff, decide_eq_true_iff, gt_iff_lt, gt_iff_lt,
    ge_iff_le, ge_iff_le, value_lt_iff ha hb, value_le_iff ha hb, value_lt_iff hb ha, value_le_iff hb ha, Int64.lt_iff_toInt_lt,
    Int64.le_iff_toInt_le, Int64.lt_iff_toInt_lt, Int64.le_iff_toInt_le, hl, hr]
  exact ⟨Iff.rfl, Iff.rfl, Iff.rfl, Iff.rfl⟩

end

/-- The result of an operation is exact if and only if no negative number is reduced and the divisor is
positive, apart from the quotients of zero and of two least numerators by a negative divisor. -/
theorem exact_iff (op : Op) (ha : a.Lowest) (hb : b.Lowest) (hd : Defined a b op) (hf : Fits a b op) :
    Exact a b op ↔ HoldsWhen a b op := by
  cases op with
  | add => exact add_iff ha hb hf
  | sub => exact sub_iff ha hb hf
  | mul => exact mul_iff ha hb hf
  | div => exact div_iff ha hb hd hf
  | inv => exact inv_iff ha hd hf
  | eq => exact iff_of_true (eq_iff ha hb) trivial
  | lt => exact iff_of_true (order_exact ha hb hf.1 hf.2).1 trivial
  | le => exact iff_of_true (order_exact ha hb hf.1 hf.2).2.1 trivial
  | gt => exact iff_of_true (order_exact ha hb hf.1 hf.2).2.2.1 trivial
  | ge => exact iff_of_true (order_exact ha hb hf.1 hf.2).2.2.2 trivial

theorem third_sub_half : Exact ⟨1, 3⟩ ⟨1, 2⟩ .sub :=
  (exact_iff .sub (by decide) (by decide) trivial (by decide)).mpr (by decide)

/-- `-1/2 + -1/2`. -/
theorem not_exact_minus_halves :
    Lowest ⟨-1, 2⟩ ∧ Fits ⟨-1, 2⟩ ⟨-1, 2⟩ .add ∧ ¬ Exact ⟨-1, 2⟩ ⟨-1, 2⟩ .add := by
  refine ⟨by decide, by decide, ?_⟩
  rw [add_iff (by decide) (by decide) (by decide)]
  decide

end BofStd.Rational

/-!
# The rounding of `BofRational`

`Floor`, `Ceil` and `Round` divide as unsigned words. The quotient of a dividend that is not negative is the one
of the integers. A negative dividend is converted to a word of 64 bits before it is divided: the quotient by two or
more is not negative, which none of the three results can be.
-/

namespace BofStd.Rational

variable {r : Rational} {u d : UInt64} {x n : Int}

/-- The quotient of a word that holds an integer which is not negative. -/
theorem toInt_div_of_nonneg (hu : Holds u x) (h0 : 0 ≤ x) (hx : x < 2 ^ 63) :
    (u / d).toInt64.toInt = x / d.toNat := by
  have hnat : u.toNat = x.natAbs := hu.toNat h0 (by unfold IsU64; omega)
  have hcast : ((u.toNat / d.toNat : Nat) : Int) = x / d.toNat := by
    rw [hnat, Int.natCast_ediv, Int.natAbs_of_nonneg h0]
  have hpos : 0 ≤ x / d.toNat := Int.ediv_nonneg h0 (Int.natCast_nonneg _)
  have hle : x / d.toNat ≤ x := Int.ediv_le_self _ h0
  have hholds : Holds (u / d) (x / d.toNat) := by
    rw [← hcast, ← UInt64.toNat_div]
    exact holds_toNat _
  exact hholds.toInt ⟨by omega, by omega⟩

/-- A quotient by two or more, converted to a signed word. -/
theorem toInt_div_nonneg (u : UInt64) (hd : 2 ≤ d.toNat) : 0 ≤ (u / d).toInt64.toInt := by
  have hlt := u.toNat_lt
  have hhalf : u.toNat / d.toNat ≤ u.toNat / 2 := Nat.div_le_div_left hd (by omega)
  have hholds := holds_toNat (u / d)
  rw [UInt64.toNat_div] at hholds
  generalize u.toNat / d.toNat = q at hhalf hholds
  rw [hholds.toInt ⟨by omega, by omega⟩]
  exact Int.natCast_nonneg q

/-- The word that `Ceil` divides. -/
theorem holds_ceil (r : Rational) : Holds (r.num.toUInt64 + r.den - 1) (r.num.toInt + r.den.toNat - 1) :=
  ((holds_toUInt64 _).add (holds_toNat _)).sub (holds_toNat 1)

/-- Half of the denominator, rounded up. -/
theorem toNat_half (h : d.toNat < 2 ^ 63) : ((d + 1) >>> 1).toNat = (d.toNat + 1) / 2 := by
  have hone : (1 : UInt64).toNat = 1 := rfl
  rw [UInt64.toNat_shiftRight, UInt64.toNat_add, hone, Nat.mod_eq_of_lt (by omega)]
  show (d.toNat + 1) >>> 1 = _
  rw [Nat.shiftRight_eq_div_pow, Nat.pow_one]

/-- The word that `Round` divides. -/
theorem holds_round (h : r.den.toNat < 2 ^ 63) :
    Holds (r.num.toUInt64 + (r.den + 1) >>> 1) (r.num.toInt + (r.den.toNat + 1) / 2) := by
  have hhalf : (((r.den + 1) >>> 1).toNat : Int) = (r.den.toNat + 1) / 2 := by
    rw [toNat_half h]
    omega
  rw [← hhalf]
  exact (holds_toUInt64 _).add (holds_toNat _)

/-- A quotient of one is the dividend. -/
theorem toInt_div_one (hu : Holds u x) (hx : IsS64 x) (hd : d.toNat = 1) : (u / d).toInt64.toInt = x := by
  have h1 : d = 1 := UInt64.toNat_inj.mp hd
  rw [h1, UInt64.div_one]
  exact hu.toInt hx

theorem floor_iff (h : InRange r) : r.floor.toInt = ⌊r.value⌋ ↔ 0 ≤ r.num.toInt ∨ r.den.toNat = 1 := by
  obtain ⟨hd, hfit⟩ := h
  have hfloor : ⌊r.value⌋ = r.num.toInt / r.den.toNat := Rat.floor_intCast_div_natCast _ _
  rw [hfloor, floor]
  rcases Nat.lt_or_ge 1 r.den.toNat with hd2 | hd1
  · rcases Int.lt_or_le r.num.toInt 0 with hneg | hpos
    · refine iff_of_false (fun heq => ?_) (by omega)
      have hquot := toInt_div_nonneg r.num.toUInt64 hd2
      have hfl : r.num.toInt / r.den.toNat < 0 := Int.ediv_neg_of_neg_of_pos hneg (by omega)
      omega
    · exact iff_of_true (toInt_div_of_nonneg (holds_toUInt64 _) hpos (by omega)) (.inl hpos)
  · have hone : r.den.toNat = 1 := by omega
    refine iff_of_true ?_ (.inr hone)
    rw [toInt_div_one (holds_toUInt64 _) ⟨by omega, by omega⟩ hone, hone]
    simp

/-- Rounding up by adding the denominator less one. -/
theorem add_sub_one_ediv (n : Int) {d : Int} (hd : 0 < d) : (n + d - 1) / d = -((-n) / d) := by
  have hlow : (-n) / d * d ≤ -n := Int.ediv_mul_le _ (by omega)
  have hhigh : -n < ((-n) / d + 1) * d := Int.lt_ediv_add_one_mul_self _ hd
  rw [Int.add_mul, Int.one_mul] at hhigh
  rw [Int.ediv_eq_iff_of_pos hd, Int.neg_mul]
  omega

theorem ceil_iff (h : InRange r) : r.ceil.toInt = ⌈r.value⌉ ↔ -r.den.toNat < r.num.toInt ∨ r.den.toNat = 1 := by
  obtain ⟨hd, hfit⟩ := h
  have hceil : ⌈r.value⌉ = -((-r.num.toInt) / r.den.toNat) := Rat.ceil_intCast_div_natCast _ _
  have hd0 : (0 : Int) < r.den.toNat := by omega
  rw [hceil, ceil]
  rcases Nat.lt_or_ge 1 r.den.toNat with hd2 | hd1
  · rcases Int.lt_or_le (r.num.toInt + r.den.toNat - 1) 0 with hneg | hpos
    · refine iff_of_false (fun heq => ?_) (by omega)
      have hquot := toInt_div_nonneg (r.num.toUInt64 + r.den - 1) hd2
      have hup : 1 ≤ (-r.num.toInt) / r.den.toNat := (Int.le_ediv_iff_mul_le hd0).mpr (by omega)
      omega
    · refine iff_of_true ?_ (by omega)
      rw [toInt_div_of_nonneg (holds_ceil r) hpos (by omega)]
      exact add_sub_one_ediv _ hd0
  · have hone : r.den.toNat = 1 := by omega
    refine iff_of_true ?_ (.inr hone)
    rw [toInt_div_one (holds_ceil r) ⟨by omega, by omega⟩ hone, hone]
    simp

/-- The distance of an integer and a fraction. -/
theorem abs_sub_value_le_half_iff (hd : 0 < r.den.toNat) (z : Int) :
    |(z : ℚ) - r.value| ≤ 1 / 2 ↔
      -(r.den.toNat : Int) ≤ 2 * (z * r.den.toNat - r.num.toInt) ∧ 2 * (z * r.den.toNat - r.num.toInt) ≤ r.den.toNat := by
  have hd0 : (0 : ℚ) < r.den.toNat := by exact_mod_cast hd
  have hval : (z : ℚ) - r.value = ((z * r.den.toNat - r.num.toInt : Int) : ℚ) / r.den.toNat := by
    rw [value]
    push_cast
    field_simp
  rw [hval, abs_le]
  generalize z * r.den.toNat - r.num.toInt = k
  rw [le_div_iff₀ hd0, div_le_iff₀ hd0]
  constructor
  · rintro ⟨hlow, hhigh⟩
    constructor
    · have hlow' : -(r.den.toNat : ℚ) ≤ 2 * k := by linarith
      exact_mod_cast hlow'
    · have hhigh' : 2 * (k : ℚ) ≤ r.den.toNat := by linarith
      exact_mod_cast hhigh'
  · rintro ⟨hlow, hhigh⟩
    have hlow' : -(r.den.toNat : ℚ) ≤ 2 * k := by exact_mod_cast hlow
    have hhigh' : 2 * (k : ℚ) ≤ r.den.toNat := by exact_mod_cast hhigh
    constructor
    · linarith
    · linarith

/-- Adding half of the denominator rounds to the nearest integer, but for an odd denominator that divides the sum. -/
theorem round_ediv_iff (n : Int) {d : Int} (hd : 0 < d) :
    (-d ≤ 2 * ((n + (d + 1) / 2) / d * d - n) ∧ 2 * ((n + (d + 1) / 2) / d * d - n) ≤ d) ↔
      d % 2 = 0 ∨ (n + (d + 1) / 2) % d ≠ 0 := by
  have hdiv := Int.ediv_mul_add_emod (n + (d + 1) / 2) d
  have hlow := Int.emod_nonneg (n + (d + 1) / 2) (by omega : d ≠ 0)
  have hhigh := Int.emod_lt_of_pos (n + (d + 1) / 2) hd
  generalize (n + (d + 1) / 2) / d * d = k at *
  generalize (n + (d + 1) / 2) % d = e at *
  omega

theorem round_iff (h : InRange r) : |(r.round.toInt : ℚ) - r.value| ≤ 1 / 2 ↔ RoundHoldsWhen r := by
  obtain ⟨hd, hfit⟩ := h
  have hd0 : (0 : Int) < r.den.toNat := by omega
  have hone : (1 : UInt64).toNat = 1 := rfl
  rw [abs_sub_value_le_half_iff hd, RoundHoldsWhen, round]
  by_cases hd1 : r.den.toNat = 1
  · have hle : ¬ r.den > 1 := fun hgt => by
      have hlt := UInt64.lt_iff_toNat_lt.mp hgt
      omega
    rw [if_neg hle, hd1]
    exact iff_of_true (by omega) (.inl rfl)
  · have hgt : r.den > 1 := UInt64.lt_iff_toNat_lt.mpr (by omega)
    rw [if_pos hgt]
    rcases Int.lt_or_le (r.num.toInt + (r.den.toNat + 1) / 2) 0 with hneg | hpos
    · refine iff_of_false (fun hdist => ?_) (by omega)
      -- the quotient is not negative, and the fraction is below minus one half
      have hquot := toInt_div_nonneg (r.num.toUInt64 + (r.den + 1) >>> 1) (by omega : 2 ≤ r.den.toNat)
      have hmul := Int.mul_nonneg hquot (Int.le_of_lt hd0)
      omega
    · rw [toInt_div_of_nonneg (holds_round (by omega)) hpos (by omega), round_ediv_iff _ hd0]
      omega

/-- `Floor`, `Ceil` and `Round` are exact for these operands and no others. -/
theorem rounding_exact_iff (r : Rational) (h : InRange r) :
    (r.floor.toInt = ⌊r.value⌋ ↔ 0 ≤ r.num.toInt ∨ r.den.toNat = 1) ∧
      (r.ceil.toInt = ⌈r.value⌉ ↔ -r.den.toNat < r.num.toInt ∨ r.den.toNat = 1) ∧
      (|(r.round.toInt : ℚ) - r.value| ≤ 1 / 2 ↔ RoundHoldsWhen r) :=
  ⟨floor_iff h, ceil_iff h, round_iff h⟩

/-- Seven halves. -/
theorem rounding_exact_seven_halves :
    (⟨7, 2⟩ : Rational).floor.toInt = ⌊(⟨7, 2⟩ : Rational).value⌋ ∧
      (⟨7, 2⟩ : Rational).ceil.toInt = ⌈(⟨7, 2⟩ : Rational).value⌉ ∧
      |((⟨7, 2⟩ : Rational).round.toInt : ℚ) - (⟨7, 2⟩ : Rational).value| ≤ 1 / 2 := by
  obtain ⟨hfloor, hceil, hround⟩ := rounding_exact_iff ⟨7, 2⟩ ⟨by decide, by decide⟩
  exact ⟨hfloor.mpr (.inl (by decide)), hceil.mpr (.inl (by decide)), hround.mpr (.inr ⟨by decide, .inl (by decide)⟩)⟩

/-- The largest integer below minus one half, and the integer next to one third. -/
theorem not_rounding_exact :
    (⟨-1, 2⟩ : Rational).floor.toInt ≠ ⌊(⟨-1, 2⟩ : Rational).value⌋ ∧
      ¬ |((⟨1, 3⟩ : Rational).round.toInt : ℚ) - (⟨1, 3⟩ : Rational).value| ≤ 1 / 2 := by
  constructor
  · rw [value, Rat.floor_intCast_div_natCast]
    decide
  · rw [abs_sub_value_le_half_iff (by decide)]
    decide

end BofStd.Rational
