import Mathlib.Tactic.Basic
import Mathlib.Data.Nat.Bitwise

/-!
# Bit fields of a word

`field w k n` is the number in the `n` bits of `w` from bit `k` on. A word is put together from numbers
that are shifted to their places and joined by `|||`; the lemmas read its fields off again: a field of a
union is the union of the fields, a number that ends below the field or is shifted past it contributes
nothing, and a number shifted to the place of the field contributes its low bits.
-/

namespace BitField

/-- The number in the `n` bits from bit `k` on. -/
def field (w k n : Nat) : Nat := w >>> k % 2 ^ n

theorem field_lt (w k n : Nat) : field w k n < 2 ^ n := Nat.mod_lt _ (Nat.two_pow_pos n)

theorem field_or (a b k n : Nat) : field (a ||| b) k n = field a k n ||| field b k n := by
  rw [field, Nat.shiftRight_or_distrib, Nat.or_mod_two_pow]
  rfl

/-- A number that is shifted past the field. -/
theorem field_shiftLeft_of_le (a : Nat) {s k n : Nat} (h : k + n ≤ s) : field (a <<< s) k n = 0 := by
  obtain ⟨d, rfl⟩ := Nat.exists_eq_add_of_le h
  have hsplit : a <<< (k + n + d) = (a <<< d <<< n) <<< k := by
    rw [← Nat.shiftLeft_add, ← Nat.shiftLeft_add]
    congr 1
    omega
  rw [field, hsplit, Nat.shiftLeft_shiftRight, Nat.shiftLeft_eq, Nat.mul_mod_left]

/-- A number that is shifted to the field, or to a place below it. -/
theorem field_shiftLeft (a : Nat) {s k n : Nat} (h : s ≤ k) : field (a <<< s) k n = field a (k - s) n := by
  obtain ⟨d, rfl⟩ := Nat.exists_eq_add_of_le h
  rw [field, Nat.shiftRight_add, Nat.shiftLeft_shiftRight, Nat.add_sub_cancel_left, field]

/-- A number that ends below the field. -/
theorem field_of_lt {a k : Nat} (h : a < 2 ^ k) (n : Nat) : field a k n = 0 := by
  rw [field, Nat.shiftRight_eq_div_pow, Nat.div_eq_of_lt h, Nat.zero_mod]

theorem field_zero_right (a n : Nat) : field a 0 n = a % 2 ^ n := by rw [field, Nat.shiftRight_zero]

/-- Masking the field leaves it at its place. -/
theorem and_mask (w k n : Nat) : w &&& (2 ^ n - 1) <<< k = field w k n <<< k := by
  refine Nat.eq_of_testBit_eq fun i => ?_
  rw [field, Nat.testBit_and, Nat.testBit_shiftLeft, Nat.testBit_two_pow_sub_one, Nat.testBit_shiftLeft,
    Nat.testBit_mod_two_pow, Nat.testBit_shiftRight]
  by_cases hi : k ≤ i
  · rw [Nat.add_sub_cancel' hi]
    simp [hi, Bool.and_comm]
  · simp [hi]

/-- A field of the low part of a word. -/
theorem field_mod {w m k n : Nat} (h : k + n ≤ m) : field (w % 2 ^ m) k n = field w k n := by
  obtain ⟨d, rfl⟩ := Nat.exists_eq_add_of_le h
  refine Nat.eq_of_testBit_eq fun i => ?_
  rw [field, field, Nat.testBit_mod_two_pow, Nat.testBit_mod_two_pow, Nat.testBit_shiftRight,
    Nat.testBit_shiftRight, Nat.testBit_mod_two_pow]
  by_cases hi : i < n
  · have hlt : k + i < k + n + d := by omega
    simp [hi, hlt]
  · simp [hi]

/-- A field of a word that is shifted down. -/
theorem field_shiftRight (w m k n : Nat) : field (w >>> m) k n = field w (m + k) n := by
  rw [field, ← Nat.shiftRight_add, field]

end BitField
