import Mathlib.Tactic.Basic
import Mathlib.Data.List.Basic
import Mathlib.Algebra.Order.Ring.Nat

/-!
# Words as bytes

`bytesLE w v` are the `w` digits of `v` to the base 256, the least significant one first, and `valueLE`
is the number that has the given digits. On words of `w` bytes they are inverse to each other. The other
byte order is `List.reverse`.
-/

namespace Bytes

/-- The `w` low bytes of `v`, the least significant one first. -/
def bytesLE : Nat → Nat → List UInt8
  | 0, _ => []
  | w + 1, v => UInt8.ofNat v :: bytesLE w (v / 256)

/-- The number with the given bytes, the least significant one first. -/
def valueLE (l : List UInt8) : Nat := l.foldr (fun b v => b.toNat + 256 * v) 0

@[simp] theorem length_bytesLE (w v : Nat) : (bytesLE w v).length = w := by
  induction w generalizing v with
  | zero => rfl
  | succ w ih => rw [bytesLE, List.length_cons, ih]

@[simp] theorem valueLE_cons (b : UInt8) (l : List UInt8) : valueLE (b :: l) = b.toNat + 256 * valueLE l :=
  rfl

theorem valueLE_bytesLE {w v : Nat} (h : v < 256 ^ w) : valueLE (bytesLE w v) = v := by
  induction w generalizing v with
  | zero =>
    rw [pow_zero, Nat.lt_one_iff] at h
    rw [h]
    rfl
  | succ w ih =>
    have hdiv : v / 256 < 256 ^ w := by
      rw [pow_succ] at h
      exact Nat.div_lt_of_lt_mul (by rwa [Nat.mul_comm])
    rw [bytesLE, valueLE_cons, ih hdiv, UInt8.toNat_ofNat']
    omega

theorem bytesLE_valueLE (l : List UInt8) : bytesLE l.length (valueLE l) = l := by
  induction l with
  | nil => rfl
  | cons b l ih =>
    have hb := b.toNat_lt
    have hdiv : (b.toNat + 256 * valueLE l) / 256 = valueLE l := by omega
    have hmod : UInt8.ofNat (b.toNat + 256 * valueLE l) = b := by
      apply UInt8.toNat_inj.mp
      rw [UInt8.toNat_ofNat']
      omega
    rw [valueLE_cons, List.length_cons, bytesLE, hdiv, hmod, ih]

theorem valueLE_lt (l : List UInt8) : valueLE l < 256 ^ l.length := by
  induction l with
  | nil => exact Nat.one_pos
  | cons b l ih =>
    have hb := b.toNat_lt
    rw [valueLE_cons, List.length_cons, pow_succ]
    omega

/-- A digit in closed form. -/
theorem getElem?_bytesLE {w k : Nat} (v : Nat) (h : k < w) :
    (bytesLE w v)[k]? = some (UInt8.ofNat (v / 256 ^ k)) := by
  induction w generalizing v k with
  | zero => omega
  | succ w ih =>
    cases k with
    | zero => simp [bytesLE]
    | succ k =>
      rw [bytesLE, List.getElem?_cons_succ, ih (v / 256) (by omega), Nat.div_div_eq_div_mul, pow_succ,
        Nat.mul_comm]

/-- The low and the high bytes. -/
theorem bytesLE_add (w w' v : Nat) : bytesLE (w + w') v = bytesLE w v ++ bytesLE w' (v / 256 ^ w) := by
  induction w generalizing v with
  | zero => simp [bytesLE]
  | succ w ih =>
    rw [Nat.add_right_comm, bytesLE, ih, bytesLE, Nat.div_div_eq_div_mul, pow_succ', List.cons_append]

/-- Only the low bytes of the number count. -/
theorem bytesLE_mod (w v : Nat) : bytesLE w (v % 256 ^ w) = bytesLE w v := by
  induction w generalizing v with
  | zero => rfl
  | succ w ih =>
    have hhead : UInt8.ofNat (v % 256 ^ (w + 1)) = UInt8.ofNat v := by
      apply UInt8.toNat_inj.mp
      rw [UInt8.toNat_ofNat', UInt8.toNat_ofNat', pow_succ', Nat.mod_mul_right_mod]
    have htail : v % 256 ^ (w + 1) / 256 = v / 256 % 256 ^ w := by
      rw [pow_succ', Nat.mod_mul_right_div_self]
    rw [bytesLE, bytesLE, hhead, htail, ih]

/-- Bits put above a number are added to it. -/
theorem or_shiftLeft {a b i : Nat} (h : a < 2 ^ i) : a ||| b <<< i = a + b * 2 ^ i := by
  rw [Nat.or_comm, ← Nat.shiftLeft_add_eq_or_of_lt h, Nat.shiftLeft_eq, Nat.add_comm]

/-- A byte shifted inside a word. -/
theorem toNat_shiftLeft_byte (x : UInt8) {s : UInt32} (hs : s.toNat ≤ 24) :
    (x.toUInt32 <<< s).toNat = x.toNat <<< s.toNat := by
  have hx := x.toNat_lt
  have hpow : 2 ^ s.toNat ≤ 2 ^ 24 := Nat.pow_le_pow_right (by omega) hs
  have hmul : x.toNat * 2 ^ s.toNat < 2 ^ 32 := by
    have hle := Nat.mul_le_mul (Nat.le_of_lt_succ hx) hpow
    omega
  have hmod : s.toNat % 32 = s.toNat := Nat.mod_eq_of_lt (by omega)
  rw [UInt32.toNat_shiftLeft, UInt8.toNat_toUInt32, hmod, Nat.shiftLeft_eq, Nat.mod_eq_of_lt hmul]

/-- A word put together from its bytes. -/
theorem word_of_bytes (v : Nat) :
    (UInt8.ofNat v).toUInt32 ||| (UInt8.ofNat (v / 256)).toUInt32 <<< 8 |||
      (UInt8.ofNat (v / 256 / 256)).toUInt32 <<< 16 |||
        (UInt8.ofNat (v / 256 / 256 / 256)).toUInt32 <<< 24 = UInt32.ofNat v := by
  apply UInt32.toNat_inj.mp
  rw [UInt32.toNat_or, UInt32.toNat_or, UInt32.toNat_or, toNat_shiftLeft_byte _ (by decide),
    toNat_shiftLeft_byte _ (by decide), toNat_shiftLeft_byte _ (by decide), UInt8.toNat_toUInt32,
    UInt8.toNat_ofNat', UInt8.toNat_ofNat', UInt8.toNat_ofNat', UInt8.toNat_ofNat', UInt32.toNat_ofNat']
  simp only [UInt32.reduceToNat]
  have h8 := or_shiftLeft (a := v % 2 ^ 8) (b := v / 256 % 2 ^ 8) (i := 8) (by omega)
  rw [h8]
  have h16 := or_shiftLeft (a := v % 2 ^ 8 + v / 256 % 2 ^ 8 * 2 ^ 8) (b := v / 256 / 256 % 2 ^ 8) (i := 16)
    (by omega)
  rw [h16, or_shiftLeft (by omega)]
  omega

end Bytes
