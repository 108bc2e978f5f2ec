import Mathlib.Data.Rat.Lemmas
import Mathlib.Algebra.Order.Field.Rat
import BofStd.Rational

/-!
# Exact rational arithmetic

What the operations of `BofRational` are for: a pair in lowest terms with a positive denominator stands for a
rational number, and an operation returns the pair that stands for the exact result. `Fits` says that the
products and sums of the source have the values they have over the integers; `HoldsWhen` is the condition on the
operands under which the source computes the exact result, and `RoundHoldsWhen` that for `Round`.
-/

namespace BofStd.Rational

/-- The rational number. -/
def value (r : Rational) : ℚ := r.num.toInt / r.den.toNat

/-- In lowest terms, with a positive denominator. -/
def Lowest (r : Rational) : Prop := 0 < r.den.toNat ∧ Nat.Coprime r.num.toInt.natAbs r.den.toNat

instance (r : Rational) : Decidable r.Lowest := inferInstanceAs (Decidable (_ ∧ _))

/-- The pair stands for the number `q`. -/
def Represents (r : Rational) (q : ℚ) : Prop := r.Lowest ∧ r.value = q

/-- The operations. -/
inductive Op where
  | add
  | sub
  | mul
  | div
  | inv
  | eq
  | lt
  | le
  | gt
  | ge
  deriving DecidableEq

/-- An integer in the range of `int64_t`. -/
def IsS64 (n : Int) : Prop := -9223372036854775808 ≤ n ∧ n < 9223372036854775808

/-- An integer whose absolute value is in the range of `uint64_t`. -/
def IsU64 (n : Int) : Prop := n.natAbs < 18446744073709551616

instance (n : Int) : Decidable (IsS64 n) := inferInstanceAs (Decidable (_ ∧ _))

instance (n : Int) : Decidable (IsU64 n) := inferInstanceAs (Decidable (_ < _))

section

variable (a b : Rational)

/-- The product of a numerator and the other denominator. -/
def cross : Int := a.num.toInt * b.den.toNat

/-- The product of the denominators. -/
def denProduct : Nat := a.den.toNat * b.den.toNat

/-- Every product and every sum that the source forms fits its 64-bit type. -/
def Fits : Op → Prop
  | .add => IsS64 (cross a b) ∧ IsS64 (cross b a) ∧ IsS64 (cross a b + cross b a) ∧ IsU64 (denProduct a b)
  | .sub => IsS64 (cross a b) ∧ IsS64 (cross b a) ∧ IsS64 (cross a b - cross b a) ∧ IsU64 (denProduct a b)
  | .mul => IsS64 (a.num.toInt * b.num.toInt) ∧ IsU64 (denProduct a b)
  | .div => IsS64 (cross a b) ∧ IsU64 (cross b a)
  | .inv => IsS64 a.den.toNat
  | .eq => True
  | .lt | .le | .gt | .ge => IsS64 (cross a b) ∧ IsS64 (cross b a)

instance : (op : Op) → Decidable (Fits a b op)
  | .add | .sub => inferInstanceAs (Decidable (_ ∧ _ ∧ _ ∧ _))
  | .mul | .div | .lt | .le | .gt | .ge => inferInstanceAs (Decidable (_ ∧ _))
  | .inv => inferInstanceAs (Decidable (IsS64 _))
  | .eq => isTrue trivial

/-- Division by zero and the inverse of zero are left out. -/
def Defined : Op → Prop
  | .div => b.num ≠ 0
  | .inv => a.num ≠ 0
  | _ => True

/-- The operation returns the exact result. -/
def Exact : Op → Prop
  | .add => (a.add b).Represents (a.value + b.value)
  | .sub => (a.sub b).Represents (a.value - b.value)
  | .mul => (a.mul b).Represents (a.value * b.value)
  | .div => (a.div b).Represents (a.value / b.value)
  | .inv => a.inv.Represents a.value⁻¹
  | .eq => a.eq b = true ↔ a.value = b.value
  | .lt => a.lt b = true ↔ a.value < b.value
  | .le => a.le b = true ↔ a.value ≤ b.value
  | .gt => a.gt b = true ↔ a.value > b.value
  | .ge => a.ge b = true ↔ a.value ≥ b.value

/-- A fraction that `Normalize` reduces exactly: it is not negative, or there is nothing to reduce. -/
def Reduces (n : Int) (d : Nat) : Prop := 0 ≤ n ∨ Nat.Coprime n.natAbs d

instance (n : Int) (d : Nat) : Decidable (Reduces n d) := inferInstanceAs (Decidable (_ ∨ _))

/-- The operands for which the result is exact. -/
def HoldsWhen : Op → Prop
  | .add => Reduces (cross a b + cross b a) (denProduct a b)
  | .sub => Reduces (cross a b - cross b a) (denProduct a b)
  | .mul => Reduces (a.num.toInt * b.num.toInt) (denProduct a b)
  | .div =>
    if 0 < b.num.toInt then Reduces (cross a b) (cross b a).natAbs
    else a.num = 0 ∨ (cross a b = -9223372036854775808 ∧ cross b a = -9223372036854775808)
  | .inv => 0 < a.num.toInt
  | _ => True

instance : (op : Op) → Decidable (HoldsWhen a b op)
  | .add | .sub | .mul => inferInstanceAs (Decidable (Reduces _ _))
  | .div => inferInstanceAs (Decidable (ite _ _ _))
  | .inv => inferInstanceAs (Decidable (_ < _))
  | .eq | .lt | .le | .gt | .ge => isTrue trivial

end

/-- The denominator is positive, and a sum of the numerator and the denominator does not overflow. -/
def InRange (r : Rational) : Prop := 1 ≤ r.den.toNat ∧ r.num.toInt.natAbs + r.den.toNat < 2 ^ 63

/-- The numerators for which `Round` is at a distance of at most one half. -/
def RoundHoldsWhen (r : Rational) : Prop :=
  r.den.toNat = 1 ∨ 0 ≤ r.num.toInt + (r.den.toNat + 1) / 2 ∧
    (r.den.toNat % 2 = 0 ∨ (r.num.toInt + (r.den.toNat + 1) / 2) % r.den.toNat ≠ 0)

end BofStd.Rational
