import Mathlib.Tactic.Basic

/-!
# The class `BofRational`

A signed numerator over an unsigned denominator, both of 64 bits. An operation of an `int64_t` and a `uint64_t`
is one of two `uint64_t`, the signed operand converted; a result is converted back where it is stored. The
conversions and the arithmetic wrap, and so does the negation of the least `int64_t`.
-/

namespace BofStd

/-- `mNumerator_S64` and `mDenominator_U64`. -/
structure Rational where
  num : Int64
  den : UInt64
  deriving DecidableEq

namespace Rational

/-- The loop of `Normalize`. -/
def gcdLoop (u v : UInt64) : UInt64 := if u > 0 then gcdLoop (v % u) u else v
termination_by u.toNat
decreasing_by
  rename_i hu
  rw [UInt64.toNat_mod]
  exact Nat.mod_lt _ (UInt64.lt_iff_toNat_lt.mp hu)

/-- `Normalize`. -/
def normalize (r : Rational) : Rational :=
  let u := if r.num ≥ 0 then r.num.toUInt64 else (-r.num).toUInt64
  let v := gcdLoop u r.den
  if v > 1 then ⟨(r.num.toUInt64 / v).toInt64, r.den / v⟩ else r

/-- `Set` with `_Normalize_B`. -/
def set (num : Int64) (den : UInt64) : Rational := normalize ⟨num, if den ≠ 0 then den else 1⟩

/-- `operator==`. -/
def eq (a b : Rational) : Bool := a.num == b.num && a.den == b.den

/-- The two products that the order compares. -/
def leftProduct (a b : Rational) : Int64 := (a.num.toUInt64 * b.den).toInt64

def rightProduct (a b : Rational) : Int64 := (a.den * b.num.toUInt64).toInt64

/-- `operator<`. -/
def lt (a b : Rational) : Bool := a.leftProduct b < a.rightProduct b

/-- `operator<=`. -/
def le (a b : Rational) : Bool := a.leftProduct b ≤ a.rightProduct b

/-- `operator>`. -/
def gt (a b : Rational) : Bool := a.leftProduct b > a.rightProduct b

/-- `operator>=`. -/
def ge (a b : Rational) : Bool := a.leftProduct b ≥ a.rightProduct b

/-- `operator+`. -/
def add (a b : Rational) : Rational :=
  set (a.num.toUInt64 * b.den + b.num.toUInt64 * a.den).toInt64 (a.den * b.den)

/-- `operator-`. -/
def sub (a b : Rational) : Rational :=
  set (a.num.toUInt64 * b.den - b.num.toUInt64 * a.den).toInt64 (a.den * b.den)

/-- `operator*`. -/
def mul (a b : Rational) : Rational := set (a.num * b.num) (a.den * b.den)

/-- `operator/`. -/
def div (a b : Rational) : Rational := set (a.num.toUInt64 * b.den).toInt64 (a.den * b.num.toUInt64)

/-- `Inv`. -/
def inv (a : Rational) : Rational := set a.den.toInt64 a.num.toUInt64

/-- `Ceil`. -/
def ceil (a : Rational) : Int64 := ((a.num.toUInt64 + a.den - 1) / a.den).toInt64

/-- `Floor`. -/
def floor (a : Rational) : Int64 := (a.num.toUInt64 / a.den).toInt64

/-- `Round`. -/
def round (a : Rational) : Int64 :=
  if a.den > 1 then ((a.num.toUInt64 + (a.den + 1) >>> 1) / a.den).toInt64 else a.num

end Rational

end BofStd
