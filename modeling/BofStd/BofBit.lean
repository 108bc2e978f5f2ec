import Mathlib.Algebra.Group.Nat.Defs
import Mathlib.Tactic.Basic
import Mathlib.Order.Bounds.Defs
import Mathlib.Data.Finset.Card
import BofStd.Lib.BitMask

/-!
# Powers of two, multiples and positions of bits

The functions of `bofbit` that round a 64 bit word up, and what they are for: the least power of two and the
least multiple that is not below a value. The functions that look for bits, and what they are for (`BitQueries`).
-/

namespace BofStd

namespace BofBit

/-- `_Val_U64 & (_Val_U64 - 1)`: the lowest bit that is set is cleared. -/
def clearLowest (v : UInt64) : UInt64 := v &&& (v - 1)

theorem toNat_sub_one {v : UInt64} (h : v ≠ 0) : (v - 1).toNat = v.toNat - 1 := by
  have hpos : 1 ≤ v := UInt64.le_iff_toNat_le.mpr (Nat.pos_of_ne_zero fun h0 => h (UInt64.toNat_inj.mp h0))
  exact UInt64.toNat_sub_of_le v 1 hpos

theorem toNat_clearLowest {v : UInt64} (h : v ≠ 0) : (clearLowest v).toNat = v.toNat &&& (v.toNat - 1) := by
  rw [clearLowest, UInt64.toNat_and, toNat_sub_one h]

theorem ne_zero_of_clearLowest {v : UInt64} (h : clearLowest v ≠ 0) : v ≠ 0 := by
  rintro rfl
  exact h (by decide)

/-- The loop of `Bof_NextHighestPowerOf2`: bits are cleared until one is left. -/
def oneBitLeft (v : UInt64) : UInt64 := if clearLowest v ≠ 0 then oneBitLeft (clearLowest v) else v
termination_by v.toNat
decreasing_by
  rename_i h
  have hv := ne_zero_of_clearLowest h
  have hpos : v.toNat ≠ 0 := fun h0 => hv (UInt64.toNat_inj.mp h0)
  have hle : v.toNat &&& (v.toNat - 1) ≤ v.toNat - 1 := Nat.and_le_right
  rw [toNat_clearLowest hv]
  omega

/-- `Bof_NextHighestPowerOf2`. -/
def nextHighestPowerOf2 (v : UInt64) : UInt64 := oneBitLeft (v - 1) <<< 1

/-- `Bof_RoundUpOnMultipleOf`. -/
def roundUpOnMultipleOf (v multiple : UInt64) : UInt64 :=
  let remain := v % multiple
  if remain ≠ 0 then v + (multiple - remain) else v

/-! ## Positions -/

/-- `LT`. -/
def lt (n : UInt8) : List UInt8 := List.replicate 16 n

/-- `S_pLogTable256_U8`. -/
def logTable256 : List UInt8 :=
  [0xFF, 0, 1, 1, 2, 2, 2, 2, 3, 3, 3, 3, 3, 3, 3, 3] ++ lt 4 ++ lt 5 ++ lt 5 ++ lt 6 ++ lt 6 ++ lt 6 ++ lt 6 ++
    lt 7 ++ lt 7 ++ lt 7 ++ lt 7 ++ lt 7 ++ lt 7 ++ lt 7 ++ lt 7

/-- A value of the table behind a base; there is nothing behind the end of the table. -/
def tableAt (base : UInt8) (i : UInt32) : Option UInt8 := logTable256[i.toNat]?.map (base + ·)

/-- The position in one half of the word; `base` is that of its lowest bit. -/
def halfPosition (base : UInt8) (val : UInt32) : Option UInt8 :=
  let temp2 := val >>> 16
  if temp2 ≠ 0 then
    let temp1 := temp2 >>> 8
    if temp1 ≠ 0 then tableAt (base + 24) temp1 else tableAt (base + 16) temp2
  else
    let temp1 := val >>> 8
    if temp1 ≠ 0 then tableAt (base + 8) temp1 else tableAt base val

/-- `Bof_MostSignificantBitSetPosition`. -/
def mostSignificantBitSetPosition (v : UInt64) : Option UInt8 :=
  if v = 0 then some 0xFF
  else if v = 1 then some 0
  else
    let val := (v >>> 32).toUInt32
    if val ≠ 0 then halfPosition 32 val else halfPosition 0 v.toUInt32

/-- `Bof_LessSignificantBitSetPosition`. -/
def lessSignificantBitSetPosition (v : UInt64) : Option UInt8 := mostSignificantBitSetPosition (v &&& ~~~(v - 1))

/-- `Bof_Log2`. -/
def log2 (v : UInt64) : Option UInt8 := mostSignificantBitSetPosition v

/-- The loop of `Bof_FindNumberOfBitSet`. -/
def bitSetLoop (rts : UInt8) (v : UInt64) : UInt8 := if v ≠ 0 then bitSetLoop (rts + 1) (clearLowest v) else rts
termination_by v.toNat
decreasing_by
  rename_i h
  have hpos : v.toNat ≠ 0 := fun h0 => h (UInt64.toNat_inj.mp h0)
  have hle : v.toNat &&& (v.toNat - 1) ≤ v.toNat - 1 := Nat.and_le_right
  rw [toNat_clearLowest h]
  omega

/-- `Bof_FindNumberOfBitSet`. -/
def findNumberOfBitSet (v : UInt64) : UInt8 := bitSetLoop 0 v

/-! ## What they are for -/

/-- `p` is the least power of two that is not below `v`. -/
def LeastPowerOf2 (v p : Nat) : Prop := IsLeast {p | p.isPowerOfTwo ∧ v ≤ p} p

/-- `n` is the least multiple of `m` that is not below `v`. -/
def LeastMultiple (v m n : Nat) : Prop := IsLeast {n | m ∣ n ∧ v ≤ n} n

/-- The positions that the functions find, and the number of the bits. -/
structure BitQueries (v : UInt64) : Prop where
  most : 0 < v.toNat → ∃ k, mostSignificantBitSetPosition v = some k ∧ IsGreatest {k | 2 ^ k ≤ v.toNat} k.toNat
  log : 0 < v.toNat → ∃ k, log2 v = some k ∧ IsGreatest {k | 2 ^ k ≤ v.toNat} k.toNat
  less : 0 < v.toNat → ∃ k, lessSignificantBitSetPosition v = some k ∧ IsGreatest {k | 2 ^ k ∣ v.toNat} k.toNat
  number : (findNumberOfBitSet v).toNat = (BitMask.positions v.toBitVec).card

end BofBit

end BofStd
