import Mathlib.Tactic.Basic

/-!
# The SHA-1 compression of FIPS 180

The message schedule of eighty words, the four round functions with their constants, and the computation
of the next hash value from a hash value and a block. Beside the definitions stand the forms in which
programs write the round functions.
-/

namespace Fips180

/-- The circular left shift. -/
def rotl (n : Nat) (x : UInt32) : UInt32 := ⟨x.toBitVec.rotateLeft n⟩

def ch (x y z : UInt32) : UInt32 := (x &&& y) ^^^ (~~~x &&& z)

def parity (x y z : UInt32) : UInt32 := x ^^^ y ^^^ z

def maj (x y z : UInt32) : UInt32 := (x &&& y) ^^^ (x &&& z) ^^^ (y &&& z)

/-- The function of step `t`. -/
def fn (t : Nat) : UInt32 → UInt32 → UInt32 → UInt32 :=
  if t ≤ 19 then ch else if t ≤ 39 then parity else if t ≤ 59 then maj else parity

/-- The constant of step `t`. -/
def constant (t : Nat) : UInt32 :=
  if t ≤ 19 then 0x5a827999 else if t ≤ 39 then 0x6ed9eba1 else if t ≤ 59 then 0x8f1bbcdc else 0xca62c1d6

/-- The message schedule of a block. -/
def schedule (m : Nat → UInt32) (t : Nat) : UInt32 :=
  if t ≤ 15 then m t
  else rotl 1 (schedule m (t - 3) ^^^ schedule m (t - 8) ^^^ schedule m (t - 14) ^^^ schedule m (t - 16))

/-- A hash value, and the five working variables. -/
structure Hash where
  a : UInt32
  b : UInt32
  c : UInt32
  d : UInt32
  e : UInt32
  deriving DecidableEq, Repr

/-- Step `t` with the word `w` of the schedule. -/
def step (h : Hash) (t : Nat) (w : UInt32) : Hash :=
  ⟨rotl 5 h.a + fn t h.b h.c h.d + h.e + constant t + w, h.a, rotl 30 h.b, h.c, h.d⟩

/-- The next hash value. -/
def compress (h : Hash) (m : Nat → UInt32) : Hash :=
  let s := (List.range 80).foldl (fun s t => step s t (schedule m t)) h
  ⟨s.a + h.a, s.b + h.b, s.c + h.c, s.d + h.d, s.e + h.e⟩

theorem schedule_of_le {m : Nat → UInt32} {t : Nat} (h : t ≤ 15) : schedule m t = m t := by
  rw [schedule, if_pos h]

theorem schedule_of_lt {m : Nat → UInt32} {t : Nat} (h : 15 < t) : schedule m t =
    rotl 1 (schedule m (t - 3) ^^^ schedule m (t - 8) ^^^ schedule m (t - 14) ^^^ schedule m (t - 16)) := by
  rw [schedule, if_neg (by omega)]

/-- `ch` with one operation less: where a bit of `x` is set, the bit of `z` cancels. -/
theorem xor_and_xor_eq_ch (x y z : UInt32) : (x &&& (y ^^^ z)) ^^^ z = ch x y z := by
  refine UInt32.toBitVec_inj.mp (BitVec.eq_of_getLsbD_eq fun i hi => ?_)
  simp only [ch, UInt32.toBitVec_xor, UInt32.toBitVec_and, UInt32.toBitVec_not, BitVec.getLsbD_xor,
    BitVec.getLsbD_and, BitVec.getLsbD_not, hi]
  cases x.toBitVec.getLsbD i <;> cases y.toBitVec.getLsbD i <;> cases z.toBitVec.getLsbD i <;> rfl

/-- `maj` with disjunctions. -/
theorem or_and_or_and_eq_maj (x y z : UInt32) : (x ||| y) &&& z ||| x &&& y = maj x y z := by
  refine UInt32.toBitVec_inj.mp (BitVec.eq_of_getLsbD_eq fun i hi => ?_)
  simp only [maj, UInt32.toBitVec_xor, UInt32.toBitVec_and, UInt32.toBitVec_or, BitVec.getLsbD_xor,
    BitVec.getLsbD_and, BitVec.getLsbD_or]
  cases x.toBitVec.getLsbD i <;> cases y.toBitVec.getLsbD i <;> cases z.toBitVec.getLsbD i <;> rfl

/-- The circular shift made of two shifts. -/
theorem shiftLeft_or_shiftRight_eq_rotl {n : UInt32} (h0 : 0 < n.toNat) (h : n.toNat < 32) (x : UInt32) :
    x <<< n ||| x >>> (32 - n) = rotl n.toNat x := by
  refine UInt32.toBitVec_inj.mp ?_
  simp only [rotl]
  rw [BitVec.rotateLeft_def, UInt32.toBitVec_or, UInt32.toBitVec_shiftRight, UInt32.toBitVec_shiftLeft,
    BitVec.ushiftRight_eq', BitVec.shiftLeft_eq']
  congr 2
  simp [BitVec.toNat_umod]
  omega

end Fips180
