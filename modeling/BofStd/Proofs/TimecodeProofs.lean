import Mathlib.Algebra.Order.Floor.Semifield
import Mathlib.Tactic.FieldSimp
import Mathlib.Tactic.Linarith
import BofStd.Timecode
import BofStd.Lib.BitField

/-!
# `BofTimecode`: when the binary codec round-trips

The word is a union of digits, user bits and flags at their places (`toNat_timeCodeBits`), so each field
that the decoder looks at is read off with the rules of `BitField`. The digits of the tens have too little
room for the values that the validation lets through, and the decoder never finds the NTSC flag again;
`FitsBin` is exactly what is left.
-/

namespace BofStd.BofTimecode

open BitField

/-! ## The word -/

theorem toNat_shift32 (a : UInt8) {s : UInt32} {k : Nat} (hs : s.toNat = k) (hk : k ≤ 24) :
    (a.toUInt32 <<< s).toNat = a.toNat <<< k := by
  have ha := a.toNat_lt
  have hle : 2 ^ k ≤ 2 ^ 24 := Nat.pow_le_pow_right (by omega) hk
  rw [UInt32.toNat_shiftLeft, UInt8.toNat_toUInt32, hs,
    Nat.mod_eq_of_lt (show k < 32 by omega), Nat.shiftLeft_eq, Nat.mod_eq_of_lt]
  calc a.toNat * 2 ^ k < 2 ^ 8 * 2 ^ k := Nat.mul_lt_mul_of_pos_right ha (Nat.two_pow_pos k)
    _ ≤ 2 ^ 8 * 2 ^ 24 := Nat.mul_le_mul_left _ hle

theorem toNat_shift64 (a : UInt8) {s : UInt64} {k : Nat} (hs : s.toNat = k) (hk : k ≤ 56) :
    (a.toUInt64 <<< s).toNat = a.toNat <<< k := by
  have ha := a.toNat_lt
  have hle : 2 ^ k ≤ 2 ^ 56 := Nat.pow_le_pow_right (by omega) hk
  rw [UInt64.toNat_shiftLeft, UInt8.toNat_toUInt64, hs, Nat.mod_eq_of_lt (show k < 64 by omega),
    Nat.shiftLeft_eq, Nat.mod_eq_of_lt]
  calc a.toNat * 2 ^ k < 2 ^ 8 * 2 ^ k := Nat.mul_lt_mul_of_pos_right ha (Nat.two_pow_pos k)
    _ ≤ 2 ^ 8 * 2 ^ 56 := Nat.mul_le_mul_left _ hle

theorem toNat_orFlag (c : Bool) (w v : UInt64) {k : Nat} (hv : v.toNat = 1 <<< k) :
    (if c then w ||| v else w).toNat = w.toNat ||| c.toNat <<< k := by
  cases c with
  | false => simp
  | true => simp [hv]

theorem toNat_digitHigh (x : UInt8) : (digitHigh x).toNat = x.toNat / 10 := by simp [digitHigh]

theorem toNat_digitLow (x : UInt8) : (digitLow x).toNat = x.toNat % 10 := by
  have hx := x.toNat_lt
  have hle : (x / 10 * 10).toNat = x.toNat / 10 * 10 := by
    rw [UInt8.toNat_mul, UInt8.toNat_div, show (10 : UInt8).toNat = 10 from rfl]
    omega
  rw [digitLow, UInt8.toNat_sub_of_le _ _ (UInt8.le_iff_toNat_le.mpr (by omega)), hle]
  omega

theorem toNat_and_low (x : UInt8) : (x &&& 0x0F).toNat = x.toNat % 16 := by
  rw [UInt8.toNat_and]
  exact Nat.and_two_pow_sub_one_eq_mod x.toNat 4

theorem toNat_and_high (x : UInt8) (k : Nat) : (x &&& 0xF0).toNat <<< k = (x.toNat / 16) <<< (4 + k) := by
  have hx := x.toNat_lt
  have hmask : x.toNat &&& 240 = field x.toNat 4 4 <<< 4 := and_mask x.toNat 4 4
  rw [UInt8.toNat_and, show (0xF0 : UInt8).toNat = 240 from rfl, hmask, field, Nat.shiftRight_eq_div_pow,
    Nat.mod_eq_of_lt (by omega), Nat.shiftLeft_add]

/-- The parts of the word at their places. -/
theorem toNat_timeCodeBits (tc : BofTimecode) :
    tc.timeCodeBits.toNat =
      tc.Frame_U8.toNat % 10 ||| (tc.Frame_U8.toNat / 10) <<< 8 |||
      (tc.Second_U8.toNat % 10) <<< 16 ||| (tc.Second_U8.toNat / 10) <<< 24 |||
      (tc.Minute_U8.toNat % 10) <<< 32 ||| (tc.Minute_U8.toNat / 10) <<< 40 |||
      (tc.Hour_U8.toNat % 10) <<< 48 ||| (tc.Hour_U8.toNat / 10) <<< 56 |||
      ((tc.pUserBit_U8 0).toNat % 16) <<< 4 ||| ((tc.pUserBit_U8 0).toNat / 16) <<< 12 |||
      ((tc.pUserBit_U8 1).toNat % 16) <<< 20 ||| ((tc.pUserBit_U8 1).toNat / 16) <<< 28 |||
      ((tc.pUserBit_U8 2).toNat % 16) <<< 36 ||| ((tc.pUserBit_U8 2).toNat / 16) <<< 44 |||
      ((tc.pUserBit_U8 3).toNat % 16) <<< 52 ||| ((tc.pUserBit_U8 3).toNat / 16) <<< 60 |||
      (tc.hasFlag flagDrop).toNat <<< 10 ||| (tc.hasFlag flagColorFrame).toNat <<< 11 |||
      (tc.hasFlag flagParityOdd).toNat <<< 27 := by
  unfold timeCodeBits
  simp only [toNat_orFlag _ _ 0x08000000 (k := 27) rfl, toNat_orFlag _ _ 0x00000800 (k := 11) rfl,
    toNat_orFlag _ _ 0x00000400 (k := 10) rfl, UInt64.toNat_or, UInt32.toNat_toUInt64, UInt8.toNat_toUInt32,
    toNat_shift32 _ (s := 4) (k := 4) rfl (by omega), toNat_shift32 _ (s := 8) (k := 8) rfl (by omega),
    toNat_shift32 _ (s := 16) (k := 16) rfl (by omega), toNat_shift32 _ (s := 20) (k := 20) rfl (by omega),
    toNat_shift32 _ (s := 24) (k := 24) rfl (by omega), toNat_shift64 _ (s := 32) (k := 32) rfl (by omega),
    toNat_shift64 _ (s := 36) (k := 36) rfl (by omega), toNat_shift64 _ (s := 40) (k := 40) rfl (by omega),
    toNat_shift64 _ (s := 48) (k := 48) rfl (by omega), toNat_shift64 _ (s := 52) (k := 52) rfl (by omega),
    toNat_shift64 _ (s := 56) (k := 56) rfl (by omega), toNat_digitHigh, toNat_digitLow, toNat_and_low,
    toNat_and_high]

/-- What the decoder finds in the fields of the digits and in two of the flags. -/
theorem digits_timeCodeBits {tc : BofTimecode} (hframe : tc.Frame_U8.toNat < 30) :
    (field tc.timeCodeBits.toNat 0 4 = tc.Frame_U8.toNat % 10 ∧
      field tc.timeCodeBits.toNat 8 2 = tc.Frame_U8.toNat / 10) ∧
    (field tc.timeCodeBits.toNat 16 4 = tc.Second_U8.toNat % 10 ∧
      field tc.timeCodeBits.toNat 24 3 = tc.Second_U8.toNat / 10 % 8) ∧
    (field tc.timeCodeBits.toNat 32 4 = tc.Minute_U8.toNat % 10 ∧
      field tc.timeCodeBits.toNat 40 3 = tc.Minute_U8.toNat / 10 % 8) ∧
    (field tc.timeCodeBits.toNat 48 4 = tc.Hour_U8.toNat % 10 ∧
      field tc.timeCodeBits.toNat 56 2 = tc.Hour_U8.toNat / 10 % 4) ∧
    field tc.timeCodeBits.toNat 10 1 = (tc.hasFlag flagDrop).toNat ∧
    field tc.timeCodeBits.toNat 11 1 = (tc.hasFlag flagColorFrame).toNat := by
  rw [toNat_timeCodeBits]
  have h2 := (tc.Second_U8).toNat_lt
  have h3 := (tc.Minute_U8).toNat_lt
  have h4 := (tc.hasFlag flagDrop).toNat_lt
  have h5 := (tc.hasFlag flagColorFrame).toNat_lt
  have h6 := (tc.hasFlag flagParityOdd).toNat_lt
  have hu0 := (tc.pUserBit_U8 0).toNat_lt
  have hu1 := (tc.pUserBit_U8 1).toNat_lt
  have hu2 := (tc.pUserBit_U8 2).toNat_lt
  simp (disch := omega) only [field_or, field_shiftLeft_of_le, field_shiftLeft, field_of_lt, Nat.or_zero,
    Nat.zero_or, Nat.reduceSub]
  simp only [field_zero_right]
  omega

/-- What it finds in the other fields, which the digits of the tens must not run into. -/
theorem userBits_timeCodeBits {tc : BofTimecode} (hhour : tc.Hour_U8.toNat < 40)
    (hminute : tc.Minute_U8.toNat < 80) (hsecond : tc.Second_U8.toNat < 80)
    (hframe : tc.Frame_U8.toNat < 30) :
    field tc.timeCodeBits.toNat 27 1 = (tc.hasFlag flagParityOdd).toNat ∧
    (field tc.timeCodeBits.toNat 4 4 = (tc.pUserBit_U8 0).toNat % 16 ∧
      field tc.timeCodeBits.toNat 12 4 = (tc.pUserBit_U8 0).toNat / 16) ∧
    (field tc.timeCodeBits.toNat 20 4 = (tc.pUserBit_U8 1).toNat % 16 ∧
      field tc.timeCodeBits.toNat 28 4 = (tc.pUserBit_U8 1).toNat / 16) ∧
    (field tc.timeCodeBits.toNat 36 4 = (tc.pUserBit_U8 2).toNat % 16 ∧
      field tc.timeCodeBits.toNat 44 4 = (tc.pUserBit_U8 2).toNat / 16) ∧
    field tc.timeCodeBits.toNat 52 4 = (tc.pUserBit_U8 3).toNat % 16 ∧
    field tc.timeCodeBits.toNat 60 4 = (tc.pUserBit_U8 3).toNat / 16 := by
  rw [toNat_timeCodeBits]
  have h4 := (tc.hasFlag flagDrop).toNat_lt
  have h5 := (tc.hasFlag flagColorFrame).toNat_lt
  have h6 := (tc.hasFlag flagParityOdd).toNat_lt
  have hu0 := (tc.pUserBit_U8 0).toNat_lt
  have hu1 := (tc.pUserBit_U8 1).toNat_lt
  have hu2 := (tc.pUserBit_U8 2).toNat_lt
  have hu3 := (tc.pUserBit_U8 3).toNat_lt
  simp (disch := omega) only [field_or, field_shiftLeft_of_le, field_shiftLeft, field_of_lt, Nat.or_zero,
    Nat.zero_or, Nat.reduceSub]
  simp only [field_zero_right]
  omega

/-! ## The decoder -/

/-- A masked and shifted part of a half of the word. -/
theorem toNat_binPart (value mask shift : UInt32) {k j n : Nat} (hmask : mask.toNat = (2 ^ n - 1) <<< (k + j))
    (hshift : shift.toNat = k) (hk : k < 32) (hn : n + j ≤ 8) :
    ((value &&& mask) >>> shift).toUInt8.toNat = field value.toNat (k + j) n <<< j := by
  have hlt := field_lt value.toNat (k + j) n
  have hsmall : field value.toNat (k + j) n <<< j < 2 ^ 8 := by
    rw [Nat.shiftLeft_eq]
    calc field value.toNat (k + j) n * 2 ^ j < 2 ^ n * 2 ^ j :=
          Nat.mul_lt_mul_of_pos_right hlt (Nat.two_pow_pos j)
      _ = 2 ^ (n + j) := (Nat.pow_add 2 n j).symm
      _ ≤ 2 ^ 8 := Nat.pow_le_pow_right (by omega) hn
  rw [UInt32.toNat_toUInt8, UInt32.toNat_shiftRight, UInt32.toNat_and, hmask, hshift, Nat.mod_eq_of_lt hk,
    and_mask, Nat.add_comm k j, Nat.shiftLeft_add, Nat.shiftLeft_shiftRight, Nat.add_comm j k,
    Nat.mod_eq_of_lt hsmall]

/-- Two digits with room for `3` bits at most in that of the tens. -/
theorem toNat_binDigits (value maskLow shiftLow maskHigh shiftHigh : UInt32) {k l n : Nat}
    (hlow : maskLow.toNat = (2 ^ 4 - 1) <<< k) (hk : shiftLow.toNat = k) (hk' : k < 32)
    (hhigh : maskHigh.toNat = (2 ^ n - 1) <<< l) (hl : shiftHigh.toNat = l) (hl' : l < 32) (hn : n ≤ 3) :
    (binDigits value maskLow shiftLow maskHigh shiftHigh).toNat =
      10 * field value.toNat l n + field value.toNat k 4 := by
  have h1 := toNat_binPart value maskLow shiftLow (j := 0) hlow hk hk' (by omega)
  have h2 := toNat_binPart value maskHigh shiftHigh (j := 0) hhigh hl hl' (by omega)
  have hlt := field_lt value.toNat k 4
  have hlt' : field value.toNat l n < 2 ^ 3 :=
    Nat.lt_of_lt_of_le (field_lt value.toNat l n) (Nat.pow_le_pow_right (by omega) hn)
  rw [Nat.add_zero, Nat.shiftLeft_zero] at h1 h2
  rw [binDigits, UInt8.toNat_add, UInt8.toNat_mul, h1, h2, show (10 : UInt8).toNat = 10 from rfl]
  omega

theorem toNat_binUserBit (value maskLow shiftLow maskHigh shiftHigh : UInt32) {k l : Nat}
    (hlow : maskLow.toNat = (2 ^ 4 - 1) <<< k) (hk : shiftLow.toNat = k) (hk' : k < 32)
    (hhigh : maskHigh.toNat = (2 ^ 4 - 1) <<< (l + 4)) (hl : shiftHigh.toNat = l) (hl' : l < 32) :
    (binUserBit value maskLow shiftLow maskHigh shiftHigh).toNat =
      16 * field value.toNat (l + 4) 4 + field value.toNat k 4 := by
  have h1 := toNat_binPart value maskLow shiftLow (j := 0) hlow hk hk' (by omega)
  have h2 := toNat_binPart value maskHigh shiftHigh (j := 4) hhigh hl hl' (by omega)
  rw [Nat.add_zero, Nat.shiftLeft_zero] at h1
  rw [binUserBit, UInt8.toNat_or, h1, h2, ← Nat.shiftLeft_add_eq_or_of_lt (field_lt _ _ _), Nat.shiftLeft_eq,
    Nat.mul_comm]

/-- A flag of the low half of the word. -/
theorem and_flag_ne_zero (value mask : UInt32) {k : Nat} (hmask : mask.toNat = (2 ^ 1 - 1) <<< k) :
    value &&& mask ≠ 0 ↔ field value.toNat k 1 = 1 := by
  have hlt := field_lt value.toNat k 1
  rw [ne_eq, ← UInt32.toNat_inj, UInt32.toNat_and, hmask, and_mask, Nat.shiftLeft_eq]
  have hpos := Nat.two_pow_pos k
  show field value.toNat k 1 * 2 ^ k ≠ 0 ↔ _
  rw [Nat.mul_ne_zero_iff]
  omega

theorem field_lowValue (w : UInt64) {k n : Nat} (h : k + n ≤ 32) :
    field w.toUInt32.toNat k n = field w.toNat k n := by
  rw [UInt64.toNat_toUInt32, field_mod h]

theorem field_highValue (w : UInt64) {k n : Nat} (h : k + n ≤ 32) :
    field (w >>> 32).toUInt32.toNat k n = field w.toNat (32 + k) n := by
  rw [UInt64.toNat_toUInt32, field_mod h, UInt64.toNat_shiftRight, show (32 : UInt64).toNat % 64 = 32 from rfl,
    field_shiftRight]

/-- The digits that the decoder reads. -/
theorem digits_binToTimeCode (w : UInt64) (rTc : BofTimecode) :
    (binToTimeCode w rTc).2.Frame_U8.toNat = 10 * field w.toNat 8 2 + field w.toNat 0 4 ∧
    (binToTimeCode w rTc).2.Second_U8.toNat = 10 * field w.toNat 24 3 + field w.toNat 16 4 ∧
    (binToTimeCode w rTc).2.Minute_U8.toNat = 10 * field w.toNat 40 3 + field w.toNat 32 4 ∧
    (binToTimeCode w rTc).2.Hour_U8.toNat = 10 * field w.toNat 56 2 + field w.toNat 48 4 := by
  refine ⟨?_, ?_, ?_, ?_⟩
  · rw [← field_lowValue w (k := 8) (by omega), ← field_lowValue w (k := 0) (by omega)]
    exact toNat_binDigits _ _ _ _ _ rfl rfl (by omega) rfl rfl (by omega) (by omega)
  · rw [← field_lowValue w (k := 24) (by omega), ← field_lowValue w (k := 16) (by omega)]
    exact toNat_binDigits _ _ _ _ _ rfl rfl (by omega) rfl rfl (by omega) (by omega)
  · rw [← field_highValue w (k := 8) (by omega), ← field_highValue w (k := 0) (by omega)]
    exact toNat_binDigits _ _ _ _ _ rfl rfl (by omega) rfl rfl (by omega) (by omega)
  · rw [← field_highValue w (k := 24) (by omega), ← field_highValue w (k := 16) (by omega)]
    exact toNat_binDigits _ _ _ _ _ rfl rfl (by omega) rfl rfl (by omega) (by omega)

/-- The user bits that the decoder reads. -/
theorem userBits_binToTimeCode (w : UInt64) (rTc : BofTimecode) :
    ((binToTimeCode w rTc).2.pUserBit_U8 0).toNat = 16 * field w.toNat 12 4 + field w.toNat 4 4 ∧
    ((binToTimeCode w rTc).2.pUserBit_U8 1).toNat = 16 * field w.toNat 28 4 + field w.toNat 20 4 ∧
    ((binToTimeCode w rTc).2.pUserBit_U8 2).toNat = 16 * field w.toNat 44 4 + field w.toNat 36 4 ∧
    ((binToTimeCode w rTc).2.pUserBit_U8 3).toNat = 16 * field w.toNat 60 4 + field w.toNat 52 4 := by
  refine ⟨?_, ?_, ?_, ?_⟩
  · rw [← field_lowValue w (k := 12) (by omega), ← field_lowValue w (k := 4) (by omega)]
    exact toNat_binUserBit _ _ _ _ _ rfl rfl (by omega) (l := 8) rfl rfl (by omega)
  · rw [← field_lowValue w (k := 28) (by omega), ← field_lowValue w (k := 20) (by omega)]
    exact toNat_binUserBit _ _ _ _ _ rfl rfl (by omega) (l := 24) rfl rfl (by omega)
  · rw [← field_highValue w (k := 12) (by omega), ← field_highValue w (k := 4) (by omega)]
    exact toNat_binUserBit _ _ _ _ _ rfl rfl (by omega) (l := 8) rfl rfl (by omega)
  · rw [← field_highValue w (k := 28) (by omega), ← field_highValue w (k := 20) (by omega)]
    exact toNat_binUserBit _ _ _ _ _ rfl rfl (by omega) (l := 24) rfl rfl (by omega)

/-- The flags that the decoder sets: the NTSC flag is not among them. -/
theorem flags_binToTimeCode (w : UInt64) (rTc : BofTimecode) :
    (binToTimeCode w rTc).2.hasFlag flagNtsc = false ∧
    ((binToTimeCode w rTc).2.hasFlag flagDrop = true ↔ field w.toNat 10 1 = 1) ∧
    ((binToTimeCode w rTc).2.hasFlag flagColorFrame = true ↔ field w.toNat 11 1 = 1) ∧
    ((binToTimeCode w rTc).2.hasFlag flagParityOdd = true ↔ field w.toNat 27 1 = 1) := by
  rw [← field_lowValue w (k := 10) (by omega), ← field_lowValue w (k := 11) (by omega),
    ← field_lowValue w (k := 27) (by omega), ← and_flag_ne_zero w.toUInt32 0x00000400 rfl,
    ← and_flag_ne_zero w.toUInt32 0x00000800 rfl, ← and_flag_ne_zero w.toUInt32 0x08000000 rfl]
  have hflag : ∀ flag, (binToTimeCode w rTc).2.hasFlag flag = decide (binFlag w.toUInt32 &&& flag ≠ 0) :=
    fun _ => rfl
  simp only [hflag, binFlag]
  split_ifs with h1 h2 h3 <;> simp [*] <;> decide

/-! ## The round trip -/

/-- The time of day is always accepted; the standard decides about the frame. -/
theorem validateTimecode_eq (tc : BofTimecode) : tc.validateTimecode = .noError ↔
    if tc.hasFlag flagNtsc then tc.Frame_U8.toNat < 30
    else tc.Frame_U8.toNat < 25 ∧ tc.hasFlag flagDrop = false := by
  have hvalid : dateTimeIsValid 1 1 1970 tc.Hour_U8 tc.Minute_U8 tc.Second_U8 0 = true := by
    simp [dateTimeIsValid, ymdOk, lastDay]
  unfold validateTimecode
  rw [if_pos hvalid]
  simp only [UInt8.lt_iff_toNat_lt, show (30 : UInt8).toNat = 30 from rfl,
    show (25 : UInt8).toNat = 25 from rfl]
  split_ifs with h1 h2 h3 <;> simp_all

/-- What is decoded has the flags of the timecode, as far as the codec stores them. -/
theorem hasFlag_binToTimeCode {tc : BofTimecode} (rTc : BofTimecode) {flag : UInt8} {k : Nat}
    (hflag : (binToTimeCode tc.timeCodeBits rTc).2.hasFlag flag = true ↔
      field tc.timeCodeBits.toNat k 1 = 1)
    (hfield : field tc.timeCodeBits.toNat k 1 = (tc.hasFlag flag).toNat) :
    (binToTimeCode tc.timeCodeBits rTc).2.hasFlag flag = tc.hasFlag flag := by
  rw [Bool.eq_iff_iff, hflag, hfield]
  cases tc.hasFlag flag with
  | false => decide
  | true => decide

/-- The codec of the timecodes that are accepted round-trips exactly for those that fit the word. -/
theorem roundTrips_iff_fitsBin {tc : BofTimecode} (h : tc.validateTimecode = .noError) :
    RoundTrips tc ↔ FitsBin tc := by
  have hbin : ∀ rTc64, tc.timeCodeToBin rTc64 = (.noError, tc.timeCodeBits) := fun rTc64 => if_pos h
  have hframe : tc.Frame_U8.toNat < 30 := by
    rw [validateTimecode_eq] at h
    split_ifs at h
    · exact h
    · omega
  obtain ⟨⟨f1, f2⟩, ⟨s1, s2⟩, ⟨m1, m2⟩, ⟨h1, h2⟩, hdrop, hcolor⟩ := digits_timeCodeBits hframe
  have hvalid : ∀ rTc, (binToTimeCode tc.timeCodeBits rTc).1 = .noError ↔
      tc.Frame_U8.toNat < 25 ∧ tc.hasFlag flagDrop = false := by
    intro rTc
    obtain ⟨hntsc, hdrop', -⟩ := flags_binToTimeCode tc.timeCodeBits rTc
    have hF : (binToTimeCode tc.timeCodeBits rTc).2.Frame_U8.toNat = tc.Frame_U8.toNat := by
      rw [(digits_binToTimeCode tc.timeCodeBits rTc).1, f1, f2]
      omega
    show (binToTimeCode tc.timeCodeBits rTc).2.validateTimecode = .noError ↔ _
    rw [validateTimecode_eq, hntsc, if_neg (by simp), hF, hasFlag_binToTimeCode rTc hdrop' hdrop]
  constructor
  · intro hround
    obtain ⟨w, tc', heq, heq', hH, hM, hS, -⟩ := hround 0 {}
    obtain rfl : tc.timeCodeBits = w := congrArg Prod.snd ((hbin 0).symm.trans heq)
    obtain ⟨dF, dS, dM, dH⟩ := digits_binToTimeCode tc.timeCodeBits {}
    have hv := (hvalid {}).mp (by rw [heq'])
    rw [heq'] at dS dM dH
    simp only [hH, hM, hS, s1, s2, m1, m2, h1, h2] at dS dM dH
    refine ⟨?_, ?_, ?_, ?_, ?_⟩
    · exact UInt8.lt_iff_toNat_lt.mpr (show _ < 40 by omega)
    · exact UInt8.lt_iff_toNat_lt.mpr (show _ < 80 by omega)
    · exact UInt8.lt_iff_toNat_lt.mpr (show _ < 80 by omega)
    · exact UInt8.lt_iff_toNat_lt.mpr hv.1
    · simp [hv.2]
  · rintro ⟨hH, hM, hS, hF, hnd⟩ rTc64 rTc
    have hH' : tc.Hour_U8.toNat < 40 := UInt8.lt_iff_toNat_lt.mp hH
    have hM' : tc.Minute_U8.toNat < 80 := UInt8.lt_iff_toNat_lt.mp hM
    have hS' : tc.Second_U8.toNat < 80 := UInt8.lt_iff_toNat_lt.mp hS
    have hF' : tc.Frame_U8.toNat < 25 := UInt8.lt_iff_toNat_lt.mp hF
    obtain ⟨hparity, ⟨u1, v1⟩, ⟨u2, v2⟩, ⟨u3, v3⟩, u4, v4⟩ := userBits_timeCodeBits hH' hM' hS' hframe
    obtain ⟨dF, dS, dM, dH⟩ := digits_binToTimeCode tc.timeCodeBits rTc
    obtain ⟨b1, b2, b3, b4⟩ := userBits_binToTimeCode tc.timeCodeBits rTc
    obtain ⟨-, c1, c2, c3⟩ := flags_binToTimeCode tc.timeCodeBits rTc
    refine ⟨tc.timeCodeBits, (binToTimeCode tc.timeCodeBits rTc).2, hbin rTc64,
      Prod.ext ((hvalid rTc).mpr ⟨hF', by simpa using hnd⟩) rfl, ?_, ?_, ?_, ?_, ?_, hasFlag_binToTimeCode rTc c1 hdrop, hasFlag_binToTimeCode rTc c2 hcolor,
      hasFlag_binToTimeCode rTc c3 hparity⟩
    · exact UInt8.toNat_inj.mp (by omega)
    · exact UInt8.toNat_inj.mp (by omega)
    · exact UInt8.toNat_inj.mp (by omega)
    · exact UInt8.toNat_inj.mp (by omega)
    · funext i
      match i with
      | 0 => exact UInt8.toNat_inj.mp (by omega)
      | 1 => exact UInt8.toNat_inj.mp (by omega)
      | 2 => exact UInt8.toNat_inj.mp (by omega)
      | 3 => exact UInt8.toNat_inj.mp (by omega)

/-- An NTSC timecode of the evening with user bits and two flags. -/
theorem roundTrips_iff_fitsBin_evening :
    let tc : BofTimecode :=
      { Hour_U8 := 23, Minute_U8 := 59, Second_U8 := 58, Frame_U8 := 24, TcFlag_U8 := 0x83,
        pUserBit_U8 := fun _ => 0xA5 }
    RoundTrips tc ↔ FitsBin tc :=
  roundTrips_iff_fitsBin rfl

/-- Drop frame timecodes are accepted only as NTSC ones, and none of them is decoded again. -/
theorem not_roundTrips_drop :
    let tc : BofTimecode := { Hour_U8 := 1, Frame_U8 := 2, TcFlag_U8 := 0xC0 }
    tc.validateTimecode = .noError ∧ ¬ RoundTrips tc := by
  refine ⟨rfl, fun h => ?_⟩
  obtain ⟨w, tc', hw, hw', -⟩ := h 0 {}
  obtain rfl : _ = w := congrArg Prod.snd hw
  have herr : (binToTimeCode _ _).1 = .noError := congrArg Prod.fst hw'
  exact absurd herr (by decide)

end BofStd.BofTimecode

/-!
# Timecodes in milliseconds

The rational times are first replaced by integer divisions, for both standards at once: `rate` frames are one second.
The times of the fields of the PAL standard are the multiples of twenty milliseconds, and on these the two conversions
are inverse to each other. Of the NTSC frames every third begins at a whole millisecond; the others do not come back.
-/

namespace BofStd

namespace BofTimecode

/-! ## Integer arithmetic -/

/-- The number of frames in a second. -/
def rate (ntsc : Bool) : Nat := if ntsc then 30 else 25

theorem frameTime_eq (tc : BofTimecode) : tc.frameTime = 1000 / rate tc.isNtsc := by
  unfold frameTime rate
  split <;> norm_num

theorem rate_pos (ntsc : Bool) : (0 : ℚ) < rate ntsc := by
  cases ntsc <;> norm_num [rate]

/-- The beginning of a frame, truncated. -/
theorem floor_mul_frameTime (tc : BofTimecode) (f : Nat) :
    ⌊(f : ℚ) * tc.frameTime⌋₊ = f * 1000 / rate tc.isNtsc := by
  have hcast : (f : ℚ) * tc.frameTime = ((f * 1000 : Nat) : ℚ) / (rate tc.isNtsc : Nat) := by
    rw [frameTime_eq]
    push_cast
    ring
  rw [hcast, Nat.floor_div_eq_div]

/-- The time of a field, truncated. -/
theorem floor_fieldTime (tc : BofTimecode) : ⌊tc.fieldTime⌋₊ = 500 / rate tc.isNtsc := by
  have hcast : tc.fieldTime = ((500 : Nat) : ℚ) / (rate tc.isNtsc : Nat) := by
    rw [fieldTime, frameTime_eq]
    push_cast
    ring
  rw [hcast, Nat.floor_div_eq_div]

/-- The time of a number of fields, truncated. -/
theorem floor_fieldTime_mul (tc : BofTimecode) (n : Nat) : ⌊tc.fieldTime * n⌋₊ = 500 * n / rate tc.isNtsc := by
  have hcast : tc.fieldTime * n = ((500 * n : Nat) : ℚ) / (rate tc.isNtsc : Nat) := by
    rw [fieldTime, frameTime_eq]
    push_cast
    ring
  rw [hcast, Nat.floor_div_eq_div]

/-- The frame at a time. -/
theorem floor_div_frameTime (tc : BofTimecode) (ms : Nat) :
    ⌊(ms : ℚ) / tc.frameTime⌋₊ = ms * rate tc.isNtsc / 1000 := by
  have hcast : (ms : ℚ) / tc.frameTime = ((ms * rate tc.isNtsc : Nat) : ℚ) / (1000 : Nat) := by
    rw [frameTime_eq]
    push_cast
    field_simp
  rw [hcast, Nat.floor_div_eq_div]

/-- The threshold for the odd field is nine tenths of a field: the `float` is so near that no whole number of
milliseconds lies between. -/
theorem threshold_lt_iff (tc : BofTimecode) (ms f : Nat) :
    (ms : ℚ) - f * tc.frameTime > pointNine * tc.fieldTime ↔ f * 1000 + 450 ≤ ms * rate tc.isNtsc := by
  have hrate := rate_pos tc.isNtsc
  have hscale : ((ms : ℚ) - f * tc.frameTime) * rate tc.isNtsc = ((ms * rate tc.isNtsc : Nat) : ℚ) - (f * 1000 : Nat) := by
    rw [frameTime_eq]
    push_cast
    field_simp
  have hfield : pointNine * tc.fieldTime * rate tc.isNtsc = pointNine * 500 := by
    rw [fieldTime, frameTime_eq]
    field_simp
    ring
  rw [gt_iff_lt, ← mul_lt_mul_iff_left₀ hrate, hscale, hfield]
  generalize ms * rate tc.isNtsc = x
  constructor
  · intro hlt
    by_contra hle
    have hle' : x ≤ f * 1000 + 449 := by omega
    have hcast : (x : ℚ) ≤ (f * 1000 : Nat) + 449 := by exact_mod_cast hle'
    norm_num [pointNine] at hlt
    push_cast at hcast
    linarith
  · intro hle
    have hcast : ((f * 1000 : Nat) : ℚ) + 450 ≤ x := by exact_mod_cast hle
    norm_num [pointNine]
    push_cast at hcast
    linarith

/-! ## The two conversions -/

theorem isNtsc_of_flag {tc : BofTimecode} {ntsc : Bool} (h : tc.TcFlag_U8 = standardFlag ntsc) :
    tc.isNtsc = ntsc := by
  rw [isNtsc, hasFlag, h]
  cases ntsc <;> decide

theorem isNtsc_mk (day : UInt16) (hour minute second frame spare : UInt8) (userBit : Fin 4 → UInt8) (ntsc : Bool) :
    (mk day hour minute second frame (standardFlag ntsc) spare userBit).isNtsc = ntsc := isNtsc_of_flag rfl

/-- `ToMs` in integers. -/
theorem toMs_eq (tc : BofTimecode) : tc.toMs =
    tc.NbDay_U16.toNat * 86400000 + tc.Hour_U8.toNat * 3600000 + tc.Minute_U8.toNat * 60000 +
      tc.Second_U8.toNat * 1000 + tc.Frame_U8.toNat * 1000 / rate tc.isNtsc +
      if tc.isOddField then 500 / rate tc.isNtsc else 0 := by
  simp only [toMs, floor_mul_frameTime, floor_fieldTime]

theorem toNat_ofNat8 {n : Nat} (h : n < 256) : (UInt8.ofNat n).toNat = n := Nat.mod_eq_of_lt h

/-- The members that `FromMs` computes, in integers. -/
def fieldsAt (tc : BofTimecode) (ntsc : Bool) (ms : Nat) : BofTimecode :=
  { tc with
    NbDay_U16 := UInt16.ofNat (ms / 86400000)
    Hour_U8 := UInt8.ofNat (ms % 86400000 / 3600000)
    Minute_U8 := UInt8.ofNat (ms % 3600000 / 60000)
    Second_U8 := UInt8.ofNat (ms % 60000 / 1000)
    Frame_U8 := UInt8.ofNat (ms % 1000 * rate ntsc / 1000)
    TcFlag_U8 := standardFlag ntsc ||| if 450 ≤ ms % 1000 * rate ntsc % 1000 then flagParityOdd else 0 }

/-- The number of frames in a second is at most thirty. -/
theorem rate_le (ntsc : Bool) : rate ntsc ≤ 30 := by cases ntsc <;> decide

/-- `FromMs` in integers. -/
theorem fromMs_eq (tc : BofTimecode) (ntsc : Bool) {ms : Nat} (h : ms < maxMs) :
    tc.fromMs ntsc ms = fieldsAt tc ntsc ms := by
  have hmax : ms < 65536 * 86400000 := h
  have hday : (UInt16.ofNat (ms / (24 * 60 * 60 * 1000))).toNat = ms / 86400000 := Nat.mod_eq_of_lt (by omega)
  have hms1 : ms - ms / 86400000 * (24 * 60 * 60 * 1000) = ms % 86400000 := by omega
  have hhour : (UInt8.ofNat (ms % 86400000 / (60 * 60 * 1000))).toNat = ms % 86400000 / 3600000 :=
    toNat_ofNat8 (by omega)
  have hms2 : ms % 86400000 - ms % 86400000 / 3600000 * (60 * 60 * 1000) = ms % 3600000 := by omega
  have hminute : (UInt8.ofNat (ms % 3600000 / (60 * 1000))).toNat = ms % 3600000 / 60000 := toNat_ofNat8 (by omega)
  have hms3 : ms % 3600000 - ms % 3600000 / 60000 * (60 * 1000) = ms % 60000 := by omega
  have hsecond : (UInt8.ofNat (ms % 60000 / 1000)).toNat = ms % 60000 / 1000 := toNat_ofNat8 (by omega)
  have hms4 : ms % 60000 - ms % 60000 / 1000 * 1000 = ms % 1000 := by omega
  have hlt : ms % 1000 * rate ntsc / 1000 < 256 := by
    have hmul : ms % 1000 * rate ntsc ≤ 999 * 30 := Nat.mul_le_mul (by omega) (rate_le ntsc)
    omega
  have hframe : (UInt8.ofNat (ms % 1000 * rate ntsc / 1000)).toNat = ms % 1000 * rate ntsc / 1000 := toNat_ofNat8 hlt
  simp only [fromMs, hday, hms1, hhour, hms2, hminute, hms3, hsecond, hms4, floor_div_frameTime,
    threshold_lt_iff, isNtsc_mk, hframe]
  by_cases hodd : 450 ≤ ms % 1000 * rate ntsc % 1000
  · rw [if_pos (by omega), fieldsAt, if_pos hodd]
  · rw [if_neg (by omega), fieldsAt, if_neg hodd, UInt8.or_zero]

/-- The milliseconds of a timecode since the last full second. -/
def inSecond (tc : BofTimecode) (ntsc : Bool) : Nat :=
  tc.Frame_U8.toNat * 1000 / rate ntsc + if tc.isOddField then 500 / rate ntsc else 0

/-- The frame and the parity come back. -/
def Survives (tc : BofTimecode) (ntsc : Bool) : Prop :=
  inSecond tc ntsc * rate ntsc / 1000 = tc.Frame_U8.toNat ∧
    (450 ≤ inSecond tc ntsc * rate ntsc % 1000 ↔ tc.isOddField = true)

section

variable {t : BofTimecode} {ntsc : Bool}

theorem Proper.isNtsc_eq (h : Proper t ntsc) : t.isNtsc = ntsc := by
  rcases h.flag with hflag | hflag
  · rw [isNtsc, hasFlag, hflag]
    cases ntsc <;> decide
  · rw [isNtsc, hasFlag, hflag]
    cases ntsc <;> decide

theorem Proper.flag_eq (h : Proper t ntsc) :
    t.TcFlag_U8 = standardFlag ntsc ||| if t.isOddField then flagParityOdd else 0 := by
  rcases h.flag with hflag | hflag
  · rw [isOddField, hasFlag, hflag]
    cases ntsc <;> decide
  · rw [isOddField, hasFlag, hflag]
    cases ntsc <;> decide

theorem Proper.inSecond_lt (h : Proper t ntsc) : inSecond t ntsc < 1000 := by
  have hframe := h.frame
  unfold inSecond
  cases ntsc with
  | false =>
    simp only [rate, Bool.false_eq_true, if_false] at hframe ⊢
    split <;> omega
  | true =>
    simp only [rate, if_true] at hframe ⊢
    split <;> omega

theorem Proper.toMs_eq (h : Proper t ntsc) : t.toMs = t.NbDay_U16.toNat * 86400000 + t.Hour_U8.toNat * 3600000 +
    t.Minute_U8.toNat * 60000 + t.Second_U8.toNat * 1000 + inSecond t ntsc := by
  rw [BofTimecode.toMs_eq, h.isNtsc_eq, inSecond, Nat.add_assoc]

theorem Proper.toMs_lt (h : Proper t ntsc) : t.toMs < maxMs := by
  have hin := h.inSecond_lt
  have hms := h.toMs_eq
  have hday := t.NbDay_U16.toNat_lt
  obtain ⟨hhour, hminute, hsecond, -, -⟩ := h
  rw [hms, maxMs]
  omega

/-- `FromMs` recovers the day, the hour, the minute and the second of any timecode of the standard. -/
theorem Proper.fromMs_toMs (h : Proper t ntsc) (u : BofTimecode) : u.fromMs ntsc t.toMs =
    { t with
      Frame_U8 := UInt8.ofNat (inSecond t ntsc * rate ntsc / 1000)
      TcFlag_U8 := standardFlag ntsc ||| if 450 ≤ inSecond t ntsc * rate ntsc % 1000 then flagParityOdd else 0
      Spare_U8 := u.Spare_U8
      pUserBit_U8 := u.pUserBit_U8 } := by
  have hin := h.inSecond_lt
  have hms := h.toMs_eq
  rw [fromMs_eq u ntsc h.toMs_lt]
  obtain ⟨hhour, hminute, hsecond, -, -⟩ := h
  have h1 : t.toMs / 86400000 = t.NbDay_U16.toNat := by omega
  have h2 : t.toMs % 86400000 / 3600000 = t.Hour_U8.toNat := by omega
  have h3 : t.toMs % 3600000 / 60000 = t.Minute_U8.toNat := by omega
  have h4 : t.toMs % 60000 / 1000 = t.Second_U8.toNat := by omega
  have h5 : t.toMs % 1000 = inSecond t ntsc := by omega
  simp only [fieldsAt, h1, h2, h3, h4, h5, UInt16.ofNat_toNat, UInt8.ofNat_toNat]

/-- The parity flags that two conditions set are equal exactly if the conditions are. -/
theorem parityFlag_inj (p q : Prop) [Decidable p] [Decidable q] :
    (standardFlag ntsc ||| if p then flagParityOdd else 0) = (standardFlag ntsc ||| if q then flagParityOdd else 0) ↔
      (p ↔ q) := by
  by_cases hp : p <;> by_cases hq : q <;> cases ntsc <;> simp only [hp, hq, if_true, if_false] <;> decide

/-- Both the frame and the flags come back exactly if the timecode survives. -/
theorem Proper.survives_iff (h : Proper t ntsc) :
    (UInt8.ofNat (inSecond t ntsc * rate ntsc / 1000) = t.Frame_U8 ∧
      (standardFlag ntsc ||| if 450 ≤ inSecond t ntsc * rate ntsc % 1000 then flagParityOdd else 0) = t.TcFlag_U8) ↔
      Survives t ntsc := by
  have hmul : inSecond t ntsc * rate ntsc ≤ 999 * 30 :=
    Nat.mul_le_mul (Nat.le_of_lt_succ h.inSecond_lt) (rate_le ntsc)
  have hframe : UInt8.ofNat (inSecond t ntsc * rate ntsc / 1000) = t.Frame_U8 ↔
      inSecond t ntsc * rate ntsc / 1000 = t.Frame_U8.toNat := by
    rw [← UInt8.toNat_inj, toNat_ofNat8 (by omega)]
  rw [hframe, h.flag_eq, parityFlag_inj, Survives]

/-- The conversion to milliseconds and back, on the same object. -/
theorem Proper.fromMs_toMs_eq_iff (h : Proper t ntsc) : t.fromMs ntsc t.toMs = t ↔ Survives t ntsc := by
  rw [h.fromMs_toMs t, ← h.survives_iff]
  constructor
  · intro heq
    exact ⟨congrArg Frame_U8 heq, congrArg TcFlag_U8 heq⟩
  · rintro ⟨hframe, hflag⟩
    rw [hframe, hflag]

/-- On any object, compared by `operator==`. -/
theorem Proper.eq_fromMs_toMs_iff (h : Proper t ntsc) (u : BofTimecode) :
    (u.fromMs ntsc t.toMs).eq t = true ↔ Survives t ntsc := by
  rw [h.fromMs_toMs u, ← h.survives_iff]
  simp [eq]

end

/-! ## The PAL standard -/

/-- Every PAL timecode survives. -/
theorem Proper.survives_pal {t : BofTimecode} (h : Proper t false) : Survives t false := by
  have hframe := h.frame
  have hrate : rate false = 25 := rfl
  simp only [Survives, inSecond, hrate, Bool.false_eq_true, if_false] at hframe ⊢
  cases t.isOddField with
  | false =>
    simp only [Bool.false_eq_true, if_false, iff_false]
    omega
  | true =>
    simp only [if_true, iff_true]
    omega

theorem rate_pal : rate false = 25 := rfl

/-- The time of a PAL timecode is a whole number of fields. -/
theorem Proper.toMs_pal {t : BofTimecode} (h : Proper t false) : ∃ k, t.toMs = 20 * k := by
  refine ⟨t.toMs / 20, ?_⟩
  have hms := h.toMs_eq
  simp only [inSecond, rate_pal] at hms
  split at hms
  · omega
  · omega

/-- Every whole number of fields is the time of a PAL timecode. -/
theorem fromMs_pal (u : BofTimecode) {k : Nat} (h : 20 * k < maxMs) :
    Proper (u.fromMs false (20 * k)) false ∧ (u.fromMs false (20 * k)).toMs = 20 * k := by
  have hmax : 20 * k < 65536 * 86400000 := h
  have hday : (UInt16.ofNat (20 * k / 86400000)).toNat = 20 * k / 86400000 := Nat.mod_eq_of_lt (by omega)
  have hhour : (UInt8.ofNat (20 * k % 86400000 / 3600000)).toNat = 20 * k % 86400000 / 3600000 :=
    toNat_ofNat8 (by omega)
  have hminute : (UInt8.ofNat (20 * k % 3600000 / 60000)).toNat = 20 * k % 3600000 / 60000 := toNat_ofNat8 (by omega)
  have hsecond : (UInt8.ofNat (20 * k % 60000 / 1000)).toNat = 20 * k % 60000 / 1000 := toNat_ofNat8 (by omega)
  have hframe : (UInt8.ofNat (20 * k % 1000 * 25 / 1000)).toNat = 20 * k % 1000 * 25 / 1000 :=
    toNat_ofNat8 (by omega)
  rw [fromMs_eq u false h]
  have hproper : Proper (fieldsAt u false (20 * k)) false := by
    constructor
    · simp only [fieldsAt, hhour]
      omega
    · simp only [fieldsAt, hminute]
      omega
    · simp only [fieldsAt, hsecond]
      omega
    · simp only [fieldsAt, rate_pal, hframe, Bool.false_eq_true, if_false]
      omega
    · simp only [fieldsAt]
      split
      · exact .inr rfl
      · exact .inl rfl
  have hodd : (fieldsAt u false (20 * k)).isOddField = true ↔ 450 ≤ 20 * k % 1000 * rate false % 1000 :=
    ((parityFlag_inj _ _).mp hproper.flag_eq).symm
  rw [rate_pal] at hodd
  refine ⟨hproper, ?_⟩
  rw [hproper.toMs_eq, inSecond, rate_pal]
  by_cases hpar : 450 ≤ 20 * k % 1000 * 25 % 1000
  · rw [if_pos (hodd.mpr hpar)]
    simp only [fieldsAt, rate_pal, hday, hhour, hminute, hsecond, hframe]
    omega
  · rw [if_neg (mt hodd.mp hpar)]
    simp only [fieldsAt, rate_pal, hday, hhour, hminute, hsecond, hframe]
    omega

/-- The sum is the conversion of a later time. -/
theorem Proper.add_pal {t : BofTimecode} (h : Proper t false) (n : Nat) : t.add n = t.fromMs false (t.toMs + 20 * n) := by
  have hfloor : 500 * n / 25 = 20 * n := by omega
  rw [add, floor_fieldTime_mul, h.isNtsc_eq, rate_pal, hfloor]

/-- Every sum is a timecode of the standard, at its time. -/
theorem Proper.toMs_add {t : BofTimecode} (h : Proper t false) {n : Nat} (hfit : t.toMs + 20 * n < maxMs) :
    Proper (t.add n) false ∧ (t.add n).toMs = t.toMs + 20 * n := by
  obtain ⟨k, hk⟩ := h.toMs_pal
  have hsum : t.toMs + 20 * n = 20 * (k + n) := by omega
  rw [h.add_pal, hsum]
  exact fromMs_pal t (hsum ▸ hfit)

/-- `FromMs` takes nothing of the time from the object. -/
theorem fromMs_fromMs (u : BofTimecode) (ntsc ntsc' : Bool) {a b : Nat} (ha : a < maxMs) (hb : b < maxMs) :
    (u.fromMs ntsc a).fromMs ntsc' b = u.fromMs ntsc' b := by
  rw [fromMs_eq _ _ hb, fromMs_eq _ _ ha, fromMs_eq _ _ hb]
  rfl

theorem Proper.add_add {t : BofTimecode} (h : Proper t false) {n m : Nat} (hfit : t.toMs + 20 * (n + m) < maxMs) :
    (t.add n).add m = t.add (n + m) := by
  obtain ⟨hproper, hms⟩ := h.toMs_add (n := n) (by omega)
  have hsum : t.toMs + 20 * n + 20 * m = t.toMs + 20 * (n + m) := by omega
  rw [hproper.add_pal, hms, h.add_pal, h.add_pal, hsum, fromMs_fromMs _ _ _ (by omega) hfit]

theorem Proper.add_sub {t : BofTimecode} (h : Proper t false) {n : Nat} (hfit : t.toMs + 20 * n < maxMs) :
    (t.add n).sub t = some (n : Int) := by
  obtain ⟨hproper, hms⟩ := h.toMs_add hfit
  have hmax : maxMs = 5662310400000 := rfl
  have hdiff : (t.toMs + 20 * n + (2 ^ 64 - t.toMs)) % 2 ^ 64 = 20 * n := by omega
  have hfield : (t.add n).fieldTime = 20 := by
    rw [fieldTime, frameTime_eq, hproper.isNtsc_eq, rate_pal]
    norm_num
  have hquot : ((20 * n : Nat) : ℚ) / 20 + pointOne = (n : Int) + pointOne := by
    push_cast
    ring
  have htenth : ⌊pointOne⌋ = 0 := by
    rw [Int.floor_eq_zero_iff]
    constructor <;> norm_num [pointOne]
  simp only [sub, hproper.isNtsc_eq, h.isNtsc_eq, if_true, hms, hdiff, hfield, hquot, Int.floor_intCast_add, htenth,
    Int.add_zero]

theorem Proper.lt_add {t : BofTimecode} (h : Proper t false) {n : Nat} (hfit : t.toMs + 20 * n < maxMs) :
    t.lt (t.add n) = some (decide (0 < n)) := by
  obtain ⟨hproper, hms⟩ := h.toMs_add hfit
  have hlt : t.toMs < t.toMs + 20 * n ↔ 0 < n := by omega
  simp only [lt, hproper.isNtsc_eq, h.isNtsc_eq, if_true, hms, hlt]

/-- The laws of the PAL timecodes. -/
theorem pal_laws {t : BofTimecode} (h : Proper t false) {n m : Nat} (hfit : t.toMs + 20 * (n + m) < maxMs) :
    (t.fromMs false t.toMs = t ∧ ∀ u : BofTimecode, (u.fromMs false t.toMs).eq t = true) ∧
      (t.add n).add m = t.add (n + m) ∧ (t.add n).sub t = some (n : Int) ∧
      t.lt (t.add n) = some (decide (0 < n)) :=
  ⟨⟨h.fromMs_toMs_eq_iff.mpr h.survives_pal, fun u => (h.eq_fromMs_toMs_iff u).mpr h.survives_pal⟩,
    h.add_add hfit, h.add_sub (by omega), h.lt_add (by omega)⟩

/-- The last field but one of a day, and what comes behind it. -/
theorem pal_laws_midnight :
    let t : BofTimecode := { Hour_U8 := 23, Minute_U8 := 59, Second_U8 := 59, Frame_U8 := 24 }
    (t.fromMs false t.toMs = t ∧ ∀ u : BofTimecode, (u.fromMs false t.toMs).eq t = true) ∧
      (t.add 1).add 3 = t.add (1 + 3) ∧ (t.add 1).sub t = some ((1 : Nat) : Int) ∧
      t.lt (t.add 1) = some (decide (0 < 1)) := by
  refine pal_laws ⟨by decide, by decide, by decide, by decide, .inl (by decide)⟩ ?_
  rw [toMs_eq]
  decide

/-! ## The NTSC standard -/

/-- A frame that does not begin at a whole millisecond is found again only by its odd field: the even field is
converted to a time just before the frame. -/
theorem Proper.survives_ntsc_iff {t : BofTimecode} (h : Proper t true) :
    Survives t true ↔ t.isOddField = true ∨ t.Frame_U8.toNat % 3 = 0 := by
  have hall : ∀ f < 30, ∀ odd : Bool,
      ((f * 1000 / 30 + if odd then 500 / 30 else 0) * 30 / 1000 = f ∧
        (450 ≤ (f * 1000 / 30 + if odd then 500 / 30 else 0) * 30 % 1000 ↔ odd = true)) ↔
      odd = true ∨ f % 3 = 0 := by decide
  exact hall _ h.frame _

/-- Adding no field is the conversion and back. -/
theorem Proper.add_zero {t : BofTimecode} {ntsc : Bool} (h : Proper t ntsc) : t.add 0 = t.fromMs ntsc t.toMs := by
  rw [add, floor_fieldTime_mul, h.isNtsc_eq, Nat.mul_zero, Nat.zero_div, Nat.add_zero]

/-- The NTSC timecodes that survive the conversion with the rational frame time. With the `float` of the source the even
fields of the frames 3, 6, …, 27 do not survive either. -/
theorem ntsc_roundTrip_iff {t : BofTimecode} (h : Proper t true) :
    ((∀ u : BofTimecode, (u.fromMs true t.toMs).eq t = true) ∧ t.add 0 = t) ↔
      t.isOddField = true ∨ t.Frame_U8.toNat % 3 = 0 := by
  rw [h.add_zero, h.fromMs_toMs_eq_iff, ← h.survives_ntsc_iff]
  constructor
  · exact fun hboth => hboth.2
  · exact fun hs => ⟨fun u => (h.eq_fromMs_toMs_iff u).mpr hs, hs⟩

/-- The odd field of a frame in the last second of a day. -/
theorem ntsc_roundTrip_odd :
    let t : BofTimecode :=
      { Hour_U8 := 23, Minute_U8 := 59, Second_U8 := 59, Frame_U8 := 29, TcFlag_U8 := flagNtsc ||| flagParityOdd }
    (∀ u : BofTimecode, (u.fromMs true t.toMs).eq t = true) ∧ t.add 0 = t :=
  (ntsc_roundTrip_iff ⟨by decide, by decide, by decide, by decide, .inr (by decide)⟩).mpr (.inl (by decide))

/-- The even field of the second frame becomes the odd field of the first. -/
theorem not_ntsc_roundTrip :
    let t : BofTimecode := { Frame_U8 := 1, TcFlag_U8 := flagNtsc }
    ¬ (t.fromMs true t.toMs).eq t = true ∧ t.add 0 ≠ t := by
  have h : Proper { Frame_U8 := 1, TcFlag_U8 := flagNtsc } true :=
    ⟨by decide, by decide, by decide, by decide, .inl (by decide)⟩
  have hs : ¬ Survives { Frame_U8 := 1, TcFlag_U8 := flagNtsc } true := by
    unfold Survives
    decide
  constructor
  · exact mt (h.eq_fromMs_toMs_iff _).mp hs
  · rw [h.add_zero]
    exact mt h.fromMs_toMs_eq_iff.mp hs

end BofTimecode

end BofStd
