import Mathlib.Data.Rat.Floor
import BofStd.Basic

/-!
# `BofTimecode` (`boftimecode.h`, `boftimecode.cpp`): the binary codec

The members and the words have their own fixed-width types. `BofDateTime` is modelled as far as its
validity goes (`bofdatetime.cpp`, `date.h`). An output parameter is given by its value before the call
and returned with its value after it.
-/

namespace BofStd

/-- `BOF_TIMECODE`. -/
structure BofTimecode where
  NbDay_U16 : UInt16 := 0
  Hour_U8 : UInt8 := 0
  Minute_U8 : UInt8 := 0
  Second_U8 : UInt8 := 0
  Frame_U8 : UInt8 := 0
  TcFlag_U8 : UInt8 := 0
  Spare_U8 : UInt8 := 0
  pUserBit_U8 : Fin 4 → UInt8 := fun _ => 0

namespace BofTimecode

/-- `BOF_TIMECODE_FLAG_PARITY_ODD`. -/
def flagParityOdd : UInt8 := 0x01

/-- `BOF_TIMECODE_FLAG_COLOR_FRAME`. -/
def flagColorFrame : UInt8 := 0x02

/-- `BOF_TIMECODE_FLAG_DROP`. -/
def flagDrop : UInt8 := 0x40

/-- `BOF_TIMECODE_FLAG_NTSC`. -/
def flagNtsc : UInt8 := 0x80

/-- `TcFlag_U8 & flag`, as a condition. -/
def hasFlag (tc : BofTimecode) (flag : UInt8) : Bool := tc.TcFlag_U8 &&& flag ≠ 0

/-! ## Validation -/

/-- `date::year::is_leap`. -/
def isLeap (year : Int) : Bool := year.tmod 4 = 0 ∧ (year.tmod 100 ≠ 0 ∨ year.tmod 400 = 0)

/-- The last day of a month. -/
def lastDay (year : Int) (month : Nat) : Nat :=
  if month = 2 then (if isLeap year then 29 else 28)
  else if month = 4 ∨ month = 6 ∨ month = 9 ∨ month = 11 then 30 else 31

/-- `date::year_month_day::ok`; the year comes from a `uint16_t`, and in the library it is a `short`, whose
least value is not a year. -/
def ymdOk (day month : UInt8) (year : UInt16) : Bool :=
  year ≠ 0x8000 ∧ 1 ≤ month.toNat ∧ month.toNat ≤ 12 ∧ 1 ≤ day.toNat ∧
    day.toNat ≤ lastDay year.toInt16.toInt month.toNat

/-- `BofDateTime::InitDateTime`, then `IsValid`: the time of day is not looked at. -/
def dateTimeIsValid (day month : UInt8) (year : UInt16) (_hour _minute _second : UInt8)
    (microSecond : UInt32) : Bool :=
  ymdOk day month year ∧ microSecond < 1000000

/-- `S_ValidateTimecode`. -/
def validateTimecode (tc : BofTimecode) : BofErr :=
  if dateTimeIsValid 1 1 1970 tc.Hour_U8 tc.Minute_U8 tc.Second_U8 0 then
    if tc.hasFlag flagNtsc then
      if tc.Frame_U8 < 30 then .noError else .tooBig
    else if tc.Frame_U8 < 25 ∧ ¬ tc.hasFlag flagDrop then .noError else .tooBig
  else .einval

/-! ## The codec -/

/-- Two decimal digits of a word: `(10 * ValHigh_U8) + ValLow_U8`. -/
def binDigits (value maskLow shiftLow maskHigh shiftHigh : UInt32) : UInt8 :=
  let valLow := ((value &&& maskLow) >>> shiftLow).toUInt8
  let valHigh := ((value &&& maskHigh) >>> shiftHigh).toUInt8
  10 * valHigh + valLow

/-- Two groups of user bits of a word: `ValHigh_U8 | ValLow_U8`. -/
def binUserBit (value maskLow shiftLow maskHigh shiftHigh : UInt32) : UInt8 :=
  let valLow := ((value &&& maskLow) >>> shiftLow).toUInt8
  let valHigh := ((value &&& maskHigh) >>> shiftHigh).toUInt8
  valHigh ||| valLow

/-- The flags that are found in the low half of the word. -/
def binFlag (lowValue : UInt32) : UInt8 :=
  let tcFlag : UInt8 := 0
  let tcFlag := if lowValue &&& 0x00000400 ≠ 0 then tcFlag ||| flagDrop else tcFlag
  let tcFlag := if lowValue &&& 0x00000800 ≠ 0 then tcFlag ||| flagColorFrame else tcFlag
  if lowValue &&& 0x08000000 ≠ 0 then tcFlag ||| flagParityOdd else tcFlag

/-- `S_BinToTimeCode`: `rTc` is what the caller passes to be filled. -/
def binToTimeCode (tc64 : UInt64) (rTc : BofTimecode) : BofErr × BofTimecode :=
  let highValue := (tc64 >>> 32).toUInt32
  let lowValue := tc64.toUInt32
  let tc : BofTimecode :=
    { rTc with
      Frame_U8 := binDigits lowValue 0x0000000F 0 0x00000300 8
      Second_U8 := binDigits lowValue 0x000F0000 16 0x07000000 24
      Minute_U8 := binDigits highValue 0x0000000F 0 0x00000700 8
      Hour_U8 := binDigits highValue 0x000F0000 16 0x03000000 24
      pUserBit_U8 := fun i => match i with
        | 0 => binUserBit lowValue 0x000000F0 4 0x0000F000 8
        | 1 => binUserBit lowValue 0x00F00000 20 0xF0000000 24
        | 2 => binUserBit highValue 0x000000F0 4 0x0000F000 8
        | 3 => binUserBit highValue 0x00F00000 20 0xF0000000 24
      TcFlag_U8 := binFlag lowValue }
  (tc.validateTimecode, tc)

/-- Two decimal digits of a member, `ValLow_U8` and `ValHigh_U8`. -/
def digitLow (x : UInt8) : UInt8 := x - x / 10 * 10

/-- See `digitLow`. -/
def digitHigh (x : UInt8) : UInt8 := x / 10

/-- The word that `S_TimeCodeToBin` puts together. -/
def timeCodeBits (tc : BofTimecode) : UInt64 :=
  let w := (digitLow tc.Frame_U8).toUInt32.toUInt64
  let w := w ||| ((digitHigh tc.Frame_U8).toUInt32 <<< 8).toUInt64
  let w := w ||| ((digitLow tc.Second_U8).toUInt32 <<< 16).toUInt64
  let w := w ||| ((digitHigh tc.Second_U8).toUInt32 <<< 24).toUInt64
  let w := w ||| (digitLow tc.Minute_U8).toUInt64 <<< 32
  let w := w ||| (digitHigh tc.Minute_U8).toUInt64 <<< 40
  let w := w ||| (digitLow tc.Hour_U8).toUInt64 <<< 48
  let w := w ||| (digitHigh tc.Hour_U8).toUInt64 <<< 56
  let w := w ||| ((tc.pUserBit_U8 0 &&& 0x0F).toUInt32 <<< 4).toUInt64
  let w := w ||| ((tc.pUserBit_U8 0 &&& 0xF0).toUInt32 <<< 8).toUInt64
  let w := w ||| ((tc.pUserBit_U8 1 &&& 0x0F).toUInt32 <<< 20).toUInt64
  let w := w ||| ((tc.pUserBit_U8 1 &&& 0xF0).toUInt32 <<< 24).toUInt64
  let w := w ||| (tc.pUserBit_U8 2 &&& 0x0F).toUInt64 <<< 36
  let w := w ||| (tc.pUserBit_U8 2 &&& 0xF0).toUInt64 <<< 40
  let w := w ||| (tc.pUserBit_U8 3 &&& 0x0F).toUInt64 <<< 52
  let w := w ||| (tc.pUserBit_U8 3 &&& 0xF0).toUInt64 <<< 56
  let w := if tc.hasFlag flagDrop then w ||| 0x00000400 else w
  let w := if tc.hasFlag flagColorFrame then w ||| 0x00000800 else w
  if tc.hasFlag flagParityOdd then w ||| 0x08000000 else w

/-- `S_TimeCodeToBin`: `rTc64` is what the caller passes to be filled. -/
def timeCodeToBin (tc : BofTimecode) (rTc64 : UInt64) : BofErr × UInt64 :=
  if tc.validateTimecode = .noError then (.noError, tc.timeCodeBits) else (tc.validateTimecode, rTc64)

/-! ## The round trip -/

/-- The word of `tc` is decoded to the same time, user bits and flags, whatever the two output
parameters held before. -/
def RoundTrips (tc : BofTimecode) : Prop :=
  ∀ rTc64 rTc, ∃ w tc', tc.timeCodeToBin rTc64 = (.noError, w) ∧
    binToTimeCode w rTc = (.noError, tc') ∧
    tc'.Hour_U8 = tc.Hour_U8 ∧ tc'.Minute_U8 = tc.Minute_U8 ∧ tc'.Second_U8 = tc.Second_U8 ∧
    tc'.Frame_U8 = tc.Frame_U8 ∧ tc'.pUserBit_U8 = tc.pUserBit_U8 ∧
    tc'.hasFlag flagDrop = tc.hasFlag flagDrop ∧
    tc'.hasFlag flagColorFrame = tc.hasFlag flagColorFrame ∧
    tc'.hasFlag flagParityOdd = tc.hasFlag flagParityOdd

/-- Every digit has room in its field, and the timecode is also one of the PAL standard, which is what
the decoder takes it for. -/
def FitsBin (tc : BofTimecode) : Prop :=
  tc.Hour_U8 < 40 ∧ tc.Minute_U8 < 80 ∧ tc.Second_U8 < 80 ∧ tc.Frame_U8 < 25 ∧
    ¬ tc.hasFlag flagDrop

end BofTimecode

end BofStd

/-!
# The arithmetic of `BofTimecode`

A timecode as a number of milliseconds, and back; the order, the difference and the sum of fields that are defined
through it. The times of a frame and of a field are the exact rational numbers, where the source has a `float` that is a
little less than `1000 / 30`: the conversion of one to an integer truncates, and the other `float` constants have their
own values.
-/

namespace BofStd

namespace BofTimecode

/-- `IsNtsc`. -/
def isNtsc (tc : BofTimecode) : Bool := tc.hasFlag flagNtsc

/-- `IsOddField`. -/
def isOddField (tc : BofTimecode) : Bool := tc.hasFlag flagParityOdd

/-- `FrameTime`. -/
def frameTime (tc : BofTimecode) : ℚ := if tc.isNtsc then 1000 / 30 else 1000 / 25

/-- `FieldTime`. -/
def fieldTime (tc : BofTimecode) : ℚ := tc.frameTime / 2

/-- `ToMs`. -/
def toMs (tc : BofTimecode) : Nat :=
  let rts := tc.NbDay_U16.toNat * (24 * 60 * 60 * 1000)
  let rts := rts + tc.Hour_U8.toNat * (60 * 60 * 1000)
  let rts := rts + tc.Minute_U8.toNat * (60 * 1000)
  let rts := rts + tc.Second_U8.toNat * 1000
  let rts := rts + ⌊(tc.Frame_U8.toNat : ℚ) * tc.frameTime⌋₊
  rts + (if tc.isOddField then ⌊tc.fieldTime⌋₊ else 0)

/-- The value of `0.9f`. -/
def pointNine : ℚ := 15099494 / 16777216

/-- The value of `0.1f`. -/
def pointOne : ℚ := 13421773 / 134217728

/-- The flag of `FromMs` for the standard. -/
def standardFlag (ntsc : Bool) : UInt8 := if ntsc then flagNtsc else 0x00

/-- `FromMs`: the members of the object that are not part of the time keep their values. -/
def fromMs (tc : BofTimecode) (ntsc : Bool) (ms : Nat) : BofTimecode :=
  let tc := { tc with TcFlag_U8 := standardFlag ntsc }
  let tc := { tc with NbDay_U16 := UInt16.ofNat (ms / (24 * 60 * 60 * 1000)) }
  let ms := ms - tc.NbDay_U16.toNat * (24 * 60 * 60 * 1000)
  let tc := { tc with Hour_U8 := UInt8.ofNat (ms / (60 * 60 * 1000)) }
  let ms := ms - tc.Hour_U8.toNat * (60 * 60 * 1000)
  let tc := { tc with Minute_U8 := UInt8.ofNat (ms / (60 * 1000)) }
  let ms := ms - tc.Minute_U8.toNat * (60 * 1000)
  let tc := { tc with Second_U8 := UInt8.ofNat (ms / 1000) }
  let ms := ms - tc.Second_U8.toNat * 1000
  let tc := { tc with Frame_U8 := UInt8.ofNat ⌊(ms : ℚ) / tc.frameTime⌋₊ }
  let remain := (ms : ℚ) - tc.Frame_U8.toNat * tc.frameTime
  if remain > pointNine * tc.fieldTime then { tc with TcFlag_U8 := tc.TcFlag_U8 ||| flagParityOdd } else tc

/-- `operator==`. -/
def eq (lhs rhs : BofTimecode) : Bool :=
  lhs.NbDay_U16 == rhs.NbDay_U16 && lhs.Hour_U8 == rhs.Hour_U8 && lhs.Minute_U8 == rhs.Minute_U8 &&
    lhs.Second_U8 == rhs.Second_U8 && lhs.Frame_U8 == rhs.Frame_U8 && lhs.TcFlag_U8 == rhs.TcFlag_U8

/-- `operator<`; the assertion fails on timecodes of different standards. -/
def lt (lhs rhs : BofTimecode) : Option Bool :=
  if lhs.isNtsc = rhs.isNtsc then some (decide (lhs.toMs < rhs.toMs)) else none

/-- `operator-`: the number of fields; the difference of the times is one of `uint64_t`. -/
def sub (lhs rhs : BofTimecode) : Option Int :=
  if lhs.isNtsc = rhs.isNtsc then
    let diff : Nat := (lhs.toMs + (2 ^ 64 - rhs.toMs)) % 2 ^ 64
    some ⌊(diff : ℚ) / lhs.fieldTime + pointOne⌋
  else none

/-- `operator+` for a number of fields that is not negative: the new value of the left operand, which is returned. -/
def add (tc : BofTimecode) (nbField : Nat) : BofTimecode :=
  tc.fromMs tc.isNtsc (tc.toMs + ⌊tc.fieldTime * nbField⌋₊)

/-- The timecodes of a standard with either parity and no other flag. -/
structure Proper (tc : BofTimecode) (ntsc : Bool) : Prop where
  hour : tc.Hour_U8.toNat < 24
  minute : tc.Minute_U8.toNat < 60
  second : tc.Second_U8.toNat < 60
  frame : tc.Frame_U8.toNat < if ntsc then 30 else 25
  flag : tc.TcFlag_U8 = standardFlag ntsc ∨ tc.TcFlag_U8 = standardFlag ntsc ||| flagParityOdd

/-- The number of milliseconds in the days that a timecode can count. -/
def maxMs : Nat := 65536 * 86400000

end BofTimecode

end BofStd
