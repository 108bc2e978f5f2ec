import BofStd.IpAddress
import BofStd.Rational

/-!
# Video standards (`bofvideo.h`, `bofvideo.cpp`)

An object selects an entry of the table or its own record. What the constructor computes in floating point is a
parameter. A division of integers by zero has no result.
-/

namespace BofStd

/-- `BOF_VIDEO_STANDARD_ENTRY`. -/
structure VideoStandardEntry where
  pDescription_c : Text
  NbCol_U32 : UInt32
  NbRow_U32 : UInt32
  Fps_U32 : UInt32
  Type_c : UInt8
  NbActiveCol_U32 : UInt32
  NbActiveRow_U32 : UInt32
  NbTotalCol_U32 : UInt32
  NbTotalRow_U32 : UInt32
  FrameRateNum_U32 : UInt32
  FrameRateDen_U32 : UInt32
  SwitchLine1_U32 : UInt32
  SwitchLine2_U32 : UInt32
  ImageAspectRatioNum_U32 : UInt32
  ImageAspectRatioDen_U32 : UInt32
  AudioClockRateNum_S64 : UInt64
  AudioClockRateDen_U64 : UInt64
  Smpte352PayloadId_U32 : UInt32
  PidAncillaryData_U32 : UInt32
  deriving DecidableEq

/-- The conversions between texts, floating point numbers and fractions. -/
structure VideoConversions where
  /-- The numerator of `BofRational(std::atof(text))`, whose argument is converted to `int64_t`. -/
  rateNumerator : Text → Int64
  /-- `BofRational((double)width / (double)height, 10)`. -/
  aspectRatio : UInt32 → UInt32 → Rational
  /-- `(uint32_t)((double)numerator / (double)denominator)`. -/
  fps : Int64 → UInt64 → UInt32

/-- `mpVideoStandardEntry_X`: the address of the object's own record, or of an entry of the table. -/
inductive EntryPointer where
  | custom
  | table (i : Nat)
  deriving DecidableEq

/-- `BofVideoStandard`. -/
structure BofVideoStandard where
  mCustomFormat_X : VideoStandardEntry
  mpVideoStandardEntry_X : EntryPointer
  mIndex_i : Int
  deriving DecidableEq

namespace BofVideoStandard

open StdString

/-! ## The table -/

/-- The constructor of an entry. -/
def create (description : String) (nbCol nbRow fps : UInt32) (type : Char)
    (nbActiveCol nbActiveRow nbTotalCol nbTotalRow frameRateNum frameRateDen switchLine1 switchLine2
      imageAspectRatioNum imageAspectRatioDen : UInt32)
    (audioClockRateNum audioClockRateDen : UInt64) (smpte352PayloadId pidAncillaryData : UInt32) :
    VideoStandardEntry where
  pDescription_c := (description.toList.map Char.toUInt8).take 31
  NbCol_U32 := nbCol
  NbRow_U32 := nbRow
  Fps_U32 := fps
  Type_c := type.toUInt8
  NbActiveCol_U32 := nbActiveCol
  NbActiveRow_U32 := nbActiveRow
  NbTotalCol_U32 := nbTotalCol
  NbTotalRow_U32 := nbTotalRow
  FrameRateNum_U32 := frameRateNum
  FrameRateDen_U32 := frameRateDen
  SwitchLine1_U32 := switchLine1
  SwitchLine2_U32 := switchLine2
  ImageAspectRatioNum_U32 := imageAspectRatioNum
  ImageAspectRatioDen_U32 := imageAspectRatioDen
  AudioClockRateNum_S64 := audioClockRateNum
  AudioClockRateDen_U64 := audioClockRateDen
  Smpte352PayloadId_U32 := smpte352PayloadId
  PidAncillaryData_U32 := pidAncillaryData

/-- `S_mpVideoStandardTable_X`. -/
def videoStandardTable : List VideoStandardEntry :=
  [create "0x0@0?" 0 0 0 '?' 0 0 0 0 0 1 0 0 0 0 0 1 0 0,
    create "720x525@59.94i" 720 525 59 'i' 720 488 858 525 30000 1001 9 272 4 3 27000000 1001 0x81060001 0x000D01CE,
    create "720x625@50i" 720 625 50 'i' 720 576 864 625 25 1 5 318 4 3 27000000 1 0x81050001 0x000901CD,
    create "1280x720@50p" 1280 720 50 'p' 1280 720 1980 750 50 1 6 (-1) 16 9 74250000 1 0x84490001 0x000A0114,
    create "1280x720@59.94p" 1280 720 59 'p' 1280 720 1650 750 60000 1001 6 (-1)
      16 9 74250000000 1001 0x844A0001 0x000A0115,
    create "1280x720@24sF" 1280 720 50 's' 1280 720 0 0 50 1 6 (-1) 16 9 74250000 1 0 0,
    create "1280x720@50p" 1280 720 50 'p' 1280 720 1980 750 50 1 6 (-1) 16 9 74250000 1 0x84498001 0x000A0294,
    create "1280x720@59.94p" 1280 720 59 'p' 1280 720 1650 750 60000 1001 6 (-1)
      16 9 74250000000 1001 0x844A8001 0x000A0295,
    create "1280x720@60p" 1280 720 60 'p' 1280 720 1650 750 60 1 6 (-1) 16 9 74250000 1 0x844B8001 0x000A0216,
    create "1920x1080@23.97p" 1920 1080 23 'p' 1920 1080 2750 1125 24000 1001 6 568
      16 9 74250000000 1001 0x85C28001 0x000A028E,
    create "1920x1080@23.97s" 1920 1080 23 's' 1920 1080 2750 1125 24000 1001 6 568 16 9 74250000000 1001 0 0,
    create "1920x1080@24p" 1920 1080 24 'p' 1920 1080 2750 1125 24 1 6 568 16 9 74250000 1 0x85C38001 0x000A018F,
    create "1920x1080@24sF" 1920 1080 24 's' 1920 1080 2750 1125 24 1 6 568 16 9 74250000 1 0 0,
    create "1920x1080@25p" 1920 1080 25 'p' 1920 1080 2640 1125 25 1 6 568 16 9 74250000 1 0x85C58001 0x000A0191,
    create "1920x1080@25sF" 1920 1080 25 's' 1920 1080 2640 1125 25 1 6 568 16 9 74250000 1 0 0,
    create "1920x1080@29.97p" 1920 1080 29 'p' 1920 1080 2200 1125 30000 1001 6 568
      16 9 74250000000 1001 0x85C68001 0x000A0191,
    create "1920x1080@29.97s" 1920 1080 29 's' 1920 1080 2200 1125 30000 1001 6 568 16 9 74250000000 1001 0 0,
    create "1920x1080@30p" 1920 1080 30 'p' 1920 1080 2200 1125 30 1 6 568 16 9 74250000 1 0x85C78001 0x000A0293,
    create "1920x1080@30sF" 1920 1080 30 's' 1920 1080 2200 1125 30 1 6 568 16 9 74250000 1 0 0,
    create "1920x1080@50i" 1920 1080 50 'i' 1920 1080 2640 1125 25 1 6 568 16 9 74250000 1 0x85052001 0x0FFF0251,
    create "1920x1080@50p" 1920 1080 50 'p' 1920 1080 2640 1125 50 1 6 568 16 9 74250000 1 0x89C98001 0x000A0119,
    create "1920x1080@59.94i" 1920 1080 59 'i' 1920 1080 2200 1125 30000 1001 6 568
      16 9 74250000000 1001 0x85062001 0x0FFF01F2,
    create "1920x1080@59.94p" 1920 1080 59 'p' 1920 1080 2200 1125 60000 1001 6 568
      16 9 74250000000 1001 0x89CA8001 0x000A011A,
    create "1920x1080@60i" 1920 1080 60 'i' 1920 1080 2200 1125 30 1 6 568 16 9 74250000 1 0x85078001 0x0FFF01D3,
    create "1920x1080@60p" 1920 1080 60 'p' 1920 1080 2200 1125 60 1 6 568 16 9 74250000 1 0x89CB8001 0x000A029B,
    create "3840x2160@50p" 3840 2160 50 'p' 3840 2160 4000 2200 50 1 6 568 16 9 74250000 1 0x89CB8001 0x000AFFFF,
    create "3840x2160@59p" 3840 2160 59 'p' 3840 2160 4000 2200 60000 1001 6 568
      16 9 74250000000 1001 0x89CB8001 0x000AFFFF,
    create "3840x2160@60p" 3840 2160 60 'p' 3840 2160 4000 2200 60 1 6 568 16 9 74250000 1 0x89CB8001 0x000AFFFF]

/-- An entry of the table. -/
def tableEntry (i : Nat) : VideoStandardEntry :=
  videoStandardTable.getD i (create "0x0@0?" 0 0 0 '?' 0 0 0 0 0 1 0 0 0 0 0 1 0 0)

/-- `S_FindIndex`, by the description. -/
def findIndex (standard : Text) : Int :=
  (videoStandardTable.findIdx? fun e => e.pDescription_c = cStr standard).elim (-1) fun i => i

/-- `S_FindIndex`, by the format. -/
def findFormat (nbCol nbRow fps : UInt32) (type : UInt8) : Int :=
  (videoStandardTable.findIdx? fun e =>
    e.NbCol_U32 = nbCol ∧ e.NbRow_U32 = nbRow ∧ e.Fps_U32 = fps ∧ e.Type_c = type).elim (-1) fun i => i

/-! ## `S_Parse` -/

/-- The characters that `.` matches. -/
def isDot (c : UInt8) : Bool := c ≠ 10 && c ≠ 13

/-- `S_RegExVideoStandard` behind its `^`: `(\d*)x(\d*)@(.*)(.)`. -/
def regExVideoStandard : Regex UInt8 :=
  (Regex.many 0 isDigit).group.seq ((Regex.item fun c => c = 'x'.toUInt8).seq
    ((Regex.many 0 isDigit).group.seq ((Regex.item fun c => c = '@'.toUInt8).seq
      ((Regex.many 0 isDot).group.seq (Regex.item isDot).group))))

/-- `atol` of digits, converted to `uint32_t`. -/
def atol (digits : Text) : UInt32 := UInt32.ofNat (min (numeral digits) (2 ^ 63 - 1))

/-- `S_Parse`: the width, the height, the rate and the type. -/
def parse (conv : VideoConversions) (standard : Text) : Option (UInt32 × UInt32 × Rational × UInt8) :=
  match (regExVideoStandard.firstMatch standard).map Regex.Match.groups with
  | some [width, height, rate, type] =>
    some (atol width, atol height, ⟨conv.rateNumerator (cStr rate), 1⟩, type.headD 0)
  | _ => none

/-! ## Constructors, assignment and comparison -/

/-- The entry for an index. -/
def pointTo (index : Int) : EntryPointer := if index ≤ 0 then .custom else .table index.toNat

/-- The constructor without arguments. -/
def default : BofVideoStandard := ⟨tableEntry 0, pointTo (-1), -1⟩

/-- The copy constructor. -/
def copy (standard : BofVideoStandard) : BofVideoStandard :=
  ⟨tableEntry 0, pointTo standard.mIndex_i, standard.mIndex_i⟩

/-- The record of a format that is not in the table. -/
def customFormat (conv : VideoConversions) (standard : Text) (width height : UInt32) (fps : Rational) (type : UInt8) :
    VideoStandardEntry :=
  let aspectRatio := conv.aspectRatio width height
  { tableEntry 0 with
    pDescription_c := (cStr standard).take 31
    Fps_U32 := conv.fps fps.num fps.den
    FrameRateNum_U32 := fps.num.toUInt64.toUInt32
    FrameRateDen_U32 := fps.den.toUInt32
    ImageAspectRatioNum_U32 := aspectRatio.num.toUInt64.toUInt32
    ImageAspectRatioDen_U32 := aspectRatio.den.toUInt32
    NbRow_U32 := height
    NbActiveRow_U32 := height
    NbTotalRow_U32 := height
    NbCol_U32 := width
    NbActiveCol_U32 := width
    NbTotalCol_U32 := width
    Type_c := type }

/-- The constructor with a text. -/
def ofString (conv : VideoConversions) (standard : Text) : BofVideoStandard :=
  let index := findIndex standard
  if index = -1 then
    match parse conv standard with
    | some (width, height, fps, type) => ⟨customFormat conv standard width height fps type, pointTo 0, 0⟩
    | none => ⟨tableEntry 0, pointTo index, index⟩
  else ⟨tableEntry 0, pointTo index, index⟩

/-- The operands of the division in the constructor with a text. -/
def aspectOperands (conv : VideoConversions) (standard : Text) : Option (UInt32 × UInt32) :=
  if findIndex standard = -1 then (parse conv standard).map fun format => (format.1, format.2.1) else none

/-- The constructor with the numbers of columns and rows, the rate and the type. -/
def ofFormat (nbCol nbRow fps : UInt32) (type : UInt8) : BofVideoStandard :=
  let index := findFormat nbCol nbRow fps type
  ⟨tableEntry 0, pointTo index, index⟩

/-- `operator=`: the object afterwards. -/
def assign (_ other : BofVideoStandard) : BofVideoStandard :=
  ⟨other.mCustomFormat_X, pointTo other.mIndex_i, other.mIndex_i⟩

/-- `operator==`. -/
def operatorEq (a b : BofVideoStandard) : Bool := a.mIndex_i = b.mIndex_i

/-- `FromIndex`. The local object is the result itself, or the result is a copy of it. -/
def fromIndex (elide : Bool) (index : Int) : BofVideoStandard :=
  let rts := if 0 ≤ index ∧ index < videoStandardTable.length then { default with mIndex_i := index } else default
  if elide then rts else rts.copy

/-! ## Getters -/

section

variable (s : BofVideoStandard)

/-- `IsValid`. -/
def isValid : Bool := s.mIndex_i ≥ 0

/-- The entry that is pointed to. -/
def entry : VideoStandardEntry :=
  match s.mpVideoStandardEntry_X with
  | .custom => s.mCustomFormat_X
  | .table i => tableEntry i

/-- What all getters have in common. -/
def get {α : Type} (invalid : α) (f : VideoStandardEntry → α) : α := if s.mIndex_i ≥ 0 then f s.entry else invalid

def nbActiveCol : UInt32 := s.get 0 fun e => e.NbActiveCol_U32

def nbActiveRow : UInt32 := s.get 0 fun e => e.NbActiveRow_U32

def nbCol : UInt32 := s.get 0 fun e => e.NbCol_U32

def nbRow : UInt32 := s.get 0 fun e => e.NbRow_U32

def audioClockRate : Rational :=
  s.get ⟨0, 1⟩ fun e => Rational.set e.AudioClockRateNum_S64.toInt64 e.AudioClockRateDen_U64

/-- `Id`, with the macro `BOF_VIDEO_STANDARD_ID`. -/
def id : UInt32 := s.get 0 fun e =>
  (e.NbCol_U32 - 1) <<< 20 ||| (e.NbRow_U32 - 1) <<< 8 ||| (e.Fps_U32 - 1) <<< 2 |||
    if e.Type_c = 'i'.toUInt8 then 1 else if e.Type_c = 'p'.toUInt8 then 2 else if e.Type_c = 's'.toUInt8 then 3 else 0

def toString : Text := s.get [] fun e => e.pDescription_c

def frameRate : Rational :=
  s.get ⟨0, 1⟩ fun e => Rational.set e.FrameRateNum_U32.toUInt64.toInt64 e.FrameRateDen_U32.toUInt64

def effectiveFrameRate : Rational := s.get ⟨0, 1⟩ fun e =>
  let rate := Rational.set e.FrameRateNum_U32.toUInt64.toInt64 e.FrameRateDen_U32.toUInt64
  Rational.set (rate.num * if e.Type_c = 'i'.toUInt8 then 2 else 1) rate.den

def fieldsPerFrame : UInt32 :=
  s.get 0 fun e => if e.Type_c = 'i'.toUInt8 ∨ e.Type_c = 's'.toUInt8 then 2 else 1

def isHdtv : Bool := s.get false fun e => e.NbRow_U32 ≥ 720

/-- The aspect ratio of an entry. -/
def imageAspectRatioOf (e : VideoStandardEntry) : Rational :=
  Rational.set e.ImageAspectRatioNum_U32.toUInt64.toInt64 e.ImageAspectRatioDen_U32.toUInt64

def imageAspectRatio : Rational := s.get ⟨1, 1⟩ imageAspectRatioOf

def isInterlaced : Bool := s.get false fun e => e.Type_c = 'i'.toUInt8

/-- `BofRational(uint32_t)`. -/
def ofU32 (v : UInt32) : Rational := ⟨v.toUInt64.toInt64, 1⟩

/-- `PixelAspectRatio`, of a width, a height and an aspect ratio. -/
def pixelAspectRatioOf (width height : UInt32) (ar : Rational) : Rational := (ofU32 height).div ((ofU32 width).div ar)

/-- The divisors of `pixelAspectRatioOf`. -/
def pixelAspectDivisors (width : UInt32) (ar : Rational) : List Rational := [ar, (ofU32 width).div ar]

/-- `PixelAspectRatio`. -/
def pixelAspectRatio : Rational :=
  s.get ⟨1, 1⟩ fun e => pixelAspectRatioOf e.NbActiveCol_U32 e.NbActiveRow_U32 (imageAspectRatioOf e)

/-- The divisors of `PixelAspectRatio`. -/
def pixelAspectRatioDivisors : List Rational :=
  s.get [] fun e => pixelAspectDivisors e.NbActiveCol_U32 (imageAspectRatioOf e)

/-- `PixelAspectRatio`, with an aspect ratio. The width stands in the place of the height. -/
def pixelAspectRatioWith (ar : Rational) : Rational :=
  s.get ⟨1, 1⟩ fun e => pixelAspectRatioOf e.NbActiveCol_U32 e.NbActiveCol_U32 ar

def isProgressive : Bool := s.get false fun e => e.Type_c = 'p'.toUInt8

def isSdtv : Bool := s.get false fun e => e.NbRow_U32 < 720

def segmentedFrame : Bool := s.get false fun e => e.Type_c = 's'.toUInt8

def switchLine1 : UInt32 := s.get 0 fun e => e.SwitchLine1_U32

def switchLine2 : UInt32 := s.get 0 fun e => e.SwitchLine2_U32

def nbTotalCol : UInt32 := s.get 0 fun e => e.NbTotalCol_U32

def nbTotalRow : UInt32 := s.get 0 fun e => e.NbTotalRow_U32

def fps : UInt32 := s.get 0 fun e => e.Fps_U32

/-- `Duration`, which is undefined for a rate of zero. -/
def duration : Option UInt32 := s.get (some 0) fun e =>
  if e.FrameRateNum_U32 = 0 then none else some (e.FrameRateDen_U32 * 1000000 / e.FrameRateNum_U32)

/-- `FieldDuration`. -/
def fieldDuration : Option UInt32 := s.duration.map fun d => d / if s.isInterlaced then 2 else 1

def smpte352PayloadID : UInt32 := s.get 0 fun e => e.Smpte352PayloadId_U32

def pidAncillaryData : UInt32 := s.get 0 fun e => e.PidAncillaryData_U32

end

end BofVideoStandard

end BofStd
