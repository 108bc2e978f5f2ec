import BofStd.Video

/-!
# What video standards are for

An object is a value: a copy, an assigned object and an object from an index answer as what they stand for, and two
objects are equal if they answer alike. The quantities that are derived from it are defined.
-/

namespace BofStd

namespace BofVideoStandard

open StdString

/-- Conversions that are exact for whole numbers. -/
def wholeConversions : VideoConversions where
  rateNumerator rate := (UInt64.ofNat (numeral (rate.takeWhile isDigit))).toInt64
  aspectRatio width height := ⟨(width / height).toUInt64.toInt64, 1⟩
  fps numerator denominator := (numerator.toUInt64 / denominator).toUInt32

/-! ## Value semantics -/

/-- What all the getters answer. -/
structure Answers where
  nbActiveCol : UInt32
  nbActiveRow : UInt32
  nbCol : UInt32
  nbRow : UInt32
  audioClockRate : Rational
  id : UInt32
  toString : Text
  effectiveFrameRate : Rational
  fieldsPerFrame : UInt32
  frameRate : Rational
  isHdtv : Bool
  imageAspectRatio : Rational
  isInterlaced : Bool
  pixelAspectRatio : Rational
  pixelAspectRatioWith : Rational → Rational
  isProgressive : Bool
  isSdtv : Bool
  segmentedFrame : Bool
  switchLine1 : UInt32
  switchLine2 : UInt32
  nbTotalCol : UInt32
  nbTotalRow : UInt32
  fps : UInt32
  duration : Option UInt32
  fieldDuration : Option UInt32
  smpte352PayloadID : UInt32
  pidAncillaryData : UInt32
  isValid : Bool

def answers (s : BofVideoStandard) : Answers where
  nbActiveCol := s.nbActiveCol
  nbActiveRow := s.nbActiveRow
  nbCol := s.nbCol
  nbRow := s.nbRow
  audioClockRate := s.audioClockRate
  id := s.id
  toString := s.toString
  effectiveFrameRate := s.effectiveFrameRate
  fieldsPerFrame := s.fieldsPerFrame
  frameRate := s.frameRate
  isHdtv := s.isHdtv
  imageAspectRatio := s.imageAspectRatio
  isInterlaced := s.isInterlaced
  pixelAspectRatio := s.pixelAspectRatio
  pixelAspectRatioWith := s.pixelAspectRatioWith
  isProgressive := s.isProgressive
  isSdtv := s.isSdtv
  segmentedFrame := s.segmentedFrame
  switchLine1 := s.switchLine1
  switchLine2 := s.switchLine2
  nbTotalCol := s.nbTotalCol
  nbTotalRow := s.nbTotalRow
  fps := s.fps
  duration := s.duration
  fieldDuration := s.fieldDuration
  smpte352PayloadID := s.smpte352PayloadID
  pidAncillaryData := s.pidAncillaryData
  isValid := s.isValid

/-- The objects that the constructors, `FromIndex`, copies and assignments make. -/
inductive Reachable (conv : VideoConversions) (elide : Bool) : BofVideoStandard → Prop where
  | ofString (standard : Text) : Reachable conv elide (ofString conv standard)
  | ofFormat (nbCol nbRow fps : UInt32) (type : UInt8) : Reachable conv elide (ofFormat nbCol nbRow fps type)
  | fromIndex (index : Int) : Reachable conv elide (fromIndex elide index)
  | copy {s : BofVideoStandard} (h : Reachable conv elide s) : Reachable conv elide s.copy
  | assign {s other : BofVideoStandard} (h : Reachable conv elide s) (hother : Reachable conv elide other) :
    Reachable conv elide (s.assign other)

/-- A copy of `a` and `b` after the assignment of `a` answer as `a`, the entry `i` of the table is that of its name, and
`a` and `b` are equal if they answer alike. -/
structure ValueSemantics (conv : VideoConversions) (elide : Bool) (a b : BofVideoStandard) (i : Nat) : Prop where
  copy : a.copy.answers = a.answers
  assign : (b.assign a).answers = a.answers
  fromIndex : (fromIndex elide i).answers = (ofString conv (tableEntry i).pDescription_c).answers
  eq : a.operatorEq b = true ↔ a.answers = b.answers

/-- The pointer is the one for the index. -/
def InStep (s : BofVideoStandard) : Prop := s.mpVideoStandardEntry_X = pointTo s.mIndex_i

/-- A format that is not in the table. -/
def IsCustom (s : BofVideoStandard) : Prop := s.mIndex_i = 0 ∧ s.mCustomFormat_X ≠ tableEntry 0

/-- A valid object that points to the record of the first entry. -/
def ShowsFirst (s : BofVideoStandard) : Prop := 0 ≤ s.mIndex_i ∧ s.entry = tableEntry 0

/-- What the getters tell of the type of an entry. -/
def typeKind (e : VideoStandardEntry) : UInt8 :=
  if e.Type_c = 'i'.toUInt8 ∨ e.Type_c = 'p'.toUInt8 ∨ e.Type_c = 's'.toUInt8 then e.Type_c else 0

/-- Two records that are the same but for types that no getter tells apart. -/
def SameFormat (e e' : VideoStandardEntry) : Prop :=
  { e with Type_c := typeKind e } = { e' with Type_c := typeKind e' }

/-- Objects that are compared correctly: with the same index both are in step or both are not, and own records that are
selected are the same; with different indexes they do not both show the first entry. -/
def Comparable (a b : BofVideoStandard) : Prop :=
  if a.mIndex_i = b.mIndex_i then
    (a.InStep ↔ b.InStep) ∧ (a.mIndex_i = 0 → SameFormat a.mCustomFormat_X b.mCustomFormat_X)
  else ¬ (a.ShowsFirst ∧ b.ShowsFirst)

/-- The indexes whose entry is found under its name, with a pointer to it. -/
def FoundByName (elide : Bool) (i : Nat) : Prop := i = 0 ∨ elide = false ∧ i ≠ 6 ∧ i ≠ 7

/-! ## Divisions -/

/-- No quantity of the object for the text is a division by zero, nor is the aspect ratio of the text. -/
structure NeverDividesByZero (conv : VideoConversions) (standard : Text) : Prop where
  aspectRatio : ∀ operands, aspectOperands conv standard = some operands → operands.2 ≠ 0
  duration : (ofString conv standard).duration ≠ none
  fieldDuration : (ofString conv standard).fieldDuration ≠ none
  pixelAspectRatio : ∀ d ∈ (ofString conv standard).pixelAspectRatioDivisors, d.num ≠ 0

/-- A text that the pattern matches: the digits of the width, `x`, the digits of the height, `@`, and a line of a rate
and one more character. -/
structure IsFormat (standard width height rate : Text) (type : UInt8) : Prop where
  widthDigits : ∀ c ∈ width, isDigit c = true
  heightDigits : ∀ c ∈ height, isDigit c = true
  line : ∀ c ∈ rate ++ [type], isDot c = true
  text : ∃ rest, standard = width ++ 'x'.toUInt8 :: (height ++ '@'.toUInt8 :: (rate ++ [type] ++ rest)) ∧
    ∀ c, rest.head? = some c → isDot c = false

/-- A text that names an entry behind the first one, or a format with numbers that are not zero. -/
def HasNumbers (conv : VideoConversions) (standard : Text) : Prop :=
  (∃ i, 0 < i ∧ i < videoStandardTable.length ∧ (tableEntry i).pDescription_c = cStr standard) ∨
    (∀ e ∈ videoStandardTable, e.pDescription_c ≠ cStr standard) ∧
      ∃ width height rate type, IsFormat standard width height rate type ∧ atol width ≠ 0 ∧ atol height ≠ 0 ∧
        (conv.rateNumerator (cStr rate)).toUInt64.toUInt32 ≠ 0 ∧
        (conv.aspectRatio (atol width) (atol height)).num.toUInt64.toUInt32 ≠ 0

end BofVideoStandard

end BofStd
