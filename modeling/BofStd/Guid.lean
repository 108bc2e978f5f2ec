import BofStd.Basic
import BofStd.Lib.Hex

/-!
# The class `BofGuid`

Sixteen bytes, their two printed forms, and the parser. Characters are bytes: comparing them as `char` or
as `uint8_t` makes no difference here, since every limit is below `0x80`.
-/

namespace BofStd

/-- A GUID: `mGuidByteCollection`. -/
structure Guid where
  bytes : Vector UInt8 16
  deriving DecidableEq

namespace Guid

/-- `snprintf` of the bytes from `i` on, each as `%02x`. -/
def printBytes (g : Guid) (i n : Nat) : List UInt8 :=
  ((g.bytes.toList.drop i).take n).flatMap fun b => Hex.print 'a'.toUInt8 2 b.toNat

/-- `std::toupper`. -/
def toUpper (c : UInt8) : UInt8 := if 'a'.toUInt8 ≤ c ∧ c ≤ 'z'.toUInt8 then c - 32 else c

/-- `Bof_StringToUpper`. -/
def stringToUpper (s : List UInt8) : List UInt8 := s.map toUpper

/-- `ToString`. -/
def toString (g : Guid) (canonical : Bool) : List UInt8 :=
  let one := g.printBytes 0 4
  let two := g.printBytes 4 2
  let three := g.printBytes 6 2
  let four := g.printBytes 8 2
  let five := g.printBytes 10 6
  let dash := ['-'.toUInt8]
  if canonical then one ++ (dash ++ two) ++ (dash ++ three) ++ (dash ++ four) ++ (dash ++ five)
  else stringToUpper (one ++ two ++ three ++ four ++ five)

/-- `HexDigitToChar`. -/
def hexDigitToChar (ch : UInt8) : UInt8 :=
  if ch ≥ '0'.toUInt8 ∧ ch ≤ '9'.toUInt8 then ch - '0'.toUInt8
  else if ch ≥ 'a'.toUInt8 ∧ ch ≤ 'f'.toUInt8 then ch - 'a'.toUInt8 + 10
  else if ch ≥ 'A'.toUInt8 ∧ ch ≤ 'F'.toUInt8 then ch - 'A'.toUInt8 + 10
  else 0

/-- `IsValidHexChar`. -/
def isValidHexChar (ch : UInt8) : Bool :=
  if ch ≥ '0'.toUInt8 ∧ ch ≤ '9'.toUInt8 then true
  else if ch ≥ 'a'.toUInt8 ∧ ch ≤ 'f'.toUInt8 then true
  else if ch ≥ 'A'.toUInt8 ∧ ch ≤ 'F'.toUInt8 then true
  else false

/-- `HexPairToChar`. -/
def hexPairToChar (high low : UInt8) : UInt8 := hexDigitToChar high * 16 + hexDigitToChar low

/-- `Clear`. -/
def clear : Guid := ⟨Vector.replicate 16 0⟩

/-- The variables of the loop in `FromString`. -/
structure Scan where
  one : UInt8
  lookingForFirstChar : Bool
  index : Nat
  bytes : Vector UInt8 16

/-- The loop of `FromString`: the result, false after a `break`, and the variables behind it. -/
def scan : List UInt8 → Scan → Bool × Scan
  | [], v => (true, v)
  | ch :: s, v =>
    if ch = '-'.toUInt8 then scan s v
    else if v.index ≥ 16 ∨ ¬ isValidHexChar ch then (false, v)
    else if v.lookingForFirstChar then scan s { v with one := ch, lookingForFirstChar := false }
    else
      scan s
        { v with
          lookingForFirstChar := true
          index := v.index + 1
          bytes := v.bytes.setIfInBounds v.index (hexPairToChar v.one ch) }

/-- `FromString`. -/
def fromString (g : Guid) (s : List UInt8) : Guid × Bool :=
  let (ok, v) := scan s ⟨0, true, 0, g.bytes⟩
  let ok := if v.index < 16 then false else ok
  if ok then (⟨v.bytes⟩, true) else (clear, false)

end Guid

end BofStd

/-!
# The text forms of a GUID

A text denotes a GUID when it consists of 32 hexadecimal digits, with dashes anywhere between them.
-/

namespace BofStd.Guid

/-- The text without its dashes. -/
def digits (s : List UInt8) : List UInt8 := s.filter fun c => c ≠ '-'.toUInt8

/-- Exactly 32 hexadecimal digits, of either case, beside the dashes. -/
def Denotes (s : List UInt8) : Prop := (digits s).length = 32 ∧ ∀ c ∈ digits s, (Hex.value c).isSome

instance (s : List UInt8) : Decidable (Denotes s) := inferInstanceAs (Decidable (_ ∧ _))

/-- Each byte is the number that its two digits stand for. -/
def HasDigits (g : Guid) (s : List UInt8) : Prop :=
  ∀ i (hi : i < 16), ∃ h l x y, (digits s)[2 * i]? = some h ∧ (digits s)[2 * i + 1]? = some l ∧
    Hex.value h = some x ∧ Hex.value l = some y ∧ (g.bytes[i]).toNat = 16 * x + y

/-- The parser accepts exactly the texts that denote a GUID, reads its bytes from the digits, and clears
the GUID otherwise. -/
def Parses (g : Guid) (s : List UInt8) : Prop :=
  ((g.fromString s).2 = true ↔ Denotes s) ∧
    (Denotes s → HasDigits (g.fromString s).1 s) ∧ (¬ Denotes s → (g.fromString s).1 = clear)

end BofStd.Guid
