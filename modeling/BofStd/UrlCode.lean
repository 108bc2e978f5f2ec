import BofStd.Basic
import BofStd.Lib.Hex

/-!
# URL escapes: `BofUri::S_UrlEncode` and `BofUri::S_UrlDecode`

Characters are bytes; `char` is a signed type, so that a byte from `0x80` on is negative as a `char`. Lengths
are converted to `int`, which wraps from `2^31` on. What `Val_i` holds before the first successful `sscanf` is
indeterminate in the source and an argument here.
-/

namespace BofStd.UrlCode

/-- The conversion of a length to `int`. -/
def toInt (n : Nat) : Int :=
  if n % 4294967296 < 2147483648 then n % 4294967296 else (n % 4294967296 : Nat) - (4294967296 : Int)

/-- A `char` that is promoted to `int`. -/
def charToInt (c : UInt8) : Int := if c < 0x80 then c.toNat else c.toNat - (256 : Int)

/-- An `int` as `sprintf` reads it for the conversion `%X`. -/
def toUnsigned (i : Int) : Nat := (i % 4294967296).toNat

/-- `isalnum` in the locale `C`. -/
def isAlnum (c : UInt8) : Bool :=
  ('0'.toUInt8 ≤ c && c ≤ '9'.toUInt8) || ('A'.toUInt8 ≤ c && c ≤ 'Z'.toUInt8) ||
    ('a'.toUInt8 ≤ c && c ≤ 'z'.toUInt8)

/-- The characters that are not escaped. -/
def isUnreserved (c : UInt8) : Bool :=
  isAlnum c || c == '-'.toUInt8 || c == '_'.toUInt8 || c == '.'.toUInt8 || c == '~'.toUInt8

/-- The body of the loop of `S_UrlEncode`: what is appended for a character. -/
def encodeChar (c : UInt8) : List UInt8 :=
  if isUnreserved c then [c]
  else
    let hexBuffer := Hex.print 'A'.toUInt8 1 (toUnsigned (charToInt c))
    (if charToInt c < 16 then ['%'.toUInt8, '0'.toUInt8] else ['%'.toUInt8]) ++ hexBuffer

/-- `S_UrlEncode`: the text ends before the first null byte, and the loop runs up to its length as an
`int`. -/
def urlEncode (s : List UInt8) : List UInt8 :=
  let text := s.takeWhile (· ≠ 0)
  (text.take (toInt text.length).toNat).flatMap encodeChar

/-- The white space that `sscanf` skips. -/
def isSpace (c : UInt8) : Bool := c == 32 || (9 ≤ c && c ≤ 13)

/-- The hexadecimal digits at the start of a text. -/
def scanDigits (s : List UInt8) : List Nat := (s.map Hex.value).takeWhile Option.isSome |>.reduceOption

/-- `sscanf` with the conversion `%x`: blanks, a sign and the prefix `0x` may stand before the digits. -/
def scanHex (s : List UInt8) : Option Nat :=
  let s := s.dropWhile isSpace
  let (negative, s) :=
    match s with
    | c :: s => if c = '-'.toUInt8 then (true, s) else if c = '+'.toUInt8 then (false, s) else (false, c :: s)
    | [] => (false, [])
  let s :=
    match s with
    | z :: x :: s => if z = '0'.toUInt8 ∧ (x = 'x'.toUInt8 ∨ x = 'X'.toUInt8) then s else z :: x :: s
    | s => s
  match scanDigits s with
  | [] => none
  | d :: ds =>
    let n : Nat := (d :: ds).foldl (fun n d => 16 * n + d) 0
    some (toUnsigned (if negative then -(n : Int) else n))

/-- The loop of `S_UrlDecode` behind the place `i` of the text: `skip` counts the characters that
`i = i + 2` jumps over, `n` is `Len_i - i`, and `val` is `Val_i`. -/
def decodeLoop : List UInt8 → Nat → Nat → Nat → List UInt8
  | [], _, _, _ => []
  | _ :: s, skip + 1, n, val => decodeLoop s skip (n - 1) val
  | c :: s, 0, n, val =>
    if n = 0 then []
    else if c ≠ '%'.toUInt8 then
      (if c = '+'.toUInt8 then ' '.toUInt8 else c) :: decodeLoop s 0 (n - 1) val
    else
      let val := (scanHex (s.take 2)).getD val
      val.toUInt8 :: decodeLoop s 2 (n - 1) val

/-- `S_UrlDecode`. -/
def urlDecode (val : Nat) (s : List UInt8) : List UInt8 := decodeLoop s 0 (toInt s.length).toNat val

end BofStd.UrlCode

/-!
# What the escapes of a URL are for

An escaped text consists of unreserved characters and of groups of a percent sign and two hexadecimal digits,
and reading it gives back the text that was escaped.
-/

namespace BofStd.UrlCode

/-- Texts of unreserved characters and groups `%XX`. -/
inductive Escaped : List UInt8 → Prop
  | nil : Escaped []
  /-- A character that stands for itself. -/
  | char {c : UInt8} {s : List UInt8} (hc : isUnreserved c) (hs : Escaped s) : Escaped (c :: s)
  /-- A group of a percent sign and two digits. -/
  | group {h l : UInt8} {s : List UInt8} (hh : (Hex.value h).isSome) (hl : (Hex.value l).isSome) (hs : Escaped s) :
    Escaped ('%'.toUInt8 :: h :: l :: s)

/-- The text is escaped and read back, whatever `Val_i` holds at first. -/
def Faithful (s : List UInt8) : Prop :=
  Escaped (urlEncode s) ∧ ∀ val, urlDecode val (urlEncode s) = s

/-- Plain ASCII, without the null character. -/
def IsAscii (s : List UInt8) : Prop := ∀ c ∈ s, c ≠ 0 ∧ c < 0x80

instance (s : List UInt8) : Decidable (IsAscii s) := inferInstanceAs (Decidable (∀ c ∈ s, _))

/-- The escapes need a length that an `int` can hold. -/
def Fits (s : List UInt8) : Prop := s.length + 2 * s.countP (fun c => !isUnreserved c) < 2147483648

end BofStd.UrlCode
