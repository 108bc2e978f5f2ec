import BofStd.BofPath
import BofStd.Lib.Replace

/-!
# Functions on strings

The loops of `bofstring.cpp`, with the positions they keep. The member functions of `std::string` that they call stand
first; `npos` is `none`. A loop that is not over after the given number of rounds ends in `none`, and so does a
`substr` that throws an exception.
-/

namespace BofStd

/-! ## `std::string` -/

namespace StdString

/-- `find` of a string, from a position on. -/
def find (s str : Text) (pos : Nat) : Option Nat :=
  if pos ≤ s.length then (Replace.firstOccurrence str (s.drop pos)).map (pos + ·) else none

/-- `find_first_of`, from a position on. -/
def findFirstOf (s chars : Text) (pos : Nat) : Option Nat :=
  ((s.drop pos).findIdx? fun c => c ∈ chars).map (pos + ·)

/-- `substr`. -/
def substr (s : Text) (pos n : Nat) : Option Text := if pos ≤ s.length then some ((s.drop pos).take n) else none

/-- `replace`. -/
def replace (s : Text) (pos n : Nat) (str : Text) : Text := s.take pos ++ str ++ s.drop (pos + n)

/-- `erase`. -/
def erase (s : Text) (pos n : Nat) : Text := s.take pos ++ s.drop (pos + n)

/-- `insert`. -/
def insert (s : Text) (pos : Nat) (str : Text) : Text := s.take pos ++ str ++ s.drop pos

/-- `strchr` on `c_str()`: what follows the first null byte is not seen, and the null byte itself is found. -/
def strchr (s : Text) (c : UInt8) : Bool := c = 0 || (s.takeWhile fun d => d ≠ 0).contains c

end StdString

/-- `std::unique` behind the element `c`, which is kept: an element is left out if it is related to the last one that
is kept. -/
def uniqueBehind (rel : UInt8 → UInt8 → Bool) : UInt8 → Text → Text
  | c, [] => [c]
  | c, d :: s => if rel c d then uniqueBehind rel c s else c :: uniqueBehind rel d s

/-- `std::unique`. -/
def unique (rel : UInt8 → UInt8 → Bool) : Text → Text
  | [] => []
  | c :: s => uniqueBehind rel c s

namespace BofString

open StdString

/-! ## Replacement -/

/-- The loops of `Bof_StringReplace` and `Bof_StringTokenReplace`, which differ in how they put in the new string. -/
def replaceLoop (edit : Text → Nat → Text) (str : Text) (newSize : Nat) : Nat → Text → Nat → Option Text
  | 0, _, _ => none
  | rounds + 1, s, pos =>
    match find s str pos with
    | none => some s
    | some pos => replaceLoop edit str newSize rounds (edit s pos) (pos + newSize)

/-- `Bof_StringReplace` of a string. -/
def stringReplace (rounds : Nat) (s stringToReplace replaceString : Text) : Option Text :=
  let oldSize := stringToReplace.length
  let newSize := replaceString.length
  if oldSize ≤ s.length then
    replaceLoop
      (fun s pos =>
        if oldSize = newSize then replace s pos oldSize replaceString
        else insert (erase s pos oldSize) pos replaceString)
      stringToReplace newSize rounds s 0
  else some s

/-- `Bof_StringTokenReplace`. -/
def stringTokenReplace (rounds : Nat) (s tokenKey tokenValue : Text) : Option Text :=
  replaceLoop (fun s pos => replace s pos tokenKey.length tokenValue) tokenKey tokenValue.length rounds s 0

/-! ## Split and join -/

/-- The loop of `Bof_StringSplit` from a delimiter at `endPos` on. -/
def splitLoop (s splitDelimiter : Text) : Nat → Nat → Nat → List Text → Option (List Text)
  | 0, _, _, _ => none
  | rounds + 1, startPos, endPos, rts =>
    (substr s startPos (endPos - startPos)).bind fun piece =>
      match findFirstOf s splitDelimiter (endPos + 1) with
      | none => (substr s (endPos + 1) s.length).map fun last => rts ++ [piece] ++ [last]
      | some endPos' => splitLoop s splitDelimiter rounds (endPos + 1) endPos' (rts ++ [piece])

/-- `Bof_StringSplit`; there is a round for each delimiter at most. -/
def stringSplit (s splitDelimiter : Text) : Option (List Text) :=
  match findFirstOf s splitDelimiter 0 with
  | none => some [s]
  | some endPos => splitLoop s splitDelimiter s.length 0 endPos []

/-- The loop of `Bof_StringJoin`: no delimiter behind the last string. -/
def joinLoop (joinDelimiter : Text) : List Text → Text → Text
  | [], rts => rts
  | [t], rts => rts ++ t
  | t :: u :: ts, rts => joinLoop joinDelimiter (u :: ts) (rts ++ t ++ joinDelimiter)

/-- `Bof_StringJoin`. -/
def stringJoin (ts : List Text) (joinDelimiter : Text) : Text := joinLoop joinDelimiter ts []

/-! ## Keys and values -/

/-- `Bof_StringReplace` of characters. -/
def stringReplaceChar (s charToReplace : Text) (replaceChar : UInt8) : Text :=
  s.map fun c => if strchr charToReplace c then replaceChar else c

/-- `Bof_RemoveDuplicateSuccessiveCharacter`. -/
def removeDuplicateSuccessiveCharacter (s : Text) (c : UInt8) : Text :=
  if c = 0 then unique (fun c₁ c₂ => c₁ = c₂) s else unique (fun c₁ c₂ => c₁ = c && c₂ = c) s

/-- The loop of `Bof_GetStringFromMultipleKeyValueString`, with its index of type `uint32_t` and the output as it is
before the call. -/
def keyValueLoop (keyValueList : List Text) (keyName : Text) : Nat → Nat → Text → Option (BofErr × Text)
  | 0, _, _ => none
  | rounds + 1, i, value =>
    match keyValueList[i]? with
    | none => some (.notFound, value)
    | some key =>
      if stringTrim key = keyName then
        match keyValueList[u32 (i + 1)]? with
        | some v => some (.noError, v)
        | none => some (.notFound, value)
      else keyValueLoop keyValueList keyName rounds (u32 (i + 2)) value

/-- `Bof_GetStringFromMultipleKeyValueString`: the error code, and the output, which is `value` before the call. -/
def getStringFromMultipleKeyValueString (rounds : Nat) (multiKeyValueString multiKeyValueDelimiter keyName : Text)
    (keyValueSeparator : UInt8) (value : Text) : Option (BofErr × Text) :=
  match multiKeyValueDelimiter with
  | [] => some (.einval, value)
  | delimiter :: _ =>
    if delimiter ≠ keyValueSeparator then
      let s := stringReplaceChar multiKeyValueString multiKeyValueDelimiter delimiter
      let s := removeDuplicateSuccessiveCharacter s delimiter
      (stringSplit s [delimiter, keyValueSeparator]).bind fun keyValueList =>
        keyValueLoop keyValueList keyName rounds 0 value
    else some (.einval, value)

end BofString

end BofStd
