import BofStd.BofPath
import BofStd.Lib.Memory

/-!
# Bounded copies: `Bof_StrNCpy` and `Bof_Snprintf` (`bofstring.cpp`)

A function is the list of the stores that it makes: indexes in the destination, and the characters that are stored
there. The destination, the source and the format are not null pointers.
-/

namespace BofStd

namespace StrCopy

/-- The stores of a function, in their order. -/
abbrev Stores := List (Nat × UInt8)

/-- The destination after the stores. -/
def Stores.apply (stores : Stores) (dest : Nat → UInt8) : Nat → UInt8 :=
  stores.foldl (fun dest store => Function.update dest store.1 store.2) dest

/-! ## `Bof_StrNCpy` -/

/-- The loop of `Bof_StrNCpy`, from the index `i` on: the stores, the last character and the index behind it. -/
def copyLoop (src : Nat → UInt8) : (maxChar : Nat) → (c : UInt8) → (i : Nat) → Stores × UInt8 × Nat
  | 0, c, i => ([], c, i)
  | maxChar + 1, c, i =>
    if c ≠ 0 then
      let r := copyLoop src maxChar (src i) (i + 1)
      ((i, src i) :: r.1, r.2)
    else ([], c, i)

/-- `Bof_StrNCpy`. -/
def strNCpy (src : Nat → UInt8) (maxChar : Nat) : Stores :=
  if maxChar ≠ 0 then
    let (stores, c, i) := copyLoop src (maxChar - 1) 1 0
    stores ++ (if c ≠ 0 then [(i, 0)] else [])
  else []

/-! ## `Bof_Snprintf` -/

/-- `vsnprintf` of the C library, for a format whose text is `text`: the stores and the result, which is negative if the
length of the text is no `int`. -/
def vsnprintf (size : Nat) (text : Text) : Stores × Int :=
  (if size = 0 then [] else (text.take (size - 1) ++ [0]).mapIdx fun i c => (i, c),
    if text.length < 2 ^ 31 then text.length else -1)

/-- `Bof_Snprintf`. -/
def snprintf (maxBufferSize : Nat) (text : Text) : Stores :=
  if maxBufferSize ≠ 0 then
    let (stores, size) := vsnprintf (maxBufferSize - 1) text
    if 0 ≤ size then stores ++ [(size.toNat, 0)] else stores
  else []

/-! ## What they are for -/

/-- The string that begins at an address, as far as its first `n` characters. -/
def firstChars (src : Nat → UInt8) (n : Nat) : Text := (Memory.read src 0 n).takeWhile fun c => c ≠ 0

/-- All stores are below the bound. -/
def Stores.InBounds (stores : Stores) (bound : Nat) : Prop := ∀ store ∈ stores, store.1 < bound

/-- The destination begins with `text` and a null byte. -/
def Terminated (dest : Nat → UInt8) (text : Text) : Prop :=
  Memory.read dest 0 text.length = text ∧ dest text.length = 0

/-- The copies stay in a destination of `max` characters and leave a terminated string there: the first characters of
the source, and a prefix of the formatted text. -/
structure CopiesInBounds (dest src : Nat → UInt8) (text : Text) (max : Nat) : Prop where
  copyInside : (strNCpy src max).InBounds max
  copied : Terminated ((strNCpy src max).apply dest) (firstChars src (max - 1))
  formatInside : (snprintf max text).InBounds max
  formatted : ∃ n < max, Terminated ((snprintf max text).apply dest) (text.take n)

end StrCopy

end BofStd
