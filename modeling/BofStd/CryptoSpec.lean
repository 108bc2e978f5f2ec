import Mathlib.Order.Nat
import BofStd.Crypto
import BofStd.Lib.Blocks
import BofStd.Lib.Bytes
import BofStd.Lib.Run

/-!
# One-shot digests

What the two digests of a message are: the message is padded to a whole number of blocks with a byte
`0x80`, the least number of zero bytes and its length in bits, and the transformation is iterated over
the blocks of the padded message.
-/

namespace BofStd

open Blocks Bytes

/-- Some number of zero bytes fills the last block. -/
theorem exists_zeroPad (n : Nat) : ∃ k, (n + 1 + k + 8) % 64 = 0 :=
  ⟨(119 - n % 64) % 64, by omega⟩

/-- The least number of zero bytes that completes the last block of a message of `n` bytes. -/
def zeroPad (n : Nat) : Nat := Nat.find (exists_zeroPad n)

/-- The padded message; the length field is given. -/
def padded (m lengthField : List UInt8) : List UInt8 :=
  m ++ 0x80 :: List.replicate (zeroPad m.length) 0 ++ lengthField

/-- The word with the given bytes, the least significant one first. -/
def wordLE (bytes : List UInt8) : UInt32 := UInt32.ofNat (valueLE bytes)

/-- The words `A` to `D` of RFC 1321, which it gives by their bytes, the low-order byte first. -/
def Md5.rfcState : State :=
  ⟨wordLE [0x01, 0x23, 0x45, 0x67], wordLE [0x89, 0xab, 0xcd, 0xef], wordLE [0xfe, 0xdc, 0xba, 0x98],
    wordLE [0x76, 0x54, 0x32, 0x10]⟩

/-- The MD5 digest of a message. -/
def Md5.digest (m : List UInt8) : List UInt8 :=
  let s := (blocks 64 (padded m (bytesLE 8 (8 * m.length)))).foldl transform rfcState
  [s.a, s.b, s.c, s.d].flatMap fun w => bytesLE 4 w.toNat

/-- The first hash value of FIPS 180. -/
def Sha1.fipsDigest : Digest := ⟨0x67452301, 0xefcdab89, 0x98badcfe, 0x10325476, 0xc3d2e1f0⟩

/-- The sixteen words of a block, the most significant byte first. -/
def Sha1.blockWords (block : List UInt8) : List UInt32 :=
  (List.range 16).map fun i => wordLE ((block.drop (4 * i)).take 4).reverse

/-- The sixteen hexadecimal digits. -/
def hexDigits : List Char := ['0', '1', '2', '3', '4', '5', '6', '7', '8', '9', 'a', 'b', 'c', 'd', 'e', 'f']

/-- A byte in two hexadecimal digits. -/
def byteText (b : UInt8) : List Char := [hexDigits.getD (b.toNat / 16) '0', hexDigits.getD (b.toNat % 16) '0']

/-- The SHA-1 digest of a message in hexadecimal digits. -/
def Sha1.digest (m : List UInt8) : List Char :=
  let d := (blocks 64 (padded m (bytesLE 8 (8 * m.length)).reverse)).foldl
    (fun d b => (transform d (blockWords b)).1) fipsDigest
  ([d.a, d.b, d.c, d.d, d.e].flatMap fun w => (bytesLE 4 w.toNat).reverse).flatMap byteText

/-- The number of zero bytes by the place of the end of the message in its block. -/
theorem zeroPad_eq (n : Nat) : zeroPad n = (119 - n % 64) % 64 := by
  rw [zeroPad, Nat.find_eq_iff]
  constructor
  · omega
  · intro k hk
    omega

end BofStd

/-!
## One object for several messages

A digest object as a machine: an input is a message with the calls that hash it, the output is its digest,
and the state is what the calls leave behind. An object can be reused if no answer depends on the messages
before it.
-/

namespace BofStd

open Machine

/-- Every step of the run answers as it does in the state that the run starts from. -/
def Reusable {σ ι ο : Type*} (step : σ → ι → σ × ο) (s : σ) (is : List ι) : Prop :=
  (run step s is).2 = is.map fun i => (step s i).2

/-- A machine that comes back to its first state after every step can be reused. -/
theorem reusable_of_return {σ ι ο : Type*} {step : σ → ι → σ × ο} {s : σ} (h : ∀ i, (step s i).1 = s) (is : List ι) :
    Reusable step s is := by
  unfold Reusable
  induction is with
  | nil => rfl
  | cons i is ih => rw [run_cons, h, List.map_cons, ih]

namespace Md5

/-- The call that ends a message: `Compute`, or an accepted `Hash` with the last chunk of the message. -/
inductive Finish where
  | compute
  | hash (pDataIn : List UInt8) (nbOut : Nat) (h : nbOut ≥ 16)

/-- The calls for one message. -/
structure Message where
  chunks : List (List UInt8)
  finish : Finish

/-- The digest that the calls for a message return, and the context they leave; a call of `AddData` may not come
back. -/
def digestFrom (c : Context) (m : Message) : Option (List UInt8 × Context) := do
  let c ← m.chunks.foldlM addData c
  match m.finish with
  | .compute => compute c
  | .hash pDataIn nbOut _ =>
    let (pDigest, c) ← hash c (some pDataIn) (some nbOut) true
    pDigest.map fun pDigest => (pDigest, c)

/-- The object as a machine; its state is `none` once a call has not come back. -/
def step (c : Option Context) (m : Message) : Option Context × Option (List UInt8) :=
  match c.bind (digestFrom · m) with
  | some (pDigest, c) => (some c, some pDigest)
  | none => (none, none)

end Md5

/-- The object as a machine: the chunks of a message go to `Update`, then `Final` is called. -/
def Sha1.step (c : Context) (chunks : List (List UInt8)) : Context × List Char :=
  let (digest, c) := final (chunks.foldl update c)
  (c, digest)

end BofStd
