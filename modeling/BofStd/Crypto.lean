import BofStd.Basic
import BofStd.Lib.Memory

/-!
# The MD5 and SHA-1 digests

The classes `BofCryptoMd5` and `BofSha1`. Both take a message in chunks: they keep the bytes of the last
incomplete block of 64 bytes in a buffer, transform their state with every complete block, and pad when
the digest is asked for. The words of the transformations are machine words; the bit counters and lengths
are natural numbers that go through `u32`.
-/

namespace BofStd

open Memory

/-! ## MD5 -/

namespace Md5

/-- The four words `A`, `B`, `C`, `D` of the state. -/
structure State where
  a : UInt32
  b : UInt32
  c : UInt32
  d : UInt32
  deriving DecidableEq, Repr

/-- `BOF_MD5_CONTEXT`: the state, the number of bits modulo `2^64` in two words, the input buffer. -/
structure Context where
  pState : State
  pCount0 : Nat
  pCount1 : Nat
  pBuffer : Nat → UInt8

/-- `ROTATE_LEFT`. -/
def rotateLeft (x n : UInt32) : UInt32 := x <<< n ||| x >>> (32 - n)

/-- The four kinds of rounds. -/
inductive Round where
  | ff
  | gg
  | hh
  | ii
  deriving DecidableEq, Repr

/-- The basic functions `F`, `G`, `H` and `I`. -/
def Round.fn : Round → UInt32 → UInt32 → UInt32 → UInt32
  | .ff, x, y, z => x &&& y ||| ~~~x &&& z
  | .gg, x, y, z => x &&& z ||| y &&& ~~~z
  | .hh, x, y, z => x ^^^ y ^^^ z
  | .ii, x, y, z => y ^^^ (x ||| ~~~z)

/-- The operations `FF`, `GG`, `HH` and `II` in the order of the source: the kind, the index of the
message word, the shift and the constant. The operands are `(a, b, c, d)` in the first operation and move
on by one place after each. -/
def rounds : List (Round × Nat × UInt32 × UInt32) :=
  [(.ff, 0, 7, 0xd76aa478), (.ff, 1, 12, 0xe8c7b756), (.ff, 2, 17, 0x242070db), (.ff, 3, 22, 0xc1bdceee),
   (.ff, 4, 7, 0xf57c0faf), (.ff, 5, 12, 0x4787c62a), (.ff, 6, 17, 0xa8304613), (.ff, 7, 22, 0xfd469501),
   (.ff, 8, 7, 0x698098d8), (.ff, 9, 12, 0x8b44f7af), (.ff, 10, 17, 0xffff5bb1), (.ff, 11, 22, 0x895cd7be),
   (.ff, 12, 7, 0x6b901122), (.ff, 13, 12, 0xfd987193), (.ff, 14, 17, 0xa679438e), (.ff, 15, 22, 0x49b40821),
   (.gg, 1, 5, 0xf61e2562), (.gg, 6, 9, 0xc040b340), (.gg, 11, 14, 0x265e5a51), (.gg, 0, 20, 0xe9b6c7aa),
   (.gg, 5, 5, 0xd62f105d), (.gg, 10, 9, 0x2441453), (.gg, 15, 14, 0xd8a1e681), (.gg, 4, 20, 0xe7d3fbc8),
   (.gg, 9, 5, 0x21e1cde6), (.gg, 14, 9, 0xc33707d6), (.gg, 3, 14, 0xf4d50d87), (.gg, 8, 20, 0x455a14ed),
   (.gg, 13, 5, 0xa9e3e905), (.gg, 2, 9, 0xfcefa3f8), (.gg, 7, 14, 0x676f02d9), (.gg, 12, 20, 0x8d2a4c8a),
   (.hh, 5, 4, 0xfffa3942), (.hh, 8, 11, 0x8771f681), (.hh, 11, 16, 0x6d9d6122), (.hh, 14, 23, 0xfde5380c),
   (.hh, 1, 4, 0xa4beea44), (.hh, 4, 11, 0x4bdecfa9), (.hh, 7, 16, 0xf6bb4b60), (.hh, 10, 23, 0xbebfbc70),
   (.hh, 13, 4, 0x289b7ec6), (.hh, 0, 11, 0xeaa127fa), (.hh, 3, 16, 0xd4ef3085), (.hh, 6, 23, 0x4881d05),
   (.hh, 9, 4, 0xd9d4d039), (.hh, 12, 11, 0xe6db99e5), (.hh, 15, 16, 0x1fa27cf8), (.hh, 2, 23, 0xc4ac5665),
   (.ii, 0, 6, 0xf4292244), (.ii, 7, 10, 0x432aff97), (.ii, 14, 15, 0xab9423a7), (.ii, 5, 21, 0xfc93a039),
   (.ii, 12, 6, 0x655b59c3), (.ii, 3, 10, 0x8f0ccc92), (.ii, 10, 15, 0xffeff47d), (.ii, 1, 21, 0x85845dd1),
   (.ii, 8, 6, 0x6fa87e4f), (.ii, 15, 10, 0xfe2ce6e0), (.ii, 6, 15, 0xa3014314), (.ii, 13, 21, 0x4e0811a1),
   (.ii, 4, 6, 0xf7537e82), (.ii, 11, 10, 0xbd3af235), (.ii, 2, 15, 0x2ad7d2bb), (.ii, 9, 21, 0xeb86d391)]

/-- One operation: the first operand is replaced and the operands move on. -/
def round (px : Nat → UInt32) (s : State) : Round × Nat × UInt32 × UInt32 → State
  | (k, x, sh, ac) => ⟨s.d, rotateLeft (s.a + (k.fn s.b s.c s.d + px x + ac)) sh + s.b, s.b, s.c⟩

/-- The `j`-th byte of a list as a 32 bit word. -/
def byteAt (l : List UInt8) (j : Nat) : UInt32 := (l.getD j 0).toUInt32

/-- `Decode`: the words of a block, the least significant byte first. -/
def decode (pInput : List UInt8) (i : Nat) : UInt32 :=
  byteAt pInput (4 * i) ||| byteAt pInput (4 * i + 1) <<< 8 ||| byteAt pInput (4 * i + 2) <<< 16 |||
    byteAt pInput (4 * i + 3) <<< 24

/-- `Encode`: the bytes of the words, the least significant byte first. -/
def encode (pInput : List Nat) : List UInt8 :=
  pInput.flatMap fun w =>
    [UInt8.ofNat (w &&& 0xff), UInt8.ofNat (w >>> 8 &&& 0xff), UInt8.ofNat (w >>> 16 &&& 0xff),
      UInt8.ofNat (w >>> 24 &&& 0xff)]

/-- `Transform`: transform the state with one block of 64 bytes. -/
def transform (pState : State) (pBlock : List UInt8) : State :=
  let s := rounds.foldl (round (decode pBlock)) pState
  ⟨pState.a + s.a, pState.b + s.b, pState.c + s.c, pState.d + s.d⟩

/-- The state that a new context starts with. -/
def initState : State := ⟨0x67452301, 0xefcdab89, 0x98badcfe, 0x10325476⟩

/-- The constructor of `BofCryptoMd5`. -/
def create : Context := ⟨initState, 0, 0, fun _ => 0⟩

/-- The loop of `AddData` over the complete blocks of the input. Its index is a 32 bit word that goes
round when the input is nearly `2^32` bytes long, so the loop is run with `fuel`. -/
def transformLoop (pInput : List UInt8) : Nat → State → Nat → Option (State × Nat)
  | 0, _, _ => none
  | fuel + 1, s, i =>
    if u32 (i + 63) < pInput.length then
      transformLoop pInput fuel (transform s ((pInput.drop i).take 64)) (u32 (i + 64))
    else some (s, i)

/-- The bit counter after `InputLen` bytes: the low word, and the high word with the carry. -/
def addCount (c : Context) (inputLen : Nat) : Nat × Nat :=
  let bits := u32 (inputLen <<< 3)
  let count0 := u32 (c.pCount0 + bits)
  let count1 := if count0 < bits then u32 (c.pCount1 + 1) else c.pCount1
  (count0, u32 (count1 + inputLen >>> 29))

/-- `AddData`. -/
def addData (c : Context) (pInput : List UInt8) : Option Context :=
  let index := c.pCount0 >>> 3 &&& 0x3F
  let count := addCount c pInput.length
  let partLen := 64 - index
  if partLen ≤ pInput.length then do
    let buffer := write c.pBuffer index (pInput.take partLen)
    let s := transform c.pState (read buffer 0 64)
    let (s, i) ← transformLoop pInput (pInput.length + 1) s partLen
    some ⟨s, count.1, count.2, write buffer 0 (pInput.drop i)⟩
  else some ⟨c.pState, count.1, count.2, write c.pBuffer index pInput⟩

/-- `S_pMd5Padding_U8`. -/
def padding : List UInt8 := 0x80 :: List.replicate 63 0

/-- `Compute`: the digest, and the zeroized context. -/
def compute (c : Context) : Option (List UInt8 × Context) := do
  let pBits := encode [c.pCount0, c.pCount1]
  let index := c.pCount0 >>> 3 &&& 0x3f
  let padLen := if index < 56 then 56 - index else 120 - index
  let c ← addData c (padding.take padLen)
  let c ← addData c pBits
  let pDigest := encode [c.pState.a.toNat, c.pState.b.toNat, c.pState.c.toNat, c.pState.d.toNat]
  some (pDigest, ⟨⟨0, 0, 0, 0⟩, 0, 0, fun _ => 0⟩)

/-- `Hash`: the two buffers and the capacity of the output are checked first; a refused call hashes nothing. -/
def hash (c : Context) (pDataIn : Option (List UInt8)) (pNbOut : Option Nat) (hasDataOut : Bool) :
    Option (Option (List UInt8) × Context) :=
  match pDataIn, pNbOut, hasDataOut with
  | some pDataIn, some nbOut, true =>
    if nbOut ≥ 16 then do
      let c ← addData c pDataIn
      let (pDigest, c) ← compute c
      some (some pDigest, c)
    else some (none, c)
  | _, _, _ => some (none, c)

/-- A new object is given the chunks one after the other and then asked for the digest. -/
def stream (chunks : List (List UInt8)) : Option (List UInt8) := do
  let c ← chunks.foldlM addData create
  let (pDigest, _) ← compute c
  some pDigest

end Md5

/-! ## SHA-1 -/

namespace Sha1

/-- The five words of the digest. -/
structure Digest where
  a : UInt32
  b : UInt32
  c : UInt32
  d : UInt32
  e : UInt32
  deriving DecidableEq, Repr

/-- The members of `BofSha1`. -/
structure Context where
  mpDigest : Digest
  mBuffer : List UInt8
  mTransform : Nat

/-- `S_Rol`. -/
def rol (value bits : UInt32) : UInt32 := value <<< bits ||| value >>> (32 - bits)

/-- `S_Blk`. -/
def blk (block : List UInt32) (i : Nat) : UInt32 :=
  rol (block.getD ((i + 13) &&& 15) 0 ^^^ block.getD ((i + 8) &&& 15) 0 ^^^ block.getD ((i + 2) &&& 15) 0 ^^^
    block.getD i 0) 1

/-- The operation that `S_R0` to `S_R4` apply to the words `w`, `x` and `y`, with its constant: `S_R0` and
`S_R1` are used up to operation 19, `S_R2` up to 39, `S_R3` up to 59 and `S_R4` in the rest. -/
def mix (t : Nat) (w x y : UInt32) : UInt32 × UInt32 :=
  if t < 20 then ((w &&& (x ^^^ y)) ^^^ y, 0x5a827999)
  else if t < 40 then (w ^^^ x ^^^ y, 0x6ed9eba1)
  else if t < 60 then ((w ||| x) &&& y ||| w &&& x, 0x8f1bbcdc)
  else (w ^^^ x ^^^ y, 0xca62c1d6)

/-- Operation `t` of the transformation on the words `(v, w, x, y, z)`: all but the first sixteen
operations (`S_R0`) extend the block first. The operands move on by one place after each operation. -/
def op (s : Digest × List UInt32) (t : Nat) : Digest × List UInt32 :=
  let (⟨v, w, x, y, z⟩, block) := s
  let i := t % 16
  let block := if t < 16 then block else block.set i (blk block i)
  let (f, k) := mix t w x y
  (⟨z + (f + block.getD i 0 + k + rol v 5), v, rol w 30, x, y⟩, block)

/-- `S_Transform`: the new digest, and the block as the transformation leaves it. -/
def transform (digest : Digest) (block : List UInt32) : Digest × List UInt32 :=
  let (s, block) := (List.range 80).foldl op (digest, block)
  (⟨digest.a + s.a, digest.b + s.b, digest.c + s.c, digest.d + s.d, digest.e + s.e⟩, block)

/-- `S_BufferToBlock`: sixteen words, the most significant byte first. -/
def bufferToBlock (buffer : List UInt8) : List UInt32 :=
  (List.range 16).map fun i =>
    Md5.byteAt buffer (4 * i + 3) ||| Md5.byteAt buffer (4 * i + 2) <<< 8 |||
      Md5.byteAt buffer (4 * i + 1) <<< 16 ||| Md5.byteAt buffer (4 * i) <<< 24

/-- The digest that `S_Reset` starts with. -/
def initDigest : Digest := ⟨0x67452301, 0xefcdab89, 0x98badcfe, 0x10325476, 0xc3d2e1f0⟩

/-- The constructor (`S_Reset`). -/
def create : Context := ⟨initDigest, [], 0⟩

/-- `Update`: the stream `is` is read until it is at its end. -/
def update (c : Context) (is : List UInt8) : Context :=
  let sbuf := is.take (64 - c.mBuffer.length)
  let buffer := c.mBuffer ++ sbuf
  if h : buffer.length ≠ 64 then ⟨c.mpDigest, buffer, c.mTransform⟩
  else
    update ⟨(transform c.mpDigest (bufferToBlock buffer)).1, [], (c.mTransform + 1) % 2 ^ 64⟩
      (is.drop (64 - c.mBuffer.length))
termination_by is.length + c.mBuffer.length
decreasing_by
  have hlen : (c.mBuffer ++ is.take (64 - c.mBuffer.length)).length = 64 := not_not.mp h
  rw [List.length_append, List.length_take] at hlen
  rw [List.length_drop, List.length_nil]
  omega

/-- A word written with `std::hex`, `std::setfill('0')` and `std::setw(8)`. -/
def hexWord (w : UInt32) : List Char :=
  let digits := Nat.toDigits 16 w.toNat
  List.replicate (8 - digits.length) '0' ++ digits

/-- The text of a digest. -/
def hex (d : Digest) : List Char := [d.a, d.b, d.c, d.d, d.e].flatMap hexWord

/-- `Final`: the text of the digest, and the object ready for the next run. -/
def final (c : Context) : List Char × Context :=
  let totalBits := (c.mTransform * 64 % 2 ^ 64 + c.mBuffer.length) % 2 ^ 64 * 8 % 2 ^ 64
  let buffer := c.mBuffer ++ [0x80]
  let origSize := buffer.length
  let block := bufferToBlock (buffer ++ List.replicate (64 - origSize) 0)
  let (digest, block) :=
    if origSize > 64 - 8 then
      let (digest, block) := transform c.mpDigest block
      (digest, List.replicate 14 0 ++ block.drop 14)
    else (c.mpDigest, block)
  let block := (block.set 15 (UInt32.ofNat totalBits)).set 14 (UInt32.ofNat (totalBits >>> 32))
  (hex (transform digest block).1, create)

/-- A new object is given the chunks one after the other and then asked for the digest. -/
def stream (chunks : List (List UInt8)) : List Char := (final (chunks.foldl update create)).1

end Sha1

end BofStd
