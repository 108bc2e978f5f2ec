import Mathlib.Logic.Function.Basic
import BofStd.Crypto
import BofStd.Lib.Fips180

/-!
# The unrolled transformation of SHA-1

`S_Transform` as the source writes it: eighty calls of `S_R0` to `S_R4` whose arguments are five working
variables in changing roles and a word of the block, which the calls extend in place.
-/

namespace BofStd

namespace Sha1

/-- The working variables of `S_Transform`. -/
inductive Var where
  | a
  | b
  | c
  | d
  | e
  deriving DecidableEq, Repr

/-- The values of the working variables, and the block. -/
structure Work where
  var : Var → UInt32
  block : List UInt32

/-- The three arguments `w`, `x` and `y` as `S_R0` and `S_R1` combine them. -/
def choose (w x y : UInt32) : UInt32 := (w &&& (x ^^^ y)) ^^^ y

/-- As `S_R2` and `S_R4` combine them. -/
def xor3 (w x y : UInt32) : UInt32 := w ^^^ x ^^^ y

/-- As `S_R3` combines them. -/
def majority (w x y : UInt32) : UInt32 := (w ||| x) &&& y ||| w &&& x

/-- What `S_R0` to `S_R4` have in common: `z += f(w, x, y) + block[i] + k + S_Rol(v, 5)`, then
`w = S_Rol(w, 30)`. -/
def accumulate (f : UInt32 → UInt32 → UInt32 → UInt32) (k : UInt32) (s : Work) (v w x y z : Var) (i : Nat) : Work :=
  let var := Function.update s.var z
    (s.var z + (f (s.var w) (s.var x) (s.var y) + s.block.getD i 0 + k + rol (s.var v) 5))
  ⟨Function.update var w (rol (var w) 30), s.block⟩

/-- `block[i] = S_Blk(block, i)`, with which all but `S_R0` begin. -/
def extend (s : Work) (i : Nat) : Work := { s with block := s.block.set i (blk s.block i) }

/-- `S_R0`. -/
def r0 (s : Work) (v w x y z : Var) (i : Nat) : Work := accumulate choose 0x5a827999 s v w x y z i

/-- `S_R1`. -/
def r1 (s : Work) (v w x y z : Var) (i : Nat) : Work := accumulate choose 0x5a827999 (extend s i) v w x y z i

/-- `S_R2`. -/
def r2 (s : Work) (v w x y z : Var) (i : Nat) : Work := accumulate xor3 0x6ed9eba1 (extend s i) v w x y z i

/-- `S_R3`. -/
def r3 (s : Work) (v w x y z : Var) (i : Nat) : Work := accumulate majority 0x8f1bbcdc (extend s i) v w x y z i

/-- `S_R4`. -/
def r4 (s : Work) (v w x y z : Var) (i : Nat) : Work := accumulate xor3 0xca62c1d6 (extend s i) v w x y z i

/-- The names of the five functions. -/
inductive Fn where
  | r0
  | r1
  | r2
  | r3
  | r4
  deriving DecidableEq, Repr

def Fn.apply : Fn → Work → Var → Var → Var → Var → Var → Nat → Work
  | .r0 => Sha1.r0
  | .r1 => Sha1.r1
  | .r2 => Sha1.r2
  | .r3 => Sha1.r3
  | .r4 => Sha1.r4

/-- A call in `S_Transform`: the function, the five variables and the index. -/
structure Call where
  fn : Fn
  v : Var
  w : Var
  x : Var
  y : Var
  z : Var
  i : Nat
  deriving DecidableEq, Repr

/-- Do a call. -/
def Call.exec (s : Work) (k : Call) : Work := k.fn.apply s k.v k.w k.x k.y k.z k.i

/-- The eighty calls in their order. -/
def calls : List Call :=
  [⟨.r0, .a, .b, .c, .d, .e, 0⟩, ⟨.r0, .e, .a, .b, .c, .d, 1⟩, ⟨.r0, .d, .e, .a, .b, .c, 2⟩,
   ⟨.r0, .c, .d, .e, .a, .b, 3⟩, ⟨.r0, .b, .c, .d, .e, .a, 4⟩, ⟨.r0, .a, .b, .c, .d, .e, 5⟩,
   ⟨.r0, .e, .a, .b, .c, .d, 6⟩, ⟨.r0, .d, .e, .a, .b, .c, 7⟩, ⟨.r0, .c, .d, .e, .a, .b, 8⟩,
   ⟨.r0, .b, .c, .d, .e, .a, 9⟩, ⟨.r0, .a, .b, .c, .d, .e, 10⟩, ⟨.r0, .e, .a, .b, .c, .d, 11⟩,
   ⟨.r0, .d, .e, .a, .b, .c, 12⟩, ⟨.r0, .c, .d, .e, .a, .b, 13⟩, ⟨.r0, .b, .c, .d, .e, .a, 14⟩,
   ⟨.r0, .a, .b, .c, .d, .e, 15⟩, ⟨.r1, .e, .a, .b, .c, .d, 0⟩, ⟨.r1, .d, .e, .a, .b, .c, 1⟩,
   ⟨.r1, .c, .d, .e, .a, .b, 2⟩, ⟨.r1, .b, .c, .d, .e, .a, 3⟩, ⟨.r2, .a, .b, .c, .d, .e, 4⟩,
   ⟨.r2, .e, .a, .b, .c, .d, 5⟩, ⟨.r2, .d, .e, .a, .b, .c, 6⟩, ⟨.r2, .c, .d, .e, .a, .b, 7⟩,
   ⟨.r2, .b, .c, .d, .e, .a, 8⟩, ⟨.r2, .a, .b, .c, .d, .e, 9⟩, ⟨.r2, .e, .a, .b, .c, .d, 10⟩,
   ⟨.r2, .d, .e, .a, .b, .c, 11⟩, ⟨.r2, .c, .d, .e, .a, .b, 12⟩, ⟨.r2, .b, .c, .d, .e, .a, 13⟩,
   ⟨.r2, .a, .b, .c, .d, .e, 14⟩, ⟨.r2, .e, .a, .b, .c, .d, 15⟩, ⟨.r2, .d, .e, .a, .b, .c, 0⟩,
   ⟨.r2, .c, .d, .e, .a, .b, 1⟩, ⟨.r2, .b, .c, .d, .e, .a, 2⟩, ⟨.r2, .a, .b, .c, .d, .e, 3⟩,
   ⟨.r2, .e, .a, .b, .c, .d, 4⟩, ⟨.r2, .d, .e, .a, .b, .c, 5⟩, ⟨.r2, .c, .d, .e, .a, .b, 6⟩,
   ⟨.r2, .b, .c, .d, .e, .a, 7⟩, ⟨.r3, .a, .b, .c, .d, .e, 8⟩, ⟨.r3, .e, .a, .b, .c, .d, 9⟩,
   ⟨.r3, .d, .e, .a, .b, .c, 10⟩, ⟨.r3, .c, .d, .e, .a, .b, 11⟩, ⟨.r3, .b, .c, .d, .e, .a, 12⟩,
   ⟨.r3, .a, .b, .c, .d, .e, 13⟩, ⟨.r3, .e, .a, .b, .c, .d, 14⟩, ⟨.r3, .d, .e, .a, .b, .c, 15⟩,
   ⟨.r3, .c, .d, .e, .a, .b, 0⟩, ⟨.r3, .b, .c, .d, .e, .a, 1⟩, ⟨.r3, .a, .b, .c, .d, .e, 2⟩,
   ⟨.r3, .e, .a, .b, .c, .d, 3⟩, ⟨.r3, .d, .e, .a, .b, .c, 4⟩, ⟨.r3, .c, .d, .e, .a, .b, 5⟩,
   ⟨.r3, .b, .c, .d, .e, .a, 6⟩, ⟨.r3, .a, .b, .c, .d, .e, 7⟩, ⟨.r3, .e, .a, .b, .c, .d, 8⟩,
   ⟨.r3, .d, .e, .a, .b, .c, 9⟩, ⟨.r3, .c, .d, .e, .a, .b, 10⟩, ⟨.r3, .b, .c, .d, .e, .a, 11⟩,
   ⟨.r4, .a, .b, .c, .d, .e, 12⟩, ⟨.r4, .e, .a, .b, .c, .d, 13⟩, ⟨.r4, .d, .e, .a, .b, .c, 14⟩,
   ⟨.r4, .c, .d, .e, .a, .b, 15⟩, ⟨.r4, .b, .c, .d, .e, .a, 0⟩, ⟨.r4, .a, .b, .c, .d, .e, 1⟩,
   ⟨.r4, .e, .a, .b, .c, .d, 2⟩, ⟨.r4, .d, .e, .a, .b, .c, 3⟩, ⟨.r4, .c, .d, .e, .a, .b, 4⟩,
   ⟨.r4, .b, .c, .d, .e, .a, 5⟩, ⟨.r4, .a, .b, .c, .d, .e, 6⟩, ⟨.r4, .e, .a, .b, .c, .d, 7⟩,
   ⟨.r4, .d, .e, .a, .b, .c, 8⟩, ⟨.r4, .c, .d, .e, .a, .b, 9⟩, ⟨.r4, .b, .c, .d, .e, .a, 10⟩,
   ⟨.r4, .a, .b, .c, .d, .e, 11⟩, ⟨.r4, .e, .a, .b, .c, .d, 12⟩, ⟨.r4, .d, .e, .a, .b, .c, 13⟩,
   ⟨.r4, .c, .d, .e, .a, .b, 14⟩, ⟨.r4, .b, .c, .d, .e, .a, 15⟩]

/-- Copy the digest to the working variables. -/
def load (digest : Digest) : Var → UInt32
  | .a => digest.a
  | .b => digest.b
  | .c => digest.c
  | .d => digest.d
  | .e => digest.e

/-- `S_Transform`: the digest, the block as the calls leave it, and the number of transformations. -/
def sTransform (digest : Digest) (block : List UInt32) (transforms : Nat) : Digest × List UInt32 × Nat :=
  let s := calls.foldl Call.exec ⟨load digest, block⟩
  (⟨digest.a + s.var .a, digest.b + s.var .b, digest.c + s.var .c, digest.d + s.var .d, digest.e + s.var .e⟩,
    s.block, (transforms + 1) % 2 ^ 64)

/-- A digest as a hash value. -/
def Digest.hash (d : Digest) : Fips180.Hash := ⟨d.a, d.b, d.c, d.d, d.e⟩

end Sha1

end BofStd
