import BofStd.Basic
import BofStd.Lib.Bytes
import BofStd.Lib.Memory

/-!
# `BofBinSerializer` (`bofbinserializer.h`, `bofbinserializer.cpp`)

The buffer is a function from indexes to bytes, and `_Size_U32` is the size that the caller gives. An
access through a pointer cast to `uint16_t *`, `uint32_t *` or `uint64_t *` reads or writes the bytes of
a word in the order of the CPU. Words are numbers below `256 ^ w`, `w` their width in bytes. The index
plus a `sizeof` is a `size_t` of 64 bits, so the sum does not wrap. Neither the buffer nor the place of
a value is a null pointer.
-/

namespace BofStd

open Bytes

/-- `BOF_STREAM_ENDIANNESS`. -/
inductive StreamEndianness where
  | isBigEndian
  | isLittleEndian
  | isUnknown
  deriving DecidableEq

/-- The byte order of the CPU. -/
inductive CpuEndianness where
  | big
  | little
  deriving DecidableEq

/-- The bytes of a word of `w` bytes as the CPU stores it. -/
def CpuEndianness.store (cpu : CpuEndianness) (w v : Nat) : List UInt8 :=
  match cpu with
  | .little => bytesLE w v
  | .big => (bytesLE w v).reverse

/-- The word that the CPU loads from the bytes `l`. -/
def CpuEndianness.load (cpu : CpuEndianness) (l : List UInt8) : Nat :=
  match cpu with
  | .little => valueLE l
  | .big => valueLE l.reverse

@[simp] theorem CpuEndianness.length_store (cpu : CpuEndianness) (w v : Nat) : (cpu.store w v).length = w := by
  cases cpu with
  | big => exact List.length_reverse.trans (length_bytesLE w v)
  | little => exact length_bytesLE w v

/-- `Bof_IsCpuLittleEndian`: the first byte of an `int` of value `0x69`. -/
def CpuEndianness.isCpuLittleEndian (cpu : CpuEndianness) : Bool := (cpu.store 4 0x69).head? = some 0x69

/-- `__builtin_bswap16`, `__builtin_bswap32` and `__builtin_bswap64`. -/
def bswap (w v : Nat) : Nat := valueLE (bytesLE w v).reverse

/-- `EndianScalar`, for the widths of the built-in types. -/
def endianScalar (swap : Bool) (w v : Nat) : Nat := if swap then (if w = 1 then v else bswap w v) else v

/-- The `BOF_CPU_TO_LE` and `BOF_LE_TO_CPU` macros. -/
def CpuEndianness.cpuToLe (cpu : CpuEndianness) (w v : Nat) : Nat :=
  endianScalar (!cpu.isCpuLittleEndian) w v

/-- The `BOF_CPU_TO_BE` and `BOF_BE_TO_CPU` macros. -/
def CpuEndianness.cpuToBe (cpu : CpuEndianness) (w v : Nat) : Nat := endianScalar cpu.isCpuLittleEndian w v

/-- The types that `ToByte` and `FromByte` are overloaded for. -/
inductive BinType where
  | u8
  | s8
  | u16
  | s16
  | u32
  | s32
  | u64
  | s64
  | char
  | float
  | bool
  deriving DecidableEq

/-- The values of a type. A `char` is its byte and a `float` its bit pattern. -/
def BinType.Val : BinType → Type
  | .u8 | .char => UInt8
  | .s8 => Int8
  | .u16 => UInt16
  | .s16 => Int16
  | .u32 | .float => UInt32
  | .s32 => Int32
  | .u64 => UInt64
  | .s64 => Int64
  | .bool => Bool

/-- A value of one of the types. -/
abbrev BinValue := (ty : BinType) × ty.Val

/-- The member of `BofBinSerializer`, on a CPU. -/
structure BinSerializer where
  cpu : CpuEndianness
  mEndianness_E : StreamEndianness

namespace BinSerializer

/-- The result of a `ToByte`: the number of bytes serialized, and the buffer. -/
abbrev ToRts := Nat × (Nat → UInt8)

def isStreamBigEndian (s : BinSerializer) : Bool := s.mEndianness_E = .isBigEndian

/-! ## Encoding -/

/-- `ToByte` for `uint8_t`. -/
def toByteU8 (value : UInt8) (idx : Nat) (buffer : Nat → UInt8) (size : Nat) : ToRts :=
  if idx + 1 ≤ size then (1, Memory.write buffer idx [value]) else (0, buffer)

/-- `ToByte` for `uint16_t`, `uint32_t` and `uint64_t`: words of `w` bytes. -/
def toByteWord (s : BinSerializer) (w value idx : Nat) (buffer : Nat → UInt8) (size : Nat) : ToRts :=
  if idx + w ≤ size then
    (w, Memory.write buffer idx
      (s.cpu.store w (if s.isStreamBigEndian then s.cpu.cpuToBe w value else s.cpu.cpuToLe w value)))
  else (0, buffer)

/-- `ToByte`. -/
def toByte (s : BinSerializer) :
    (ty : BinType) → ty.Val → (idx : Nat) → (buffer : Nat → UInt8) → (size : Nat) → ToRts
  | .u8, (v : UInt8) => toByteU8 v
  | .s8, (v : Int8) => toByteU8 v.toUInt8
  | .u16, (v : UInt16) => s.toByteWord 2 v.toNat
  | .s16, (v : Int16) => s.toByteWord 2 v.toUInt16.toNat
  | .u32, (v : UInt32) => s.toByteWord 4 v.toNat
  | .s32, (v : Int32) => s.toByteWord 4 v.toUInt32.toNat
  | .u64, (v : UInt64) => s.toByteWord 8 v.toNat
  | .s64, (v : Int64) => s.toByteWord 8 v.toUInt64.toNat
  | .char, (v : UInt8) => toByteU8 v.toInt8.toUInt8
  | .float, (v : UInt32) => s.toByteWord 4 v.toNat
  | .bool, (v : Bool) => toByteU8 (if v then 1 else 0)

/-! ## Decoding -/

/-- `FromByte` for `uint8_t`: `value` is what the pointer points to before. -/
def fromByteU8 (value : UInt8) (idx : Nat) (buffer : Nat → UInt8) (size : Nat) : Nat × UInt8 :=
  if idx + 1 ≤ size then (1, buffer idx) else (0, value)

/-- `FromByte` for `uint16_t`, `uint32_t` and `uint64_t`: words of `w` bytes. -/
def fromByteWord (s : BinSerializer) (w value idx : Nat) (buffer : Nat → UInt8) (size : Nat) : Nat × Nat :=
  if idx + w ≤ size then
    let word := s.cpu.load (Memory.read buffer idx w)
    (w, if s.isStreamBigEndian then s.cpu.cpuToBe w word else s.cpu.cpuToLe w word)
  else (0, value)

/-- `FromByte`. -/
def fromByte (s : BinSerializer) :
    (ty : BinType) → ty.Val → (idx : Nat) → (buffer : Nat → UInt8) → (size : Nat) → Nat × ty.Val
  | .u8, (v : UInt8), idx, buffer, size => fromByteU8 v idx buffer size
  | .s8, (v : Int8), idx, buffer, size =>
    let r := fromByteU8 v.toUInt8 idx buffer size
    (r.1, r.2.toInt8)
  | .u16, (v : UInt16), idx, buffer, size =>
    let r := s.fromByteWord 2 v.toNat idx buffer size
    (r.1, UInt16.ofNat r.2)
  | .s16, (v : Int16), idx, buffer, size =>
    let r := s.fromByteWord 2 v.toUInt16.toNat idx buffer size
    (r.1, (UInt16.ofNat r.2).toInt16)
  | .u32, (v : UInt32), idx, buffer, size =>
    let r := s.fromByteWord 4 v.toNat idx buffer size
    (r.1, UInt32.ofNat r.2)
  | .s32, (v : Int32), idx, buffer, size =>
    let r := s.fromByteWord 4 v.toUInt32.toNat idx buffer size
    (r.1, (UInt32.ofNat r.2).toInt32)
  | .u64, (v : UInt64), idx, buffer, size =>
    let r := s.fromByteWord 8 v.toNat idx buffer size
    (r.1, UInt64.ofNat r.2)
  | .s64, (v : Int64), idx, buffer, size =>
    let r := s.fromByteWord 8 v.toUInt64.toNat idx buffer size
    (r.1, (UInt64.ofNat r.2).toInt64)
  | .char, (v : UInt8), idx, buffer, size =>
    let r := fromByteU8 v.toInt8.toUInt8 idx buffer size
    (r.1, r.2.toInt8.toUInt8)
  -- the local `Mem_U32` is copied only if all its bytes have been read
  | .float, (v : UInt32), idx, buffer, size =>
    let r := s.fromByteWord 4 0 idx buffer size
    (r.1, if r.1 = 4 then UInt32.ofNat r.2 else v)
  | .bool, (_ : Bool), idx, buffer, size =>
    let r := fromByteU8 0 idx buffer size
    (r.1, decide (r.2 ≠ 0))

/-! ## Sequences of calls -/

/-- `ToByte` for one value after the other, each at the index where the one before ends, as long as no
call returns 0: the buffer after the last one. -/
def toBytes (s : BinSerializer) : List BinValue → Nat → (Nat → UInt8) → Nat → Option (Nat → UInt8)
  | [], _, buffer, _ => some buffer
  | v :: vs, idx, buffer, size =>
    let r := s.toByte v.1 v.2 idx buffer size
    if r.1 = 0 then none else s.toBytes vs (idx + r.1) r.2 size

/-- `FromByte` for one value after the other, each at the index where the one before ends: the values,
with the number of bytes that each call returns. The places of the values hold `old` before. -/
def fromBytes (s : BinSerializer) (buffer : Nat → UInt8) (size : Nat) :
    List BinValue → Nat → List (Nat × BinValue)
  | [], _ => []
  | old :: olds, idx =>
    let r := s.fromByte old.1 old.2 idx buffer size
    (r.1, ⟨old.1, r.2⟩) :: s.fromBytes buffer size olds (idx + r.1)

end BinSerializer

/-! ## What the stream holds -/

/-- The width of a type in bytes. -/
def BinType.width : BinType → Nat
  | .u8 | .s8 | .char | .bool => 1
  | .u16 | .s16 => 2
  | .u32 | .s32 | .float => 4
  | .u64 | .s64 => 8

/-- The bit pattern of a value as a number; negative ones are in two's complement. -/
def BinValue.pattern : BinValue → Nat
  | ⟨.u8, (v : UInt8)⟩ => v.toNat
  | ⟨.s8, (v : Int8)⟩ => (v.toInt % 256).toNat
  | ⟨.u16, (v : UInt16)⟩ => v.toNat
  | ⟨.s16, (v : Int16)⟩ => (v.toInt % 65536).toNat
  | ⟨.u32, (v : UInt32)⟩ => v.toNat
  | ⟨.s32, (v : Int32)⟩ => (v.toInt % 4294967296).toNat
  | ⟨.u64, (v : UInt64)⟩ => v.toNat
  | ⟨.s64, (v : Int64)⟩ => (v.toInt % 18446744073709551616).toNat
  | ⟨.char, (v : UInt8)⟩ => v.toNat
  | ⟨.float, (v : UInt32)⟩ => v.toNat
  | ⟨.bool, (v : Bool)⟩ => v.toNat

/-- The digits of a value to the base 256: the most significant one first in a big-endian stream, else
the least significant one. -/
def BinValue.bytes (stream : StreamEndianness) (v : BinValue) : List UInt8 :=
  (List.range v.1.width).map fun k =>
    UInt8.ofNat (v.pattern / 256 ^ (if stream = .isBigEndian then v.1.width - 1 - k else k))

open BinSerializer in
/-- Whatever the CPU: a sequence of values that is written without an error is read back with the byte
counts, the stream holds the digits of the values, the rest of the buffer is left alone, and a call
fails, with the buffer unchanged, exactly when the value does not fit. -/
structure IsCodec (stream : StreamEndianness) (cpu : CpuEndianness) : Prop where
  roundTrip : ∀ vs idx buffer size buffer',
    (⟨cpu, stream⟩ : BinSerializer).toBytes vs idx buffer size = some buffer' →
    ∀ olds : List BinValue, olds.map Sigma.fst = vs.map Sigma.fst →
    (⟨cpu, stream⟩ : BinSerializer).fromBytes buffer' size olds idx = vs.map fun v => (v.1.width, v)
  bytes : ∀ vs idx buffer size buffer',
    (⟨cpu, stream⟩ : BinSerializer).toBytes vs idx buffer size = some buffer' →
    Memory.read buffer' idx (vs.map fun v => v.1.width).sum = vs.flatMap (BinValue.bytes stream)
  outside : ∀ vs idx buffer size buffer',
    (⟨cpu, stream⟩ : BinSerializer).toBytes vs idx buffer size = some buffer' →
    ∀ j, j < idx ∨ idx + (vs.map fun v => v.1.width).sum ≤ j → buffer' j = buffer j
  refused : ∀ (v : BinValue) idx buffer size,
    (⟨cpu, stream⟩ : BinSerializer).toByte v.1 v.2 idx buffer size = (0, buffer) ↔
      size < idx + v.1.width
  accepted : ∀ (v : BinValue) idx buffer size, idx + v.1.width ≤ size →
    ((⟨cpu, stream⟩ : BinSerializer).toByte v.1 v.2 idx buffer size).1 = v.1.width

open BinSerializer in
/-- A call of `FromByte` fails exactly when the value does not fit, and then the destination is left alone. -/
structure FailsCleanly (s : BinSerializer) (old : BinValue) (idx : Nat) (buffer : Nat → UInt8) (size : Nat) : Prop where
  keeps : (s.fromByte old.1 old.2 idx buffer size).1 = 0 → (s.fromByte old.1 old.2 idx buffer size).2 = old.2
  fails : (s.fromByte old.1 old.2 idx buffer size).1 = 0 ↔ size < idx + old.1.width

end BofStd
