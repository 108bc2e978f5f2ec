import BofStd.BinSerializer
import BofStd.BofPath
import BofStd.Lib.Hex
import BofStd.Lib.Memory
import BofStd.Lib.Retry

/-!
# `Bof_DumpMemoryZone` (`bofsystem.cpp`)

The memory zone is a function from offsets to bytes, and the offsets that are read are collected. The buffers for a line
are lists.
-/

namespace BofStd

open Retry

/-- `BOF_ACCESS_SIZE`. -/
inductive AccessSize where
  | size8
  | size16
  | size32
  | size64
  deriving DecidableEq

/-- `NbBytePerRead_U32`, as a power of 2. -/
def AccessSize.log : AccessSize → Nat
  | size8 => 0
  | size16 => 1
  | size32 => 2
  | size64 => 3

/-- `NbBytePerRead_U32`. -/
def AccessSize.bytes (size : AccessSize) : Nat := 2 ^ size.log

/-- The mask of the number of bytes. -/
def AccessSize.mask : AccessSize → UInt32
  | size8 => 0xFFFFFFFF
  | size16 => 0xFFFFFFFE
  | size32 => 0xFFFFFFFC
  | size64 => 0xFFFFFFF8

/-- `BOF_DUMP_MEMORY_ZONE_PARAM`, with the values of `Reset`. -/
structure DumpMemoryZoneParam where
  NbItemToDump_U32 : UInt32 := 0
  pMemoryZone : UInt64 := 0
  NbItemPerLine_U32 : UInt32 := 16
  Separator_c : UInt8 := ' '.toUInt8
  ShowHexaPrefix_B : Bool := false
  GenerateVirtualOffset : Bool := true
  VirtualOffset_S64 : Int64 := -1
  GenerateBinaryData_B : Bool := true
  GenerateAsciiData_B : Bool := true
  ReverseEndianness_B : Bool := false
  AccessSize_E : AccessSize := .size8

/-- `MAX_NBBYTEPERLINE`. -/
abbrev MAX_NBBYTEPERLINE : Nat := 1024

/-- A number with the conversion `%0wX`, which has no more than `w` digits. -/
def hexaText (w v : Nat) : Text := (Hex.nibbles w v).map (Hex.digit 'A'.toUInt8)

namespace DumpMemoryZoneParam

variable (p : DumpMemoryZoneParam)

def nbItem : Nat := p.NbItemToDump_U32.toNat

def nbItemPerLine : Nat := p.NbItemPerLine_U32.toNat

/-- `NbBytePerRead_U32`. -/
def nbBytePerRead : Nat := p.AccessSize_E.bytes

/-- `MemoryZoneSizeInByte_U32`. -/
def memoryZoneSizeInByte : UInt32 := p.NbItemToDump_U32 * UInt32.ofNat p.nbBytePerRead

/-- `Remain_S32` in front of the first line. -/
def remain : Int := (p.memoryZoneSizeInByte &&& p.AccessSize_E.mask).toInt32.toInt

/-- `VirtualOffset_S64` in front of the first line. -/
def virtualOffset : UInt64 := if p.VirtualOffset_S64 = -1 then p.pMemoryZone else p.VirtualOffset_S64.toUInt64

def hexaPrefix : Text := if p.ShowHexaPrefix_B then ['0'.toUInt8, 'x'.toUInt8] else []

/-- The virtual offset at the beginning of a line. -/
def offsetText (offset : UInt64) : Text :=
  p.hexaPrefix ++ hexaText (if 0xFFFFFFFF < offset then 16 else 8) offset.toNat ++
    List.replicate 3 p.Separator_c

/-- The blanks in the place of an item. -/
def blankItem : Text := List.replicate (p.hexaPrefix.length + 2 * p.nbBytePerRead + 1) ' '.toUInt8

/-- An item. -/
def itemText (cpu : CpuEndianness) (bytes : List UInt8) : Text :=
  p.hexaPrefix ++ hexaText (2 * p.nbBytePerRead) (cpu.load (if p.ReverseEndianness_B then bytes.reverse else bytes)) ++
    [p.Separator_c]

end DumpMemoryZoneParam

/-- The character for a byte. -/
def asciiChar (data : UInt8) : UInt8 := if data < 32 ∨ 127 < data then '?'.toUInt8 else data

/-- The variables in a line: `pBinary_c` and `pAscii_c` as far as they are written. -/
structure DumpLine where
  Remain_S32 : Int
  IndexInMemoryZone_U32 : Nat
  binary : Text
  ascii : Text
  reads : List Nat

/-- The variables in front of a line. -/
structure DumpState where
  Remain_S32 : Int
  IndexInMemoryZone_U32 : Nat
  VirtualOffset_S64 : UInt64
  Rts_S : Text
  reads : List Nat

section

variable (cpu : CpuEndianness) (p : DumpMemoryZoneParam) (mem : Nat → UInt8)

/-- One item of a line, or the blanks behind the last item. -/
def dumpItem (l : DumpLine) : DumpLine :=
  let i := l.IndexInMemoryZone_U32
  if p.memoryZoneSizeInByte.toNat ≤ i then
    { l with
      binary := l.binary ++ if p.GenerateBinaryData_B then p.blankItem else []
      ascii := l.ascii ++ if p.GenerateAsciiData_B then List.replicate p.nbBytePerRead ' '.toUInt8 else [] }
  else
    let data := Memory.read mem i p.nbBytePerRead
    let offsets := List.range' i p.nbBytePerRead
    { Remain_S32 := l.Remain_S32 - p.nbBytePerRead
      IndexInMemoryZone_U32 := i + p.nbBytePerRead
      binary := l.binary ++ if p.GenerateBinaryData_B then p.itemText cpu data else []
      ascii := l.ascii ++ if p.GenerateAsciiData_B then data.map asciiChar else []
      reads := l.reads ++ (if p.GenerateBinaryData_B then offsets else []) ++
        if p.GenerateAsciiData_B then offsets else [] }

/-- The items of a line. -/
def dumpItems : Nat → DumpLine → DumpLine
  | 0, l => l
  | n + 1, l => dumpItems n (dumpItem cpu p mem l)

/-- One round of the loop over the lines. A line without items and without an offset leaves `pBinary_c` as it is, where
this model has no text. -/
def dumpLine (s : DumpState) : Round DumpState DumpState :=
  if 0 < s.Remain_S32 then
    let l := dumpItems cpu p mem p.nbItemPerLine {
      Remain_S32 := s.Remain_S32
      IndexInMemoryZone_U32 := s.IndexInMemoryZone_U32
      binary := if p.GenerateVirtualOffset then p.offsetText s.VirtualOffset_S64 else []
      ascii := []
      reads := s.reads }
    .again {
      Remain_S32 := l.Remain_S32
      IndexInMemoryZone_U32 := l.IndexInMemoryZone_U32
      VirtualOffset_S64 := s.VirtualOffset_S64 + UInt64.ofNat (p.nbItemPerLine * p.nbBytePerRead)
      Rts_S := s.Rts_S ++ (if p.GenerateBinaryData_B then l.binary else []) ++
        (if p.GenerateAsciiData_B then l.ascii else []) ++ ['\n'.toUInt8]
      reads := l.reads }
  else .stop s

/-- `Bof_DumpMemoryZone`, with at most this number of rounds: the text and the offsets that are read. -/
def dumpMemoryZone (rounds : Nat) : Option (Text × List Nat) :=
  if p.pMemoryZone ≠ 0 ∧ p.Separator_c ≠ 0 then
    if p.GenerateVirtualOffset ∨ p.GenerateBinaryData_B ∨ p.GenerateAsciiData_B then
      if p.nbItemPerLine ≤ MAX_NBBYTEPERLINE / p.nbBytePerRead then
        (loop (dumpLine cpu p mem) rounds {
          Remain_S32 := p.remain
          IndexInMemoryZone_U32 := 0
          VirtualOffset_S64 := p.virtualOffset
          Rts_S := []
          reads := [] }).map fun s => (s.Rts_S, s.reads)
      else some ([], [])
    else some ([], [])
  else some ([], [])

/-! ## What it is for -/

/-- An upper-case hexadecimal digit. -/
def dumpDigit (n : Nat) : UInt8 :=
  (['0', '1', '2', '3', '4', '5', '6', '7', '8', '9', 'A', 'B', 'C', 'D', 'E', 'F'].map Char.toUInt8).getD n 0

/-- The bytes of an item. -/
def itemBytes (k : Nat) : List UInt8 := Memory.read mem (k * p.nbBytePerRead) p.nbBytePerRead

/-- A number, with `0x` in front of it if that is asked for. -/
def dumpNumber (digits : Text) : Text := (if p.ShowHexaPrefix_B then ['0'.toUInt8, 'x'.toUInt8] else []) ++ digits

/-- An item: its bytes, the most significant one first, which is the last one on a little-endian CPU. -/
def dumpBytes (k : Nat) : Text :=
  let bytes := itemBytes p mem k
  dumpNumber p <|
    (if (cpu = .little) ↔ p.ReverseEndianness_B = true then bytes else bytes.reverse).flatMap fun b =>
      [dumpDigit (b.toNat / 16), dumpDigit (b.toNat % 16)]

/-- The virtual offset in 8 digits, or in 16 if it needs more. -/
def dumpOffset (offset : Nat) : Text :=
  dumpNumber p <|
    (List.range (if offset < 2 ^ 32 then 8 else 16)).reverse.map fun i => dumpDigit (offset / 16 ^ i % 16)

/-- The line with the number `i`, with some items and blanks behind them. -/
def lineText (i : Nat) (items : List Nat) : Text :=
  let missing := p.nbItemPerLine - items.length
  let width := (if p.ShowHexaPrefix_B then 2 else 0) + 2 * p.nbBytePerRead + 1
  (if p.GenerateVirtualOffset then
    dumpOffset p (p.virtualOffset + UInt64.ofNat (i * (p.nbItemPerLine * p.nbBytePerRead))).toNat ++
      [p.Separator_c, p.Separator_c, p.Separator_c] else []) ++
  (items.flatMap fun k => dumpBytes cpu p mem k ++ [p.Separator_c]) ++
  List.replicate (missing * width) ' '.toUInt8 ++
  (if p.GenerateAsciiData_B then
    (items.flatMap fun k => (itemBytes p mem k).map fun b => if 32 ≤ b ∧ b ≤ 127 then b else '?'.toUInt8) ++
      List.replicate (missing * p.nbBytePerRead) ' '.toUInt8 else []) ++
  ['\n'.toUInt8]

/-- The text lists every item once and in order. All lines but the last one are full. -/
def ListsAllItems (text : Text) : Prop :=
  ∃ lines : List (List Nat), lines.flatten = List.range p.nbItem ∧
    (∀ line ∈ lines.dropLast, line.length = p.nbItemPerLine) ∧
    (∀ line ∈ lines, 0 < line.length ∧ line.length ≤ p.nbItemPerLine) ∧
    text = lines.zipIdx.flatMap fun line => lineText cpu p mem line.2 line.1

/-- The dump ends, has read the zone only, and has listed all the items if it was asked to. -/
def DumpsCompletely : Prop :=
  ∃ rounds text reads, dumpMemoryZone cpu p mem rounds = some (text, reads) ∧
    (∀ i ∈ reads, i < p.nbItem * p.nbBytePerRead) ∧
    (p.GenerateBinaryData_B = true → ListsAllItems cpu p mem text)

/-- What the function accepts: a zone of less than 2^31 bytes, a separator and lines that fit. -/
structure DumpMemoryZoneParam.Accepted : Prop where
  zone : p.pMemoryZone ≠ 0
  separator : p.Separator_c ≠ 0
  line : p.nbItemPerLine ≤ MAX_NBBYTEPERLINE / p.nbBytePerRead
  size : p.nbItem * p.nbBytePerRead < 2 ^ 31

end

end BofStd
