import BofStd.BofBuffer

/-!
# What `BOF_BUFFER` is for: bytes that are appended and read back

The content of a buffer is the list of the bytes below `Size_U64`. `Conforms` says what a call may do to the content
and to the positions, with sums and bounds of natural numbers, whatever the 64-bit arguments are.
-/

namespace BofStd.BofBuffer

/-- The order of the three positions. -/
def Ordered (s : BofBuffer) : Prop := s.offset ≤ s.size ∧ s.size ≤ s.capacity

/-- The byte at an offset. -/
def byte (s : BofBuffer) (i : Nat) : Option UInt8 := s.storage.map fun st => st.data i

/-- The bytes that a caller finds behind a pointer. -/
def bytes (s : BofBuffer) (start n : Nat) : List UInt8 :=
  match s.storage with
  | none => []
  | some st => Memory.read st.data start n

/-- The bytes that have been written. -/
def content (s : BofBuffer) : List UInt8 := s.bytes 0 s.size.toNat

/-- The positions of `s'` are those of `s`. -/
def SamePositions (s s' : BofBuffer) : Prop :=
  s'.offset = s.offset ∧ s'.size = s.size ∧ s'.capacity = s.capacity

/-- `Read` hands out the next `size` bytes of the content, or as many as there are, and moves the offset. -/
def Reads (s s' : BofBuffer) (size : UInt64) (pointer : Option Nat) (count : UInt64) : Prop :=
  count.toNat = min size.toNat (s.size.toNat - s.offset.toNat) ∧
    (∀ p, pointer = some p → s'.bytes p count.toNat = (s.content.drop s.offset.toNat).take size.toNat) ∧
    (pointer = none → count = 0) ∧
    s' = { s with offset := s'.offset } ∧ s'.offset.toNat = s.offset.toNat + count.toNat

/-- `Write` appends the first `size` bytes of the source, or as many as there is room for. -/
def Writes (s s' : BofBuffer) (size : UInt64) (src : Nat → UInt8) (count : UInt64) : Prop :=
  count.toNat = min size.toNat (s.capacity.toNat - s.size.toNat) ∧
    s'.content = s.content ++ Memory.read src 0 count.toNat ∧
    s'.size.toNat = s.size.toNat + count.toNat ∧ s'.offset = s.offset ∧ s'.capacity = s.capacity ∧
    ∀ i, i < s.size.toNat ∨ s.size.toNat + count.toNat ≤ i → s'.byte i = s.byte i

/-- `Memset` sets exactly the `size` bytes from `offset` on if they are within the capacity, and refuses otherwise. -/
def Sets (s s' : BofBuffer) (val : UInt8) (size offset : UInt64) (ok : Bool) : Prop :=
  (ok = true ↔ offset.toNat + size.toNat ≤ s.capacity.toNat) ∧ SamePositions s s' ∧
    ∀ i, s'.byte i =
      if ok = true ∧ offset.toNat ≤ i ∧ i < offset.toNat + size.toNat then some val else s.byte i

/-- What one call may do. -/
def Does (s s' : BofBuffer) : Op → Out → Prop
  | .clear, .done => s' = { s with offset := 0, size := 0 }
  | .setStorage capacity _ _ _, .done => s'.capacity = capacity
  | .seekAbs _, .seek pointer _ => pointer = none → s' = s
  | .seekRel _, .seek pointer _ => pointer = none → s' = s
  | .read size, .moved pointer count => Reads s s' size pointer count
  | .write _ none, .moved _ _ => s' = s
  | .write size (some src), .moved _ count => Writes s s' size src count
  | .memset val size offset, .result ok => Sets s s' val size offset ok
  | _, _ => False

/-- The call leaves the bytes behind the capacity alone; `SetStorage` gives the buffer other bytes. -/
def KeepsBehind (s s' : BofBuffer) : Op → Prop
  | .setStorage _ _ _ _ => True
  | _ => ∀ i, s.capacity.toNat ≤ i → s'.byte i = s.byte i

/-- A call leaves the positions in order, does what it should, and does not write behind the capacity. -/
def Conforms (s : BofBuffer) (op : Op) : Prop :=
  (step s op).1.Ordered ∧ Does s (step s op).1 op (step s op).2 ∧ KeepsBehind s (step s op).1 op

/-- A `Memset` that does not end exactly at the capacity, and does not start below the capacity when the sum of its
arguments passes `2^64`. -/
def MemsetFits (s : BofBuffer) : Op → Prop
  | .memset _ size offset =>
    offset.toNat + size.toNat ≠ s.capacity.toNat ∧
      (2 ^ 64 ≤ offset.toNat + size.toNat → s.capacity.toNat ≤ offset.toNat)
  | _ => True

/-- The storage has as many bytes as the capacity says. -/
def Backed (s : BofBuffer) : Prop := ∀ st, s.storage = some st → s.capacity.toNat ≤ st.bytes

/-- `SetStorage` is given enough bytes, or a capacity that it can allocate. -/
def StorageFits (_ : BofBuffer) : Op → Prop
  | .setStorage capacity _ (some st) _ => capacity.toNat ≤ st.bytes
  | .setStorage capacity _ none _ => capacity.toNat < 2 ^ 32
  | _ => True

end BofStd.BofBuffer
