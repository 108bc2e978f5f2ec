import BofStd.Lib.Memory
import BofStd.Lib.Run

/-!
# The buffer `BOF_BUFFER`

A storage with a capacity, the number of bytes written so far and the offset of the next read, all of 64 bits.
Pointers into the storage are offsets from `pData_U8`. `BOF_ASSERT` is the release version, which does nothing, and
the mutex and the choice of the deleter are left out: the storage of the callers is never released here.
-/

namespace BofStd

/-- What `pData_U8` points to: the bytes, and how many of them there are. -/
structure Storage where
  bytes : Nat
  data : Nat → UInt8

/-- The members of `BOF_BUFFER`; `pData_U8` may be null. -/
structure BofBuffer where
  offset : UInt64
  size : UInt64
  capacity : UInt64
  storage : Option Storage

namespace Storage

/-- `memcpy(&pData_U8[at], src, n)`. -/
def copy (st : Storage) (start n : Nat) (src : Nat → UInt8) : Storage :=
  { st with data := Memory.write st.data start (Memory.read src 0 n) }

/-- `memset(&pData_U8[at], val, n)`. -/
def fill (st : Storage) (start n : Nat) (val : UInt8) : Storage :=
  { st with data := Memory.write st.data start (List.replicate n val) }

end Storage

namespace BofBuffer

/-- The constructor. -/
def create : BofBuffer := ⟨0, 0, 0, none⟩

/-- `ReleaseStorage`. -/
def releaseStorage (_ : BofBuffer) : BofBuffer := ⟨0, 0, 0, none⟩

/-- `AllocStorage`: the number of bytes is converted to `uint32_t`; `fresh` is what they hold when they are
allocated. -/
def allocStorage (s : BofBuffer) (capacity : UInt64) (fresh : Nat → UInt8) : BofBuffer :=
  { s.releaseStorage with
    capacity := capacity, offset := 0, size := 0, storage := some ⟨capacity.toUInt32.toNat, fresh⟩ }

def clear (s : BofBuffer) : BofBuffer := { s with offset := 0, size := 0 }

/-- `SetStorage`: on the storage of the caller, or on a new one. -/
def setStorage (s : BofBuffer) (capacity size : UInt64) (pData : Option Storage) (fresh : Nat → UInt8) : BofBuffer :=
  let s := s.releaseStorage
  let s :=
    match pData with
    | some st => { s with storage := some st }
    | none => s.allocStorage capacity fresh
  { s with capacity := capacity, offset := 0, size := if size ≤ capacity then size else 0 }

def remainToWrite (s : BofBuffer) : UInt64 := if s.size ≤ s.capacity then s.capacity - s.size else 0

def remainToRead (s : BofBuffer) : UInt64 := if s.offset < s.size then s.size - s.offset else 0

/-- `&pData_U8[i]`. -/
def pointer (s : BofBuffer) (i : UInt64) : Option Nat := s.storage.map fun _ => i.toNat

def isValid (s : BofBuffer) : Bool :=
  s.storage.isSome && decide (s.capacity ≠ 0) && decide (s.size ≤ s.capacity) && decide (s.offset ≤ s.size)

/-- `SeekAbs`: the new state, the pointer and the remainder, which is set on success. -/
def seekAbs (s : BofBuffer) (offset : UInt64) : BofBuffer × Option Nat × Option UInt64 :=
  if offset ≤ s.size then ({ s with offset := offset }, s.pointer offset, some (s.size - offset))
  else (s, none, none)

/-- `SeekRel`: the sum of an `uint64_t` and an `int64_t`. -/
def seekRel (s : BofBuffer) (amount : Int64) : BofBuffer × Option Nat × Option UInt64 :=
  let newOffset := s.offset + amount.toUInt64
  if newOffset ≤ s.size then ({ s with offset := newOffset }, s.pointer newOffset, some (s.size - newOffset))
  else (s, none, none)

/-- `Read`: the new state, the pointer and the number of bytes. -/
def read (s : BofBuffer) (size : UInt64) : BofBuffer × Option Nat × UInt64 :=
  if s.isValid then
    let remain := s.remainToRead
    let nbRead := if remain < size then remain else size
    if nbRead ≠ 0 then ({ s with offset := s.offset + nbRead }, s.pointer s.offset, nbRead) else (s, none, nbRead)
  else (s, none, 0)

/-- `Write`: the new state, the pointer behind the bytes that were written and their number. -/
def write (s : BofBuffer) (size : UInt64) (pData : Option (Nat → UInt8)) : BofBuffer × Option Nat × UInt64 :=
  match pData with
  | none => (s, none, 0)
  | some src =>
    if s.isValid then
      let free := s.remainToWrite
      let nbWritten := if size < free then size else free
      if nbWritten ≠ 0 then
        ({ s with
            storage := s.storage.map fun st => st.copy s.size.toNat nbWritten.toNat src
            size := s.size + nbWritten }, s.pointer (s.size + nbWritten), nbWritten)
      else (s, none, nbWritten)
    else (s, none, 0)

def memset (s : BofBuffer) (val : UInt8) (size offset : UInt64) : BofBuffer × Bool :=
  if s.isValid then
    if offset < s.capacity ∧ size + offset < s.capacity then
      ({ s with storage := s.storage.map fun st => st.fill offset.toNat size.toNat val }, true)
    else (s, false)
  else (s, false)

/-- The calls. -/
inductive Op where
  | clear
  | setStorage (capacity size : UInt64) (pData : Option Storage) (fresh : Nat → UInt8)
  | seekAbs (offset : UInt64)
  | seekRel (amount : Int64)
  | read (size : UInt64)
  | write (size : UInt64) (pData : Option (Nat → UInt8))
  | memset (val : UInt8) (size offset : UInt64)

/-- What a call returns: a pointer with a remainder, a pointer with a number of bytes, or a result. -/
inductive Out where
  | done
  | seek (pointer : Option Nat) (remain : Option UInt64)
  | moved (pointer : Option Nat) (count : UInt64)
  | result (ok : Bool)

/-- One call. -/
def step (s : BofBuffer) : Op → BofBuffer × Out
  | .clear => (s.clear, .done)
  | .setStorage capacity size pData fresh => (s.setStorage capacity size pData fresh, .done)
  | .seekAbs offset => ((s.seekAbs offset).1, .seek (s.seekAbs offset).2.1 (s.seekAbs offset).2.2)
  | .seekRel amount => ((s.seekRel amount).1, .seek (s.seekRel amount).2.1 (s.seekRel amount).2.2)
  | .read size => ((s.read size).1, .moved (s.read size).2.1 (s.read size).2.2)
  | .write size pData => ((s.write size pData).1, .moved (s.write size pData).2.1 (s.write size pData).2.2)
  | .memset val size offset => ((s.memset val size offset).1, .result (s.memset val size offset).2)

end BofBuffer

end BofStd
