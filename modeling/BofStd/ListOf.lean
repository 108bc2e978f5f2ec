import BofStd.Basic
import BofStd.Lib.Pointer
import BofStd.Lib.Run

/-!
# The intrusive lists `BofSingleListOf` and `BofDoubleListOf`

The links of a list are kept in its items, in the member `OpaqueItemHeader`, and the lists handle only
pointers. An item, a list head and a link are addresses of one byte memory; a null pointer is 0. The calls
are made by one thread, so that a compare-exchange succeeds at once, and a pointer has eight bytes.

`BofDoubleListOf::RemoveItem` names a member that no item has and is left out: it cannot be called.
-/

namespace BofStd

open Memory

abbrev Mem := Nat → UInt8

/-- The item structure `T`: its size, and the offset of the member `OpaqueItemHeader` inside it. -/
structure ItemType where
  size : Nat
  offset : Nat
  /-- `sizeof(OPAQUE_ITEM_HEADER)` is 32 -/
  offset_le : offset + 32 ≤ size
  size_lt : size < 2 ^ 63

/-- `BOF_CONTAINER_OF(ptr, T, OpaqueItemHeader.Head_X)`. -/
def ItemType.containerOf (T : ItemType) (ptr : Nat) : Nat := (ptr + 2 ^ 64 - T.offset) % 2 ^ 64

/-- The counters `mNbItemAvailable` and `mNbMaxItemAvailable` of a list. -/
structure ItemCount where
  nbItemAvailable : Nat
  nbMaxItemAvailable : Nat

namespace ItemCount

/-- `mNbItemAvailable++`, and the highest value is recorded. -/
def increment (c : ItemCount) : ItemCount :=
  let nb := (c.nbItemAvailable + 1) % 2 ^ 32
  ⟨nb, if nb > c.nbMaxItemAvailable then nb else c.nbMaxItemAvailable⟩

/-- `mNbItemAvailable--`. -/
def decrement (c : ItemCount) : ItemCount :=
  { c with nbItemAvailable := (c.nbItemAvailable + (2 ^ 32 - 1)) % 2 ^ 32 }

/-- The highest value starts again at 0. -/
def resetMax (c : ItemCount) : ItemCount := { c with nbMaxItemAvailable := 0 }

end ItemCount

/-- What a call on a list returns. -/
inductive ListOut where
  | inserted (ok : Bool)
  /-- an item pointer, null if there is none -/
  | item (p : Nat)
  | empty (isEmpty : Bool)
  | count (n : Nat)
  | done
  /-- the loop of `Reset` did not end -/
  | diverges
  deriving DecidableEq

/-- `BofSingleListOf`: the address of `mListHead_X`, a pointer to the first item and behind it a tag, and
the counters. The links are in the memory. -/
structure SingleListOf where
  listHead : Nat
  count : ItemCount

namespace SingleListOf

/-- The constructor: an empty list points to itself. -/
def create (listHead : Nat) (mem : Mem) : SingleListOf × Mem :=
  (⟨listHead, 0, 0⟩, store (store mem listHead listHead) (listHead + 8) 0)

/-- `InsertHead`. -/
def insertHead (T : ItemType) (s : SingleListOf) (mem : Mem) (item : Nat) : SingleListOf × Mem × Bool :=
  if item ≠ 0 then
    let tempItem := load mem s.listHead
    let mem := store mem (item + T.offset) tempItem
    let mem := store mem s.listHead item
    -- whether the item went in is read off the head once more
    if tempItem ≠ load mem s.listHead then ({ s with count := s.count.increment }, mem, true)
    else (s, mem, false)
  else (s, mem, false)

/-- `RemoveHead`. The link of the old head is read at the address in the list head, and the tag grows also
when there is no item. -/
def removeHead (T : ItemType) (s : SingleListOf) (mem : Mem) : SingleListOf × Mem × Nat :=
  let oldTag := load mem (s.listHead + 8)
  let oldItem := load mem s.listHead
  let newItem := load mem oldItem
  let mem := store (store mem s.listHead newItem) (s.listHead + 8) ((oldTag + 1) % 2 ^ 64)
  if oldItem ≠ s.listHead then ({ s with count := s.count.decrement }, mem, T.containerOf oldItem)
  else (s, mem, 0)

/-- `IsEmpty`. -/
def isEmpty (s : SingleListOf) (mem : Mem) : Bool := load mem s.listHead == s.listHead

/-- `while (RemoveHead() != nullptr)`, for the given number of rounds at most. -/
def removeAll (T : ItemType) : Nat → SingleListOf → Mem → Option (SingleListOf × Mem)
  | 0, _, _ => none
  | n + 1, s, mem =>
    let (s, mem, item) := s.removeHead T mem
    if item ≠ 0 then removeAll T n s mem else some (s, mem)

/-- `Reset`. No list has more items than there are addresses. -/
def reset (T : ItemType) (s : SingleListOf) (mem : Mem) : Option (SingleListOf × Mem) :=
  (removeAll T (2 ^ 64) s mem).map fun r => ({ r.1 with count := r.1.count.resetMax }, r.2)

/-- The calls. -/
inductive Op where
  | insertHead (item : Nat)
  | removeHead
  | isEmpty
  | getNbItemAvailable
  | getNbMaxItemAvailable (reset : Bool)
  | reset

/-- One call. -/
def step (T : ItemType) (s : SingleListOf × Mem) : Op → (SingleListOf × Mem) × ListOut
  | .insertHead item =>
    let (l, mem, ok) := s.1.insertHead T s.2 item
    ((l, mem), .inserted ok)
  | .removeHead =>
    let (l, mem, item) := s.1.removeHead T s.2
    ((l, mem), .item item)
  | .isEmpty => (s, .empty (s.1.isEmpty s.2))
  | .getNbItemAvailable => (s, .count s.1.count.nbItemAvailable)
  | .getNbMaxItemAvailable reset =>
    ((if reset then ({ s.1 with count := s.1.count.resetMax }, s.2) else s),
      .count s.1.count.nbMaxItemAvailable)
  | .reset =>
    match s.1.reset T s.2 with
    | some s' => (s', .done)
    | none => (s, .diverges)

end SingleListOf

/-- `BofDoubleListOf`: the address of `mListHead_X`, the pointers to the first and to the last item, and the
counters. -/
structure DoubleListOf where
  listHead : Nat
  count : ItemCount

namespace DoubleListOf

/-- The offset of `pNextItem_X` in a `DOUBLE_LIST_ITEM`. -/
def nextItem : Nat := 0

/-- The offset of `pPrevItem_X` in a `DOUBLE_LIST_ITEM`. -/
def prevItem : Nat := 8

/-- The constructor: an empty list points to itself in both directions. -/
def create (listHead : Nat) (mem : Mem) : DoubleListOf × Mem :=
  (⟨listHead, 0, 0⟩, store (store mem (listHead + prevItem) listHead) (listHead + nextItem) listHead)

/-- `IsEmpty`. -/
def isEmpty (s : DoubleListOf) (mem : Mem) : Bool :=
  load mem (s.listHead + nextItem) == s.listHead && load mem (s.listHead + prevItem) == s.listHead

/-- An item goes in behind the list head, where `near` leads from there and `far` leads back. The item
pointer itself is taken for the pointer to its links. -/
def insert (near far : Nat) (s : DoubleListOf) (mem : Mem) (item : Nat) : DoubleListOf × Mem × Bool :=
  if item ≠ 0 then
    let listItem := load mem (s.listHead + near)
    let mem := store mem (item + near) (load mem (s.listHead + near))
    let mem := store mem (s.listHead + near) item
    let mem := store mem (listItem + far) item
    let mem := store mem (item + far) s.listHead
    ({ s with count := s.count.increment }, mem, true)
  else (s, mem, false)

/-- The item behind the list head, in the direction of `near`, is taken out. -/
def remove (near far : Nat) (T : ItemType) (s : DoubleListOf) (mem : Mem) : DoubleListOf × Mem × Nat :=
  if s.isEmpty mem then (s, mem, 0)
  else
    let item := load mem (s.listHead + near)
    let mem := store mem (s.listHead + near) (load mem (item + near))
    let mem := store mem (load mem (item + near) + far) s.listHead
    ({ s with count := s.count.decrement }, mem, T.containerOf item)

/-- `InsertHead`. -/
def insertHead : DoubleListOf → Mem → Nat → DoubleListOf × Mem × Bool := insert nextItem prevItem

/-- `InsertTail`. -/
def insertTail : DoubleListOf → Mem → Nat → DoubleListOf × Mem × Bool := insert prevItem nextItem

/-- `RemoveHead`. -/
def removeHead : ItemType → DoubleListOf → Mem → DoubleListOf × Mem × Nat := remove nextItem prevItem

/-- `RemoveTail`. -/
def removeTail : ItemType → DoubleListOf → Mem → DoubleListOf × Mem × Nat := remove prevItem nextItem

/-- `while (RemoveHead() != nullptr)`, for the given number of rounds at most. -/
def removeAll (T : ItemType) : Nat → DoubleListOf → Mem → Option (DoubleListOf × Mem)
  | 0, _, _ => none
  | n + 1, s, mem =>
    let (s, mem, item) := s.removeHead T mem
    if item ≠ 0 then removeAll T n s mem else some (s, mem)

/-- `Reset`. -/
def reset (T : ItemType) (s : DoubleListOf) (mem : Mem) : Option (DoubleListOf × Mem) :=
  (removeAll T (2 ^ 64) s mem).map fun r => ({ r.1 with count := r.1.count.resetMax }, r.2)

/-- The calls. -/
inductive Op where
  | insertHead (item : Nat)
  | insertTail (item : Nat)
  | removeHead
  | removeTail
  | isEmpty
  | getNbItemAvailable
  | getNbMaxItemAvailable (reset : Bool)
  | reset

/-- One call. -/
def step (T : ItemType) (s : DoubleListOf × Mem) : Op → (DoubleListOf × Mem) × ListOut
  | .insertHead item =>
    let (l, mem, ok) := s.1.insertHead s.2 item
    ((l, mem), .inserted ok)
  | .insertTail item =>
    let (l, mem, ok) := s.1.insertTail s.2 item
    ((l, mem), .inserted ok)
  | .removeHead =>
    let (l, mem, item) := s.1.removeHead T s.2
    ((l, mem), .item item)
  | .removeTail =>
    let (l, mem, item) := s.1.removeTail T s.2
    ((l, mem), .item item)
  | .isEmpty => (s, .empty (s.1.isEmpty s.2))
  | .getNbItemAvailable => (s, .count s.1.count.nbItemAvailable)
  | .getNbMaxItemAvailable reset =>
    ((if reset then ({ s.1 with count := s.1.count.resetMax }, s.2) else s),
      .count s.1.count.nbMaxItemAvailable)
  | .reset =>
    match s.1.reset T s.2 with
    | some s' => (s', .done)
    | none => (s, .diverges)

end DoubleListOf

end BofStd
