import BofStd.ListOf

/-!
# The storage pool `BofPoolOf`

An array of items, the free ones linked in a single list. The word `State_E` in the header of an item says
whether it is free or taken. The calls are made by one thread; each assertion of the source is followed by a
test of the same condition, and only the tests are modelled.
-/

namespace BofStd

open Memory

/-- `ITEM_STATE`. -/
inductive ItemState where
  | free
  | taken
  deriving DecidableEq

/-- The value of an enumerator. -/
def ItemState.toNat : ItemState → Nat
  | .free => 0
  | .taken => 1

namespace ItemType

/-- The address of `OpaqueItemHeader.State_E`, which lies behind the links. -/
def stateAt (T : ItemType) (item : Nat) : Nat := item + T.offset + 16

/-- `State_E` of an item. -/
def state (T : ItemType) (mem : Mem) (item : Nat) : Nat := loadWord 4 mem (T.stateAt item)

/-- Set `State_E`. -/
def setState (T : ItemType) (mem : Mem) (item : Nat) (st : ItemState) : Mem :=
  storeWord 4 mem (T.stateAt item) st.toNat

end ItemType

/-- `BofPoolOf`. -/
structure PoolOf where
  maxNumberOfItemInPool : Nat
  itemList : SingleListOf
  nbMinPoolItemAvailable : Nat
  /-- the address of the first item -/
  poolItem : Nat

namespace PoolOf

/-- The addresses of the items. -/
def itemsAt (T : ItemType) (poolItem n : Nat) : List Nat := (List.range n).map fun i => poolItem + i * T.size

/-- The loop that puts all items into the list; in `Reset` it also sets their states. -/
def insertAll (T : ItemType) (setFree : Bool) : List Nat → SingleListOf → Mem → SingleListOf × Mem
  | [], list, mem => (list, mem)
  | item :: items, list, mem =>
    let mem := if setFree then T.setState mem item .free else mem
    let (list, mem, _) := list.insertHead T mem item
    insertAll T setFree items list mem

/-- The constructor. The items are allocated at `poolItem`, and their own constructor makes them free. -/
def create (T : ItemType) (maxNumberOfItemInPool listHead poolItem : Nat) (mem : Mem) : PoolOf × Mem :=
  let (list, mem) := SingleListOf.create listHead mem
  let items := itemsAt T poolItem maxNumberOfItemInPool
  let mem := items.foldl (fun mem item => T.setState mem item .free) mem
  let (list, mem) := insertAll T false items list mem
  (⟨maxNumberOfItemInPool, list, maxNumberOfItemInPool, poolItem⟩, mem)

/-- `GetItem`. -/
def getItem (T : ItemType) (s : PoolOf) (mem : Mem) : PoolOf × Mem × Nat :=
  let (list, mem, item) := s.itemList.removeHead T mem
  let s := { s with itemList := list }
  if item ≠ 0 then
    let state := T.state mem item
    let mem := T.setState mem item .taken
    if state = ItemState.free.toNat then
      let nb := list.count.nbItemAvailable
      -- a count with the sign bit set is taken for a negative one
      if nb &&& 0x80000000 = 0 then
        ({ s with nbMinPoolItemAvailable := if nb < s.nbMinPoolItemAvailable then nb else s.nbMinPoolItemAvailable },
          mem, item)
      else (s, mem, 0)
    else (s, mem, 0)
  else (s, mem, 0)

/-- `ReleaseItem`. -/
def releaseItem (T : ItemType) (s : PoolOf) (mem : Mem) (item : Nat) : PoolOf × Mem × Bool :=
  if item ≠ 0 then
    let state := T.state mem item
    let mem := T.setState mem item .free
    if state = ItemState.taken.toNat then
      let (list, mem, ok) := s.itemList.insertHead T mem item
      let s := { s with itemList := list }
      if ok then (s, mem, decide (list.count.nbItemAvailable ≤ s.maxNumberOfItemInPool)) else (s, mem, false)
    else (s, mem, false)
  else (s, mem, false)

/-- `Reset`. -/
def reset (T : ItemType) (s : PoolOf) (mem : Mem) : Option (PoolOf × Mem) :=
  (s.itemList.removeAll T (2 ^ 64) mem).map fun r =>
    let (list, mem) := insertAll T true (itemsAt T s.poolItem s.maxNumberOfItemInPool) r.1 r.2
    ({ s with itemList := list, nbMinPoolItemAvailable := s.maxNumberOfItemInPool }, mem)

end PoolOf

end BofStd
