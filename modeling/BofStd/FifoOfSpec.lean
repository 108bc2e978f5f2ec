import BofStd.FifoOf
import BofStd.ListOfSpec
import Mathlib.Data.List.Perm.Basic

/-!
# What `BofFifoOf` is for: a queue over a pool of items

`FifoItems` says where the items of a queue with internal storage are: free in the pool, held by the caller
or queued, the oldest item first. `fifoStep` is a call on these three lists. A `FifoPlace` says where the
queue, the pool and the items lie in the memory.
-/

namespace BofStd

open Memory

/-- Where the items are. -/
structure FifoItems where
  free : List Nat
  held : List Nat
  queued : List Nat

/-- The places of the two list heads and of the items in the memory, which do not overlap. -/
structure FifoPlace (T : ItemType) (capacity : Nat) where
  queueHead : Nat
  poolHead : Nat
  poolItem : Nat
  capacity_pos : 0 < capacity
  capacity_lt : capacity < 2 ^ 32
  queueHead_le : queueHead + 16 ≤ 2 ^ 64
  poolHead_le : poolHead + 16 ≤ 2 ^ 64
  poolItem_pos : 0 < poolItem
  poolItem_le : poolItem + capacity * T.size ≤ 2 ^ 64
  heads_apart : queueHead + 16 ≤ poolHead ∨ poolHead + 16 ≤ queueHead
  queueHead_apart : queueHead + 16 ≤ poolItem ∨ poolItem + capacity * T.size ≤ queueHead
  poolHead_apart : poolHead + 16 ≤ poolItem ∨ poolItem + capacity * T.size ≤ poolHead

namespace FifoPlace

variable {T : ItemType} {capacity : Nat}

/-- The items. -/
def items (A : FifoPlace T capacity) : List Nat := PoolOf.itemsAt T A.poolItem capacity

/-- A queue in its place. -/
def create (A : FifoPlace T capacity) (mem : Mem) : FifoOf × Mem :=
  FifoOf.create T capacity A.queueHead A.poolHead A.poolItem mem

/-- At the start all items are free; the pool hands out the last one first. -/
def start (A : FifoPlace T capacity) : FifoItems := ⟨A.items.reverse, [], []⟩

end FifoPlace

namespace FifoOf

variable {T : ItemType} {capacity : Nat}

/-- One call on a queue. Waiting fails when nothing is queued, unless the caller is to quit; then there is
no item either. -/
def fifoStep (A : FifoPlace T capacity) (a : FifoItems) : Op → FifoItems × Out
  | .getFreeInternalFifoItem =>
    match a.free with
    | [] => (a, .item 0)
    | p :: free => ({ a with free := free, held := p :: a.held }, .item p)
  | .insert p => ({ a with held := a.held.erase p, queued := a.queued ++ [p] }, .done true)
  | .waitForItem mustQuit ppItem =>
    if ppItem then
      match a.queued with
      | [] => (a, .waited (mustQuit.getD false) 0)
      | p :: queued => ({ a with held := p :: a.held, queued := queued }, .waited true p)
    else (a, .waited false 0)
  | .releaseInternalFifoItem p => ({ a with free := p :: a.free, held := a.held.erase p }, .done true)
  | .reset => (A.start, .done true)

/-- The caller inserts and releases only items it holds, and holds none at a reset. -/
def Legal (a : FifoItems) : Op → Prop
  | .insert p | .releaseInternalFifoItem p => p ∈ a.held
  | .reset => a.held = []
  | _ => True

/-- The links in the memory make up the pool. -/
structure PoolHolds (A : FifoPlace T capacity) (pool : PoolOf) (mem : Mem) (free : List Nat) : Prop where
  listHead_eq : pool.itemList.listHead = A.poolHead
  poolItem_eq : pool.poolItem = A.poolItem
  maxNumberOfItemInPool_eq : pool.maxNumberOfItemInPool = capacity
  list : pool.itemList.Holds mem free

/-- The links in the memory make up the queue: the last item of the double list is the oldest. -/
structure QueueHolds (A : FifoPlace T capacity) (list : DoubleListOf) (mem : Mem) (queued : List Nat) : Prop where
  listHead_eq : list.listHead = A.queueHead
  list : list.Holds DoubleListOf.nextItem DoubleListOf.prevItem mem queued.reverse

/-- The links in the memory make up the pool and the queue, every item is in one of the three places, and
its state is free exactly in the pool. -/
structure Partitioned (A : FifoPlace T capacity) (s : FifoOf) (mem : Mem) (a : FifoItems) : Prop where
  pool : ∃ pool, s.internalFifoStorage = some pool ∧ PoolHolds A pool mem a.free
  queue : QueueHolds A s.fifoItemList mem a.queued
  places : (a.free ++ (a.held ++ a.queued)).Perm A.items
  state_eq : ∀ p ∈ A.items, T.state mem p = if p ∈ a.free then ItemState.free.toNat else ItemState.taken.toNat

/-- In every run the calls give the results of the queue, and its three lists partition the items. -/
def Conserves (A : FifoPlace T capacity) : Prop :=
  ∀ (mem : Mem) (ops : List Op), Machine.Meets (fifoStep A) Legal A.start ops →
    let r := Machine.run (step T) (A.create mem) ops
    let a := Machine.run (fifoStep A) A.start ops
    r.2 = a.2 ∧ Partitioned A r.1.1 r.1.2 a.1

/-- Whatever the flag to quit says, waiting fails exactly when nothing is queued. -/
def WaitsExactly (A : FifoPlace T capacity) : Prop :=
  ∀ (mem : Mem) (ops : List Op), Machine.Meets (fifoStep A) Legal A.start ops →
    ∀ mustQuit, (∃ p, (step T (Machine.run (step T) (A.create mem) ops).1 (.waitForItem mustQuit true)).2 =
      .waited false p) ↔ (Machine.run (fifoStep A) A.start ops).1.queued = []

end FifoOf

end BofStd
