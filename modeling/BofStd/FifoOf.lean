import BofStd.PoolOf

/-!
# The queue `BofFifoOf`

A double list of queued items, and with a capacity a pool that stores the items. The calls are made by one
thread and `WaitForItem` has a zero timeout: the mutex is left out, nobody is woken up, and waiting ends at
once with the value of the predicate.
-/

namespace BofStd

/-- `BofFifoOf`. -/
structure FifoOf where
  fifoItemList : DoubleListOf
  internalFifoStorage : Option PoolOf

namespace FifoOf

/-- The constructor: without a capacity there is no internal storage. -/
def create (T : ItemType) (maxNumberOfItemInFifo queueHead poolHead poolItem : Nat) (mem : Mem) : FifoOf × Mem :=
  let (list, mem) := DoubleListOf.create queueHead mem
  if maxNumberOfItemInFifo ≠ 0 then
    let (pool, mem) := PoolOf.create T maxNumberOfItemInFifo poolHead poolItem mem
    (⟨list, some pool⟩, mem)
  else (⟨list, none⟩, mem)

/-- `GetFreeInternalFifoItem`. -/
def getFreeInternalFifoItem (T : ItemType) (s : FifoOf) (mem : Mem) : FifoOf × Mem × Nat :=
  match s.internalFifoStorage with
  | none => (s, mem, 0)
  | some pool =>
    let (pool, mem, item) := pool.getItem T mem
    ({ s with internalFifoStorage := some pool }, mem, item)

/-- `ReleaseInternalFifoItem`. -/
def releaseInternalFifoItem (T : ItemType) (s : FifoOf) (mem : Mem) (item : Nat) : FifoOf × Mem × Bool :=
  match s.internalFifoStorage with
  | none => (s, mem, false)
  | some pool =>
    if item ≠ 0 then
      let (pool, mem, ok) := pool.releaseItem T mem item
      ({ s with internalFifoStorage := some pool }, mem, ok)
    else (s, mem, false)

/-- `Insert`. -/
def insert (s : FifoOf) (mem : Mem) (item : Nat) : FifoOf × Mem × Bool :=
  let (list, mem, ok) := s.fifoItemList.insertHead mem item
  ({ s with fifoItemList := list }, mem, ok)

/-- `WaitForItem` with a zero timeout: `mustQuit` is the flag that `_pMustQuit_B` points to, if it is given,
and `ppItem` says whether there is a place for the item. The result and the item stored there. -/
def waitForItem (T : ItemType) (s : FifoOf) (mem : Mem) (mustQuit : Option Bool) (ppItem : Bool) :
    FifoOf × Mem × Bool × Nat :=
  if ppItem then
    let empty := s.fifoItemList.isEmpty mem
    let quit := mustQuit.getD false
    -- the timeout is over when the predicate is false
    let ok := if empty && !quit then false else true
    if ok && !empty then
      let (list, mem, item) := s.fifoItemList.removeTail T mem
      ({ s with fifoItemList := list }, mem, ok, item)
    else (s, mem, ok, 0)
  else (s, mem, false, 0)

/-- `Reset`. -/
def reset (T : ItemType) (s : FifoOf) (mem : Mem) : Option (FifoOf × Mem) := do
  let (list, mem) ← s.fifoItemList.reset T mem
  match s.internalFifoStorage with
  | none => some ({ s with fifoItemList := list }, mem)
  | some pool =>
    let (pool, mem) ← pool.reset T mem
    some (⟨list, some pool⟩, mem)

/-- The calls. -/
inductive Op where
  | getFreeInternalFifoItem
  | insert (item : Nat)
  | waitForItem (mustQuit : Option Bool) (ppItem : Bool)
  | releaseInternalFifoItem (item : Nat)
  | reset

/-- What a call returns. -/
inductive Out where
  /-- an item pointer, null if there is none -/
  | item (p : Nat)
  | done (ok : Bool)
  | waited (ok : Bool) (p : Nat)
  | diverges
  deriving DecidableEq

/-- One call. -/
def step (T : ItemType) (s : FifoOf × Mem) : Op → (FifoOf × Mem) × Out
  | .getFreeInternalFifoItem =>
    let (f, mem, item) := s.1.getFreeInternalFifoItem T s.2
    ((f, mem), .item item)
  | .insert item =>
    let (f, mem, ok) := s.1.insert s.2 item
    ((f, mem), .done ok)
  | .waitForItem mustQuit ppItem =>
    let (f, mem, ok, item) := s.1.waitForItem T s.2 mustQuit ppItem
    ((f, mem), .waited ok item)
  | .releaseInternalFifoItem item =>
    let (f, mem, ok) := s.1.releaseInternalFifoItem T s.2 item
    ((f, mem), .done ok)
  | .reset =>
    match s.1.reset T s.2 with
    | some s' => (s', .done true)
    | none => (s, .diverges)

end FifoOf

end BofStd
