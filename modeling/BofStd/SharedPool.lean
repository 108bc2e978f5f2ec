import Mathlib.Logic.Function.Basic
import BofStd.PoolOf
import BofStd.Lib.Run
import BofStd.ListOfSpec

/-!
# `BofPoolOf` shared by several threads

`GetItem` and `ReleaseItem`, with `RemoveHead` and `InsertHead` inside, one access to the shared memory in a
step. The memory is sequentially consistent, the tag does not run over, and the header is the first member of
an item, so that an item pointer is the pointer to its links. Where a call of a thread stands is its `Pc`,
with the values it has read so far; `held` are the items that the thread has got.
-/

namespace BofStd

/-- A pool: the address of the list head and the addresses of the items. -/
structure SharedPool where
  listHead : Nat
  items : List Nat
  items_nodup : items.Nodup
  items_pos : 0 ∉ items
  listHead_notMem : listHead ∉ items
  /-- `mMaxNumberOfItemInPool_U32` -/
  length_lt : items.length < 2 ^ 32

namespace SharedPool

/-- The members of the pool and the headers of its items, and the results of the calls of `ReleaseItem`
that have returned. -/
structure Shared where
  /-- `mListHead_X.NextAndTag.pNextItem_X` -/
  head : Nat
  /-- `mListHead_X.NextAndTag._Tag_` -/
  tag : Nat
  /-- `Head_X.pNextItem_X` of the items -/
  next : Nat → Nat
  /-- `State_E` of the items -/
  state : Nat → ItemState
  nbItemAvailable : Nat
  nbMaxItemAvailable : Nat
  nbMinPoolItemAvailable : Nat
  returned : List Bool

/-- The next access of a thread. -/
inductive Pc where
  | idle
  /-- `RemoveHead`: `OldHead_X._Full_.high = ..` -/
  | readTag
  | readHead (tag : Nat)
  | readNext (tag old : Nat)
  | casRemove (tag old new : Nat)
  | decrement (old : Nat)
  /-- `GetItem`: the exchange of `State_E` -/
  | takeState (old : Nat)
  | readNb (old : Nat)
  | readMin (old nb : Nat)
  | storeMin (old nb : Nat)
  /-- `ReleaseItem`: the exchange of `State_E` -/
  | freeState (item : Nat)
  /-- `InsertHead`: `pTempItem_X = std::atomic_load(..)` -/
  | readOld (item : Nat)
  | writeNext (item temp : Nat)
  | casInsert (item temp : Nat)
  /-- `pTempItem_X != mListHead_X.NextAndTag.pNextItem_X` -/
  | reread (item temp : Nat)
  | increment
  /-- `mNbItemAvailable > mNbMaxItemAvailable` -/
  | compareNb
  | compareMax (nb : Nat)
  | loadNb
  | storeMax (nb : Nat)
  /-- `ReleaseItem`: `AtomicRes_U32 = mItemList.GetNbItemAvailable()` -/
  | readCount
  deriving DecidableEq

/-- A thread. -/
structure Thread where
  pc : Pc
  held : List Nat

/-- What a thread does: start a call, or make the next access; a weak compare-exchange may fail for no
reason. -/
inductive Act where
  | getItem
  | releaseItem (item : Nat)
  | access (spurious : Bool)

/-- `ReleaseItem` returns. -/
def Shared.return (m : Shared) (result : Bool) : Shared := { m with returned := result :: m.returned }

/-- The next access of a call. -/
def access (P : SharedPool) (m : Shared) (th : Thread) (spurious : Bool) : Shared × Thread :=
  match th.pc with
  | .idle => (m, th)
  | .readTag => (m, { th with pc := .readHead m.tag })
  | .readHead tag => (m, { th with pc := .readNext tag m.head })
  | .readNext tag old =>
    -- the list head is its own first link
    (m, { th with pc := .casRemove tag old (if old = P.listHead then m.head else m.next old) })
  | .casRemove tag old new =>
    if m.head = old ∧ m.tag = tag then
      ({ m with head := new, tag := tag + 1 }, { th with pc := if old ≠ P.listHead then .decrement old else .idle })
    else (m, { th with pc := .readTag })
  | .decrement old =>
    ({ m with nbItemAvailable := (m.nbItemAvailable + (2 ^ 32 - 1)) % 2 ^ 32 }, { th with pc := .takeState old })
  | .takeState old =>
    ({ m with state := Function.update m.state old .taken },
      { th with pc := if m.state old = .free then .readNb old else .idle })
  | .readNb old =>
    (m, { th with pc := if m.nbItemAvailable &&& 0x80000000 = 0 then .readMin old m.nbItemAvailable else .idle })
  | .readMin old nb =>
    if nb < m.nbMinPoolItemAvailable then (m, { th with pc := .storeMin old nb })
    else (m, ⟨.idle, old :: th.held⟩)
  | .storeMin old nb => ({ m with nbMinPoolItemAvailable := nb }, ⟨.idle, old :: th.held⟩)
  | .freeState item =>
    let m' := { m with state := Function.update m.state item .free }
    if m.state item = .taken then (m', { th with pc := .readOld item }) else (m'.return false, { th with pc := .idle })
  | .readOld item => (m, { th with pc := .writeNext item m.head })
  | .writeNext item temp =>
    ({ m with next := Function.update m.next item temp }, { th with pc := .casInsert item temp })
  | .casInsert item temp =>
    if m.head = temp ∧ spurious = false then ({ m with head := item }, { th with pc := .reread item temp })
    else (m, { th with pc := .readOld item })
  | .reread _ temp =>
    if temp ≠ m.head then (m, { th with pc := .increment }) else (m.return false, { th with pc := .idle })
  | .increment =>
    ({ m with nbItemAvailable := (m.nbItemAvailable + 1) % 2 ^ 32 }, { th with pc := .compareNb })
  | .compareNb => (m, { th with pc := .compareMax m.nbItemAvailable })
  | .compareMax nb => (m, { th with pc := if nb > m.nbMaxItemAvailable then .loadNb else .readCount })
  | .loadNb => (m, { th with pc := .storeMax m.nbItemAvailable })
  | .storeMax nb => ({ m with nbMaxItemAvailable := nb }, { th with pc := .readCount })
  | .readCount => (m.return (decide (m.nbItemAvailable ≤ P.items.length)), { th with pc := .idle })

/-- What a thread does. It starts a call only between two calls and releases only items that it holds. -/
def act (P : SharedPool) (m : Shared) (th : Thread) : Act → Shared × Thread
  | .getItem =>
    match th.pc with
    | .idle => (m, { th with pc := .readTag })
    | _ => (m, th)
  | .releaseItem item =>
    match th.pc with
    | .idle => if item ∈ th.held then (m, ⟨.freeState item, th.held.erase item⟩) else (m, th)
    | _ => (m, th)
  | .access spurious => P.access m th spurious

/-- The shared memory and the threads. -/
structure System (τ : Type) where
  shared : Shared
  threads : τ → Thread

variable {τ : Type} [DecidableEq τ]

/-- One step of one thread. -/
def step (P : SharedPool) (s : System τ) (i : τ × Act) : System τ × Unit :=
  let r := P.act s.shared (s.threads i.1) i.2
  (⟨r.1, Function.update s.threads i.1 r.2⟩, ())

/-- `InsertHead` in the constructor, where no other thread runs. -/
def insertHead (m : Shared) (item : Nat) : Shared :=
  let nb := (m.nbItemAvailable + 1) % 2 ^ 32
  { m with
    next := Function.update m.next item m.head
    head := item
    nbItemAvailable := nb
    nbMaxItemAvailable := if nb > m.nbMaxItemAvailable then nb else m.nbMaxItemAvailable }

/-- The constructor. -/
def create (P : SharedPool) : System τ :=
  ⟨P.items.foldl insertHead ⟨P.listHead, 0, fun _ => 0, fun _ => .free, 0, 0, P.items.length, []⟩,
    fun _ => ⟨.idle, []⟩⟩

end SharedPool

end BofStd

/-!
# What a shared `BofPoolOf` is for: no item has two holders and none is lost

`Exclusive` and `Settled` are what callers rely on, the second one when no call is in progress. Three tests of
the source can go wrong when calls overlap; `Smooth` says that a step does not take one of the wrong branches.
-/

namespace BofStd.SharedPool

open Linked

variable {τ : Type} [DecidableEq τ]

/-- The items that the links make up. -/
def FreeList (P : SharedPool) (m : Shared) (free : List Nat) : Prop :=
  Chain (fun x => link P.listHead (m.next x)) (link P.listHead m.head) free

/-- No item is both free and held, or held by two threads. -/
def Exclusive (P : SharedPool) (s : System τ) : Prop :=
  ∃ free, FreeList P s.shared free ∧ (∀ t, ∀ x ∈ (s.threads t).held, x ∉ free) ∧
    ∀ t u, t ≠ u → ∀ x ∈ (s.threads t).held, x ∉ (s.threads u).held

/-- No call is in progress. -/
def Quiet (s : System τ) : Prop := ∀ t, (s.threads t).pc = .idle

/-- Every item is free or held, the counter is the length of the free list, and every release of a held item
has succeeded. -/
def Settled (P : SharedPool) (s : System τ) : Prop :=
  ∃ free, FreeList P s.shared free ∧ (∀ x ∈ P.items, x ∈ free ∨ ∃ t, x ∈ (s.threads t).held) ∧
    s.shared.nbItemAvailable = free.length ∧ ∀ result ∈ s.shared.returned, result = true

/-- The items are accounted for. -/
def Accounted (P : SharedPool) (s : System τ) : Prop := Exclusive P s ∧ (Quiet s → Settled P s)

/-- A thread does not read the old head again after an insertion, nor a count with the sign bit set when it
gets an item, nor one above the capacity when it releases an item. -/
def SmoothAt (P : SharedPool) (m : Shared) : Act → Pc → Prop
  | .access _, .reread _ temp => temp ≠ m.head
  | .access _, .readNb _ => m.nbItemAvailable &&& 0x80000000 = 0
  | .access _, .readCount => m.nbItemAvailable ≤ P.items.length
  | _, _ => True

/-- The step takes none of the three wrong branches. -/
def Smooth (P : SharedPool) (s : System τ) (i : τ × Act) : Prop := SmoothAt P s.shared i.2 (s.threads i.1).pc

end BofStd.SharedPool
