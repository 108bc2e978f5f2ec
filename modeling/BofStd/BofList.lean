import BofStd.Basic
import BofStd.Lib.Run
import Mathlib.Logic.Function.Basic

/-!
# The doubly linked list `BofList`

A list over its own pool of nodes. The nodes are the indices of the pool; the same two link fields serve
the linked nodes and the pool of free nodes. A call that follows a null pointer is the result `none`.
The mutex, the profiler and the shared node pool manager are left out, and the assertions are those of a
build without `CHECK_LIST_INTEGRITY`.
-/

namespace BofStd

/-- The link fields `pNext_O` and `pPrev_O` of all the nodes. -/
structure Links where
  next : Nat → Option Nat
  prev : Nat → Option Nat

namespace Links

/-- `p->pNext_O = v`. -/
def setNext (k : Links) (p v : Option Nat) : Option Links :=
  p.map fun n => { k with next := Function.update k.next n v }

/-- `p->pPrev_O = v`. -/
def setPrev (k : Links) (p v : Option Nat) : Option Links :=
  p.map fun n => { k with prev := Function.update k.prev n v }

/-- Take a node out of the list between `head` and `queue`: the four cases that `Remove` has for the linked
nodes and `GetFreeNode` for the free ones. -/
def unlink (k : Links) (head queue : Option Nat) (n : Nat) : Option (Links × Option Nat × Option Nat) :=
  if head = some n ∧ queue = some n then some (k, none, none)
  else if head = some n then do
    let k ← k.setPrev (k.next n) none
    some (k, k.next n, queue)
  else if queue = some n then do
    let k ← k.setNext (k.prev n) none
    some (k, head, k.prev n)
  else do
    let k ← k.setNext (k.prev n) (k.next n)
    let k ← k.setPrev (k.next n) (k.prev n)
    some (k, head, queue)

end Links

/-- The members of a list with a pool of its own; `pParent n` is whether the node names this list. -/
structure BofList (α : Type) where
  nbElements : Nat
  nbMaxElements : Nat
  links : Links
  pParent : Nat → Bool
  value : Nat → α
  head : Option Nat
  queue : Option Nat
  freeHead : Option Nat
  freeQueue : Option Nat

namespace BofList

variable {α : Type} [Inhabited α]

/-- The constructor. -/
def create (nbMaxElements : Nat) : BofList α where
  nbElements := 0
  nbMaxElements := nbMaxElements
  links :=
    { next := fun i => if i = u32Sub nbMaxElements 1 then none else some (i + 1)
      prev := fun i => if i = 0 then none else some (i - 1) }
  pParent := fun _ => false
  value := fun _ => default
  head := none
  queue := none
  freeHead := some 0
  freeQueue := some (u32Sub nbMaxElements 1)

/-- `GetFreeNode` with the value for the node (null: a zero value). -/
def getFreeNode (s : BofList α) (element : Option α) : Option (BofList α × Option Nat) :=
  match s.freeHead with
  | none => some (s, none)
  | some n => do
    let freeHead := s.links.next n
    let (k, freeQueue) ←
      if freeHead = none then some (s.links, none)
      else (s.links.setPrev freeHead none).map fun k => (k, s.freeQueue)
    let k ← k.setNext (some n) none
    let k ← k.setPrev (some n) none
    some ({ s with
        links := k
        freeHead := freeHead
        freeQueue := freeQueue
        pParent := Function.update s.pParent n false
        value := Function.update s.value n (element.getD default) }, some n)

/-- The test of `GetFreeNode` for a node of the free pool. -/
def inFreePool (s : BofList α) (n : Nat) : Bool :=
  ((s.links.next n).isSome || (s.links.prev n).isSome || s.freeHead == some n || s.freeQueue == some n) &&
    !s.pParent n

/-- `GetFreeNode` with the node to take. -/
def getFreeNodeOf (s : BofList α) (n : Nat) : Option (BofList α × Option Nat) := do
  let (k, freeHead, freeQueue) ←
    if s.inFreePool n then s.links.unlink s.freeHead s.freeQueue n
    else some (s.links, s.freeHead, s.freeQueue)
  let k ← k.setNext (some n) none
  let k ← k.setPrev (some n) none
  some ({ s with
      links := k
      freeHead := freeHead
      freeQueue := freeQueue
      pParent := Function.update s.pParent n false }, some n)

/-- `SetFreeNode`. -/
def setFreeNode (s : BofList α) (n : Nat) : Option (BofList α × Bool) :=
  let s := { s with pParent := Function.update s.pParent n false }
  match s.freeQueue with
  | none => do
    let k ← s.links.setNext (some n) none
    let k ← k.setPrev (some n) none
    some ({ s with links := k, freeHead := some n, freeQueue := some n }, true)
  | some q => do
    let k ← s.links.setNext (some n) none
    let k ← k.setPrev (some n) (some q)
    let k ← k.setNext (some q) (some n)
    some ({ s with links := k, freeQueue := some n }, true)

/-- `AddAfter` with the node to insert. -/
def addAfterNode (s : BofList α) : Option Nat → Option Nat → Option (BofList α × Bool)
  | some e, some n =>
    if s.pParent e && !s.pParent n then do
      let (k, queue) ←
        if s.queue = some e then do
          let k ← s.links.setNext (some e) (some n)
          let k ← k.setPrev (some n) (some e)
          let k ← k.setNext (some n) none
          some (k, some n)
        else do
          let node := s.links.next e
          let k ← s.links.setNext (some e) (some n)
          let k ← k.setPrev (some n) (some e)
          let k ← k.setNext (some n) node
          let k ← k.setPrev node (some n)
          some (k, s.queue)
      some ({ s with
          links := k
          queue := queue
          pParent := Function.update s.pParent n true
          nbElements := u32 (s.nbElements + 1) }, true)
    else some (s, false)
  | _, _ => some (s, false)

/-- `AddBefore` with the node to insert. -/
def addBeforeNode (s : BofList α) : Option Nat → Option Nat → Option (BofList α × Bool)
  | some e, some n =>
    if s.pParent e && !s.pParent n then do
      let (k, head) ←
        if s.head = some e then do
          let k ← s.links.setPrev (some e) (some n)
          let k ← k.setNext (some n) (some e)
          let k ← k.setPrev (some n) none
          some (k, some n)
        else do
          let node := s.links.prev e
          let k ← s.links.setPrev (some e) (some n)
          let k ← k.setNext (some n) (some e)
          let k ← k.setPrev (some n) node
          let k ← k.setNext node (some n)
          some (k, s.head)
      some ({ s with
          links := k
          head := head
          pParent := Function.update s.pParent n true
          nbElements := u32 (s.nbElements + 1) }, true)
    else some (s, false)
  | _, _ => some (s, false)

/-- The first node of an empty list. -/
def addOnly (s : BofList α) (n : Nat) : Option (BofList α × Bool) := do
  let k ← s.links.setNext (some n) none
  let k ← k.setPrev (some n) none
  some ({ s with
      links := k
      head := some n
      queue := some n
      pParent := Function.update s.pParent n true
      nbElements := 1 }, true)

/-- `AddFirst` with the node to insert: it is taken from the pool before its parent is looked at. -/
def addFirstNode (s : BofList α) : Option Nat → Option (BofList α × Bool)
  | none => some (s, false)
  | some n => do
    let (s, _) ← s.getFreeNodeOf n
    if !s.pParent n then
      if s.head = none then s.addOnly n else s.addBeforeNode s.head (some n)
    else some (s, false)

/-- `AddLast` with the node to insert: it is taken from the pool after its parent is looked at. -/
def addLastNode (s : BofList α) : Option Nat → Option (BofList α × Bool)
  | none => some (s, false)
  | some n =>
    if !s.pParent n then do
      let (s, _) ← s.getFreeNodeOf n
      if s.queue = none then s.addOnly n else s.addAfterNode s.queue (some n)
    else some (s, false)

/-- A node with the value is taken from the pool and then added by `add`: the overloads of `AddFirst`,
`AddLast`, `AddAfter` and `AddBefore` for a value. -/
def addElement (s : BofList α) (element : Option α)
    (add : BofList α → Option Nat → Option (BofList α × Bool)) : Option (BofList α × Bool) := do
  let (s, n) ← s.getFreeNode element
  match n with
  | none => some (s, false)
  | some n => add s (some n)

/-- `AddFirst` with a value. -/
def addFirst (s : BofList α) (element : Option α) : Option (BofList α × Bool) :=
  s.addElement element addFirstNode

/-- `AddLast` with a value. -/
def addLast (s : BofList α) (element : Option α) : Option (BofList α × Bool) :=
  s.addElement element addLastNode

/-- `AddAfter` with a value: both pointers are checked first. -/
def addAfter (s : BofList α) : Option Nat → Option α → Option (BofList α × Bool)
  | some e, some element => s.addElement (some element) fun s n => s.addAfterNode (some e) n
  | _, _ => some (s, false)

/-- `AddBefore` with a value. -/
def addBefore (s : BofList α) : Option Nat → Option α → Option (BofList α × Bool)
  | some e, some element => s.addElement (some element) fun s n => s.addBeforeNode (some e) n
  | _, _ => some (s, false)

/-- `Remove`. -/
def remove (s : BofList α) : Option Nat → Option (BofList α × Bool)
  | none => some (s, false)
  | some n =>
    if s.pParent n then do
      let (k, head, queue) ← s.links.unlink s.head s.queue n
      { s with links := k, head := head, queue := queue, nbElements := u32Sub s.nbElements 1 }.setFreeNode n
    else some (s, false)

/-- `RemoveFirst`. -/
def removeFirst (s : BofList α) : Option (BofList α × Bool) :=
  if s.head = none then some (s, false) else s.remove s.head

/-- `RemoveLast`. -/
def removeLast (s : BofList α) : Option (BofList α × Bool) :=
  if s.queue = none then some (s, false) else s.remove s.queue

/-- The loop of `Clear`. -/
def clearLoop : Nat → BofList α → Option (BofList α)
  | 0, _ => none
  | fuel + 1, s =>
    if s.head = none then some s
    else do
      let (s, _) ← s.removeFirst
      clearLoop fuel s

/-- `Clear`. -/
def clear (s : BofList α) : Option (BofList α × Bool) := do
  let s ← clearLoop (s.nbElements + 1) s
  some (s, true)

/-! ## `ListSort`

The comparison is `_pCompare`, or `memcmp` on the bytes of two values if that is null. The counters of type `int32_t`
count nodes, but for the size of the runs, which is doubled after every pass: its overflow is the result `none`. -/

/-- `p->pNext_O`, with a null pointer for the end of a circular list. -/
def sortNext (isCircular : Bool) (oldHead : Option Nat) (s : BofList α) (n : Nat) : Option Nat :=
  if isCircular ∧ s.links.next n = oldHead then none else s.links.next n

/-- The steps along a run from `pNode2`: the node behind it and the number of nodes passed. -/
def sortAdvance (isCircular : Bool) (oldHead : Option Nat) (s : BofList α) :
    Nat → Option Nat → Nat → Option (Option Nat × Nat)
  | 0, node2, size1 => some (node2, size1)
  | left + 1, node2, size1 => do
    let n ← node2
    match sortNext isCircular oldHead s n with
    | none => some (none, size1 + 1)
    | some n => sortAdvance isCircular oldHead s left (some n) (size1 + 1)

/-- The next node is added to the merged list. -/
def sortAdd (isDouble : Bool) (s : BofList α) (n : Nat) : Option (BofList α) := do
  let (k, head) ←
    if s.queue ≠ none then (s.links.setNext s.queue (some n)).map fun k => (k, s.head)
    else some (s.links, some n)
  let k ← if isDouble then k.setPrev (some n) s.queue else some k
  some { s with links := k, head := head, queue := some n }

/-- The loop that merges the runs at `node1` and `node2`; it returns the final `pNode2_O` too. -/
def mergeLoop (compare : α → α → Int) (isCircular isDouble : Bool) (oldHead : Option Nat) :
    Nat → BofList α → Option Nat → Nat → Option Nat → Nat → Option (BofList α × Option Nat)
  | 0, _, _, _, _, _ => none
  | fuel + 1, s, node1, size1, node2, size2 =>
    if size1 > 0 ∨ (size2 > 0 ∧ node2 ≠ none) then
      if size1 = 0 then do
        let n ← node2
        let s' ← s.sortAdd isDouble n
        mergeLoop compare isCircular isDouble oldHead fuel s' node1 size1 (sortNext isCircular oldHead s n) (size2 - 1)
      else if size2 = 0 ∨ node2 = none then do
        let n ← node1
        let s' ← s.sortAdd isDouble n
        mergeLoop compare isCircular isDouble oldHead fuel s' (sortNext isCircular oldHead s n) (size1 - 1) node2 size2
      else do
        let n1 ← node1
        let n2 ← node2
        if compare (s.value n1) (s.value n2) ≤ 0 then do
          let s' ← s.sortAdd isDouble n1
          mergeLoop compare isCircular isDouble oldHead fuel s' (sortNext isCircular oldHead s n1) (size1 - 1) node2
            size2
        else do
          let s' ← s.sortAdd isDouble n2
          mergeLoop compare isCircular isDouble oldHead fuel s' node1 size1 (sortNext isCircular oldHead s n2)
            (size2 - 1)
    else some (s, node2)

/-- The loop over the merges of a pass, with runs of `inSize` nodes; it returns the number of merges too. `fuel` is that
of the inner loop. -/
def passLoop (compare : α → α → Int) (isCircular isDouble : Bool) (oldHead : Option Nat) (inSize fuel : Nat) :
    Nat → BofList α → Option Nat → Nat → Option (BofList α × Nat)
  | 0, _, _, _ => none
  | rounds + 1, s, node1, nbMerges =>
    if node1 ≠ none then do
      let (node2, size1) ← sortAdvance isCircular oldHead s inSize node1 0
      let (s, node2) ← mergeLoop compare isCircular isDouble oldHead fuel s node1 size1 node2 inSize
      passLoop compare isCircular isDouble oldHead inSize fuel rounds s node2 (nbMerges + 1)
    else some (s, nbMerges)

/-- The ends of the list after a pass. -/
def sortClose (isCircular isDouble : Bool) (s : BofList α) : Option (BofList α) := do
  let k ←
    if isCircular then do
      let k ← s.links.setNext s.queue s.head
      if isDouble then k.setPrev s.head s.queue else some k
    else s.links.setNext s.queue none
  some { s with links := k }

/-- The passes. -/
def sortLoop (compare : α → α → Int) (isCircular isDouble : Bool) (fuel : Nat) :
    Nat → Nat → BofList α → Option (BofList α)
  | 0, _, _ => none
  | passes + 1, inSize, s => do
    let (s, nbMerges) ← passLoop compare isCircular isDouble s.head inSize fuel fuel
      { s with head := none, queue := none } s.head 0
    let s ← s.sortClose isCircular isDouble
    if inSize * 2 > 2147483647 then none
    else if nbMerges ≤ 1 then some s
    else sortLoop compare isCircular isDouble fuel passes (inSize * 2) s

/-- `ListSort`, given up after `fuel` rounds of one of its loops. -/
def listSort (memcmp : α → α → Int) (fuel : Nat) (s : BofList α) (pCompare : Option (α → α → Int))
    (isCircular isDouble : Bool) : Option (BofList α) :=
  if s.head = none then some s
  else sortLoop (pCompare.getD memcmp) isCircular isDouble fuel fuel 1 s

/-- `Sort`. -/
def sort (memcmp : α → α → Int) (fuel : Nat) (s : BofList α) (pMethod : Option (α → α → Int)) :
    Option (BofList α × Bool) :=
  (s.listSort memcmp fuel pMethod false true).map fun s => (s, true)

/-- The calls. -/
inductive Op (α : Type) where
  | getFreeNode (element : Option α)
  | getFreeNodeOf (n : Nat)
  | addFirst (element : Option α)
  | addFirstNode (n : Option Nat)
  | addLast (element : Option α)
  | addLastNode (n : Option Nat)
  | addAfter (e : Option Nat) (element : Option α)
  | addAfterNode (e n : Option Nat)
  | addBefore (e : Option Nat) (element : Option α)
  | addBeforeNode (e n : Option Nat)
  | remove (n : Option Nat)
  | removeFirst
  | removeLast
  | clear

/-- What a call returns; `undefined` is a null pointer that is followed, or no return. -/
inductive Out where
  | node (n : Option Nat)
  | done (b : Bool)
  | undefined
  deriving DecidableEq

def returnNode (s : BofList α) (r : Option (BofList α × Option Nat)) : BofList α × Out :=
  (r.map fun r => (r.1, Out.node r.2)).getD (s, .undefined)

def returnBool (s : BofList α) (r : Option (BofList α × Bool)) : BofList α × Out :=
  (r.map fun r => (r.1, Out.done r.2)).getD (s, .undefined)

/-- One call. -/
def step (s : BofList α) : Op α → BofList α × Out
  | .getFreeNode element => s.returnNode (s.getFreeNode element)
  | .getFreeNodeOf n => s.returnNode (s.getFreeNodeOf n)
  | .addFirst element => s.returnBool (s.addFirst element)
  | .addFirstNode n => s.returnBool (s.addFirstNode n)
  | .addLast element => s.returnBool (s.addLast element)
  | .addLastNode n => s.returnBool (s.addLastNode n)
  | .addAfter e element => s.returnBool (s.addAfter e element)
  | .addAfterNode e n => s.returnBool (s.addAfterNode e n)
  | .addBefore e element => s.returnBool (s.addBefore e element)
  | .addBeforeNode e n => s.returnBool (s.addBeforeNode e n)
  | .remove n => s.returnBool (s.remove n)
  | .removeFirst => s.returnBool s.removeFirst
  | .removeLast => s.returnBool s.removeLast
  | .clear => s.returnBool s.clear

end BofList

end BofStd
