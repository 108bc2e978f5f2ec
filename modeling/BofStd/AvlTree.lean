import BofStd.Basic
import Mathlib.Logic.Function.Basic

/-!
# `BofAvlNode` and `BofAvlTree` (`bofavlnode.h`, `bofavltree.h`)

The nodes are those of the pool `mpNodeList`, a pointer to a node is its index in the pool, and a null
pointer is `none`. A record (`KeyType *`) is a value of an arbitrary type `ρ`, never null, and
`compare index x y` is `x->Compare(index, y)`. A parameter of type `BofAvlNode *&` is given by its value
and returned with its new value, which the caller stores where the reference points to; so is
`Change_S32`. The functions that follow pointers have the result `none` where the code would follow a
null pointer, and the recursive ones also where the recursion is deeper than `fuel`.
-/

namespace BofStd

/-- `BOFCMP`. -/
inductive BofCmp where
  | lessOrEqual
  | less
  | equal
  | greater
  | greaterOrEqual
  deriving DecidableEq

/-- The value of the enumerator. -/
def BofCmp.toInt : BofCmp → Int
  | .lessOrEqual => -2
  | .less => -1
  | .equal => 0
  | .greater => 1
  | .greaterOrEqual => 2

/-- `WHICHAVLSUBTREE`. -/
inductive WhichAvlSubTree where
  | leftSubTree
  | rightSubTree
  | parentSubTree
  deriving DecidableEq

open WhichAvlSubTree

/-- `Opposite`. -/
def WhichAvlSubTree.opposite (d : WhichAvlSubTree) : WhichAvlSubTree :=
  if d = leftSubTree then rightSubTree else leftSubTree

/-- The members of `BofAvlNode`. A new node is as `Clear` leaves it. -/
structure AvlNode (ρ : Type) where
  mpData : Option ρ := none
  mpSubTree : WhichAvlSubTree → Option Nat := fun _ => none
  mBalance_S32 : Int := 0

/-- The members of `BofAvlTree`. -/
structure AvlTree (ρ : Type) where
  mpRoot : Option Nat
  mIndex_U32 : Nat
  mNbNode_U32 : Nat
  mNbMaxElement_U32 : Nat
  mpNextRamDbFreeNode : Option Nat
  mpNodeList : Nat → AvlNode ρ

/-- What `Insert` returns: a null pointer, a node, or the pointer `0x6996AA55` that signals an error. -/
inductive AvlInsertRts where
  | null
  | node (p : Nat)
  | signalError
  deriving DecidableEq

namespace AvlTree

variable {ρ : Type}

/-- The pool with its nodes cleared and chained through their parent members. -/
def freeNodeList (nbMaxElement : Nat) (i : Nat) : AvlNode ρ where
  mpSubTree := Function.update (fun _ => none) parentSubTree
    (if i = nbMaxElement - 1 then none else some (i + 1))

/-- The constructor, for `_NbMaxElement_U32` other than 0. -/
def create (nbMaxElement index : Nat) : AvlTree ρ where
  mpRoot := none
  mIndex_U32 := index
  mNbNode_U32 := 0
  mNbMaxElement_U32 := nbMaxElement
  mpNextRamDbFreeNode := some 0
  mpNodeList := freeNodeList nbMaxElement

def clear (t : AvlTree ρ) : AvlTree ρ :=
  { t with
    mNbNode_U32 := 0
    mpRoot := none
    mpNextRamDbFreeNode := some 0
    mpNodeList := freeNodeList t.mNbMaxElement_U32 }

/-! ## The members of a node -/

/-- `p->mpSubTree[d]`. -/
def subTree (t : AvlTree ρ) (p : Nat) (d : WhichAvlSubTree) : Option Nat := (t.mpNodeList p).mpSubTree d

/-- `p->mBalance_S32`. -/
def balance (t : AvlTree ρ) (p : Nat) : Int := (t.mpNodeList p).mBalance_S32

/-- `p->mpData`. -/
def data (t : AvlTree ρ) (p : Nat) : Option ρ := (t.mpNodeList p).mpData

/-- `*p = n`. -/
def setNode (t : AvlTree ρ) (p : Nat) (n : AvlNode ρ) : AvlTree ρ :=
  { t with mpNodeList := Function.update t.mpNodeList p n }

/-- `p->mpSubTree[d] = q`. -/
def setSubTree (t : AvlTree ρ) (p : Nat) (d : WhichAvlSubTree) (q : Option Nat) : AvlTree ρ :=
  t.setNode p { t.mpNodeList p with mpSubTree := Function.update (t.mpNodeList p).mpSubTree d q }

/-- `p->mBalance_S32 = b`. -/
def setBalance (t : AvlTree ρ) (p : Nat) (b : Int) : AvlTree ρ :=
  t.setNode p { t.mpNodeList p with mBalance_S32 := b }

/-- `p->mpData = x`. -/
def setData (t : AvlTree ρ) (p : Nat) (x : Option ρ) : AvlTree ρ :=
  t.setNode p { t.mpNodeList p with mpData := x }

/-- `p->mpSubTree[PARENTSUBTREE] = q`, if `p` is not null. -/
def setParent (t : AvlTree ρ) (p : Option Nat) (q : Option Nat) : AvlTree ρ :=
  match p with
  | some p => t.setSubTree p parentSubTree q
  | none => t

/-! ## The free nodes -/

/-- `GetNextFreeNode`. -/
def getNextFreeNode (t : AvlTree ρ) : AvlTree ρ × Option Nat :=
  match t.mpNextRamDbFreeNode with
  | some p => ({ t with mpNextRamDbFreeNode := t.subTree p parentSubTree }, some p)
  | none => (t, none)

/-- `SetNextFreeNode`. -/
def setNextFreeNode (t : AvlTree ρ) (p : Nat) : AvlTree ρ :=
  { t.setSubTree p parentSubTree t.mpNextRamDbFreeNode with mpNextRamDbFreeNode := some p }

/-! ## Rotations -/

/-- `RotateOnce`: the new root, and whether the height has changed. -/
def rotateOnce (t : AvlTree ρ) (pOldRoot : Nat) (d : WhichAvlSubTree) :
    Option (AvlTree ρ × Nat × Int) := do
  let other := d.opposite
  let root ← t.subTree pOldRoot other
  let heightChange := if t.balance root = 0 then 0 else 1
  let t := t.setSubTree root parentSubTree (t.subTree pOldRoot parentSubTree)
  let t := t.setSubTree pOldRoot parentSubTree (some root)
  let t := t.setParent (t.subTree root d) (some pOldRoot)
  let t := t.setSubTree pOldRoot other (t.subTree root d)
  let t := t.setSubTree root d (some pOldRoot)
  let b := if d = leftSubTree then t.balance root - 1 else t.balance root + 1
  let t := t.setBalance root b
  let t := t.setBalance pOldRoot (-b)
  return (t, root, heightChange)

/-- `RotateTwice`: the new root, and that the height has changed. -/
def rotateTwice (t : AvlTree ρ) (pOldRoot : Nat) (d : WhichAvlSubTree) :
    Option (AvlTree ρ × Nat × Int) := do
  let other := d.opposite
  let pOldOther ← t.subTree pOldRoot other
  let root ← t.subTree pOldOther d
  let t := t.setParent (t.subTree root rightSubTree)
    (some (if d = leftSubTree then pOldOther else pOldRoot))
  let t := t.setParent (t.subTree root leftSubTree)
    (some (if d = leftSubTree then pOldRoot else pOldOther))
  let t := t.setSubTree root parentSubTree (t.subTree pOldRoot parentSubTree)
  let t := t.setSubTree pOldOther parentSubTree (some root)
  let t := t.setSubTree pOldRoot parentSubTree (some root)
  let t := t.setSubTree pOldRoot other (t.subTree root d)
  let t := t.setSubTree root d (some pOldRoot)
  let t := t.setSubTree pOldOther d (t.subTree root other)
  let t := t.setSubTree root other (some pOldOther)
  let left ← t.subTree root leftSubTree
  let t := t.setBalance left (-max (t.balance root) 0)
  let right ← t.subTree root rightSubTree
  let t := t.setBalance right (-min (t.balance root) 0)
  let t := t.setBalance root 0
  return (t, root, 1)

/-- `ReBalance`. -/
def reBalance (t : AvlTree ρ) (root : Nat) : Option (AvlTree ρ × Nat × Int) :=
  if t.balance root < -1 then do
    let left ← t.subTree root leftSubTree
    if t.balance left = 1 then t.rotateTwice root rightSubTree else t.rotateOnce root rightSubTree
  else if t.balance root > 1 then do
    let right ← t.subTree root rightSubTree
    if t.balance right = -1 then t.rotateTwice root leftSubTree else t.rotateOnce root leftSubTree
  else return (t, root, 0)

/-! ## Searching -/

variable (compare : Nat → ρ → ρ → BofCmp)

/-- `Compare`: the key against the record of a node, or whether the node is the first or the last. -/
def compareNode (t : AvlTree ρ) (p : Nat) (key : ρ) : BofCmp → BofCmp
  | .less => if t.subTree p leftSubTree = none then .equal else .less
  | .greater => if t.subTree p rightSubTree = none then .equal else .greater
  | _ =>
    match t.data p with
    | some x => compare t.mIndex_U32 x key
    | none => .less

/-- The direction to go from a node. -/
def direction (c : BofCmp) : WhichAvlSubTree := if c = .less then leftSubTree else rightSubTree

/-- The descent of `Search`: the node where it ends, with the last node before it and the result of the
comparison there. -/
def searchDown : Nat → AvlTree ρ → ρ → BofCmp → Option Nat → Option Nat × BofCmp →
    Option (Option Nat × Option Nat × BofCmp)
  | 0, _, _, _, _, _ => none
  | _ + 1, _, _, _, none, prev => some (none, prev)
  | fuel + 1, t, key, cmp, some root, prev =>
    let c := t.compareNode compare root key cmp
    if c = cmp then some (some root, prev)
    else searchDown fuel t key cmp (t.subTree root (direction c)) (some root, c)

/-- The climb of `Search` from `prev`: the first node above it where the key compares as `wanted`. -/
def searchUp : Nat → AvlTree ρ → ρ → BofCmp → Nat → Option (Option Nat)
  | 0, _, _, _, _ => none
  | fuel + 1, t, key, wanted, prev =>
    match t.subTree prev parentSubTree with
    | none => some none
    | some root =>
      if t.compareNode compare root key .equal = wanted then some (some root)
      else searchUp fuel t key wanted root

/-- `BofAvlNode::Search`. -/
def searchNode (fuel : Nat) (t : AvlTree ρ) (key : ρ) (root : Option Nat) (cmp : BofCmp) :
    Option (Option Nat) :=
  if cmp = .lessOrEqual ∨ cmp = .greaterOrEqual then do
    let wanted : BofCmp := if cmp = .greaterOrEqual then .less else .greater
    let (found, prev, prevResult) ← searchDown compare fuel t key .equal root (none, .equal)
    match found, prev with
    | some p, _ => return some p
    | none, none => return none
    | none, some p => if prevResult = wanted then return some p else searchUp compare fuel t key wanted p
  else do
    let (found, _) ← searchDown compare fuel t key cmp root (none, .equal)
    return found

/-- No path through the tree is longer than the pool is large. -/
def fuel (t : AvlTree ρ) : Nat := t.mNbMaxElement_U32 + 1

def search (t : AvlTree ρ) (key : ρ) (cmp : BofCmp) : Option (Option Nat) :=
  searchNode compare t.fuel t key t.mpRoot cmp

/-! ## Walking -/

/-- Following `p->mpSubTree[d]` from `p` on to the last node. -/
def walkTo : Nat → AvlTree ρ → WhichAvlSubTree → Nat → Option Nat
  | 0, _, _, _ => none
  | fuel + 1, t, d, p =>
    match t.subTree p d with
    | some q => walkTo fuel t d q
    | none => some p

/-- `GetFirst` and `GetLast`: the last node from the root on. -/
def getOutermost (t : AvlTree ρ) (d : WhichAvlSubTree) : Option (Option Nat) :=
  match t.mpRoot with
  | some root => (walkTo t.fuel t d root).map some
  | none => some none

def getFirst (t : AvlTree ρ) : Option (Option Nat) := t.getOutermost leftSubTree

def getLast (t : AvlTree ρ) : Option (Option Nat) := t.getOutermost rightSubTree

/-- `q->Compare(mIndex_U32, p->GetData(), BOF_CMP_EQUAL)`; a null pointer is not followed when the record
of `q` is null as well. -/
def compareData (t : AvlTree ρ) (q p : Nat) : Option BofCmp :=
  match t.data p with
  | some x => some (t.compareNode compare q x .equal)
  | none => if (t.data q).isNone then some .less else none

/-- The loop of `GetNext` and `GetPrevious`: the first node above `p` that compares as `wanted` with the
node below it. -/
def climb : Nat → AvlTree ρ → BofCmp → Nat → Option (Option Nat)
  | 0, _, _, _ => none
  | fuel + 1, t, wanted, p =>
    match t.subTree p parentSubTree with
    | none => some none
    | some q => do
      let c ← t.compareData compare q p
      if c = wanted then return some q else climb fuel t wanted q

/-- `GetNext` and `GetPrevious`: `d` is the side where the node looked for is. -/
def getNeighbour (t : AvlTree ρ) (d : WhichAvlSubTree) (wanted : BofCmp) :
    Option Nat → Option (Option Nat)
  | none => some none
  | some p =>
    match t.subTree p d with
    | none => climb compare t.fuel t wanted p
    | some q => (walkTo t.fuel t d.opposite q).map some

def getNext (t : AvlTree ρ) (p : Option Nat) : Option (Option Nat) :=
  t.getNeighbour compare rightSubTree .less p

def getPrevious (t : AvlTree ρ) (p : Option Nat) : Option (Option Nat) :=
  t.getNeighbour compare leftSubTree .greater p

/-! ## Inserting -/

/-- The case of `Insert` where the tree is empty: a node is taken from the free ones. -/
def insertHere (t : AvlTree ρ) (key : ρ) (pParent : Option Nat) (change : Int) :
    AvlTree ρ × Option Nat × AvlInsertRts × Int :=
  match t.getNextFreeNode with
  | (t, some p) =>
    let t := t.setNode p {}
    let t := t.setData p (some key)
    (t.setSubTree p parentSubTree pParent, some p, .null, 1)
  | (t, none) => (t, none, .signalError, change)

/-- The end of `Insert` at a node one of whose subtrees has grown by `increase` (negative for the left
one). -/
def afterInsert (t : AvlTree ρ) (root : Nat) (increase : Int) : Option (AvlTree ρ × Nat × Int) := do
  let t := t.setBalance root (t.balance root + increase)
  if increase ≠ 0 ∧ t.balance root ≠ 0 then
    let (t, root, heightChange) ← t.reBalance root
    return (t, root, 1 - heightChange)
  else return (t, root, 0)

/-- The recursive `Insert`: the tree, `_pRoot`, what is returned and `Change_S32`. -/
def insertNode : Nat → AvlTree ρ → ρ → Option Nat → Option Nat → Int →
    Option (AvlTree ρ × Option Nat × AvlInsertRts × Int)
  | 0, _, _, _, _, _ => none
  | _ + 1, t, key, pParent, none, change => some (t.insertHere key pParent change)
  | fuel + 1, t, key, _, some root, change =>
    let c := t.compareNode compare root key .equal
    if c ≠ .equal then do
      let (t, sub, rts, change) ←
        insertNode fuel t key (some root) (t.subTree root (direction c)) change
      let t := t.setSubTree root (direction c) sub
      if rts = .null then
        let (t, root, change) ← t.afterInsert root (c.toInt * change)
        return (t, some root, rts, change)
      else return (t, some root, rts, change)
    else return (t, some root, .node root, change)

def insert (t : AvlTree ρ) (key : ρ) : Option (AvlTree ρ × AvlInsertRts) := do
  let (t, root, rts, _) ← insertNode compare t.fuel t key none t.mpRoot 0
  let t := { t with mpRoot := root }
  return (if rts = .null then { t with mNbNode_U32 := u32 (t.mNbNode_U32 + 1) } else t, rts)

/-! ## Deleting -/

/-- The end of `Delete` at a node one of whose subtrees has shrunk by `decrease` (negative for the left
one). -/
def afterDelete (t : AvlTree ρ) (root : Nat) (decrease : Int) : Option (AvlTree ρ × Nat × Int) := do
  let t := t.setBalance root (t.balance root - decrease)
  if decrease ≠ 0 then
    if t.balance root ≠ 0 then t.reBalance root else return (t, root, 1)
  else return (t, root, 0)

/-- The case of `Delete` where the node found has one child, which takes its place. -/
def replaceByChild (t : AvlTree ρ) (root child : Nat) : AvlTree ρ :=
  let pParent := t.subTree root parentSubTree
  let t := t.setNextFreeNode root
  let t := t.setSubTree child leftSubTree none
  let t := t.setSubTree child rightSubTree none
  t.setSubTree child parentSubTree pParent

/-- The recursive `Delete`: the tree, `_pRoot`, the record of the deleted node and `Change_S32`. -/
def deleteNode : Nat → AvlTree ρ → ρ → Option Nat → BofCmp →
    Option (AvlTree ρ × Option Nat × Option ρ × Int)
  | 0, _, _, _, _ => none
  | _ + 1, t, _, none, _ => some (t, none, none, 0)
  | fuel + 1, t, key, some root, cmp =>
    let c := t.compareNode compare root key cmp
    if c ≠ .equal then do
      let (t, sub, rts, change) ← deleteNode fuel t key (t.subTree root (direction c)) cmp
      let t := t.setSubTree root (direction c) sub
      if rts.isSome then
        let (t, root, change) ← t.afterDelete root (c.toInt * change)
        return (t, some root, rts, change)
      else return (t, some root, rts, change)
    else
      let rts := t.data root
      match t.subTree root leftSubTree, t.subTree root rightSubTree with
      | none, none => some (t.setNextFreeNode root, none, rts, 1)
      | some child, none => some (t.replaceByChild root child, some child, rts, 1)
      | none, some child => some (t.replaceByChild root child, some child, rts, 1)
      | some _, some right => do
        let pParent := t.subTree root parentSubTree
        let (t, sub, successor, decrease) ← deleteNode fuel t key (some right) .less
        let t := t.setSubTree root rightSubTree sub
        let t := t.setData root successor
        let t := t.setSubTree root parentSubTree pParent
        let (t, root, change) ← t.afterDelete root decrease
        return (t, some root, rts, change)

def delete (t : AvlTree ρ) (key : ρ) (cmp : BofCmp) : Option (AvlTree ρ × Option ρ) := do
  let (t, root, rts, _) ← deleteNode compare t.fuel t key t.mpRoot cmp
  let t := { t with mpRoot := root }
  return (if rts.isSome then { t with mNbNode_U32 := u32Sub t.mNbNode_U32 1 } else t, rts)

/-! ## Runs -/

/-- The calls of a run. -/
inductive Op (ρ : Type) where
  | insert (key : ρ)
  | delete (key : ρ)
  | clear

/-- What a call returns; `Insert` with the record of the node that it returns. -/
inductive Out (ρ : Type) where
  | inserted (rts : AvlInsertRts) (data : Option ρ)
  | deleted (rts : Option ρ)
  | cleared
  | stuck
  deriving DecidableEq

/-- The record of the node that `Insert` returns. -/
def rtsData (t : AvlTree ρ) : AvlInsertRts → Option ρ
  | .node p => t.data p
  | _ => none

/-- One call. -/
def step (t : AvlTree ρ) : Op ρ → AvlTree ρ × Out ρ
  | .insert key =>
    match t.insert compare key with
    | some (t, rts) => (t, .inserted rts (t.rtsData rts))
    | none => (t, .stuck)
  | .delete key =>
    match t.delete compare key .equal with
    | some (t, rts) => (t, .deleted rts)
    | none => (t, .stuck)
  | .clear => (t.clear, .cleared)

end AvlTree

end BofStd
