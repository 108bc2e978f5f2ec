import BofStd.AvlTree

/-!
# `BofRamDb` (`boframdb.h`)

The records are stored in the array `mpElementList`, and each index is a `BofAvlTree` of pointers to its
elements. A handle of a cursor is null or a pointer to one of the cursors, given by its index in
`mpCursorState_X`. A call has the result `none` where a call on one of the trees has. The statistics and
the mutex are left out.
-/

namespace BofStd

open WhichAvlSubTree

/-- What `BofRamDb` uses of its parameter `KeyType`: `x->Compare(index, y)` and `x != y`. -/
structure RamDbKeyType (R : Type) where
  compare : Nat → R → R → BofCmp
  notEqual : R → R → Bool

/-- A pointer to a record: an element of `mpElementList`, or a record of the caller. -/
inductive RamDbPtr (R : Type) where
  | element (position : Nat)
  | argument (x : R)
  deriving DecidableEq

/-- `BOF_RAM_DB_CURSOR`; `pElement` is a node, given by the index of its tree and its place in the pool. -/
structure RamDbCursor where
  pElement : Option (Nat × Nat) := none
  Index_U32 : Nat := 0
  MagicNumber_U32 : Nat := 0

/-- The members of `BofRamDb`. -/
structure RamDb (R : Type) where
  mNbMaxElement_U32 : Nat
  mNbIndex_U32 : Nat
  mNbRecord_U32 : Nat
  mNbFreeCursor_U32 : Nat
  mNextRamDbFreeElement_U32 : Nat
  mpRamDbFreeElementList_U32 : Nat → Nat
  mpCursorState_X : Nat → RamDbCursor
  mppRamDbTree : Nat → AvlTree (RamDbPtr R)
  mpElementList : Nat → R

namespace RamDb

variable {R : Type}

/-- `BOFRAMDB_CURSOR_MAX`. -/
def cursorMax : Nat := 512

/-- `BOFRAMDB_CURSOR_MAGICNUMBER`. -/
def cursorMagicNumber : Nat := 0x54567453

/-- The list of free elements as the constructor links it. -/
def freeElementList (nbMaxElement i : Nat) : Nat := if i = nbMaxElement - 1 then 0xFFFFFFFF else i + 1

/-- The constructor, for `_NbMaxElement_U32` and `_NbIndex_U32` other than 0; `pElement` are the records
as they are constructed. -/
def create (nbMaxElement nbIndex : Nat) (pElement : Nat → R) : RamDb R where
  mNbMaxElement_U32 := nbMaxElement
  mNbIndex_U32 := nbIndex
  mNbRecord_U32 := 0
  mNbFreeCursor_U32 := cursorMax
  mNextRamDbFreeElement_U32 := 0
  mpRamDbFreeElementList_U32 := freeElementList nbMaxElement
  mpCursorState_X := fun _ => {}
  mppRamDbTree := fun i => AvlTree.create nbMaxElement i
  mpElementList := pElement

def clearDbAndReleaseCursor (s : RamDb R) : RamDb R :=
  { s with
    mNbRecord_U32 := 0
    mNbFreeCursor_U32 := cursorMax
    mpCursorState_X := fun _ => {}
    mppRamDbTree := fun i => (s.mppRamDbTree i).clear
    mNextRamDbFreeElement_U32 := 0
    mpRamDbFreeElementList_U32 := freeElementList s.mNbMaxElement_U32 }

/-! ## Cursors -/

/-- `pCursor_X` is not null and its magic number is right. -/
def isOpen (s : RamDb R) (cursor : Option Nat) : Bool :=
  match cursor with
  | some i => i < cursorMax ∧ (s.mpCursorState_X i).MagicNumber_U32 = cursorMagicNumber
  | none => false

/-- The loop of `GetCursor`: the first cursor from `i` on that is not in use. -/
def firstFreeCursor (s : RamDb R) : Nat → Nat → Option Nat
  | 0, _ => none
  | n + 1, i =>
    if (s.mpCursorState_X i).MagicNumber_U32 ≠ cursorMagicNumber then some i
    else firstFreeCursor s n (i + 1)

/-- `GetCursor`; the pointer to the handle may be null. -/
def getCursor (s : RamDb R) (index : Nat) (pCursor : Bool) : RamDb R × BofErr × Option Nat :=
  if index < s.mNbIndex_U32 then
    if pCursor then
      if s.mNbFreeCursor_U32 ≠ 0 then
        match s.firstFreeCursor cursorMax 0 with
        | some i =>
          ({ s with
              mpCursorState_X := Function.update s.mpCursorState_X i
                { Index_U32 := index, MagicNumber_U32 := cursorMagicNumber }
              mNbFreeCursor_U32 := u32Sub s.mNbFreeCursor_U32 1 }, .noError, some i)
        | none => (s, .noMore, none)
      else (s, .noMore, none)
    else (s, .einval, none)
  else (s, .index, none)

/-- `FreeCursor`; the pointer to the handle may be null. -/
def freeCursor (s : RamDb R) (pCursor : Option (Option Nat)) : RamDb R × BofErr :=
  match pCursor with
  | some (some i) =>
    if s.isOpen (some i) then
      ({ s with
          mpCursorState_X := Function.update s.mpCursorState_X i {}
          mNbFreeCursor_U32 := u32 (s.mNbFreeCursor_U32 + 1) }, .noError)
    else (s, .cursor)
  | _ => (s, .cursor)

/-- `pCursor_X->pElement = pElement`. -/
def setCursorElement (s : RamDb R) (cursor : Option Nat) (pElement : Option (Nat × Nat)) : RamDb R :=
  match cursor with
  | some i =>
    { s with
      mpCursorState_X := Function.update s.mpCursorState_X i
        { s.mpCursorState_X i with pElement := pElement } }
  | none => s

/-! ## The trees -/

/-- The record that a pointer points to. -/
def deref (s : RamDb R) : RamDbPtr R → R
  | .element i => s.mpElementList i
  | .argument x => x

/-- `Compare` on pointers. -/
def comparePtr (kt : RamDbKeyType R) (s : RamDb R) (index : Nat) (x y : RamDbPtr R) : BofCmp :=
  kt.compare index (s.deref x) (s.deref y)

/-- `*mppRamDbTree[i] = t`. -/
def setTree (s : RamDb R) (i : Nat) (t : AvlTree (RamDbPtr R)) : RamDb R :=
  { s with mppRamDbTree := Function.update s.mppRamDbTree i t }

variable (kt : RamDbKeyType R)

/-- The loop of `InsertElement` over `n` trees from the tree `i` on: the tree where it has stopped, and
whether because of a duplicate. -/
def insertInTrees (key : RamDbPtr R) : Nat → Nat → RamDb R → Option (RamDb R × Nat × Bool)
  | 0, i, s => some (s, i, false)
  | n + 1, i, s => do
    let (t, rts) ← (s.mppRamDbTree i).insert (s.comparePtr kt) key
    let s := s.setTree i t
    if rts ≠ .null then return (s, i, true) else insertInTrees key n (i + 1) s

/-- The loops that delete a key from `n` trees from the tree `i` on: the last record deleted. -/
def deleteFromTrees (key : RamDbPtr R) :
    Nat → Nat → RamDb R → Option (RamDbPtr R) → Option (RamDb R × Option (RamDbPtr R))
  | 0, _, s, pData => some (s, pData)
  | n + 1, i, s, _ => do
    let (t, rts) ← (s.mppRamDbTree i).delete (s.comparePtr kt) key .equal
    deleteFromTrees key n (i + 1) (s.setTree i t) rts

/-- The loops that look for a key in `n` trees from the tree `i` on, as long as `go` says of the node:
the tree where it has stopped, and the last node. -/
def searchTrees (go : Option Nat → Bool) (key : RamDbPtr R) :
    Nat → Nat → RamDb R → Option Nat → Option (Nat × Option Nat)
  | 0, i, _, pElement => some (i, pElement)
  | n + 1, i, s, _ => do
    let pElement ← (s.mppRamDbTree i).search (s.comparePtr kt) key .equal
    if go pElement then searchTrees go key n (i + 1) s pElement else return (i, pElement)

/-! ## The calls -/

/-- `mpElementList[i] = x`. -/
def setElement (s : RamDb R) (i : Nat) (x : R) : RamDb R :=
  { s with mpElementList := Function.update s.mpElementList i x }

/-- The record in the element `f` is counted, and `f` is taken from the free elements. -/
def takeElement (s : RamDb R) (f : Nat) : RamDb R :=
  { s with
    mNbRecord_U32 := u32 (s.mNbRecord_U32 + 1)
    mNextRamDbFreeElement_U32 := s.mpRamDbFreeElementList_U32 f }

/-- The part of `InsertElement` where the element `f` is free: it gets the record and is inserted in all
the trees. If one of them has the key already, it is deleted from those before. -/
def insertFree (s : RamDb R) (f : Nat) (x : R) : Option (RamDb R × BofErr) := do
  let s := s.setElement f x
  let (s, tree, duplicate) ← s.insertInTrees kt (.element f) s.mNbIndex_U32 0
  if duplicate then
    let (s, _) ← s.deleteFromTrees kt (.element f) tree 0 none
    return (s, .duplicate)
  else return (s.takeElement f, .noError)

/-- `InsertElement`; the pointer to the record may be null. -/
def insertElement (s : RamDb R) (cursor : Option Nat) (pElement : Option R) :
    Option (RamDb R × BofErr) :=
  if s.isOpen cursor then
    match pElement with
    | none => some (s, .einval)
    | some x =>
      if s.mNextRamDbFreeElement_U32 ≠ 0xFFFFFFFF then
        s.insertFree kt s.mNextRamDbFreeElement_U32 x
      else some (s, .full)
  else some (s, .cursor)

/-- `pData - mpElementList`; a pointer that does not point into the array has no position. -/
def position : RamDbPtr R → Option Nat
  | .element i => some i
  | .argument _ => none

/-- The record in the element `i` is not counted any more, and `i` is the first of the free elements. -/
def giveElement (s : RamDb R) (i : Nat) : RamDb R :=
  { s with
    mNbRecord_U32 := u32Sub s.mNbRecord_U32 1
    mpRamDbFreeElementList_U32 :=
      Function.update s.mpRamDbFreeElementList_U32 i s.mNextRamDbFreeElement_U32
    mNextRamDbFreeElement_U32 := i }

/-- The end of `DeleteElement`: the element of the last record deleted is free. -/
def freeElement (s : RamDb R) (pData : Option (RamDbPtr R)) : RamDb R × BofErr :=
  match pData.bind position with
  | some i => if i < s.mNbMaxElement_U32 then (s.giveElement i, .noError) else (s, .internal)
  | none => (s, .internal)

/-- `DeleteElement`; the pointer to the record may be null. -/
def deleteElement (s : RamDb R) (pElement : Option R) : Option (RamDb R × BofErr) :=
  match pElement with
  | none => some (s, .einval)
  | some x => do
    let (i, _) ← s.searchTrees kt Option.isSome (.argument x) s.mNbIndex_U32 0 none
    if i = s.mNbIndex_U32 then
      let (s, pData) ← s.deleteFromTrees kt (.argument x) s.mNbIndex_U32 0 none
      return s.freeElement pData
    else return (s, .notFound)

/-- The part of `UpdateElement` where some key differs: the record found is deleted, and the new one is
inserted unless one of its keys is in use; then the old one is inserted again. -/
def replaceElement (s : RamDb R) (cursor : Option Nat) (search new previous : R) :
    Option (RamDb R × BofErr) := do
  let (s, err) ← s.deleteElement kt (some search)
  if err = .noError then
    let (i, _) ← s.searchTrees kt Option.isNone (.argument new) s.mNbIndex_U32 0 none
    if i = s.mNbIndex_U32 then
      let (s, err) ← s.insertElement kt cursor (some new)
      if err ≠ .noError then
        let (s, _) ← s.insertElement kt cursor (some previous)
        return (s, err)
      else return (s, err)
    else
      let (s, _) ← s.insertElement kt cursor (some previous)
      return (s, .duplicate)
  else return (s, err)

/-- The keys of two records are equal in `n` trees from the tree `i` on. -/
def sameKeys (new search : R) : Nat → Nat → Bool
  | 0, _ => true
  | n + 1, i => kt.compare i new search = .equal && sameKeys new search n (i + 1)

/-- The part of `UpdateElement` where only the data differ: the element that the node `pElement` of the
last tree points to is overwritten. -/
def overwriteElement (s : RamDb R) (cursor : Option Nat) (p : Nat) (pData : RamDbPtr R) (new : R) :
    RamDb R × BofErr :=
  match position pData with
  | some i =>
    if i < s.mNbMaxElement_U32 then
      ((s.setElement i new).setCursorElement cursor (some (s.mNbIndex_U32 - 1, p)), .noError)
    else (s, .internal)
  | none => (s, .internal)

/-- `UpdateElement`; the pointers to the records may be null. -/
def updateElement (s : RamDb R) (cursor : Option Nat) (pSearch pNew : Option R) :
    Option (RamDb R × BofErr) :=
  if s.isOpen cursor then
    match pSearch, pNew with
    | some search, some new =>
      if kt.notEqual search new then do
        let (i, pElement) ← s.searchTrees kt Option.isSome (.argument search) s.mNbIndex_U32 0 none
        if i = s.mNbIndex_U32 then
          let p ← pElement
          let pData ← (s.mppRamDbTree (s.mNbIndex_U32 - 1)).data p
          if sameKeys kt new search s.mNbIndex_U32 0 then
            return s.overwriteElement cursor p pData new
          else s.replaceElement kt cursor search new (s.deref pData)
        else return (s, .einval)
      else some (s, .noError)
    | _, _ => some (s, .einval)
  else some (s, .cursor)

/-! ## Runs -/

/-- The calls of a run. -/
inductive Op (R : Type) where
  | getCursor (index : Nat) (pCursor : Bool)
  | freeCursor (pCursor : Option (Option Nat))
  | insertElement (cursor : Option Nat) (pElement : Option R)
  | deleteElement (pElement : Option R)
  | updateElement (cursor : Option Nat) (pSearch pNew : Option R)
  | clearDbAndReleaseCursor

/-- The result of a call, if it returns: the error code and the handle. -/
abbrev Out := Option (BofErr × Option Nat)

/-- A call that returns an error code. -/
def returning (s : RamDb R) (res : Option (RamDb R × BofErr)) : RamDb R × Out :=
  match res with
  | some (s, err) => (s, some (err, none))
  | none => (s, none)

/-- One call. -/
def step (s : RamDb R) : Op R → RamDb R × Out
  | .getCursor index pCursor => ((s.getCursor index pCursor).1, some (s.getCursor index pCursor).2)
  | .freeCursor pCursor => s.returning (s.freeCursor pCursor)
  | .insertElement cursor pElement => s.returning (s.insertElement kt cursor pElement)
  | .deleteElement pElement => s.returning (s.deleteElement kt pElement)
  | .updateElement cursor pSearch pNew => s.returning (s.updateElement kt cursor pSearch pNew)
  | .clearDbAndReleaseCursor => (s.clearDbAndReleaseCursor, some (.noError, none))

end RamDb

end BofStd

/-!
# The cursors of `BofRamDb` (`boframdb.h`)

A member function of a tree only follows the pointers of the node that it is given, so this node may
belong to another tree (`treeAt`). The pointer to the record that a call fills in may be null; a call
returns the error code and the record, and has the result `none` where it would follow a null pointer.
The mutex and the statistics are left out.
-/

namespace BofStd.RamDb

variable {R : Type}

/-- The tree of the index `i` as its member functions see it at a node of the tree of the index `k`. -/
def treeAt (s : RamDb R) (i k : Nat) : AvlTree (RamDbPtr R) :=
  { s.mppRamDbTree k with mIndex_U32 := (s.mppRamDbTree i).mIndex_U32 }

/-- `*(pElement->GetData())`. -/
def recordAt (s : RamDb R) (pElement : Nat × Nat) : Option R :=
  ((s.mppRamDbTree pElement.1).data pElement.2).map s.deref

/-- The data base after a call, the error code, and the record if the call has found one. -/
abbrev Found (R : Type) := RamDb R × BofErr × Option R

/-- The checks of the handle and of the pointer to the record. -/
def withCursor (s : RamDb R) (cursor : Option Nat) (pElement : Bool)
    (body : Nat → RamDbCursor → Option (Found R)) : Option (Found R) :=
  match cursor with
  | some c =>
    if s.isOpen (some c) then
      if pElement then body c (s.mpCursorState_X c) else some (s, .einval, none)
    else some (s, .cursor, none)
  | none => some (s, .cursor, none)

/-- The end of a call: the cursor is placed on the node found, if there is one. -/
def placeCursor (s : RamDb R) (c : Nat) (err : BofErr) : Option (Nat × Nat) → Option (Found R)
  | some n => do
    let x ← s.recordAt n
    return (s.setCursorElement (some c) (some n), .noError, some x)
  | none => some (s, err, none)

/-- `GetFirstElement` and `GetLastElement`. -/
def getOutermostElement (s : RamDb R) (cursor : Option Nat) (pElement : Bool)
    (get : AvlTree (RamDbPtr R) → Option (Option Nat)) : Option (Found R) :=
  s.withCursor cursor pElement fun c cur => do
    let p ← get (s.mppRamDbTree cur.Index_U32)
    s.placeCursor c .empty (p.map fun p => (cur.Index_U32, p))

def getFirstElement (s : RamDb R) (cursor : Option Nat) (pElement : Bool) : Option (Found R) :=
  s.getOutermostElement cursor pElement AvlTree.getFirst

def getLastElement (s : RamDb R) (cursor : Option Nat) (pElement : Bool) : Option (Found R) :=
  s.getOutermostElement cursor pElement AvlTree.getLast

def getCurrentElement (s : RamDb R) (cursor : Option Nat) (pElement : Bool) : Option (Found R) :=
  s.withCursor cursor pElement fun _ cur =>
    match cur.pElement with
    | some n => (s.recordAt n).map fun x => (s, .noError, some x)
    | none => some (s, .empty, none)

/-- `GetNextElement` and `GetPreviousElement`. -/
def getNeighbourElement (s : RamDb R) (cursor : Option Nat) (pElement : Bool)
    (get : AvlTree (RamDbPtr R) → Option Nat → Option (Option Nat)) : Option (Found R) :=
  s.withCursor cursor pElement fun c cur =>
    match cur.pElement with
    | some (k, p) => do
      let q ← get (s.treeAt cur.Index_U32 k) (some p)
      s.placeCursor c .eof (q.map fun q => (k, q))
    | none => s.placeCursor c .eof none

variable (kt : RamDbKeyType R)

def getNextElement (s : RamDb R) (cursor : Option Nat) (pElement : Bool) : Option (Found R) :=
  s.getNeighbourElement cursor pElement (AvlTree.getNext (s.comparePtr kt))

def getPreviousElement (s : RamDb R) (cursor : Option Nat) (pElement : Bool) : Option (Found R) :=
  s.getNeighbourElement cursor pElement (AvlTree.getPrevious (s.comparePtr kt))

/-- `SearchElement`; the pointer to the record to look for may be null as well. -/
def searchElement (s : RamDb R) (cursor : Option Nat) (pSearchElement : Option R)
    (pFoundElement : Bool) (cmp : BofCmp) : Option (Found R) :=
  s.withCursor cursor (pSearchElement.isSome && pFoundElement) fun c cur => do
    let x ← pSearchElement
    let p ← (s.mppRamDbTree cur.Index_U32).search (s.comparePtr kt) (.argument x) cmp
    s.placeCursor c .eof (p.map fun p => (cur.Index_U32, p))

/-! ## Runs -/

/-- The calls that read through a cursor. -/
inductive CursorOp (R : Type) where
  | getFirstElement (cursor : Option Nat) (pElement : Bool)
  | getLastElement (cursor : Option Nat) (pElement : Bool)
  | getCurrentElement (cursor : Option Nat) (pElement : Bool)
  | getNextElement (cursor : Option Nat) (pElement : Bool)
  | getPreviousElement (cursor : Option Nat) (pElement : Bool)
  | searchElement (cursor : Option Nat) (pSearchElement : Option R) (pFoundElement : Bool)
      (cmp : BofCmp)

/-- One call through a cursor. -/
def read (s : RamDb R) : CursorOp R → Option (Found R)
  | .getFirstElement cursor pElement => s.getFirstElement cursor pElement
  | .getLastElement cursor pElement => s.getLastElement cursor pElement
  | .getCurrentElement cursor pElement => s.getCurrentElement cursor pElement
  | .getNextElement cursor pElement => s.getNextElement kt cursor pElement
  | .getPreviousElement cursor pElement => s.getPreviousElement kt cursor pElement
  | .searchElement cursor pSearchElement pFoundElement cmp =>
    s.searchElement kt cursor pSearchElement pFoundElement cmp

/-- The calls of a run. -/
inductive Call (R : Type) where
  | change (op : Op R)
  | read (op : CursorOp R)

/-- What a call returns, if it does: the error code, the handle and the record. -/
abbrev CallOut (R : Type) := Option (BofErr × Option Nat × Option R)

/-- One call. -/
def call (s : RamDb R) : Call R → RamDb R × CallOut R
  | .change op => ((step kt s op).1, (step kt s op).2.map fun (err, handle) => (err, handle, none))
  | .read op =>
    match s.read kt op with
    | some (s, err, x) => (s, some (err, none, x))
    | none => (s, none)

end BofStd.RamDb
