import BofStd.RamDb
import BofStd.AvlTreeSpec
import Mathlib.Data.Finset.Range
import Mathlib.Data.Finset.Card

/-!
# What `BofRamDb` keeps in agreement

The elements that the nodes of a tree point to are the records of that index (`slotSet`); the free
elements are chained through `mpRamDbFreeElementList_U32` (`freeSet`). `IndexesAgree` says that all the
indexes hold the same records, that these and the free elements are all the elements, and that the
records are counted.
-/

namespace BofStd.RamDb

open Machine

variable {R : Type}

/-- The elements that the tree of the index `i` points to. -/
def slotSet (s : RamDb R) (i : Nat) : Finset Nat :=
  ((AvlTree.walk (s.mppRamDbTree i).fuel (s.mppRamDbTree i) (s.mppRamDbTree i).mpRoot).filterMap
    fun n => position n.2).toFinset

/-- The elements that are reached from the element `i` in the list of free elements; at most `fuel`. -/
def freeSlots (s : RamDb R) : Nat → Nat → List Nat
  | 0, _ => []
  | fuel + 1, i =>
    if i = 0xFFFFFFFF then [] else i :: freeSlots s fuel (s.mpRamDbFreeElementList_U32 i)

/-- The free elements. -/
def freeSet (s : RamDb R) : Finset Nat :=
  (s.freeSlots (s.mNbMaxElement_U32 + 1) s.mNextRamDbFreeElement_U32).toFinset

/-- All the indexes hold the same records; the other elements are free. -/
structure IndexesAgree (s : RamDb R) : Prop where
  same : ∀ i < s.mNbIndex_U32, s.slotSet i = s.slotSet 0
  disjoint : Disjoint (s.slotSet 0) s.freeSet
  all : s.slotSet 0 ∪ s.freeSet = Finset.range s.mNbMaxElement_U32
  count : s.mNbRecord_U32 = (s.slotSet 0).card

/-- In the run `ops` of a new data base every call returns, and the indexes agree after it. -/
structure KeepsIndexes (kt : RamDbKeyType R) (nbMaxElement nbIndex : Nat) (pElement : Nat → R)
    (ops : List (Op R)) : Prop where
  agree : IndexesAgree (run (step kt) (create nbMaxElement nbIndex pElement) ops).1
  returns : ∀ out ∈ (run (step kt) (create nbMaxElement nbIndex pElement) ops).2, out ≠ none

/-- The element of the record that `Search` finds in the index `i`. -/
def foundSlot (kt : RamDbKeyType R) (s : RamDb R) (i : Nat) (x : R) : Option Nat :=
  ((s.mppRamDbTree i).search (s.comparePtr kt) (.argument x) .equal).bind fun p =>
    p.bind fun p => ((s.mppRamDbTree i).data p).bind position

/-- If every index finds a record for `x`, all find the same one. -/
def FindsOneRecord (kt : RamDbKeyType R) (s : RamDb R) (x : R) : Prop :=
  (∀ i < s.mNbIndex_U32, s.foundSlot kt i x ≠ none) →
    ∀ i < s.mNbIndex_U32, s.foundSlot kt i x = s.foundSlot kt 0 x

instance (kt : RamDbKeyType R) (s : RamDb R) (x : R) : Decidable (FindsOneRecord kt s x) :=
  inferInstanceAs (Decidable (_ → _))

/-- The record to delete or to update is the same one in all the indexes. -/
def HitsOneRecord (kt : RamDbKeyType R) (s : RamDb R) : Op R → Prop
  | .deleteElement (some x) => FindsOneRecord kt s x
  | .updateElement cursor (some x) (some y) =>
    s.isOpen cursor → kt.notEqual x y → FindsOneRecord kt s x
  | _ => True

instance (kt : RamDbKeyType R) (s : RamDb R) : (op : Op R) → Decidable (HitsOneRecord kt s op)
  | .deleteElement (some x) => inferInstanceAs (Decidable (FindsOneRecord kt s x))
  | .updateElement cursor (some x) (some y) =>
    inferInstanceAs (Decidable (s.isOpen cursor → kt.notEqual x y → FindsOneRecord kt s x))
  | .deleteElement none | .updateElement _ none _ | .updateElement _ (some _) none
  | .getCursor _ _ | .freeCursor _ | .insertElement _ _ | .clearDbAndReleaseCursor => isTrue trivial

end BofStd.RamDb

/-!
## What the cursors of `BofRamDb` are for

A cursor that has been placed on a record stays on it (`FollowsRecord`) as long as the record is in the
data base, whatever else is inserted, deleted or updated (`CursorFollows`). `Delete` at a node with two
children puts the record of the next node there and frees that node (`AvlTree.moves`), and an update of
the data of a record places the cursor of the call; `disturbs` says where this hits a cursor.
-/

namespace BofStd

open Machine

namespace RamDb

variable {R : Type} (kt : RamDbKeyType R)

/-! ## The records -/

/-- `x` is a record of the data base. -/
def Stores (s : RamDb R) (x : R) : Prop := ∃ e ∈ s.slotSet 0, s.mpElementList e = x

instance [DecidableEq R] (s : RamDb R) (x : R) : Decidable (s.Stores x) :=
  inferInstanceAs (Decidable (∃ e ∈ s.slotSet 0, s.mpElementList e = x))

/-- `x` comes before `y` in the index `i`. -/
def Precedes (i : Nat) (x y : R) : Prop := kt.compare i y x = .less

/-- `x` comes after `y` in the index `i`. -/
def Follows (i : Nat) (x y : R) : Prop := kt.compare i y x = .greater

/-- `y` is the first record on the side of `r` that `beyond` says. -/
structure IsNeighbour (beyond : R → R → Prop) (s : RamDb R) (r y : R) : Prop where
  stored : s.Stores y
  side : beyond r y
  first : ∀ z, s.Stores z → beyond r z → z = y ∨ beyond y z

/-- The call has returned the first record on the side of `r` that `beyond` says, or there is none. -/
def ReturnsNeighbour (beyond : R → R → Prop) (s : RamDb R) (r : R) (res : Option (Found R)) : Prop :=
  (∃ s' y, res = some (s', .noError, some y) ∧ IsNeighbour beyond s r y) ∨
    (res = some (s, .eof, none) ∧ ∀ z, s.Stores z → ¬ beyond r z)

/-- The cursor `c` stands on the record `r`. -/
structure FollowsRecord (s : RamDb R) (c : Nat) (r : R) : Prop where
  current : s.getCurrentElement (some c) true = some (s, .noError, some r)
  next : ReturnsNeighbour (Precedes kt (s.mpCursorState_X c).Index_U32) s r
    (s.getNextElement kt (some c) true)
  previous : ReturnsNeighbour (Follows kt (s.mpCursorState_X c).Index_U32) s r
    (s.getPreviousElement kt (some c) true)

/-! ## The runs -/

/-- The cursor that a call places. -/
def CursorOp.placed : CursorOp R → Option Nat
  | .getFirstElement cursor _ | .getLastElement cursor _ | .getNextElement cursor _
  | .getPreviousElement cursor _ | .searchElement cursor _ _ _ => cursor
  | .getCurrentElement _ _ => none

/-- The calls that insert, delete or update. -/
def Op.IsChange : Op R → Prop
  | .insertElement _ _ | .deleteElement _ | .updateElement _ _ _ => True
  | _ => False

/-- The calls of `ops₁` on a new data base, then one that places a cursor on a record, then those of
`ops₂`, which insert, delete and update other records: then the cursor stands on the record. -/
def CursorFollows (nbMaxElement nbIndex : Nat) (pElement : Nat → R) (ops₁ : List (Call R))
    (place : CursorOp R) (ops₂ : List (Op R)) : Prop :=
  let s₁ := (run (call kt) (create nbMaxElement nbIndex pElement) ops₁).1
  let s₂ := (call kt s₁ (.read place)).1
  ∀ c r, place.placed = some c → (call kt s₁ (.read place)).2 = some (.noError, none, some r) →
    (∀ op ∈ ops₂, op.IsChange) → Meets (step kt) (fun s op => (step kt s op).1.Stores r) s₂ ops₂ →
    FollowsRecord kt (run (step kt) s₂ ops₂).1 c r

/-! ## The calls that disturb a cursor -/

/-- The node of the last tree with the record for `x`, if all the indexes find one. -/
def foundNode (s : RamDb R) (x : R) : Option (Nat × Nat) :=
  match s.searchTrees kt Option.isSome (.argument x) s.mNbIndex_U32 0 none with
  | some (i, some p) => if i = s.mNbIndex_U32 then some (s.mNbIndex_U32 - 1, p) else none
  | _ => none

/-- `InsertElement` of `x` is refused by a later index, and the deletion that undoes it in the index `n.1`
moves a record to or from the node `n.2`. -/
def insertMoves (s : RamDb R) (x : R) (n : Nat × Nat) : Bool :=
  let f := s.mNextRamDbFreeElement_U32
  f ≠ 0xFFFFFFFF &&
    match (s.setElement f x).insertInTrees kt (.element f) s.mNbIndex_U32 0 with
    | some (s, tree, true) =>
      n.1 < tree && (s.mppRamDbTree n.1).moves (s.comparePtr kt) (.element f) n.2
    | _ => false

/-- The record for `x` is deleted, and in the index `n.1` this moves a record to or from the node `n.2`. -/
def deleteMoves (s : RamDb R) (x : R) (n : Nat × Nat) : Bool :=
  (s.foundNode kt x).isSome && (s.mppRamDbTree n.1).moves (s.comparePtr kt) (.argument x) n.2

/-- The call moves a record to or from the node `n`, or moves the cursor `c` from there. -/
def disturbsNode (s : RamDb R) (c : Nat) (n : Nat × Nat) : Op R → Bool
  | .insertElement cursor (some x) => s.isOpen cursor && s.insertMoves kt x n
  | .deleteElement (some x) => s.deleteMoves kt x n
  | .updateElement cursor (some search) (some new) =>
    s.isOpen cursor && kt.notEqual search new &&
      if sameKeys kt new search s.mNbIndex_U32 0 then
        cursor = some c && (s.foundNode kt search).isSome && s.foundNode kt search ≠ some n
      else s.deleteMoves kt search n
  | _ => false

/-- The call disturbs the cursor `c`. -/
def disturbs (s : RamDb R) (c : Nat) (op : Op R) : Bool :=
  (s.mpCursorState_X c).pElement.any fun n => s.disturbsNode kt c n op

/-- `GetNextElement` and `GetPreviousElement` start from a node of the tree of the cursor. -/
def StartsInTree (s : RamDb R) : CursorOp R → Prop
  | .getNextElement (some c) _ | .getPreviousElement (some c) _ =>
    ∀ n, (s.mpCursorState_X c).pElement = some n → n.1 = (s.mpCursorState_X c).Index_U32 ∧
      n.2 ∈ (s.mppRamDbTree n.1).nodes.map Prod.fst
  | _ => True

/-- The record to delete or to update is the same one in all the indexes. -/
def CallHitsOneRecord (s : RamDb R) : Call R → Prop
  | .change op => HitsOneRecord kt s op
  | .read _ => True

instance (s : RamDb R) : (op : Call R) → Decidable (CallHitsOneRecord kt s op)
  | .change op => inferInstanceAs (Decidable (HitsOneRecord kt s op))
  | .read _ => isTrue trivial

/-- No call of the run hits different records, the cursor is placed from a record of the data base, and no
call of `ops₂` disturbs it. -/
structure Undisturbed (nbMaxElement nbIndex : Nat) (pElement : Nat → R) (ops₁ : List (Call R))
    (place : CursorOp R) (ops₂ : List (Op R)) : Prop where
  before : Meets (call kt) (CallHitsOneRecord kt) (create nbMaxElement nbIndex pElement) ops₁
  starts : (run (call kt) (create nbMaxElement nbIndex pElement) ops₁).1.StartsInTree place
  after : ∀ c, place.placed = some c →
    Meets (step kt) (fun s op => HitsOneRecord kt s op ∧ s.disturbs kt c op = false)
      (call kt (run (call kt) (create nbMaxElement nbIndex pElement) ops₁).1 (.read place)).1 ops₂

end RamDb

end BofStd

/-!
## What the writes of `BofRamDb` leave behind

A write takes effect in all the indexes or in none. `recordsOf` is what one reads through an index, in its
order; `Replaces` says that one record has given way to another one there.
-/

namespace BofStd.RamDb

open Machine

variable {R : Type} (kt : RamDbKeyType R)

/-- The records of the index `i`, in its order. -/
def recordsOf (s : RamDb R) (i : Nat) : List R := (s.mppRamDbTree i).nodes.map fun n => s.deref n.2

/-- The list of the free elements. -/
def freeList (s : RamDb R) : List Nat := s.freeSlots (s.mNbMaxElement_U32 + 1) s.mNextRamDbFreeElement_U32

/-- The records are read as before, and the same elements are free. -/
structure Unchanged (s s' : RamDb R) : Prop where
  records : ∀ i < s.mNbIndex_U32, s'.recordsOf i = s.recordsOf i
  count : s'.mNbRecord_U32 = s.mNbRecord_U32
  free : s'.freeList = s.freeList

/-- Some index holds a record with the key of `x`. -/
def HoldsKey (s : RamDb R) (x : R) : Prop :=
  ∃ i < s.mNbIndex_U32, ∃ y ∈ s.recordsOf i, kt.compare i x y = .equal

/-- `InsertElement` that is refused changes nothing. Through an open cursor, a record is refused as a duplicate
exactly if an element is free and an index holds its key. -/
def InsertIsAtomic (s : RamDb R) (cursor : Option Nat) (pElement : Option R) : Prop :=
  ∃ s' err, s.insertElement kt cursor pElement = some (s', err) ∧
    (err = .duplicate ∨ err = .full → Unchanged s s') ∧
    (err = .duplicate ↔ s.isOpen cursor = true ∧ s.freeList ≠ [] ∧ ∃ x ∈ pElement, s.HoldsKey kt x)

/-- All the indexes find the record of the element `p` for `x`. -/
def Designates (s : RamDb R) (x : R) (p : Nat) : Prop := ∀ i < s.mNbIndex_U32, s.foundSlot kt i x = some p

/-- In the index `i` the record `old` has given way to `new`, which is in its place in the order. -/
def Replaces (i : Nat) (l l' : List R) (old new : R) : Prop :=
  l'.Pairwise (Precedes kt i) ∧
    ∃ l₁ l₂ l₁' l₂', l = l₁ ++ old :: l₂ ∧ l' = l₁' ++ new :: l₂' ∧ l₁ ++ l₂ = l₁' ++ l₂'

/-- `UpdateElement` of the record of the element `p` replaces it in all the indexes, or fails and changes
none. -/
def UpdateIsAtomic (s : RamDb R) (cursor : Option Nat) (search new : R) (p : Nat) : Prop :=
  ∃ s' err, s.updateElement kt cursor (some search) (some new) = some (s', err) ∧
    (err = .noError → ∀ i < s.mNbIndex_U32,
      Replaces kt i (s.recordsOf i) (s'.recordsOf i) (s.mpElementList p) new) ∧
    (err ≠ .noError → ∀ i < s.mNbIndex_U32, s'.recordsOf i = s.recordsOf i)

/-- The two records of the caller differ, or the new one is stored already: if they are equal, `UpdateElement`
returns without looking at the one stored. -/
def ComparesStored (s : RamDb R) (cursor : Option Nat) (search new : R) (p : Nat) : Prop :=
  s.isOpen cursor = true → kt.notEqual search new = true ∨ s.mpElementList p = new

end BofStd.RamDb
