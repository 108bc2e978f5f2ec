import BofStd.AvlTree
import BofStd.Lib.Chain
import BofStd.Lib.Run
import BofStd.Lib.Tree
import Mathlib.Data.List.Sort
import Mathlib.Order.Bounds.Defs
import Mathlib.Order.Interval.Set.Defs

/-!
# What `BofAvlTree` is for: a map over a pool of nodes

`Represents` reads the tree below a pointer off the pool: a binary tree whose elements are nodes with
their records, where every parent link and every balance is right. `WellFormed` is the invariant of the
whole object, and `SortedMap` says what the calls do to the ascending list of the stored records.
-/

namespace BofStd

open Linked Machine

/-- `compare x y` (for `x->Compare(y)`) compares by the values of `key`: it is less when the key of the
argument `y` is the smaller one. -/
def ComparesBy {ρ K : Type} [LinearOrder K] (compare : ρ → ρ → BofCmp) (key : ρ → K) : Prop :=
  ∀ x y, compare x y = if key y < key x then .less else if key y = key x then .equal else .greater

namespace AvlTree

open WhichAvlSubTree

variable {ρ K : Type} [LinearOrder K]

/-- The tree below the pointer `q`, whose parent link is `par`. -/
def Represents (t : AvlTree ρ) : Option Nat → Option Nat → BinaryTree (Nat × ρ) → Prop
  | _, q, .nil => q = none
  | par, q, .node (p, x) l r =>
    q = some p ∧ t.data p = some x ∧ t.subTree p parentSubTree = par ∧
    t.balance p = (r.height : Int) - l.height ∧
    Represents t (some p) (t.subTree p leftSubTree) l ∧
    Represents t (some p) (t.subTree p rightSubTree) r

/-- The nodes of a tree, in order. -/
def ids (T : BinaryTree (Nat × ρ)) : List Nat := T.inorder.map Prod.fst

/-- The records of a tree, in order. -/
def records (T : BinaryTree (Nat × ρ)) : List ρ := T.inorder.map Prod.snd

/-- The keys ascend. -/
def Ascending (key : ρ → K) (T : BinaryTree (Nat × ρ)) : Prop :=
  (records T).Pairwise fun x y => key x < key y

/-- The object holds the tree `T` and the free nodes `free`. -/
structure WellFormed (key : ρ → K) (t : AvlTree ρ) (T : BinaryTree (Nat × ρ)) (free : List Nat) :
    Prop where
  tree : Represents t none t.mpRoot T
  ascending : Ascending key T
  balanced : T.IsAvl
  chain : Chain (fun p => t.subTree p parentSubTree) t.mpNextRamDbFreeNode free
  pool : (ids T ++ free).Perm (List.range t.mNbMaxElement_U32)
  count : t.mNbNode_U32 = (ids T).length

/-- The nodes that are reached from a pointer, in order, with their records; at most `fuel` levels. -/
def walk : Nat → AvlTree ρ → Option Nat → List (Nat × ρ)
  | 0, _, _ => []
  | _ + 1, _, none => []
  | fuel + 1, t, some p =>
    walk fuel t (t.subTree p leftSubTree) ++ ((t.data p).map fun x => (p, x)).toList ++
      walk fuel t (t.subTree p rightSubTree)

/-- The nodes of the tree with their records, in order. -/
def nodes (t : AvlTree ρ) : List (Nat × ρ) := walk t.fuel t t.mpRoot

/-- `Delete` of the key moves a record to or from the node `p`: the node found has two children, so it
gets the record of the next node, which is freed. -/
def moves (compare : Nat → ρ → ρ → BofCmp) (t : AvlTree ρ) (key : ρ) (p : Nat) : Bool :=
  match t.search compare key .equal with
  | some (some n) =>
    (t.subTree n leftSubTree).isSome && (t.subTree n rightSubTree).isSome &&
      (p = n || t.getNext compare (some n) = some (some p))
  | _ => false

/-! ## The map -/

/-- The records with pairwise different keys, ascending; at most `nbMax` of them. -/
structure SortedMap (ρ : Type) where
  nbMax : Nat
  records : List ρ

/-- What a call on the map returns. -/
inductive MapOut (ρ : Type) where
  | added
  | present (x : ρ)
  | noRoom
  | removed (x : ρ)
  | absent
  | cleared
  deriving DecidableEq

/-- One call on the map. -/
def SortedMap.step (key : ρ → K) (m : SortedMap ρ) : Op ρ → SortedMap ρ × MapOut ρ
  | .insert x =>
    match m.records.find? fun y => key y = key x with
    | some y => (m, .present y)
    | none =>
      if m.records.length < m.nbMax then
        ({ m with records := m.records.orderedInsert (fun y z => key y ≤ key z) x }, .added)
      else (m, .noRoom)
  | .delete x =>
    match m.records.find? fun y => key y = key x with
    | some y => ({ m with records := m.records.filter fun z => key z ≠ key x }, .removed y)
    | none => (m, .absent)
  | .clear => ({ m with records := [] }, .cleared)

/-- What the calls of the tree return, as answers of the map. -/
def Out.answers : Out ρ → MapOut ρ → Prop
  | .inserted .null _, .added => True
  | .inserted (.node _) (some x), .present y => x = y
  | .inserted .signalError _, .noRoom => True
  | .deleted (some x), .removed y => x = y
  | .deleted none, .absent => True
  | .cleared, .cleared => True
  | _, _ => False

/-- A call that has neither added nor removed a record. -/
def MapOut.IsRefusal : MapOut ρ → Prop
  | .present _ | .noRoom | .absent => True
  | _ => False

/-- The run `ops` of a new tree of `nbMaxElement` nodes keeps the invariant, follows the map call by
call, a refused call changes nothing at all, and the node that `Insert` returns is the one in the tree
with the key. -/
structure IsCorrectMap (compare : Nat → ρ → ρ → BofCmp) (key : ρ → K) (nbMaxElement index : Nat)
    (ops : List (Op ρ)) : Prop where
  wellFormed : ∃ T free, WellFormed key (run (step compare) (create nbMaxElement index) ops).1 T free ∧
    records T = (run (SortedMap.step key) ⟨nbMaxElement, []⟩ ops).1.records
  answers : List.Forall₂ Out.answers (run (step compare) (create nbMaxElement index) ops).2
    (run (SortedMap.step key) ⟨nbMaxElement, []⟩ ops).2
  unchanged : ∀ ops₁ op ops₂, ops = ops₁ ++ op :: ops₂ →
    (SortedMap.step key (run (SortedMap.step key) ⟨nbMaxElement, []⟩ ops₁).1 op).2.IsRefusal →
    (step compare (run (step compare) (create nbMaxElement index) ops₁).1 op).1 =
      (run (step compare) (create nbMaxElement index) ops₁).1
  existing : ∀ ops₁ x ops₂ p d, ops = ops₁ ++ .insert x :: ops₂ →
    (step compare (run (step compare) (create nbMaxElement index) ops₁).1 (.insert x)).2 =
      .inserted (.node p) d →
    ∃ T free y, WellFormed key (run (step compare) (create nbMaxElement index) ops₁).1 T free ∧
      (p, y) ∈ T.inorder ∧ key y = key x

end AvlTree

end BofStd

/-!
## Searching and walking in a `BofAvlTree`

The runs are those of `Insert`, of `Delete` with any comparison mode, and of `Clear`. `SortedMap.call` says
which records are stored after a run; `IsExactSearch` and `IsComplete` say what the searches and the walks
then are.
-/

namespace BofStd.AvlTree

open WhichAvlSubTree Machine

variable {ρ K : Type} [LinearOrder K]

/-- The calls of a run. `Delete` takes the comparison mode of its caller. -/
inductive Call (ρ : Type) where
  | insert (key : ρ)
  | delete (key : ρ) (cmp : BofCmp)
  | clear

/-- One call. -/
def call (compare : Nat → ρ → ρ → BofCmp) (t : AvlTree ρ) : Call ρ → AvlTree ρ × Out ρ
  | .insert key => step compare t (.insert key)
  | .delete key cmp =>
    match t.delete compare key cmp with
    | some (t, rts) => (t, .deleted rts)
    | none => (t, .stuck)
  | .clear => step compare t .clear

/-- One call on the map: `Delete` removes the first record, the last one, or the one with the key. -/
def SortedMap.call (key : ρ → K) (m : SortedMap ρ) : Call ρ → SortedMap ρ × MapOut ρ
  | .insert x => m.step key (.insert x)
  | .delete x .less =>
    match m.records with
    | y :: l => ({ m with records := l }, .removed y)
    | [] => m.step key (.delete x)
  | .delete x .greater =>
    match m.records.getLast? with
    | some y => ({ m with records := m.records.dropLast }, .removed y)
    | none => m.step key (.delete x)
  | .delete x _ => m.step key (.delete x)
  | .clear => m.step key .clear

/-- The pointer is to a node whose key is `best` in `S`, or it is null and `S` is empty. -/
def PointsTo (key : ρ → K) (t : AvlTree ρ) (best : Set K → K → Prop) (S : Set K) :
    Option (Option Nat) → Prop
  | some (some p) => ∃ y, (p, y) ∈ t.nodes ∧ best S (key y)
  | some none => S = ∅
  | none => False

/-- The keys of the records. -/
def keys (key : ρ → K) (records : List ρ) : Set K := {k | ∃ y ∈ records, key y = k}

/-- In the tree that stores the records, `Search` finds the closest key on either side, and the key. -/
structure IsExactSearch (compare : Nat → ρ → ρ → BofCmp) (key : ρ → K) (t : AvlTree ρ) (records : List ρ)
    (x : ρ) : Prop where
  greaterOrEqual : PointsTo key t IsLeast (keys key records ∩ Set.Ici (key x))
    (t.search compare x .greaterOrEqual)
  lessOrEqual : PointsTo key t IsGreatest (keys key records ∩ Set.Iic (key x))
    (t.search compare x .lessOrEqual)
  equal : PointsTo key t (fun S k => k ∈ S) (keys key records ∩ {key x}) (t.search compare x .equal)

/-- `Search` with `BOF_CMP_LESS` finds the first node, with `BOF_CMP_GREATER` the last one. -/
structure IsExtremumSearch (compare : Nat → ρ → ρ → BofCmp) (key : ρ → K) (t : AvlTree ρ) (records : List ρ)
    (x : ρ) : Prop where
  less : PointsTo key t IsLeast (keys key records) (t.search compare x .less)
  greater : PointsTo key t IsGreatest (keys key records) (t.search compare x .greater)
  first : t.search compare x .less = t.getFirst
  last : t.search compare x .greater = t.getLast

/-- The loop `while (p) p = next(p);`: the nodes that it visits, or `none` where it is not done after
`fuel` rounds or `next` fails. -/
def visits (next : Option Nat → Option (Option Nat)) : Nat → Option Nat → Option (List Nat)
  | 0, _ => none
  | _ + 1, none => some []
  | fuel + 1, some p => do
    let q ← next (some p)
    let l ← visits next fuel q
    return p :: l

/-- The loops over all the nodes, from the first and from the last one. -/
def visitsForward (compare : Nat → ρ → ρ → BofCmp) (fuel : Nat) (t : AvlTree ρ) : Option (List Nat) := do
  let p ← t.getFirst
  visits (t.getNext compare) fuel p

def visitsBackward (compare : Nat → ρ → ρ → BofCmp) (fuel : Nat) (t : AvlTree ρ) : Option (List Nat) := do
  let p ← t.getLast
  visits (t.getPrevious compare) fuel p

/-- Both loops end, and visit one node for every record, in ascending and in descending order. -/
structure IsComplete (compare : Nat → ρ → ρ → BofCmp) (key : ρ → K) (t : AvlTree ρ) (records : List ρ) :
    Prop where
  ascending : records.Pairwise fun x y => key x < key y
  visits : ∃ fuel l, t.visitsForward compare fuel = some l ∧
    t.visitsBackward compare fuel = some l.reverse ∧ l.Nodup ∧ l.map t.data = records.map some

end BofStd.AvlTree
