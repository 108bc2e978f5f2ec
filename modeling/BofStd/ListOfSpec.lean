import BofStd.ListOf
import BofStd.Lib.Segment

/-!
# What the intrusive lists are for: a stack and a deque of item pointers

`Deque` is the abstract list, with the highest length that was reached, and `stackStep` and `dequeStep` are
the calls on it. An `Arena` says where a list head and the items may lie in the memory. `IsStack` and
`IsDeque` compare whole runs; `Holds` relates the links in the memory to the abstract list when the header
is the first member of an item.
-/

namespace BofStd

open Memory Linked

/-- A sequence of item pointers and the highest length since the last reset. -/
structure Deque where
  items : List Nat
  most : Nat

namespace Deque

def empty : Deque := ⟨[], 0⟩

def pushFront (d : Deque) (p : Nat) : Deque := ⟨p :: d.items, max d.most (d.items.length + 1)⟩

def pushBack (d : Deque) (p : Nat) : Deque := ⟨d.items ++ [p], max d.most (d.items.length + 1)⟩

def popFront (d : Deque) : Deque := { d with items := d.items.tail }

def popBack (d : Deque) : Deque := { d with items := d.items.dropLast }

/-- The result of a removal: the item, or null. -/
def result (x : Option Nat) : ListOut := .item (x.getD 0)

end Deque

/-- The memory that a list and its items may use: two items do not overlap, none overlaps the list head or
lies at the null address, and all lie in an address space of 64 bits. -/
structure Arena (T : ItemType) where
  listHead : Nat
  Item : Nat → Prop
  listHead_le : listHead + 16 ≤ 2 ^ 64
  item_pos : ∀ p, Item p → 0 < p
  item_le : ∀ p, Item p → p + T.size ≤ 2 ^ 64
  apart : ∀ p q, Item p → Item q → p ≠ q → p + T.size ≤ q ∨ q + T.size ≤ p
  apart_listHead : ∀ p, Item p → p + T.size ≤ listHead ∨ listHead + 16 ≤ p

/-- The bytes of the items outside their headers are the same in both memories. -/
def Arena.Untouched {T : ItemType} (A : Arena T) (mem mem' : Mem) : Prop :=
  ∀ p, A.Item p → ∀ k < T.size, k < T.offset ∨ T.offset + 32 ≤ k → mem' (p + k) = mem (p + k)

/-- An item may go into the list: it is not in it, and the counter does not run over. -/
def Arena.Admits {T : ItemType} (A : Arena T) (d : Deque) (p : Nat) : Prop :=
  A.Item p ∧ p ∉ d.items ∧ d.items.length + 1 < 2 ^ 32

/-- A link that leads back to the list head is the end of the list. -/
def link (listHead v : Nat) : Option Nat := if v = listHead then none else some v

namespace SingleListOf

/-- One call on a stack. -/
def stackStep (d : Deque) : Op → Deque × ListOut
  | .insertHead p => (d.pushFront p, .inserted true)
  | .removeHead => (d.popFront, Deque.result d.items.head?)
  | .isEmpty => (d, .empty d.items.isEmpty)
  | .getNbItemAvailable => (d, .count d.items.length)
  | .getNbMaxItemAvailable reset => ((if reset then { d with most := 0 } else d), .count d.most)
  | .reset => (Deque.empty, .done)

/-- The calls whose items may go into the list. -/
def Legal {T : ItemType} (A : Arena T) (d : Deque) : Op → Prop
  | .insertHead p => A.Admits d p
  | _ => True

/-- With items of type `T` the list is a stack: every run gives the results of the stack, writes only into
the headers of the items, and counts the items. -/
def IsStack (T : ItemType) : Prop :=
  ∀ (A : Arena T) (mem : Mem) (ops : List Op), Machine.Meets stackStep (Legal A) Deque.empty ops →
    let r := Machine.run (step T) (create A.listHead mem) ops
    let d := Machine.run stackStep Deque.empty ops
    r.2 = d.2 ∧ r.1.1.count.nbItemAvailable = d.1.items.length ∧ A.Untouched mem r.1.2

/-- The links in the memory make up the list. -/
structure Holds (s : SingleListOf) (mem : Mem) (l : List Nat) : Prop where
  chain : Chain (fun x => link s.listHead (load mem x)) (link s.listHead (load mem s.listHead)) l
  nodup : l.Nodup
  nbItemAvailable_eq : s.count.nbItemAvailable = l.length
  length_lt : l.length < 2 ^ 32

end SingleListOf

namespace DoubleListOf

/-- One call on a deque. -/
def dequeStep (d : Deque) : Op → Deque × ListOut
  | .insertHead p => (d.pushFront p, .inserted true)
  | .insertTail p => (d.pushBack p, .inserted true)
  | .removeHead => (d.popFront, Deque.result d.items.head?)
  | .removeTail => (d.popBack, Deque.result d.items.getLast?)
  | .isEmpty => (d, .empty d.items.isEmpty)
  | .getNbItemAvailable => (d, .count d.items.length)
  | .getNbMaxItemAvailable reset => ((if reset then { d with most := 0 } else d), .count d.most)
  | .reset => (Deque.empty, .done)

/-- The calls whose items may go into the list. -/
def Legal {T : ItemType} (A : Arena T) (d : Deque) : Op → Prop
  | .insertHead p | .insertTail p => A.Admits d p
  | _ => True

/-- With items of type `T` the list is a deque. -/
def IsDeque (T : ItemType) : Prop :=
  ∀ (A : Arena T) (mem : Mem) (ops : List Op), Machine.Meets dequeStep (Legal A) Deque.empty ops →
    let r := Machine.run (step T) (create A.listHead mem) ops
    let d := Machine.run dequeStep Deque.empty ops
    r.2 = d.2 ∧ r.1.1.count.nbItemAvailable = d.1.items.length ∧ A.Untouched mem r.1.2

/-- The link of a cell, `near` or `far`, to the next item in its direction. -/
def linkAt (listHead : Nat) (mem : Mem) (i x : Nat) : Option Nat := link listHead (load mem (x + i))

/-- The links in the memory make up the list, read from the end where `near` leads in. -/
structure Holds (near far : Nat) (s : DoubleListOf) (mem : Mem) (l : List Nat) : Prop where
  dlist : DList (linkAt s.listHead mem near) (linkAt s.listHead mem far)
    (linkAt s.listHead mem near s.listHead) (linkAt s.listHead mem far s.listHead) l
  nbItemAvailable_eq : s.count.nbItemAvailable = l.length
  length_lt : l.length < 2 ^ 32

end DoubleListOf

/-- Both intrusive lists take items of this type. -/
def AcceptsItem (T : ItemType) : Prop := SingleListOf.IsStack T ∧ DoubleListOf.IsDeque T

end BofStd
