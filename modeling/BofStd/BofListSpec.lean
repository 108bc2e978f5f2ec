import BofStd.BofList
import BofStd.Lib.Chain
import Mathlib.Data.List.Perm.Basic

/-!
# What `BofList` is for: a sequence of nodes over a pool

`Holds` relates a list object to the sequence of its linked nodes, the sequence of the free nodes and the
nodes that callers of `GetFreeNode` hold. The held nodes are not recorded in the object: `hold` follows
them from the calls and their results.

Some calls break the list. `Allowed` says which ones do not: the node given to `AddFirst` or `GetFreeNode`
is not linked, the node given to `AddAfter` or `AddBefore` is not in the free pool, and a value is inserted
beside a node only if the node is linked or no node is left.
-/

namespace BofStd.BofList

open Linked

variable {α : Type} [Inhabited α]

/-- The linked nodes, the free ones and the held ones. -/
structure Holds (s : BofList α) (held linked free : List Nat) : Prop where
  /-- `next` from the head visits the linked nodes, and `prev` from the queue visits them in reverse -/
  linked_chain : Chain s.links.next s.head linked ∧ Chain s.links.prev s.queue linked.reverse
  nbElements_eq : s.nbElements = linked.length
  /-- the same for the free pool -/
  free_chain : Chain s.links.next s.freeHead free ∧ Chain s.links.prev s.freeQueue free.reverse
  /-- exactly the linked nodes name the list as their parent -/
  parent_iff : ∀ n < s.nbMaxElements, s.pParent n = true ↔ n ∈ linked
  /-- every node is in exactly one place -/
  places : (linked ++ (free ++ held)).Perm (List.range s.nbMaxElements)

/-- The list is sound. -/
def Sound (s : BofList α) (held : List Nat) : Prop := ∃ linked free, Holds s held linked free

/-- The nodes that callers hold after a call with the given result. -/
def hold (held : List Nat) : Op α → Out → List Nat
  | .getFreeNode _, .node (some n) => n :: held
  | .getFreeNodeOf _, .node (some n) => n :: held.erase n
  | .addFirstNode (some n), .done true => held.erase n
  | .addLastNode (some n), .done true => held.erase n
  | .addAfterNode _ (some n), .done true => held.erase n
  | .addBeforeNode _ (some n), .done true => held.erase n
  | _, _ => held

/-- One call, with the held nodes beside the object. -/
def heldStep (s : BofList α × List Nat) (op : Op α) : (BofList α × List Nat) × Out :=
  (((step s.1 op).1, hold s.2 op (step s.1 op).2), (step s.1 op).2)

/-- The nodes that a call names are nodes of this list. -/
def OfList (N : Nat) : Op α → Prop
  | .getFreeNodeOf n => n < N
  | .addFirstNode n | .addLastNode n | .addAfter n _ | .addBefore n _ | .remove n => ∀ i ∈ n, i < N
  | .addAfterNode e n | .addBeforeNode e n => (∀ i ∈ e, i < N) ∧ ∀ i ∈ n, i < N
  | _ => True

/-- The calls that keep the list sound. -/
def Allowed (s : BofList α) : Op α → Prop
  | .getFreeNodeOf n => s.pParent n = false
  | .addFirstNode n => ∀ i ∈ n, s.pParent i = false
  | .addAfterNode e n | .addBeforeNode e n =>
    ∀ i ∈ e, ∀ j ∈ n, s.pParent i = true → s.inFreePool j = false
  | .addAfter e x | .addBefore e x => ∀ i ∈ e, x ≠ none → s.pParent i = true ∨ s.freeHead = none
  | _ => True

instance (N : Nat) : (op : Op α) → Decidable (OfList N op)
  | .getFreeNodeOf _ => inferInstanceAs (Decidable (_ < _))
  | .addFirstNode _ | .addLastNode _ | .addAfter _ _ | .addBefore _ _ | .remove _ =>
    inferInstanceAs (Decidable (∀ i ∈ _, i < N))
  | .addAfterNode _ _ | .addBeforeNode _ _ => inferInstanceAs (Decidable ((∀ i ∈ _, i < N) ∧ ∀ i ∈ _, i < N))
  | .getFreeNode _ | .addFirst _ | .addLast _ | .removeFirst | .removeLast | .clear => isTrue trivial

instance [DecidableEq α] (s : BofList α) : (op : Op α) → Decidable (Allowed s op)
  | .getFreeNodeOf _ => inferInstanceAs (Decidable (_ = _))
  | .addFirstNode _ => inferInstanceAs (Decidable (∀ i ∈ _, s.pParent i = false))
  | .addAfterNode _ _ | .addBeforeNode _ _ =>
    inferInstanceAs (Decidable (∀ i ∈ _, ∀ j ∈ _, s.pParent i = true → s.inFreePool j = false))
  | .addAfter _ x | .addBefore _ x =>
    inferInstanceAs (Decidable (∀ i ∈ _, x ≠ none → s.pParent i = true ∨ s.freeHead = none))
  | .getFreeNode _ | .addFirst _ | .addLast _ | .addLastNode _ | .remove _ | .removeFirst | .removeLast | .clear =>
    isTrue trivial

/-- The condition of a step: it names nodes of this list and is an allowed call. -/
def Guard (s : BofList α × List Nat) (op : Op α) : Prop := OfList s.1.nbMaxElements op ∧ Allowed s.1 op

instance [DecidableEq α] (s : BofList α × List Nat) (op : Op α) : Decidable (Guard s op) :=
  inferInstanceAs (Decidable (_ ∧ _))

/-- A call that fails changes neither the linked sequence nor the free pool. -/
def FailsCleanly (s s' : BofList α) (held : List Nat) (out : Out) : Prop :=
  out = .done false → ∀ linked free, Holds s held linked free → Holds s' held linked free

end BofStd.BofList

/-!
## What `ListSort` is for

The linked nodes are put into the order of their values, and nodes with equal values keep theirs. A comparison function
is good for this if it is a total preorder (`IsPreorder`); with any other one the list is still sound afterwards.
-/

namespace BofStd.BofList

variable {α : Type} [Inhabited α]

/-- The comparison function is a total preorder. -/
structure IsPreorder (compare : α → α → Int) : Prop where
  total : ∀ a b, compare a b ≤ 0 ∨ compare b a ≤ 0
  trans : ∀ a b c, compare a b ≤ 0 → compare b c ≤ 0 → compare a c ≤ 0

/-- The value of the node `a` is not above that of `b`. -/
def nodeLe (compare : α → α → Int) (s : BofList α) (a b : Nat) : Bool := compare (s.value a) (s.value b) ≤ 0

/-- The second list has the nodes of the first one in the order of their values, and two nodes that were in order are
still in the same order. -/
structure StablySorted (le : Nat → Nat → Bool) (linked linked' : List Nat) : Prop where
  perm : linked'.Perm linked
  sorted : linked'.Pairwise fun a b => le a b = true
  stable : ∀ a b, [a, b].Sublist linked → le a b = true → [a, b].Sublist linked'

/-- The list after a sort: sound, with the same nodes, values and free nodes; the head has no predecessor, and the queue
is the last node and has no successor. With a total preorder the nodes are stably sorted. -/
structure SortedFrom (compare : α → α → Int) (s s' : BofList α) (held linked free linked' : List Nat) : Prop where
  holds : Holds s' held linked' free
  perm : linked'.Perm linked
  value_eq : s'.value = s.value
  head_first : ∀ n, s'.head = some n → s'.links.prev n = none
  queue_last : ∀ n, s'.queue = some n → s'.links.next n = none ∧ linked'.getLast? = some n
  stablySorted : IsPreorder compare → StablySorted (nodeLe compare s) linked linked'

/-- The list is sound, and `Sort` ends and leaves it sorted. -/
def Sorts (memcmp : α → α → Int) (s : BofList α) (held : List Nat) (pMethod : Option (α → α → Int)) : Prop :=
  ∃ linked free, Holds s held linked free ∧ ∀ fuel, linked.length < fuel →
    ∃ s' linked', s.sort memcmp fuel pMethod = some (s', true) ∧
      SortedFrom (pMethod.getD memcmp) s s' held linked free linked'

/-- The calls with `Sort` among them. -/
inductive SortOp (α : Type) where
  | call (op : Op α)
  | sort (pMethod : Option (α → α → Int))

/-- One call, with the held nodes beside the object. -/
def sortStep (memcmp : α → α → Int) (s : BofList α × List Nat) : SortOp α → (BofList α × List Nat) × Out
  | .call op => heldStep s op
  | .sort pMethod =>
    match s.1.sort memcmp (s.1.nbElements + 1) pMethod with
    | some (s', b) => ((s', s.2), .done b)
    | none => (s, .undefined)

/-- The condition of a step; a list is sorted only as long as it has fewer than `2 ^ 30` nodes. -/
def SortGuard (s : BofList α × List Nat) : SortOp α → Prop
  | .call op => Guard s op
  | .sort _ => s.1.nbElements < 1073741824

instance [DecidableEq α] (s : BofList α × List Nat) : (op : SortOp α) → Decidable (SortGuard s op)
  | .call op => inferInstanceAs (Decidable (Guard s op))
  | .sort _ => inferInstanceAs (Decidable (_ < _))

end BofStd.BofList
