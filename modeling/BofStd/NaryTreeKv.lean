import BofStd.Basic
import BofStd.Lib.Run
import Mathlib.Logic.Function.Basic

/-!
# The keyed tree `BofNaryTreeKv`

Nodes live on a heap, under addresses that are never used twice; handles and the pointers in the nodes are addresses.
A function ends in `none` when it touches a node that has been deleted. `attached` and `deleted` record the nodes that
were put into the tree and the deletions. The mutex, and the out parameters of the handles, which are not null, are
left out.
-/

namespace BofStd

/-- The class `Node`. -/
structure NaryNode (κ δ : Type*) where
  key : κ
  value : δ
  parent : Option Nat
  children : List Nat

/-- A tree with the heap of its nodes. -/
structure NaryTreeKv (κ δ : Type*) where
  heap : Nat → Option (NaryNode κ δ)
  mpRoot : Option Nat
  next : Nat
  attached : List Nat
  deleted : List Nat

namespace NaryTreeKv

variable {κ δ : Type*} [DecidableEq κ]

/-- The constructor. -/
def create : NaryTreeKv κ δ := ⟨fun _ => none, none, 0, [], []⟩

/-- Store a node. -/
def setNode (s : NaryTreeKv κ δ) (p : Nat) (n : NaryNode κ δ) : NaryTreeKv κ δ :=
  { s with heap := Function.update s.heap p (some n) }

/-- `new Node(key, value)`. -/
def newNode (s : NaryTreeKv κ δ) (key : κ) (value : δ) : NaryTreeKv κ δ :=
  { s.setNode s.next ⟨key, value, none, []⟩ with next := s.next + 1 }

/-- `BOF_SAFE_DELETE`. -/
def delete (s : NaryTreeKv κ δ) (p : Nat) : Option (NaryTreeKv κ δ) :=
  (s.heap p).map fun _ => { s with heap := Function.update s.heap p none, deleted := s.deleted ++ [p] }

/-- `IsNodeValid`: the magic number of a node is right until it is deleted. -/
def isNodeValid (s : NaryTreeKv κ δ) (handle : Option Nat) : Option Bool :=
  match handle with
  | none => some false
  | some p => (s.heap p).map fun _ => true

/-- The `find_if` over the children: whether one of them has this key. -/
def hasKey (heap : Nat → Option (NaryNode κ δ)) (key : κ) : List Nat → Option Bool
  | [] => some false
  | c :: cs => (heap c).bind fun n => if n.key = key then some true else hasKey heap key cs

/-- The children without the first one that has this key. -/
def eraseKey (heap : Nat → Option (NaryNode κ δ)) (key : κ) : List Nat → Option (List Nat)
  | [] => some []
  | c :: cs =>
    (heap c).bind fun n => if n.key = key then some cs else (eraseKey heap key cs).map fun cs => c :: cs

/-- `Node::SetKey`. -/
def nodeSetKey (s : NaryTreeKv κ δ) (p : Nat) (key : κ) : Option (NaryTreeKv κ δ × BofErr) :=
  (s.heap p).bind fun n =>
    (s.heap (n.parent.getD p)).bind fun father =>
      (hasKey s.heap key father.children).map fun found =>
        if found then (s, .duplicate) else (s.setNode p { n with key := key }, .noError)

/-- `Node::AddChild`. -/
def nodeAddChild (s : NaryTreeKv κ δ) (p child : Nat) : Option (NaryTreeKv κ δ × BofErr) :=
  (s.heap p).bind fun n =>
    (s.heap child).bind fun c =>
      (hasKey s.heap c.key n.children).map fun found =>
        if found then (s, .duplicate)
        else ((s.setNode child { c with parent := some p }).setNode p { n with children := n.children ++ [child] },
          .noError)

/-- `Node::PopLastChild`. -/
def popLastChild (s : NaryTreeKv κ δ) (p : Nat) : Option (NaryTreeKv κ δ × Option Nat) :=
  (s.heap p).map fun n =>
    match n.children.getLast? with
    | none => (s, none)
    | some c => (s.setNode p { n with children := n.children.dropLast }, some c)

/-- `Node::PopAndDeleteChild`: the child is looked for by its key, and taken out of the list only. -/
def popAndDeleteChild (s : NaryTreeKv κ δ) (p child : Nat) : Option (NaryTreeKv κ δ) :=
  (s.heap p).bind fun n =>
    (s.heap child).bind fun c =>
      (eraseKey s.heap c.key n.children).map fun children => s.setNode p { n with children := children }

/-- The end of `ClearTree`: the start node is taken out of its father and deleted. -/
def deleteStart (s : NaryTreeKv κ δ) (p : Nat) : Option (NaryTreeKv κ δ) :=
  (s.heap p).bind fun n =>
    match n.parent with
    | none => s.delete p
    | some father => (s.popAndDeleteChild father p).bind fun s => s.delete p

/-- The loop of `ClearTree` at `pNode`; `none` also if it is not over after this number of rounds. -/
def clearLoop (start : Nat) : Nat → NaryTreeKv κ δ → Nat → Option (NaryTreeKv κ δ)
  | 0, _, _ => none
  | rounds + 1, s, pNode =>
    (s.popLastChild pNode).bind fun r =>
      match r.2 with
      | some pLast => if pLast = start then r.1.deleteStart pLast else clearLoop start rounds r.1 pLast
      | none =>
        if pNode = start then r.1.deleteStart pNode
        else
          (r.1.heap pNode).bind fun n =>
            (r.1.delete pNode).bind fun s =>
              match n.parent with
              | none => some s
              | some father => clearLoop start rounds s father

/-- `ClearTree`; every node that was ever allocated is entered once and left once at most. -/
def clearTree (s : NaryTreeKv κ δ) (handle : Option Nat) : Option (NaryTreeKv κ δ × BofErr) :=
  (s.isNodeValid handle).bind fun valid =>
    match valid, handle with
    | true, some p => (clearLoop p (2 * s.next) s p).map fun s => (s, .noError)
    | _, _ => some (s, .einval)

/-- `SetRoot`: the new tree and the handle of its root. -/
def setRoot (s : NaryTreeKv κ δ) (key : κ) (value : δ) : Option (NaryTreeKv κ δ × Nat) :=
  (if s.mpRoot = none then some s else (s.clearTree s.mpRoot).map Prod.fst).map fun s =>
    ({ s.newNode key value with mpRoot := some s.next, attached := s.attached ++ [s.next] }, s.next)

/-- `AddChild`: the new tree, the error code, and the handle of the child; a child that is refused is not deleted. -/
def addChild (s : NaryTreeKv κ δ) (parent : Nat) (key : κ) (value : δ) :
    Option (NaryTreeKv κ δ × BofErr × Option Nat) :=
  (s.isNodeValid (some parent)).bind fun valid =>
    if valid then
      ((s.newNode key value).nodeAddChild parent s.next).map fun r =>
        if r.2 = .noError then ({ r.1 with attached := s.attached ++ [s.next] }, r.2, some s.next)
        else (r.1, r.2, none)
    else some (s, .einval, none)

/-- `SetKey`. -/
def setKey (s : NaryTreeKv κ δ) (handle : Nat) (key : κ) : Option (NaryTreeKv κ δ × BofErr) :=
  (s.isNodeValid (some handle)).bind fun valid =>
    if valid then s.nodeSetKey handle key else some (s, .einval)

/-- `SetValue`. -/
def setValue (s : NaryTreeKv κ δ) (handle : Nat) (value : δ) : Option (NaryTreeKv κ δ × BofErr) :=
  (s.isNodeValid (some handle)).bind fun valid =>
    if valid then (s.heap handle).map fun n => (s.setNode handle { n with value := value }, .noError)
    else some (s, .einval)

/-- The loop over the children in `Search` and `GetNodeHandle`: the first child that has this key. -/
def findChild (heap : Nat → Option (NaryNode κ δ)) (key : κ) : List Nat → Option (Option Nat)
  | [] => some none
  | c :: cs => (heap c).bind fun n => if key = n.key then some (some c) else findChild heap key cs

/-- `GetNodeHandle`: the error code and `*_pNodeHandle`, which is `nodeHandle` before the call. -/
def getNodeHandle (s : NaryTreeKv κ δ) (parent : Option Nat) (key : κ) (nodeHandle : Option Nat) :
    Option (BofErr × Option Nat) :=
  (s.isNodeValid parent).bind fun valid =>
    match valid, parent with
    | true, some pParent =>
      (s.heap pParent).bind fun n =>
        (findChild s.heap key n.children).map fun
          | some pChild => (.noError, some pChild)
          | none => (.notFound, none)
    | _, _ => some (.dontExist, nodeHandle)

/-- The loop of `Search` over the keys behind the first one, with `Rts_E` and `*_pNodeHandle` as they are before it. -/
def searchLoop (heap : Nat → Option (NaryNode κ δ)) :
    List κ → Nat → BofErr → Option Nat → Option (BofErr × Option Nat)
  | [], _, err, nodeHandle => some (err, nodeHandle)
  | key :: keys, pParent, _, nodeHandle =>
    (heap pParent).bind fun n =>
      (findChild heap key n.children).bind fun
        | some pChild => searchLoop heap keys pChild .noError (some pParent)
        | none => some (.notFound, nodeHandle)

/-- `Search`: the error code and `*_pNodeHandle`, which is `nodeHandle` before the call. -/
def search (s : NaryTreeKv κ δ) (parent : Option Nat) (keyCollection : List κ) (nodeHandle : Option Nat) :
    Option (BofErr × Option Nat) :=
  (s.isNodeValid parent).bind fun valid =>
    match valid, parent, keyCollection with
    | true, some pParent, key :: keys =>
      (s.heap pParent).bind fun n =>
        if key = n.key then searchLoop s.heap keys pParent .notFound none else some (.notFound, none)
    | _, _, _ => some (.einval, nodeHandle)

/-- The destructor. -/
def destroy (s : NaryTreeKv κ δ) : Option (NaryTreeKv κ δ) := (s.clearTree s.mpRoot).map Prod.fst

/-- The calls on handles that are not null. -/
inductive Op (κ δ : Type*) where
  | setRoot (key : κ) (value : δ)
  | addChild (parent : Nat) (key : κ) (value : δ)
  | setKey (handle : Nat) (key : κ)
  | setValue (handle : Nat) (value : δ)
  | clearTree (handle : Nat)

/-- One call: the new tree, the error code and the new handle; `none` if it touches a deleted node. -/
def call (s : NaryTreeKv κ δ) : Op κ δ → Option (NaryTreeKv κ δ × BofErr × Option Nat)
  | .setRoot key value => (s.setRoot key value).map fun r => (r.1, .noError, some r.2)
  | .addChild parent key value => s.addChild parent key value
  | .setKey handle key => (s.setKey handle key).map fun r => (r.1, r.2, none)
  | .setValue handle value => (s.setValue handle value).map fun r => (r.1, r.2, none)
  | .clearTree handle => (s.clearTree (some handle)).map fun r => (r.1, r.2, none)

/-- One call as a step of a machine, which stands still after an access to a deleted node. -/
def step (s : NaryTreeKv κ δ) (op : Op κ δ) : NaryTreeKv κ δ × Option (BofErr × Option Nat) :=
  match s.call op with
  | some (s', out) => (s', some out)
  | none => (s, none)

end NaryTreeKv

end BofStd
