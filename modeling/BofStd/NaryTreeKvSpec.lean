import BofStd.NaryTreeKv
import BofStd.Lib.Forest

/-!
# Trees in the heap

The shape of a tree is a `Forest` of addresses. `Stores` says that the heap holds this shape: every node knows its
children and its parent, no node occurs twice, and the keys of the children of a node are distinct. `Conforms` says
what a call does to the shape and to the heap; `Safe` is about the deletions only.
-/

namespace BofStd.NaryTreeKv

variable {κ δ : Type*} [DecidableEq κ]

/-- The key of the node at an address. -/
def keyAt (heap : Nat → Option (NaryNode κ δ)) (p : Nat) : Option κ := (heap p).map NaryNode.key

/-- The nodes of the trees are in the heap, with their links; the roots have the parent `parent`. -/
def Rep (heap : Nat → Option (NaryNode κ δ)) (parent : Option Nat) : Forest Nat → Prop
  | .nil => True
  | .snoc front p sub =>
    Rep heap parent front ∧ (∃ n, heap p = some n ∧ n.parent = parent ∧ n.children = sub.roots) ∧
      Rep heap (some p) sub

/-- The heap holds the trees, and siblings have distinct keys. -/
structure Stores (heap : Nat → Option (NaryNode κ δ)) (t : Forest Nat) : Prop where
  rep : Rep heap none t
  nodup : t.nodes.Nodup
  distinct : ∀ p ∈ t.nodes, ∀ n, heap p = some n → (n.children.map (keyAt heap)).Nodup

/-- The tree `t` is stored, and its root is the root. -/
structure IsTree (s : NaryTreeKv κ δ) (t : Forest Nat) : Prop extends Stores s.heap t where
  roots_eq : t.roots = s.mpRoot.toList

/-- The handles of the nodes that were put into the tree and are alive. -/
def Valid (s : NaryTreeKv κ δ) (handle : Nat) : Prop := handle ∈ s.attached ∧ (s.heap handle).isSome

/-- The handle that a call is given. -/
def Op.handle? : Op κ δ → Option Nat
  | .setRoot _ _ => none
  | .addChild parent _ _ => some parent
  | .setKey handle _ => some handle
  | .setValue handle _ => some handle
  | .clearTree handle => some handle

/-- The call is given a valid handle. -/
def Legal (s : NaryTreeKv κ δ) (op : Op κ δ) : Prop := ∀ handle, op.handle? = some handle → s.Valid handle

/-- The call is no `ClearTree` of the root. -/
def KeepsRoot (s : NaryTreeKv κ δ) : Op κ δ → Prop
  | .clearTree handle => s.mpRoot ≠ some handle
  | _ => True

instance (s : NaryTreeKv κ δ) (handle : Nat) : Decidable (s.Valid handle) := inferInstanceAs (Decidable (_ ∧ _))

instance (s : NaryTreeKv κ δ) (op : Op κ δ) : Decidable (s.Legal op) :=
  decidable_of_iff (∀ handle ∈ op.handle?, s.Valid handle) Iff.rfl

instance (s : NaryTreeKv κ δ) : (op : Op κ δ) → Decidable (s.KeepsRoot op)
  | .clearTree handle => inferInstanceAs (Decidable (s.mpRoot ≠ some handle))
  | .setRoot _ _ | .addChild _ _ _ | .setKey _ _ | .setValue _ _ => isTrue trivial

/-- The tree after a call. -/
def treeAfter (s : NaryTreeKv κ δ) (t : Forest Nat) : Op κ δ → BofErr → Forest Nat
  | .setRoot _ _, _ => .snoc .nil s.next .nil
  | .addChild parent _ _, err => if err = .noError then t.insert parent s.next else t
  | .setKey _ _, _ => t
  | .setValue _ _, _ => t
  | .clearTree handle, _ => t.remove handle

/-- The nodes of the subtree at `handle`, in the order in which they are deleted. -/
def subtree (t : Forest Nat) (handle : Nat) : List Nat := (t.under handle).nodes ++ [handle]

/-- `ClearTree` deletes every node of the subtree once, takes its root out of the children of its parent, and changes
nothing else. -/
structure Clears (s s' : NaryTreeKv κ δ) (t : Forest Nat) (handle : Nat) : Prop where
  once : (subtree t handle).Nodup
  deleted_eq : s'.deleted = s.deleted ++ subtree t handle
  heap_eq : ∀ p, s'.heap p =
    if p ∈ subtree t handle then none
    else if (s.heap handle).bind NaryNode.parent = some p then
      (s.heap p).map fun n => { n with children := n.children.erase handle }
    else s.heap p
  mpRoot_eq : s'.mpRoot = s.mpRoot
  attached_eq : s'.attached = s.attached

/-- What one call does to a tree. -/
def Conforms (s : NaryTreeKv κ δ) (t : Forest Nat) (op : Op κ δ) : Prop :=
  ∃ s' err handle, s.call op = some (s', err, handle) ∧ IsTree s' (treeAfter s t op err) ∧
    (err = .duplicate → s'.mpRoot = s.mpRoot ∧ ∀ p ∈ t.nodes, s'.heap p = s.heap p) ∧
    ∀ h, op = .clearTree h → err = .noError ∧ Clears s s' t h

/-- The root is null or alive, and the destructor deletes what is left: every node that was put into the tree has then
been deleted once. -/
structure Safe (s : NaryTreeKv κ δ) : Prop where
  root_live : ∀ r, s.mpRoot = some r → (s.heap r).isSome
  destroyed : ∃ s', s.destroy = some s' ∧ ∀ p ∈ s.attached, s'.deleted.count p = 1

/-- No call of the run touches a deleted node, and every state along the run is safe. -/
def NeverTouchesDeleted (ops : List (Op κ δ)) : Prop :=
  Machine.Meets step (fun s op => s.call op ≠ none) create ops ∧
    ∀ ops', ops' <+: ops → Safe (Machine.run step (create : NaryTreeKv κ δ) ops').1

/-- From the node `p`, the keys lead down to `q`, one child for each of them. -/
inductive Leads (heap : Nat → Option (NaryNode κ δ)) : Nat → List κ → Nat → Prop
  | here {p} : Leads heap p [] p
  | child {p c q key keys} {n : NaryNode κ δ} (node : heap p = some n) (mem : c ∈ n.children)
    (key_eq : keyAt heap c = some key) (rest : Leads heap c keys q) : Leads heap p (key :: keys) q

/-- The keys are a path from the start node to `q`: the first is the key of the start node itself. -/
def IsPath (heap : Nat → Option (NaryNode κ δ)) (start : Nat) (keys : List κ) (q : Nat) : Prop :=
  ∃ key rest, keys = key :: rest ∧ keyAt heap start = some key ∧ Leads heap start rest q

/-- The node that one call of `GetNodeHandle` after the other reaches. -/
def getNodeHandles (s : NaryTreeKv κ δ) : Nat → List κ → Option Nat
  | p, [] => some p
  | p, key :: keys =>
    match s.getNodeHandle (some p) key none with
    | some (.noError, some c) => s.getNodeHandles c keys
    | _ => none

/-- `Search` succeeds exactly if the keys are a path, and returns the node at its end, which the calls of
`GetNodeHandle` reach too. -/
def FindsNode (s : NaryTreeKv κ δ) (start : Nat) (keys : List κ) (nodeHandle : Option Nat) : Prop :=
  ∃ err handle, s.search (some start) keys nodeHandle = some (err, handle) ∧
    (err = .noError ↔ ∃ q, IsPath s.heap start keys q) ∧
    ∀ q, IsPath s.heap start keys q → handle = some q ∧ s.getNodeHandles start keys.tail = some q

end BofStd.NaryTreeKv
