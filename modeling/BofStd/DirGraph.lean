import BofStd.Basic
import BofStd.Lib.Run

/-!
# The directed graph `BofDirGraph`

Nodes and edges share one identifier counter. Four `IdMap`s hold the nodes, the number of edges that leave
each node, the neighbours of each node and the edges; an `IdMap` is a vector of elements beside the sorted
vector of their identifiers.

An iterator that is dereferenced at the end of its collection, or an assertion that fails, is the result
`none`.
-/

namespace BofStd

/-! ## The map `IdMap` -/

/-- The elements, and beside them their identifiers. -/
structure IdMap (α : Type*) where
  mElementCollection : List α
  mSortedIdCollection : List Nat

namespace IdMap

variable {α : Type*}

def empty : IdMap α := ⟨[], []⟩

/-- `std::lower_bound` over the sorted identifiers: the first place that is not below `id`. -/
def lowerBound (m : IdMap α) (id : Nat) : Nat := m.mSortedIdCollection.findIdx fun k => decide (id ≤ k)

/-- `Contain`: the place that `std::lower_bound` finds is not the end and holds `id`. -/
def contain (m : IdMap α) (id : Nat) : Bool := decide (m.mSortedIdCollection[m.lowerBound id]? = some id)

/-- `Insert`. -/
def insert (m : IdMap α) (id : Nat) (x : α) : IdMap α × Bool :=
  if m.contain id then (m, false)
  else
    (⟨m.mElementCollection.insertIdx (m.lowerBound id) x, m.mSortedIdCollection.insertIdx (m.lowerBound id) id⟩,
      true)

/-- `Erase`. -/
def erase (m : IdMap α) (id : Nat) : IdMap α × Bool :=
  if m.contain id then
    (⟨m.mElementCollection.eraseIdx (m.lowerBound id), m.mSortedIdCollection.eraseIdx (m.lowerBound id)⟩, true)
  else (m, false)

/-- `*Find(id)`. -/
def find (m : IdMap α) (id : Nat) : Option α :=
  if m.contain id then m.mElementCollection[m.lowerBound id]? else none

/-- Assign to `*Find(id)`. -/
def assign (m : IdMap α) (id : Nat) (x : α) : Option (IdMap α) :=
  if m.contain id then some ⟨m.mElementCollection.set (m.lowerBound id) x, m.mSortedIdCollection⟩ else none

end IdMap

/-! ## The graph -/

/-- `Edge`. -/
structure Edge where
  id : Nat
  src : Nat
  dst : Nat
  deriving DecidableEq, Repr

/-- `Edge::Contain`. -/
def Edge.contain (e : Edge) (id : Nat) : Bool := id == e.src || id == e.dst

/-- The members of `BofDirGraph`. -/
structure DirGraph (ν : Type) where
  mCrtId : Nat
  mNodeCollection : IdMap ν
  mEdgeFromNodeCollection : IdMap Nat
  mNodeNeighbourCollection : IdMap (List Nat)
  mEdgeCollection : IdMap Edge

namespace DirGraph

variable {ν : Type}

/-- The constructor. -/
def create : DirGraph ν := ⟨1, .empty, .empty, .empty, .empty⟩

/-- `BOF_INC_TICKET_NUMBER`: the counter skips zero when it goes round. -/
def incTicketNumber (n : Nat) : Nat := if u32 (n + 1) = 0 then 1 else u32 (n + 1)

/-- `BOF_ASSERT`. -/
def assert (b : Bool) : Option Unit := if b then some () else none

/-- `InsertNode`. -/
def insertNode (g : DirGraph ν) (node : ν) : Option (DirGraph ν × Nat) := do
  let id := g.mCrtId
  assert (!g.mNodeCollection.contain id)
  some ({ g with
      mCrtId := incTicketNumber g.mCrtId
      mNodeCollection := (g.mNodeCollection.insert id node).1
      mEdgeFromNodeCollection := (g.mEdgeFromNodeCollection.insert id 0).1
      mNodeNeighbourCollection := (g.mNodeNeighbourCollection.insert id []).1 }, id)

/-- `InsertEdge`: zero when an end is missing. -/
def insertEdge (g : DirGraph ν) (src dst : Nat) : Option (DirGraph ν × Nat) :=
  if g.mNodeCollection.contain src && g.mNodeCollection.contain dst then do
    let id := g.mCrtId
    assert (!g.mEdgeCollection.contain id)
    assert (g.mEdgeFromNodeCollection.contain src)
    assert (g.mEdgeFromNodeCollection.contain dst)
    let count ← g.mEdgeFromNodeCollection.find src
    let counts ← g.mEdgeFromNodeCollection.assign src (u32 (count + 1))
    let neighbour ← g.mNodeNeighbourCollection.find src
    let neighbours ← g.mNodeNeighbourCollection.assign src (neighbour ++ [dst])
    some ({ g with
        mCrtId := incTicketNumber g.mCrtId
        mEdgeCollection := (g.mEdgeCollection.insert id ⟨id, src, dst⟩).1
        mEdgeFromNodeCollection := counts
        mNodeNeighbourCollection := neighbours }, id)
  else some (g, 0)

/-- `InternalEraseEdge`: the count of the source goes down and the first neighbour that is the target is
taken off its list. -/
def internalEraseEdge (g : DirGraph ν) (edgeId : Nat) : Option (DirGraph ν × Bool) :=
  if g.mEdgeCollection.contain edgeId then do
    let edge ← g.mEdgeCollection.find edgeId
    let count ← g.mEdgeFromNodeCollection.find edge.src
    assert (decide (count > 0))
    let counts ← g.mEdgeFromNodeCollection.assign edge.src (u32Sub count 1)
    let neighbour ← g.mNodeNeighbourCollection.find edge.src
    assert (decide (edge.dst ∈ neighbour))
    let neighbours ← g.mNodeNeighbourCollection.assign edge.src (neighbour.erase edge.dst)
    some ({ g with
        mEdgeCollection := (g.mEdgeCollection.erase edgeId).1
        mEdgeFromNodeCollection := counts
        mNodeNeighbourCollection := neighbours }, (g.mEdgeCollection.erase edgeId).2)
  else some (g, false)

/-- The loop of `EraseNode` over the collected edges: it stops at the first one that is not erased. -/
def eraseEdges (g : DirGraph ν) : List Nat → Option (DirGraph ν × Bool)
  | [] => some (g, true)
  | edgeId :: edgeIds => do
    let (g, rts) ← g.internalEraseEdge edgeId
    if rts then eraseEdges g edgeIds else some (g, false)

/-- The three maps of the nodes: each is erased if the one before was. -/
def eraseFromMaps (g : DirGraph ν) (id : Nat) : DirGraph ν × Bool :=
  let (nodes, rts) := g.mNodeCollection.erase id
  if rts then
    let (counts, rts) := g.mEdgeFromNodeCollection.erase id
    if rts then
      let (neighbours, rts) := g.mNodeNeighbourCollection.erase id
      ({ g with
          mNodeCollection := nodes
          mEdgeFromNodeCollection := counts
          mNodeNeighbourCollection := neighbours }, rts)
    else ({ g with mNodeCollection := nodes, mEdgeFromNodeCollection := counts }, false)
  else ({ g with mNodeCollection := nodes }, false)

/-- `EraseNode`: first the edges that enter or leave the node, then the node. -/
def eraseNode (g : DirGraph ν) (id : Nat) : Option (DirGraph ν × Bool) := do
  let edgesToErase := (g.mEdgeCollection.mElementCollection.filter fun e => e.contain id).map Edge.id
  let (g, rts) ← g.eraseEdges edgesToErase
  if rts then
    if g.mNodeCollection.contain id then
      let (g, rts) := g.eraseFromMaps id
      assert rts
      some (g, rts)
    else some (g, false)
  else some (g, false)

/-- `Neighbour`: null when there is no such node. -/
def neighbour (g : DirGraph ν) (id : Nat) : Option (List Nat) := g.mNodeNeighbourCollection.find id

/-- The loop of `DfsTraverse`, with the top of the stack first: the nodes that are handed to the visitor, or `none` if
it is not over after this number of rounds. -/
def dfsLoop (g : DirGraph ν) : Nat → List Nat → Option (List Nat)
  | _, [] => some []
  | 0, _ :: _ => none
  | rounds + 1, crtNodeId :: stack =>
    let stack :=
      match g.neighbour crtNodeId with
      | some neighbours => neighbours.foldl (fun stack id => id :: stack) stack
      | none => stack
    (dfsLoop g rounds stack).map (crtNodeId :: ·)

/-- `DfsTraverse`. -/
def dfsTraverse (g : DirGraph ν) (rounds startNode : Nat) : Option (List Nat) := g.dfsLoop rounds [startNode]

/-- The calls. -/
inductive Op (ν : Type) where
  | insertNode (node : ν)
  | eraseNode (id : Nat)
  | insertEdge (src dst : Nat)
  | eraseEdge (id : Nat)

/-- What a call returns; `undefined` is a dereferenced end or a failed assertion. -/
inductive Out where
  | id (n : Nat)
  | done (b : Bool)
  | undefined
  deriving DecidableEq

/-- One call. -/
def step (g : DirGraph ν) : Op ν → DirGraph ν × Out
  | .insertNode node => ((g.insertNode node).map fun r => (r.1, .id r.2)).getD (g, .undefined)
  | .eraseNode id => ((g.eraseNode id).map fun r => (r.1, .done r.2)).getD (g, .undefined)
  | .insertEdge src dst => ((g.insertEdge src dst).map fun r => (r.1, .id r.2)).getD (g, .undefined)
  | .eraseEdge id => ((g.internalEraseEdge id).map fun r => (r.1, .done r.2)).getD (g, .undefined)

end DirGraph

end BofStd
