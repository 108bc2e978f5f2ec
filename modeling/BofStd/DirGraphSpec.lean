import BofStd.DirGraph
import BofStd.Lib.Traverse
import Mathlib.Data.Multiset.Basic

/-!
# What `BofDirGraph` is for: a directed multigraph

`Graph` is the abstract graph, a list of nodes and a list of edges, and `Graph.step` is what a call does
to it. `Consistent` says that the four maps of a `DirGraph` tell the same graph.
-/

namespace BofStd

/-- The nodes with their identifiers, and the edges. -/
structure Graph (ν : Type) where
  crtId : Nat
  nodes : List (Nat × ν)
  edges : List Edge

namespace Graph

variable {ν : Type}

def HasNode (a : Graph ν) (id : Nat) : Prop := id ∈ a.nodes.map Prod.fst

instance (a : Graph ν) (id : Nat) : Decidable (a.HasNode id) := inferInstanceAs (Decidable (id ∈ _))

/-- The targets of the edges that leave a node. -/
def targets (a : Graph ν) (id : Nat) : List Nat := (a.edges.filter fun e => e.src == id).map Edge.dst

/-- Erase a node with all its edges. -/
def eraseNode (a : Graph ν) (id : Nat) : Graph ν :=
  { a with nodes := a.nodes.filter fun n => n.1 != id, edges := a.edges.filter fun e => !e.contain id }

/-- Erase an edge. -/
def eraseEdge (a : Graph ν) (id : Nat) : Graph ν := { a with edges := a.edges.filter fun e => e.id != id }

/-- One call. -/
def step (a : Graph ν) : DirGraph.Op ν → Graph ν × DirGraph.Out
  | .insertNode node => ({ a with crtId := a.crtId + 1, nodes := a.nodes ++ [(a.crtId, node)] }, .id a.crtId)
  | .eraseNode id => (a.eraseNode id, .done (decide (a.HasNode id)))
  | .insertEdge src dst =>
    if a.HasNode src ∧ a.HasNode dst then
      ({ a with crtId := a.crtId + 1, edges := a.edges ++ [⟨a.crtId, src, dst⟩] }, .id a.crtId)
    else (a, .id 0)
  | .eraseEdge id => (a.eraseEdge id, .done (decide (id ∈ a.edges.map Edge.id)))

end Graph

namespace IdMap

variable {α : Type*}

/-- The identifiers with their elements. -/
def entries (m : IdMap α) : List (Nat × α) := m.mSortedIdCollection.zip m.mElementCollection

/-- The identifiers are sorted without duplicates, one for each element. -/
def Sorted (m : IdMap α) : Prop :=
  m.mSortedIdCollection.Pairwise (· < ·) ∧ m.mSortedIdCollection.length = m.mElementCollection.length

end IdMap

namespace DirGraph

variable {ν : Type}

/-- The edges. -/
def edges (g : DirGraph ν) : List Edge := g.mEdgeCollection.mElementCollection

/-- The edges that leave a node. -/
def outgoing (g : DirGraph ν) (id : Nat) : List Edge := g.edges.filter fun e => e.src == id

/-- The maps of a graph agree. -/
structure Consistent (g : DirGraph ν) : Prop where
  sorted : g.mNodeCollection.Sorted ∧ g.mEdgeFromNodeCollection.Sorted ∧ g.mNodeNeighbourCollection.Sorted ∧
    g.mEdgeCollection.Sorted
  /-- every edge is stored under its identifier -/
  edge_id : g.mEdgeCollection.mSortedIdCollection = g.edges.map Edge.id
  /-- both ends of an edge are nodes -/
  ends : ∀ e ∈ g.edges, g.mNodeCollection.contain e.src ∧ g.mNodeCollection.contain e.dst
  /-- the count and the neighbours of a node are those of the edges that leave it -/
  neighbours : ∀ id, g.mNodeCollection.contain id → ∃ l, g.mNodeNeighbourCollection.find id = some l ∧
    g.mEdgeFromNodeCollection.find id = some l.length ∧ l.length = (g.outgoing id).length ∧
    (l : Multiset Nat) = ((g.outgoing id).map Edge.dst : List Nat)
  /-- only nodes have a count and neighbours -/
  nodes : g.mEdgeFromNodeCollection.mSortedIdCollection = g.mNodeCollection.mSortedIdCollection ∧
    g.mNodeNeighbourCollection.mSortedIdCollection = g.mNodeCollection.mSortedIdCollection

/-- `EraseNode` takes out exactly the node and the edges that enter or leave it. -/
def ErasesNode (g g' : DirGraph ν) (id : Nat) : Prop :=
  g'.mNodeCollection.entries = g.mNodeCollection.entries.filter (fun n => n.1 != id) ∧
    g'.edges = g.edges.filter fun e => !e.contain id

/-- The neighbours of a node, with repetitions for parallel edges. -/
def successors (g : DirGraph ν) (id : Nat) : List Nat := (g.neighbour id).getD []

/-- There is a way along the edges. -/
def HasPath (g : DirGraph ν) : Nat → Nat → Prop :=
  Relation.ReflTransGen fun src dst => ∃ e ∈ g.edges, e.src = src ∧ e.dst = dst

/-- `DfsTraverse` comes to its end, and hands every node that is reached from the start to the visitor once, and no
other. -/
def VisitsReachedOnce (g : DirGraph ν) (start : Nat) : Prop :=
  ∃ rounds visited, g.dfsTraverse rounds start = some visited ∧ visited.Nodup ∧
    ∀ id, id ∈ visited ↔ Traverse.Reaches g.successors start id

/-- A call that takes an identifier does so before the counter goes round. -/
def NoWrap (g : DirGraph ν) : Op ν → Prop
  | .insertNode _ => incTicketNumber g.mCrtId = g.mCrtId + 1
  | .insertEdge src dst =>
    g.mNodeCollection.contain src ∧ g.mNodeCollection.contain dst → incTicketNumber g.mCrtId = g.mCrtId + 1
  | _ => True

instance (g : DirGraph ν) : (op : Op ν) → Decidable (NoWrap g op)
  | .insertNode _ => inferInstanceAs (Decidable (_ = _))
  | .insertEdge _ _ => inferInstanceAs (Decidable (_ → _))
  | .eraseNode _ => isTrue trivial
  | .eraseEdge _ => isTrue trivial

end DirGraph

end BofStd
