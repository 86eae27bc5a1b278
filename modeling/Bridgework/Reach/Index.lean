import Bridgework.Search.Closure
import Bridgework.Unified.Graph

/-!
# Numbered adjacency of a graph

For traversals the nodes of a graph are numbered in their order, and each has the lists of the numbers
of its successors and predecessors.

- `Index` : numbers, successors and predecessors
- `Index.ofGraph` : the numbering of a graph
- `Index.forward`, `Index.reverse` : what can be reached from some numbers, and what reaches them
-/

namespace Bridgework

/-- The nodes of a graph by number, with their neighbours. -/
structure Index where
  nodes : Array Node
  successors : Array (List Nat)
  predecessors : Array (List Nat)

namespace Index

/-! ## Numbering -/

def place? (l : List Node) (x : Node) : Option Nat := l.findIdx? (· == x)

/-- The places of the callees of a node, in the order of the edges. -/
def calleePlaces (l : List Node) (edges : List Edge) (x : Node) : List Nat :=
  edges.filterMap fun e => if e.source = x then place? l e.target else none

def callerPlaces (l : List Node) (edges : List Edge) (x : Node) : List Nat :=
  edges.filterMap fun e => if e.target = x then place? l e.source else none

def ofGraph (g : Graph) : Index :=
  let l := g.nodes.toList
  let edges := g.edges.toList
  { nodes := l.toArray
    successors := (l.map (calleePlaces l edges)).toArray
    predecessors := (l.map (callerPlaces l edges)).toArray }

/-! ## Look-ups -/

def size (i : Index) : Nat := i.nodes.size

def position? (i : Index) (x : Node) : Option Nat := place? i.nodes.toList x

def next (i : Index) (n : Nat) : List Nat := i.successors.getD n []

def previous (i : Index) (n : Nat) : List Nat := i.predecessors.getD n []

def nodesAt (i : Index) (ns : List Nat) : List Node := ns.filterMap fun n => i.nodes[n]?

/-- The numbers of those nodes that the graph has, in increasing order. -/
def positions (i : Index) (xs : List Node) : List Nat :=
  (SortedSet.ofList (xs.filterMap i.position?)).toList

def ownFunctions (i : Index) (p : Package) : List Nat :=
  (List.range i.size).filter fun n =>
    match i.nodes[n]? with
    | some x => x.isOwnOf p
    | none => false

/-! ## Closures -/

def marks (i : Index) (ns : List Nat) : Array Bool :=
  ns.foldl (fun a n => a.setIfInBounds n true) (Array.replicate i.size false)

/-- Marks what can be reached from some numbers. -/
def forward (i : Index) (starts : List Nat) : Array Bool :=
  i.marks (Search.closure i.next i.size starts)

/-- Marks what reaches one of some numbers. -/
def reverse (i : Index) (goals : List Nat) : Array Bool :=
  i.marks (Search.closure i.previous i.size goals)

/-- The marked numbers in increasing order. -/
def marked (i : Index) (a : Array Bool) : List Nat :=
  (List.range i.size).filter fun n => a.getD n false

end Index
end Bridgework
