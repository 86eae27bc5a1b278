import Bridgework.Error
import Bridgework.Json.Printer
import Bridgework.Json.Reader
import Bridgework.Unified.Graph

/-!
# The indexed form of a graph

For exchange, nodes are numbered in their order and edges are pairs of numbers.

- `IndexedNode`, `IndexedGraph` : the exchanged form
- `Graph.toIndexed` : numbers a graph
- `Graph.ofIndexed` : rebuilds it; library paths are brought to their stored form
- `Graph.parse`, `Graph.render` : the form as a JSON text
-/

namespace Bridgework

/-! ## The exchanged form -/

/-- A node as it is exchanged; only native nodes have a library. -/
structure IndexedNode where
  name : String
  package : Package
  library : Option String
  deriving DecidableEq, Repr

namespace IndexedNode

def ofNode : Node → IndexedNode
  | .interpreted p n => ⟨n, p, none⟩
  | .native l s => ⟨s, l.package, some l.path⟩

/-- The node, with the path of its library in stored form. -/
def toNode (n : IndexedNode) : Node :=
  match n.library with
  | some path => .native (.ofPath n.package path) n.name
  | none => .interpreted n.package n.name

def toJson (n : IndexedNode) : Json :=
  .object ([("name", .text n.name), ("package", n.package.toJson)] ++
    match n.library with
    | some path => [("library", .text path)]
    | none => [])

def ofJson? (j : Json) : Option IndexedNode := do
  let r ← j.record ["name", "package", "library"]
  return ⟨← r.required "name" Json.asString, ← r.required "package" Package.ofJson?,
    ← r.withDefault "library" none (Json.asOption Json.asString)⟩

end IndexedNode

structure IndexedGraph where
  nodes : SortedMap Nat IndexedNode
  edges : List (Nat × Nat)

namespace IndexedGraph

def toJson (g : IndexedGraph) : Json :=
  .object [
    ("nodes", .object (g.nodes.toList.map fun n => (toString n.1, n.2.toJson))),
    ("edges", .list (fun e : Nat × Nat => .arr [.nat e.1, .nat e.2]) g.edges)]

def ofJson? (j : Json) : Option IndexedGraph := do
  let r ← j.record ["nodes", "edges"]
  let nodes ← r.required "nodes" (Json.asNumbered IndexedNode.ofJson?)
  let edges ← r.required "edges" (Json.asList (Json.asPair Json.asNat Json.asNat))
  return ⟨.ofList nodes, edges⟩

end IndexedGraph

/-! ## Numbering and rebuilding -/

namespace Graph

/-- The number of a node: its place in the order of nodes. -/
def indexOf? (g : Graph) (x : Node) : Option Nat := g.nodes.toList.findIdx? (· == x)

def edgeIndices? (g : Graph) (e : Edge) : Option (Nat × Nat) :=
  match g.indexOf? e.source, g.indexOf? e.target with
  | some i, some j => some (i, j)
  | _, _ => none

/-- The exchanged form: nodes numbered from zero in their order. -/
def toIndexed (g : Graph) : IndexedGraph where
  nodes := .ofList (g.nodes.toList.zipIdx.map fun n => (n.2, .ofNode n.1))
  edges := g.edges.toList.filterMap g.edgeIndices?

/-- Adds exchanged edges one after another; the first with an undeclared end is an error. -/
def addIndexedEdges (nodes : SortedMap Nat IndexedNode) :
    Graph → List (Nat × Nat) → Except Error Graph
  | g, [] => .ok g
  | g, (i, j) :: edges =>
    match nodes.get? i, nodes.get? j with
    | some a, some b => addIndexedEdges nodes (g.addCall a.toNode b.toNode) edges
    | _, _ => .error (.danglingEdge i j)

def ofIndexed (x : IndexedGraph) : Except Error Graph :=
  addIndexedEdges x.nodes (x.nodes.values.foldl (fun g n => g.addNode n.toNode) .empty) x.edges

/-! ## Documents -/

def toJson (g : Graph) : Json := g.toIndexed.toJson

def ofJson (j : Json) : Except Error Graph :=
  match IndexedGraph.ofJson? j with
  | some x => ofIndexed x
  | none => .error .unexpectedForm

def render (g : Graph) : String := g.toJson.render

/-- The graph of a text. An undeclared end of an edge is found before anything that follows the
document. -/
def parse (s : String) : Except Error Graph :=
  match Json.read? s with
  | none => .error .unexpectedForm
  | some (j, rest) =>
    match ofJson j with
    | .error e => .error e
    | .ok g => if Json.isDone rest then .ok g else .error .unexpectedForm

end Graph
end Bridgework
