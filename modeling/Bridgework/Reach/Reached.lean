import Bridgework.Reach.Index
import Bridgework.Unified.Indexed

/-!
# The part of a graph that is reached

- `ReachedGraph` : the roots found in a graph, and everything reached from them
- `reachedGraph`, `reachedFromPackage` : from given roots, from the functions of a package
-/

namespace Bridgework

/-- What is reached from some roots, with the edges between it. -/
structure ReachedGraph where
  roots : SortedSet Node
  graph : Graph
  deriving DecidableEq

namespace ReachedGraph

def toJson (r : ReachedGraph) : Json :=
  .object [("roots", .list Node.toJson r.roots.toList), ("graph", r.graph.toJson)]

end ReachedGraph

/-- What is reached from the roots that the graph has. -/
def reachedGraph (g : Graph) (roots : SortedSet Node) : ReachedGraph :=
  let index := Index.ofGraph g
  let starts := index.positions roots.toList
  let marks := index.forward starts
  { roots := .ofList (index.nodesAt starts)
    graph := g.induced (.ofList (index.nodesAt (index.marked marks))) }

def reachedFromPackage (g : Graph) (client : Package) : ReachedGraph :=
  reachedGraph g (g.ownFunctions client)

end Bridgework
