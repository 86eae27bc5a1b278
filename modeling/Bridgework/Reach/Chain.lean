import Bridgework.Reach.Index
import Bridgework.Search.Shortest
import Bridgework.Search.Simple

/-!
# Call chains

Ways of calls from some roots to a target.

- `Graph.targets` : the nodes of a name, in one library or in all
- `Index.chains` : the simple chains to a target within bounds, in the order of nodes
- `Index.shortestChain?` : one shortest chain
- `packageChains`, `packageShortestChain?` : chains from the functions of a package to every target
  of a name
-/

namespace Bridgework

/-- A way of calls: each node calls the next. -/
abbrev Chain := List Node

structure ChainList where
  chains : List Chain
  /-- Whether a bound cut something off. -/
  truncated : Bool
  deriving DecidableEq, Repr

/-! ## Targets -/

/-- The nodes of a name; with a library path, only native nodes of libraries at that path. -/
def Graph.targets (g : Graph) (symbol : String) (library : Option String) : List Node :=
  g.nodes.toList.filter fun x =>
    x.name == symbol &&
      match library with
      | some path =>
        match x.library? with
        | some l => l.path == path
        | none => false
      | none => true

/-! ## Chains to one target -/

namespace Index

/-- The search for chains to the node with a number, through nodes that reach it. -/
def hunt (i : Index) (t : Nat) (limits : Search.Limits) : Search.Hunt :=
  ⟨i.next, i.reverse [t], t, limits⟩

def chains (i : Index) (roots : List Node) (target : Node) (limits : Search.Limits) : ChainList :=
  match i.position? target with
  | none => ⟨[], false⟩
  | some t =>
    let found := (i.hunt t limits).search (i.positions roots)
    ⟨found.found.toList.map i.nodesAt, found.truncated⟩

def shortestChain? (i : Index) (roots : List Node) (target : Node) : Option Chain :=
  match i.position? target with
  | none => none
  | some t => (Search.shortestPath? i.next t i.size (i.positions roots)).map i.nodesAt

/-! ## Chains to several targets -/

/-- The chains to targets one after another, as long as there is room; a target for which no room is
left counts as cut off. -/
def chainsToAll (i : Index) (roots : List Node) (steps : Nat) : Nat → List Node → ChainList
  | _, [] => ⟨[], false⟩
  | 0, _ :: _ => ⟨[], true⟩
  | room + 1, t :: ts =>
    let first := i.chains roots t ⟨room + 1, steps⟩
    let rest := i.chainsToAll roots steps (room + 1 - first.chains.length) ts
    ⟨first.chains ++ rest.chains, first.truncated || rest.truncated⟩

/-- The first of the shortest among the chains to several targets. -/
def shortestToAny? (i : Index) (roots : List Node) (targets : List Node) : Option Chain :=
  (targets.filterMap (i.shortestChain? roots)).foldl (fun best c =>
    match best with
    | none => some c
    | some b => if c.length < b.length then some c else some b) none

end Index

def packageChains (g : Graph) (client : Package) (symbol : String) (library : Option String)
    (limits : Search.Limits) : ChainList :=
  (Index.ofGraph g).chainsToAll (g.ownFunctions client).toList limits.steps limits.paths
    (g.targets symbol library)

def packageShortestChain? (g : Graph) (client : Package) (symbol : String)
    (library : Option String) : Option Chain :=
  (Index.ofGraph g).shortestToAny? (g.ownFunctions client).toList (g.targets symbol library)

end Bridgework
