import Bridgework.Unified.Node

/-!
# The unified call graph

A set of nodes and a set of edges between them. That both ends of an edge are nodes is part of the
type.

- `Graph` : nodes and edges
- `Graph.addNode`, `Graph.addEdge`, `Graph.merge`, `Graph.induced` : the operations
- `Graph.Reaches` : there is a way of calls from one node to another
-/

namespace Bridgework

/-- A call graph over interpreted and native functions. -/
structure Graph where
  nodes : SortedSet Node
  edges : SortedSet Edge
  /-- Both ends of an edge are nodes. -/
  closed : ∀ e ∈ edges, e.source ∈ nodes ∧ e.target ∈ nodes

namespace Graph

theorem ext_sets {g h : Graph} (hn : g.nodes = h.nodes) (he : g.edges = h.edges) : g = h := by
  cases g
  cases h
  cases hn
  cases he
  rfl

/-- Graphs with the same nodes and the same edges are equal. -/
@[ext] theorem ext {g h : Graph} (hn : ∀ x, x ∈ g.nodes ↔ x ∈ h.nodes)
    (he : ∀ e, e ∈ g.edges ↔ e ∈ h.edges) : g = h :=
  ext_sets (SortedSet.ext hn) (SortedSet.ext he)

instance : DecidableEq Graph := fun g h =>
  if hn : g.nodes = h.nodes then
    if he : g.edges = h.edges then isTrue (ext_sets hn he)
    else isFalse fun hgh => he (hgh ▸ rfl)
  else isFalse fun hgh => hn (hgh ▸ rfl)

/-! ## Construction -/

def empty : Graph := ⟨.empty, .empty, fun _ h => absurd h SortedSet.not_mem_empty⟩

instance : Inhabited Graph := ⟨empty⟩

def addNode (g : Graph) (x : Node) : Graph where
  nodes := g.nodes.insert x
  edges := g.edges
  closed e he := by
    have := g.closed e he
    simp [this.1, this.2]

/-- Adds an edge together with its ends. -/
def addEdge (g : Graph) (e : Edge) : Graph where
  nodes := (g.nodes.insert e.source).insert e.target
  edges := g.edges.insert e
  closed f hf := by
    rcases SortedSet.mem_insert.1 hf with rfl | hf
    · simp
    · have := g.closed f hf
      simp [this.1, this.2]

def addCall (g : Graph) (caller callee : Node) : Graph := g.addEdge ⟨caller, callee⟩

def merge (g h : Graph) : Graph where
  nodes := g.nodes.union h.nodes
  edges := g.edges.union h.edges
  closed e he := by
    rcases SortedSet.mem_union.1 he with he | he
    · have := g.closed e he
      simp [this.1, this.2]
    · have := h.closed e he
      simp [this.1, this.2]

/-- The nodes that are kept, with the edges between them. -/
def induced (g : Graph) (keep : SortedSet Node) : Graph where
  nodes := g.nodes.filter keep.contains
  edges := g.edges.filter fun e => keep.contains e.source && keep.contains e.target
  closed e he := by
    have ⟨h, hk⟩ := SortedSet.mem_filter.1 he
    have := g.closed e h
    simp only [Bool.and_eq_true] at hk
    exact ⟨SortedSet.mem_filter.2 ⟨this.1, hk.1⟩, SortedSet.mem_filter.2 ⟨this.2, hk.2⟩⟩

/-! ## Queries -/

def ownFunctions (g : Graph) (p : Package) : SortedSet Node := g.nodes.filter (Node.isOwnOf p)

/-- The call from `x` to `y` is an edge. -/
def Calls (g : Graph) (x y : Node) : Prop := ⟨x, y⟩ ∈ g.edges

instance (g : Graph) (x y : Node) : Decidable (g.Calls x y) :=
  inferInstanceAs (Decidable (_ ∈ g.edges))

/-- There is a way of calls, possibly none, from `x` to `y`. -/
inductive Reaches (g : Graph) : Node → Node → Prop where
  | refl (x : Node) : Reaches g x x
  | step {x y z : Node} (h : g.Calls x y) (r : Reaches g y z) : Reaches g x z

end Graph
end Bridgework
