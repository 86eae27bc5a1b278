import Bridgework.Unified.Graph

/-!
# Members of graphs

What each operation on graphs does to nodes and edges, and ways of calls put together.

- `Graph.mem_nodes_addEdges`, `Graph.mem_edges_addEdges` : adding edges one after another
- `Graph.mem_nodes_induced`, `Graph.mem_edges_induced` : keeping some nodes
- `Graph.Reaches.trans` : two ways of calls in a row
-/

namespace Bridgework
namespace Graph

variable {g : Graph} {x : Node} {e : Edge}

/-! ## Construction -/

@[simp] theorem mem_nodes_empty : ¬ x ∈ empty.nodes := SortedSet.not_mem_empty

@[simp] theorem mem_edges_empty : ¬ e ∈ empty.edges := SortedSet.not_mem_empty

/-- Nodes are added to those that are there. -/
theorem mem_nodes_addNodes {xs : List Node} :
    x ∈ (xs.foldl addNode g).nodes ↔ x ∈ xs ∨ x ∈ g.nodes := by
  induction xs generalizing g with
  | nil => simp
  | cons y xs ih =>
    have hy : x ∈ (g.addNode y).nodes ↔ x = y ∨ x ∈ g.nodes := SortedSet.mem_insert
    rw [List.foldl_cons, ih, hy, List.mem_cons]
    exact or_left_comm.trans or_assoc.symm

theorem mem_edges_addNodes {xs : List Node} : e ∈ (xs.foldl addNode g).edges ↔ e ∈ g.edges := by
  induction xs generalizing g with
  | nil => rfl
  | cons y xs ih => exact ih

theorem mem_nodes_addEdge {f : Edge} :
    x ∈ (g.addEdge f).nodes ↔ (x = f.source ∨ x = f.target) ∨ x ∈ g.nodes := by
  have hnodes : x ∈ (g.addEdge f).nodes ↔ x = f.target ∨ x = f.source ∨ x ∈ g.nodes :=
    SortedSet.mem_insert.trans (or_congr_right SortedSet.mem_insert)
  rw [hnodes]
  exact or_left_comm.trans or_assoc.symm

/-- Edges add their ends to the nodes. -/
theorem mem_nodes_addEdges {es : List Edge} :
    x ∈ (es.foldl addEdge g).nodes ↔ (∃ f ∈ es, x = f.source ∨ x = f.target) ∨ x ∈ g.nodes := by
  induction es generalizing g with
  | nil => simp
  | cons f es ih =>
    rw [List.foldl_cons, ih, mem_nodes_addEdge]
    simp only [List.mem_cons, exists_eq_or_imp]
    exact or_left_comm.trans or_assoc.symm

/-- Edges are added to those that are there. -/
theorem mem_edges_addEdges {es : List Edge} :
    e ∈ (es.foldl addEdge g).edges ↔ e ∈ es ∨ e ∈ g.edges := by
  induction es generalizing g with
  | nil => simp
  | cons f es ih =>
    have hf : e ∈ (g.addEdge f).edges ↔ e = f ∨ e ∈ g.edges := SortedSet.mem_insert
    rw [List.foldl_cons, ih, hf, List.mem_cons]
    exact or_left_comm.trans or_assoc.symm

/-- The part of a graph over some nodes has those of them that the graph has. -/
theorem mem_nodes_induced {keep : SortedSet Node} :
    x ∈ (g.induced keep).nodes ↔ x ∈ g.nodes ∧ x ∈ keep := by
  have hfilter : x ∈ (g.induced keep).nodes ↔ x ∈ g.nodes ∧ keep.contains x = true :=
    SortedSet.mem_filter
  rw [hfilter, SortedSet.contains_iff]

/-- The part of a graph over some nodes has the edges between them. -/
theorem mem_edges_induced {keep : SortedSet Node} :
    e ∈ (g.induced keep).edges ↔ e ∈ g.edges ∧ e.source ∈ keep ∧ e.target ∈ keep := by
  have hfilter : e ∈ (g.induced keep).edges ↔
      e ∈ g.edges ∧ (keep.contains e.source && keep.contains e.target) = true :=
    SortedSet.mem_filter
  rw [hfilter, Bool.and_eq_true, SortedSet.contains_iff, SortedSet.contains_iff]

/-! ## Queries -/

/-- The own functions of a package are the interpreted nodes of it. -/
theorem mem_ownFunctions {p : Package} :
    x ∈ g.ownFunctions p ↔ x ∈ g.nodes ∧ ∃ name, x = .interpreted p name := by
  have hfilter : x ∈ g.ownFunctions p ↔ x ∈ g.nodes ∧ x.isOwnOf p = true := SortedSet.mem_filter
  rw [hfilter]
  cases x with
  | interpreted q name =>
    simp only [Node.isOwnOf, beq_iff_eq, Node.interpreted.injEq, exists_and_left, exists_eq', and_true]
  | native l s => simp [Node.isOwnOf]

/-! ## Ways of calls -/

namespace Reaches

theorem trans {x y z : Node} (hxy : g.Reaches x y) (hyz : g.Reaches y z) : g.Reaches x z := by
  induction hxy with
  | refl _ => exact hyz
  | step h _ ih => exact .step h (ih hyz)

theorem tail {x y z : Node} (hxy : g.Reaches x y) (hyz : g.Calls y z) : g.Reaches x z :=
  hxy.trans (.step hyz (.refl z))

/-- Whatever a node of the graph reaches is a node of the graph. -/
theorem mem_nodes {x y : Node} (h : g.Reaches x y) (hx : x ∈ g.nodes) : y ∈ g.nodes := by
  induction h with
  | refl _ => exact hx
  | step h _ ih => exact ih (g.closed _ h).2

end Reaches
end Graph
end Bridgework
