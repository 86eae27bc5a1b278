import Bridgework.Proofs.Reach.Index
import Bridgework.Proofs.Unified.Graph
import Bridgework.Reach.Reached

/-!
# What the reached graph holds

The reached graph of some roots has the nodes that the roots reach by calls, and every edge that leaves
such a node. It is found by numbers: the roots are numbered, the closure of their numbers is marked, and
the marked numbers are turned into nodes again.

- `mem_roots_reachedGraph`, `mem_nodes_reachedGraph`, `mem_edges_reachedGraph` : the three parts
- `reachedGraph_exact` : all of them together
-/

namespace Bridgework

variable {g : Graph} {roots : SortedSet Node} {x : Node} {e : Edge}

/-! ## Roots -/

theorem lt_size_of_mem_positions {xs : List Node} {n : Nat}
    (hn : n ∈ (Index.ofGraph g).positions xs) : n < (Index.ofGraph g).size := by
  obtain ⟨x, _, hx⟩ := Index.mem_positions_iff.1 hn
  exact Index.lt_size_of_numberedAt hx

theorem mem_nodesAt_positions {xs : List Node} :
    x ∈ (Index.ofGraph g).nodesAt ((Index.ofGraph g).positions xs) ↔ x ∈ xs ∧ x ∈ g.nodes := by
  rw [Index.mem_nodesAt_iff]
  constructor
  · rintro ⟨n, hn, hx⟩
    obtain ⟨y, hy, hny⟩ := Index.mem_positions_iff.1 hn
    obtain rfl := hny.unique_node hx
    exact ⟨hy, hx.mem⟩
  · rintro ⟨hx, hmem⟩
    obtain ⟨n, hn⟩ := Graph.NumberedAt.exists_of_mem hmem
    exact ⟨n, Index.mem_positions_iff.2 ⟨x, hx, hn⟩, hn⟩

theorem mem_roots_reachedGraph :
    x ∈ (reachedGraph g roots).roots ↔ x ∈ roots ∧ x ∈ g.nodes := by
  have hroots : x ∈ (reachedGraph g roots).roots ↔ _ := SortedSet.mem_ofList
  rw [hroots, mem_nodesAt_positions]
  exact Iff.rfl

/-! ## Nodes and edges -/

/-- The nodes whose numbers are marked are those that a root of the graph reaches. -/
theorem mem_nodesAt_marked {xs : List Node} :
    x ∈ (Index.ofGraph g).nodesAt ((Index.ofGraph g).marked
        ((Index.ofGraph g).forward ((Index.ofGraph g).positions xs))) ↔
      ∃ r ∈ xs, r ∈ g.nodes ∧ g.Reaches r x := by
  have hlt : ∀ a ∈ (Index.ofGraph g).positions xs, a < (Index.ofGraph g).size :=
    fun a ha => lt_size_of_mem_positions ha
  have hforward (n : Nat) := Index.forward_iff (n := n) hlt
  rw [Index.mem_nodesAt_iff]
  constructor
  -- A number that is marked is that of a node which a root reaches.
  · rintro ⟨n, hn, hx⟩
    obtain ⟨a, ha, han⟩ := (hforward n).1 (Index.mem_marked_iff.1 hn).2
    obtain ⟨r, hr, har⟩ := Index.mem_positions_iff.1 ha
    exact ⟨r, hr, har.mem, (Index.reachable_next_iff har hx).1 han⟩
  -- A node which a root reaches has a number, and that is marked.
  · rintro ⟨r, hr, hmem, hrx⟩
    obtain ⟨a, ha⟩ := Graph.NumberedAt.exists_of_mem hmem
    obtain ⟨n, hn⟩ := Graph.NumberedAt.exists_of_mem (hrx.mem_nodes hmem)
    have hmark : ((Index.ofGraph g).forward ((Index.ofGraph g).positions xs)).getD n false = true :=
      (hforward n).2
        ⟨a, Index.mem_positions_iff.2 ⟨r, hr, ha⟩, (Index.reachable_next_iff ha hn).2 hrx⟩
    exact ⟨n, Index.mem_marked_iff.2 ⟨Index.lt_size_of_numberedAt hn, hmark⟩, hn⟩

/-- The nodes of the reached graph are those that a root reaches. -/
theorem mem_nodes_reachedGraph :
    x ∈ (reachedGraph g roots).graph.nodes ↔ ∃ r ∈ roots, r ∈ g.nodes ∧ g.Reaches r x := by
  have hnodes : x ∈ (reachedGraph g roots).graph.nodes ↔ _ := Graph.mem_nodes_induced
  rw [hnodes, SortedSet.mem_ofList, mem_nodesAt_marked]
  constructor
  · rintro ⟨_, r, hr, hmem, hrx⟩
    exact ⟨r, hr, hmem, hrx⟩
  · rintro ⟨r, hr, hmem, hrx⟩
    exact ⟨hrx.mem_nodes hmem, r, hr, hmem, hrx⟩

/-- A call from a node that is reached leads to one that is reached. -/
theorem mem_nodes_reachedGraph_of_calls {y : Node} (hx : x ∈ (reachedGraph g roots).graph.nodes)
    (hxy : g.Calls x y) : y ∈ (reachedGraph g roots).graph.nodes := by
  obtain ⟨r, hr, hmem, hrx⟩ := mem_nodes_reachedGraph.1 hx
  exact mem_nodes_reachedGraph.2 ⟨r, hr, hmem, hrx.tail hxy⟩

/-- The edges of the reached graph are those that begin at its nodes. -/
theorem mem_edges_reachedGraph :
    e ∈ (reachedGraph g roots).graph.edges ↔
      e ∈ g.edges ∧ e.source ∈ (reachedGraph g roots).graph.nodes := by
  constructor
  · intro he
    refine ⟨?_, ((reachedGraph g roots).graph.closed e he).1⟩
    exact (Graph.mem_edges_induced.1 he).1
  · rintro ⟨he, hsource⟩
    -- The target of an edge that leaves a reached node is reached too, so the edge is kept.
    have htarget : e.target ∈ (reachedGraph g roots).graph.nodes :=
      mem_nodes_reachedGraph_of_calls hsource he
    exact Graph.mem_edges_induced.2
      ⟨he, (Graph.mem_nodes_induced.1 hsource).2, (Graph.mem_nodes_induced.1 htarget).2⟩

/-- The roots are those that the graph has, the nodes are what they reach, and the edges are all edges
of the graph that leave a reached node, so that nothing leads out of the reached graph. For a package
the roots are its own functions. -/
theorem reachedGraph_exact (g : Graph) (roots : SortedSet Node) :
    (∀ x, x ∈ (reachedGraph g roots).roots ↔ x ∈ roots ∧ x ∈ g.nodes) ∧
    (∀ x, x ∈ (reachedGraph g roots).graph.nodes ↔
      ∃ r ∈ (reachedGraph g roots).roots, g.Reaches r x) ∧
    (∀ e, e ∈ (reachedGraph g roots).graph.edges ↔
      e ∈ g.edges ∧ e.source ∈ (reachedGraph g roots).graph.nodes) ∧
    (∀ x ∈ (reachedGraph g roots).graph.nodes, ∀ y, g.Calls x y →
      y ∈ (reachedGraph g roots).graph.nodes) ∧
    ∀ client, ∃ own : SortedSet Node, reachedFromPackage g client = reachedGraph g own ∧
      ∀ x, x ∈ own ↔ x ∈ g.nodes ∧ ∃ name, x = .interpreted client name := by
  refine ⟨fun x => mem_roots_reachedGraph, fun x => ?_, fun e => mem_edges_reachedGraph,
    fun x hx y hxy => mem_nodes_reachedGraph_of_calls hx hxy, fun client => ?_⟩
  · rw [mem_nodes_reachedGraph]
    constructor
    · rintro ⟨r, hr, hmem, hrx⟩
      exact ⟨r, mem_roots_reachedGraph.2 ⟨hr, hmem⟩, hrx⟩
    · rintro ⟨r, hr, hrx⟩
      obtain ⟨hroot, hmem⟩ := mem_roots_reachedGraph.1 hr
      exact ⟨r, hroot, hmem, hrx⟩
  · exact ⟨g.ownFunctions client, rfl, fun x => Graph.mem_ownFunctions⟩

end Bridgework
