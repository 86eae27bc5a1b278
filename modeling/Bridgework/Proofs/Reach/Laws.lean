import Bridgework.Proofs.Reach.Agreement

/-!
# Laws of the reached graph

A larger graph has other numbers and other neighbours, so two searches cannot be compared step by step.
They are compared by what they find: a way of calls stays one when nodes and edges are added, a root of
either of two sets is a root of their union, and from what is reached nothing leads out.

- `Graph.Within`, `ReachedGraph.Within` : parts of graphs and of reached graphs
- `ReachedGraph.union` : two reached graphs together
- `reachedGraph_within`, `reachedGraph_union`, `reachedGraph_reachedGraph` : the three laws
- `reachedGraph_laws` : all of them
-/

namespace Bridgework

/-! ## Parts and unions -/

/-- The nodes and edges of a graph are nodes and edges of another. -/
structure Graph.Within (g g' : Graph) : Prop where
  nodes : ∀ x ∈ g.nodes, x ∈ g'.nodes
  edges : ∀ e ∈ g.edges, e ∈ g'.edges

theorem Graph.within_addEdge (g : Graph) (e : Edge) : g.Within (g.addEdge e) where
  nodes _ hx := SortedSet.mem_insert.2 (.inr (SortedSet.mem_insert.2 (.inr hx)))
  edges _ he := SortedSet.mem_insert.2 (.inr he)

/-- Ways of calls stay when calls are added. -/
theorem Graph.Reaches.mono {g g' : Graph} {x y : Node} (hreach : g.Reaches x y) (h : g.Within g') :
    g'.Reaches x y := by
  induction hreach with
  | refl x => exact .refl x
  | step hcall _ ih => exact .step (h.edges _ hcall) ih

namespace ReachedGraph

/-- The roots, nodes and edges of a reached graph are those of another. -/
structure Within (r r' : ReachedGraph) : Prop where
  roots : ∀ x ∈ r.roots, x ∈ r'.roots
  graph : r.graph.Within r'.graph

/-- What two reached graphs have together. -/
def union (r r' : ReachedGraph) : ReachedGraph := ⟨r.roots.union r'.roots, r.graph.merge r'.graph⟩

theorem ext_mem {r r' : ReachedGraph} (hroots : ∀ x, x ∈ r.roots ↔ x ∈ r'.roots)
    (hnodes : ∀ x, x ∈ r.graph.nodes ↔ x ∈ r'.graph.nodes)
    (hedges : ∀ e, e ∈ r.graph.edges ↔ e ∈ r'.graph.edges) : r = r' := by
  cases r
  cases r'
  obtain rfl := SortedSet.ext hroots
  obtain rfl := Graph.ext hnodes hedges
  rfl

end ReachedGraph

variable {g g' : Graph} {roots roots' : SortedSet Node}

/-! ## The laws -/

/-- More calls and more roots lead to more. -/
theorem reachedGraph_within (hg : g.Within g') (hroots : ∀ x ∈ roots, x ∈ roots') :
    (reachedGraph g roots).Within (reachedGraph g' roots') := by
  have hnodes : ∀ x ∈ (reachedGraph g roots).graph.nodes, x ∈ (reachedGraph g' roots').graph.nodes := by
    intro x hx
    obtain ⟨r, hr, hmem, hreach⟩ := mem_nodes_reachedGraph.1 hx
    exact mem_nodes_reachedGraph.2 ⟨r, hroots r hr, hg.nodes r hmem, hreach.mono hg⟩
  refine ⟨?_, hnodes, ?_⟩
  · intro x hx
    obtain ⟨hroot, hmem⟩ := mem_roots_reachedGraph.1 hx
    exact mem_roots_reachedGraph.2 ⟨hroots x hroot, hg.nodes x hmem⟩
  · -- An edge is kept because its source is reached; that its target is reached too need not be shown.
    intro e he
    obtain ⟨hedge, hsource⟩ := mem_edges_reachedGraph.1 he
    exact mem_edges_reachedGraph.2 ⟨hg.edges e hedge, hnodes e.source hsource⟩

/-- From two sets of roots together, what is reached is what is reached from either. -/
theorem mem_nodes_reachedGraph_union {x : Node} :
    x ∈ (reachedGraph g (roots.union roots')).graph.nodes ↔
      x ∈ (reachedGraph g roots).graph.nodes ∨ x ∈ (reachedGraph g roots').graph.nodes := by
  simp only [mem_nodes_reachedGraph, SortedSet.mem_union]
  constructor
  · rintro ⟨r, hr | hr, hmem, hreach⟩
    · exact .inl ⟨r, hr, hmem, hreach⟩
    · exact .inr ⟨r, hr, hmem, hreach⟩
  · rintro (⟨r, hr, hmem, hreach⟩ | ⟨r, hr, hmem, hreach⟩)
    · exact ⟨r, .inl hr, hmem, hreach⟩
    · exact ⟨r, .inr hr, hmem, hreach⟩

/-- The reached graph of two sets of roots is put together from those of each. -/
theorem reachedGraph_union (g : Graph) (roots roots' : SortedSet Node) :
    reachedGraph g (roots.union roots') = (reachedGraph g roots).union (reachedGraph g roots') := by
  apply ReachedGraph.ext_mem
  · intro x
    have hunion : x ∈ ((reachedGraph g roots).union (reachedGraph g roots')).roots ↔ _ := SortedSet.mem_union
    rw [hunion, mem_roots_reachedGraph, mem_roots_reachedGraph, mem_roots_reachedGraph, SortedSet.mem_union]
    exact or_and_right
  · intro x
    exact mem_nodes_reachedGraph_union.trans SortedSet.mem_union.symm
  · intro e
    have hunion : e ∈ ((reachedGraph g roots).union (reachedGraph g roots')).graph.edges ↔ _ :=
      SortedSet.mem_union
    rw [hunion, mem_edges_reachedGraph, mem_edges_reachedGraph, mem_edges_reachedGraph,
      mem_nodes_reachedGraph_union]
    exact and_or_left

/-- What is reached from the roots of a reached graph, within it, is all of it. -/
theorem reachedGraph_reachedGraph (g : Graph) (roots : SortedSet Node) :
    reachedGraph (reachedGraph g roots).graph (reachedGraph g roots).roots = reachedGraph g roots := by
  have hroots : ∀ x ∈ (reachedGraph g roots).roots, x ∈ (reachedGraph g roots).graph.nodes := by
    intro x hx
    obtain ⟨hroot, hmem⟩ := mem_roots_reachedGraph.1 hx
    exact mem_reachedGraph_of_mem_roots hroot hmem
  have hnodes : ∀ x, x ∈ (reachedGraph (reachedGraph g roots).graph (reachedGraph g roots).roots).graph.nodes ↔
      x ∈ (reachedGraph g roots).graph.nodes := by
    intro x
    constructor
    · exact mem_nodes_of_mem_reachedGraph
    · intro hx
      obtain ⟨r, hr, hmem, hreach⟩ := mem_nodes_reachedGraph.1 hx
      have hroot : r ∈ (reachedGraph g roots).roots := mem_roots_reachedGraph.2 ⟨hr, hmem⟩
      -- A way of calls from a root does not leave the reached graph.
      exact mem_nodes_reachedGraph.2
        ⟨r, hroot, hroots r hroot, (reaches_reachedGraph_iff (hroots r hroot)).2 hreach⟩
  apply ReachedGraph.ext_mem
  · intro x
    exact mem_roots_reachedGraph.trans (and_iff_left_of_imp (hroots x))
  · exact hnodes
  · intro e
    rw [mem_edges_reachedGraph, hnodes]
    exact and_iff_left_of_imp fun he => ((reachedGraph g roots).graph.closed e he).1

/-- With more nodes, edges and roots, no less is reached; from two sets of roots together, what is reached
from either; and from the roots of a reached graph, within it, the same reached graph again. -/
theorem reachedGraph_laws (g : Graph) (roots : SortedSet Node) :
    (∀ g' roots', (∀ x ∈ g.nodes, x ∈ g'.nodes) → (∀ e ∈ g.edges, e ∈ g'.edges) →
      (∀ x ∈ roots, x ∈ roots') →
        (∀ x ∈ (reachedGraph g roots).graph.nodes, x ∈ (reachedGraph g' roots').graph.nodes) ∧
        (∀ e ∈ (reachedGraph g roots).graph.edges, e ∈ (reachedGraph g' roots').graph.edges) ∧
        ∀ x ∈ (reachedGraph g roots).roots, x ∈ (reachedGraph g' roots').roots) ∧
    (∀ roots', reachedGraph g (roots.union roots') =
      ⟨(reachedGraph g roots).roots.union (reachedGraph g roots').roots,
        (reachedGraph g roots).graph.merge (reachedGraph g roots').graph⟩) ∧
    reachedGraph (reachedGraph g roots).graph (reachedGraph g roots).roots = reachedGraph g roots := by
  refine ⟨?_, reachedGraph_union g roots, reachedGraph_reachedGraph g roots⟩
  intro g' roots' hnodes hedges hroots
  have hwithin := reachedGraph_within ⟨hnodes, hedges⟩ hroots
  exact ⟨hwithin.graph.nodes, hwithin.graph.edges, hwithin.roots⟩

def oneCall : Graph := .addCall .empty (.interpreted ⟨"app", "1"⟩ "f") (.interpreted ⟨"app", "1"⟩ "g")

theorem reachedGraph_laws_added_call :
    let roots : SortedSet Node := .ofList [.interpreted ⟨"app", "1"⟩ "f"]
    let further := oneCall.addCall (.interpreted ⟨"app", "1"⟩ "g") (.interpreted ⟨"app", "1"⟩ "f")
    ∀ x ∈ (reachedGraph oneCall roots).graph.nodes, x ∈ (reachedGraph further roots).graph.nodes := by
  intro roots further
  have hwithin := oneCall.within_addEdge ⟨.interpreted ⟨"app", "1"⟩ "g", .interpreted ⟨"app", "1"⟩ "f"⟩
  exact ((reachedGraph_laws oneCall roots).1 further roots hwithin.nodes hwithin.edges fun _ hx => hx).1

end Bridgework
