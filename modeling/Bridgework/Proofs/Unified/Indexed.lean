import Bridgework.Proofs.Reach.Index
import Bridgework.Proofs.Unified.Graph
import Bridgework.Unified.Indexed

/-!
# Graphs in indexed form

A graph is numbered in the order of its nodes, so its edges are listed in increasing order of numbers and
none of them is lost. Reading the numbered form back brings the paths of libraries to their stored form,
which may make one node out of two. Any other numbered form can be read exactly if its edges keep to the
numbers it declares.

- `Graph.normalized` : the image of a graph with all paths in stored form
- `IndexedGraph.Declares` : both numbers of a pair are declared
- `Graph.ofIndexed_eq` : reading as a search for the first undeclared pair
- `indexed_form_exact` : writing, reading back, and reading anything else
-/

namespace Bridgework

/-! ## Stored forms -/

/-- The node with the path of its library in stored form. -/
def Node.normalized : Node → Node
  | .interpreted p name => .interpreted p name
  | .native l s => .native l.normalized s

/-- The edge with both of its ends in stored form. -/
def Edge.normalized (e : Edge) : Edge := ⟨e.source.normalized, e.target.normalized⟩

/-- The graph with every path in stored form. Nodes that differ only in the form of a path become one. -/
def Graph.normalized (g : Graph) : Graph where
  nodes := g.nodes.map Node.normalized
  edges := g.edges.map Edge.normalized
  closed e he := by
    rcases SortedSet.mem_map.1 he with ⟨f, hf, rfl⟩
    have hends := g.closed f hf
    exact ⟨SortedSet.mem_map.2 ⟨f.source, hends.1, rfl⟩, SortedSet.mem_map.2 ⟨f.target, hends.2, rfl⟩⟩

/-- The indexed form of a node gives it back with its path normalized. -/
theorem IndexedNode.toNode_ofNode (x : Node) : (ofNode x).toNode = x.normalized := by
  cases x with
  | interpreted p name => rfl
  | native l s => rfl

/-- A graph whose paths are all normal is normal. -/
theorem Graph.normalized_eq_self {g : Graph}
    (h : ∀ l s, .native l s ∈ g.nodes → Path.normalize l.path = l.path) : g.normalized = g := by
  have hnode : ∀ x ∈ g.nodes, x.normalized = x := by
    intro x hx
    cases x with
    | interpreted p name => rfl
    | native l s =>
      have hpath : Path.normalize l.path = l.path := h l s hx
      simp only [Node.normalized, Library.normalized, Library.ofPath, hpath]
  have hedge : ∀ e ∈ g.edges, e.normalized = e := by
    intro e he
    have hends := g.closed e he
    simp only [Edge.normalized, hnode _ hends.1, hnode _ hends.2]
  -- A set is not changed by what changes none of its elements.
  have himage {α : Type} [Ord α] [Std.TransOrd α] [Std.LawfulEqOrd α] {s : SortedSet α} {f : α → α}
      (hf : ∀ a ∈ s, f a = a) (a : α) : a ∈ s.map f ↔ a ∈ s := by
    rw [SortedSet.mem_map]
    constructor
    · rintro ⟨b, hb, rfl⟩
      rwa [hf b hb]
    · intro ha
      exact ⟨a, ha, hf a ha⟩
  exact Graph.ext (himage hnode) (himage hedge)

/-! ## Writing -/

namespace Graph

variable {g : Graph}

/-- The number of a node is its place in their order. -/
theorem indexOf?_eq_some_iff {x : Node} {n : Nat} : g.indexOf? x = some n ↔ g.NumberedAt n x :=
  Index.place?_eq_some_iff g.nodes.nodup_toList

theorem edgeIndices?_eq_some_iff {e : Edge} {n m : Nat} :
    g.edgeIndices? e = some (n, m) ↔ g.NumberedAt n e.source ∧ g.NumberedAt m e.target := by
  rw [← indexOf?_eq_some_iff, ← indexOf?_eq_some_iff, edgeIndices?]
  cases g.indexOf? e.source with
  | none => simp
  | some i =>
    cases g.indexOf? e.target with
    | none => simp
    | some j => simp

theorem toList_nodes_toIndexed (g : Graph) :
    g.toIndexed.nodes.toList = g.nodes.toList.zipIdx.map fun n => (n.2, .ofNode n.1) := by
  have hnumbers : (g.nodes.toList.zipIdx.map fun n => (n.2, IndexedNode.ofNode n.1)).Pairwise
      fun a b => compare a.1 b.1 = .lt := by
    rw [List.pairwise_map]
    have hrange : (g.nodes.toList.zipIdx.map Prod.snd).Pairwise (· < ·) := by
      rw [List.zipIdx_map_snd]
      exact List.pairwise_lt_range'
    exact (List.pairwise_map.1 hrange).imp Nat.compare_eq_lt.2
  exact congrArg SortedMap.toList (SortedMap.ofList_toList ⟨_, hnumbers⟩)

/-- The indexed form has each node under its number. -/
theorem get?_nodes_toIndexed {n : Nat} {a : IndexedNode} :
    g.toIndexed.nodes.get? n = some a ↔ ∃ x, g.NumberedAt n x ∧ .ofNode x = a := by
  rw [SortedMap.get?_eq_some_iff, toList_nodes_toIndexed, List.mem_map]
  constructor
  · rintro ⟨⟨x, m⟩, hx, heq⟩
    obtain ⟨rfl, rfl⟩ := Prod.mk.inj heq
    exact ⟨x, List.mem_zipIdx_iff_getElem?.1 hx, rfl⟩
  · rintro ⟨x, hx, rfl⟩
    exact ⟨(x, n), List.mem_zipIdx_iff_getElem?.2 hx, rfl⟩

/-- The numbers of the nodes are those below how many there are. -/
theorem keys_nodes_toIndexed (g : Graph) : g.toIndexed.nodes.keys = List.range g.nodes.size := by
  calc
    g.toIndexed.nodes.keys = g.nodes.toList.zipIdx.map Prod.snd := by
      rw [SortedMap.keys, toList_nodes_toIndexed, List.map_map]
      rfl
    _ = List.range g.nodes.size := by
      rw [List.zipIdx_map_snd, List.range_eq_range']
      rfl

theorem values_nodes_toIndexed (g : Graph) :
    g.toIndexed.nodes.values = g.nodes.toList.map .ofNode := by
  calc
    g.toIndexed.nodes.values = (g.nodes.toList.zipIdx.map Prod.fst).map .ofNode := by
      rw [SortedMap.values, toList_nodes_toIndexed, List.map_map, List.map_map]
      rfl
    _ = g.nodes.toList.map .ofNode := by rw [List.zipIdx_map_fst]

/-- Both ends of an edge are nodes, so each edge has its pair of numbers. -/
theorem exists_edgeIndices {e : Edge} (he : e ∈ g.edges) : ∃ p, g.edgeIndices? e = some p := by
  have hends := g.closed e he
  obtain ⟨n, hn⟩ := NumberedAt.exists_of_mem hends.1
  obtain ⟨m, hm⟩ := NumberedAt.exists_of_mem hends.2
  exact ⟨(n, m), edgeIndices?_eq_some_iff.2 ⟨hn, hm⟩⟩

theorem length_edges_toIndexed (g : Graph) : g.toIndexed.edges.length = g.edges.size := by
  refine List.filterMap_length_eq_length.2 fun e he => ?_
  obtain ⟨p, hp⟩ := exists_edgeIndices he
  rw [hp]
  rfl

/-- The order of edges is that of their sources and then of their targets, and numbers have the order of
nodes. -/
theorem pairwise_edges_toIndexed (g : Graph) :
    g.toIndexed.edges.Pairwise (Prod.Lex (· < ·) (· < ·)) := by
  refine List.pairwise_filterMap.2 (g.edges.increasing.imp ?_)
  rintro e e' hlt ⟨n, m⟩ hnm ⟨n', m'⟩ hnm'
  obtain ⟨hn, hm⟩ := edgeIndices?_eq_some_iff.1 hnm
  obtain ⟨hn', hm'⟩ := edgeIndices?_eq_some_iff.1 hnm'
  have hlex : (compare e.source e'.source).then (compare e.target e'.target) = .lt := hlt
  rcases Ordering.then_eq_lt.1 hlex with hsource | ⟨hsource, htarget⟩
  · exact .left _ _ ((hn.lt_iff hn').1 hsource)
  · have hsame : e.source = e'.source := Std.LawfulEqOrd.eq_of_compare hsource
    obtain rfl : n = n' := hn.unique_number (hsame ▸ hn')
    exact .right _ ((hm.lt_iff hm').1 htarget)

end Graph

/-! ## Reading -/

namespace IndexedGraph

/-- Both numbers of a pair are declared. -/
def Declares (x : IndexedGraph) (p : Nat × Nat) : Prop := p.1 ∈ x.nodes.keys ∧ p.2 ∈ x.nodes.keys

instance (x : IndexedGraph) (p : Nat × Nat) : Decidable (x.Declares p) :=
  inferInstanceAs (Decidable (_ ∧ _))

/-- The edge that a pair of numbers stands for. -/
def edge? (nodes : SortedMap Nat IndexedNode) (p : Nat × Nat) : Option Edge :=
  match nodes.get? p.1, nodes.get? p.2 with
  | some a, some b => some ⟨a.toNode, b.toNode⟩
  | _, _ => none

variable {x : IndexedGraph} {p : Nat × Nat}

theorem edge?_eq_some_iff {nodes : SortedMap Nat IndexedNode} {e : Edge} :
    edge? nodes p = some e ↔
      ∃ a b, nodes.get? p.1 = some a ∧ nodes.get? p.2 = some b ∧ ⟨a.toNode, b.toNode⟩ = e := by
  rw [edge?]
  cases nodes.get? p.1 with
  | none => simp
  | some a =>
    cases nodes.get? p.2 with
    | none => simp
    | some b => simp

theorem mem_keys_iff {n : Nat} : n ∈ x.nodes.keys ↔ ∃ a, x.nodes.get? n = some a := by
  simp only [SortedMap.keys, List.mem_map, SortedMap.get?_eq_some_iff, Prod.exists, exists_and_right,
    exists_eq_right]

/-- An edge is none exactly if it has an end that is not declared. -/
theorem isNone_edge?_iff : (edge? x.nodes p).isNone = true ↔ ¬ x.Declares p := by
  rw [Option.isNone_iff_eq_none, Option.eq_none_iff_forall_ne_some, Declares, mem_keys_iff, mem_keys_iff]
  constructor
  · rintro hnone ⟨⟨a, ha⟩, ⟨b, hb⟩⟩
    exact hnone _ (edge?_eq_some_iff.2 ⟨a, b, ha, hb, rfl⟩)
  · intro hundeclared e he
    obtain ⟨a, b, ha, hb, _⟩ := edge?_eq_some_iff.1 he
    exact hundeclared ⟨⟨a, ha⟩, ⟨b, hb⟩⟩

theorem not_isNone_edge?_iff : (!(edge? x.nodes p).isNone) = true ↔ x.Declares p := by
  rw [Bool.not_eq_true', ← Bool.not_eq_true, isNone_edge?_iff, Decidable.not_not]

/-- The search of a reader for its first refusal. -/
theorem find?_isNone_edge?_eq_some_iff :
    (x.edges.find? fun q => (edge? x.nodes q).isNone) = some p ↔
      ∃ before after, x.edges = before ++ p :: after ∧ (∀ q ∈ before, x.Declares q) ∧ ¬ x.Declares p := by
  rw [List.find?_eq_some_iff_append]
  constructor
  · rintro ⟨hp, before, after, heq, hbefore⟩
    exact ⟨before, after, heq, fun q hq => not_isNone_edge?_iff.1 (hbefore q hq), isNone_edge?_iff.1 hp⟩
  · rintro ⟨before, after, heq, hbefore, hp⟩
    exact ⟨isNone_edge?_iff.2 hp, before, after, heq, fun q hq => not_isNone_edge?_iff.2 (hbefore q hq)⟩

theorem find?_isNone_edge?_eq_none_iff :
    (x.edges.find? fun q => (edge? x.nodes q).isNone) = none ↔ ∀ q ∈ x.edges, x.Declares q := by
  simp only [List.find?_eq_none, isNone_edge?_iff, Decidable.not_not]

/-- The declared nodes with the edges of all declared pairs. -/
def graph (x : IndexedGraph) : Graph :=
  (x.edges.filterMap (edge? x.nodes)).foldl Graph.addEdge
    ((x.nodes.values.map IndexedNode.toNode).foldl Graph.addNode .empty)

theorem mem_edges_graph {e : Edge} :
    e ∈ x.graph.edges ↔ ∃ p ∈ x.edges, edge? x.nodes p = some e := by
  rw [graph, Graph.mem_edges_addEdges, Graph.mem_edges_addNodes, List.mem_filterMap]
  simp only [Graph.mem_edges_empty, or_false]

/-- Edges add no nodes to the declared ones. -/
theorem mem_nodes_graph {y : Node} : y ∈ x.graph.nodes ↔ ∃ a ∈ x.nodes.values, a.toNode = y := by
  have hvalue {n : Nat} {a : IndexedNode} (ha : x.nodes.get? n = some a) : a ∈ x.nodes.values :=
    List.mem_map.2 ⟨(n, a), SortedMap.get?_eq_some_iff.1 ha, rfl⟩
  rw [graph, Graph.mem_nodes_addEdges, Graph.mem_nodes_addNodes, List.mem_map]
  constructor
  · rintro (⟨e, he, hend⟩ | hy | hy)
    · obtain ⟨p, _, hp⟩ := List.mem_filterMap.1 he
      obtain ⟨a, b, ha, hb, rfl⟩ := edge?_eq_some_iff.1 hp
      rcases hend with rfl | rfl
      · exact ⟨a, hvalue ha, rfl⟩
      · exact ⟨b, hvalue hb, rfl⟩
    · exact hy
    · exact absurd hy Graph.mem_nodes_empty
  · intro hy
    exact .inr (.inl hy)

end IndexedGraph

namespace Graph

variable {g : Graph} {x : IndexedGraph}

/-- Adding the edges fails at the first one that is dangling. -/
theorem addIndexedEdges_eq (nodes : SortedMap Nat IndexedNode) (g : Graph) (edges : List (Nat × Nat)) :
    addIndexedEdges nodes g edges =
      match edges.find? fun p => (IndexedGraph.edge? nodes p).isNone with
      | some p => .error (.danglingEdge p.1 p.2)
      | none => .ok ((edges.filterMap (IndexedGraph.edge? nodes)).foldl addEdge g) := by
  fun_induction addIndexedEdges nodes g edges with
  | case1 g => rfl
  -- The edge has both ends, and is added.
  | case2 g i j edges a b hb ha ih =>
    have hedge : IndexedGraph.edge? nodes (i, j) = some ⟨a.toNode, b.toNode⟩ :=
      IndexedGraph.edge?_eq_some_iff.2 ⟨a, b, ha, hb, rfl⟩
    rw [List.find?_cons_of_neg (by simp [hedge]), List.filterMap_cons_some hedge]
    exact ih
  -- The edge is dangling, and everything ends here.
  | case3 g i j edges hnone =>
    have hedge : IndexedGraph.edge? nodes (i, j) = none := by
      rw [Option.eq_none_iff_forall_ne_some]
      intro e he
      obtain ⟨a, b, ha, hb, _⟩ := IndexedGraph.edge?_eq_some_iff.1 he
      exact hnone a b ha hb
    rw [List.find?_cons_of_pos (by simp [hedge])]

/-- Reading looks for the first pair with an undeclared number; if there is none, it takes the edges of all
pairs. -/
theorem ofIndexed_eq (x : IndexedGraph) :
    ofIndexed x =
      match x.edges.find? fun p => (IndexedGraph.edge? x.nodes p).isNone with
      | some p => .error (.danglingEdge p.1 p.2)
      | none => .ok x.graph := by
  rw [ofIndexed, addIndexedEdges_eq, IndexedGraph.graph, List.foldl_map]

/-- Reading back fails with the first edge that names an undeclared node. -/
theorem ofIndexed_eq_error_iff {e : Error} :
    ofIndexed x = .error e ↔
      ∃ before i j after, x.edges = before ++ (i, j) :: after ∧ (∀ p ∈ before, x.Declares p) ∧
        ¬ x.Declares (i, j) ∧ e = .danglingEdge i j := by
  have hsearch : ofIndexed x = .error e ↔
      ∃ p, (x.edges.find? fun q => (IndexedGraph.edge? x.nodes q).isNone) = some p ∧
        e = .danglingEdge p.1 p.2 := by
    rw [ofIndexed_eq]
    cases x.edges.find? fun q => (IndexedGraph.edge? x.nodes q).isNone with
    | none => simp
    | some p => simp [eq_comm]
  simp only [hsearch, IndexedGraph.find?_isNone_edge?_eq_some_iff]
  constructor
  · rintro ⟨⟨i, j⟩, ⟨before, after, heq, hbefore, hundeclared⟩, rfl⟩
    exact ⟨before, i, j, after, heq, hbefore, hundeclared, rfl⟩
  · rintro ⟨before, i, j, after, heq, hbefore, hundeclared, rfl⟩
    exact ⟨(i, j), ⟨before, after, heq, hbefore, hundeclared⟩, rfl⟩

/-- Reading back succeeds exactly if every edge is declared. -/
theorem ofIndexed_eq_ok_iff :
    ofIndexed x = .ok g ↔ (∀ p ∈ x.edges, x.Declares p) ∧ x.graph = g := by
  rw [← IndexedGraph.find?_isNone_edge?_eq_none_iff, ofIndexed_eq]
  cases x.edges.find? fun q => (IndexedGraph.edge? x.nodes q).isNone with
  | none => simp
  | some p => simp

/-- Reading back fails exactly if there is a dangling edge. -/
theorem exists_ofIndexed_eq_error_iff :
    (∃ e, ofIndexed x = .error e) ↔ ∃ p ∈ x.edges, ¬ x.Declares p := by
  constructor
  · rintro ⟨e, he⟩
    rcases ofIndexed_eq_error_iff.1 he with ⟨before, i, j, after, heq, _, hundeclared, _⟩
    exact ⟨(i, j), by simp [heq], hundeclared⟩
  · rintro ⟨p, hp, hundeclared⟩
    cases hread : ofIndexed x with
    | error e => exact ⟨e, rfl⟩
    | ok g =>
      have hdeclared := (ofIndexed_eq_ok_iff.1 hread).1
      exact absurd (hdeclared p hp) hundeclared

/-! ## Reading what was written -/

/-- No edge of an indexed form is dangling. -/
theorem declares_of_mem_edges_toIndexed {p : Nat × Nat} (hp : p ∈ g.toIndexed.edges) :
    g.toIndexed.Declares p := by
  rcases List.mem_filterMap.1 hp with ⟨e, _, he⟩
  have hnumbers := edgeIndices?_eq_some_iff.1 he
  have hkey {n : Nat} {y : Node} (hy : g.NumberedAt n y) : n ∈ g.toIndexed.nodes.keys :=
    IndexedGraph.mem_keys_iff.2 ⟨_, get?_nodes_toIndexed.2 ⟨y, hy, rfl⟩⟩
  exact ⟨hkey hnumbers.1, hkey hnumbers.2⟩

/-- An edge is read back from the numbers of its ends. -/
theorem edge?_nodes_toIndexed {e : Edge} {p : Nat × Nat} (h : g.edgeIndices? e = some p) :
    IndexedGraph.edge? g.toIndexed.nodes p = some e.normalized := by
  have hnumbers := edgeIndices?_eq_some_iff.1 h
  have hsource := get?_nodes_toIndexed.2 ⟨e.source, hnumbers.1, rfl⟩
  have htarget := get?_nodes_toIndexed.2 ⟨e.target, hnumbers.2, rfl⟩
  refine IndexedGraph.edge?_eq_some_iff.2 ⟨_, _, hsource, htarget, ?_⟩
  rw [IndexedNode.toNode_ofNode, IndexedNode.toNode_ofNode, Edge.normalized]

/-- Reading back the indexed form gives the graph with its paths normalized. -/
theorem graph_toIndexed (g : Graph) : g.toIndexed.graph = g.normalized := by
  apply Graph.ext
  -- Nodes come back with normalized paths.
  · intro y
    have hnodes : y ∈ g.normalized.nodes ↔ ∃ z, z ∈ g.nodes ∧ z.normalized = y := SortedSet.mem_map
    rw [IndexedGraph.mem_nodes_graph, values_nodes_toIndexed, hnodes]
    constructor
    · rintro ⟨a, ha, rfl⟩
      rcases List.mem_map.1 ha with ⟨z, hz, rfl⟩
      exact ⟨z, hz, (IndexedNode.toNode_ofNode z).symm⟩
    · rintro ⟨z, hz, rfl⟩
      exact ⟨_, List.mem_map.2 ⟨z, hz, rfl⟩, IndexedNode.toNode_ofNode z⟩
  -- Edges come back from the numbers of their ends.
  · intro e
    have hedges : e ∈ g.normalized.edges ↔ ∃ f, f ∈ g.edges ∧ f.normalized = e := SortedSet.mem_map
    rw [IndexedGraph.mem_edges_graph, hedges]
    constructor
    · rintro ⟨p, hp, he⟩
      rcases List.mem_filterMap.1 hp with ⟨f, hf, hfp⟩
      rw [edge?_nodes_toIndexed hfp] at he
      exact ⟨f, hf, Option.some.inj he⟩
    · rintro ⟨f, hf, rfl⟩
      obtain ⟨p, hp⟩ := exists_edgeIndices hf
      exact ⟨p, List.mem_filterMap.2 ⟨f, hf, hp⟩, edge?_nodes_toIndexed hp⟩

theorem ofIndexed_toIndexed (g : Graph) : ofIndexed g.toIndexed = .ok g.normalized :=
  ofIndexed_eq_ok_iff.2 ⟨fun _ hp => declares_of_mem_edges_toIndexed hp, graph_toIndexed g⟩

end Graph

/-- However a graph was built, no end of an edge is missing from its nodes; its numbers are those below its
size, in the order of its nodes; and its pairs are increasing and as many as its edges. Reading them back
gives the graph with its paths in stored form. Any other numbered form is refused exactly if a pair of it
is undeclared, and the first such pair is named. -/
theorem indexed_form_exact :
    (∀ g : Graph,
      (∀ e ∈ g.edges, e.source ∈ g.nodes ∧ e.target ∈ g.nodes) ∧
      g.toIndexed.nodes.keys = List.range g.nodes.size ∧
      g.toIndexed.nodes.values = g.nodes.toList.map .ofNode ∧
      g.toIndexed.edges.Pairwise (Prod.Lex (· < ·) (· < ·)) ∧
      g.toIndexed.edges.length = g.edges.size ∧
      Graph.ofIndexed g.toIndexed = .ok g.normalized ∧
      ((∀ l s, .native l s ∈ g.nodes → Path.normalize l.path = l.path) →
        Graph.ofIndexed g.toIndexed = .ok g)) ∧
    ∀ x : IndexedGraph,
      ((∃ e, Graph.ofIndexed x = .error e) ↔ ∃ p ∈ x.edges, ¬ x.Declares p) ∧
      (∀ e, Graph.ofIndexed x = .error e ↔
        ∃ before i j after, x.edges = before ++ (i, j) :: after ∧ (∀ p ∈ before, x.Declares p) ∧
          ¬ x.Declares (i, j) ∧ e = .danglingEdge i j) ∧
      ∀ g, Graph.ofIndexed x = .ok g →
        (∀ y, y ∈ g.nodes ↔ ∃ a ∈ x.nodes.values, a.toNode = y) ∧
        ∀ e, e ∈ g.edges ↔ ∃ p ∈ x.edges, ∃ a b, x.nodes.get? p.1 = some a ∧
          x.nodes.get? p.2 = some b ∧ ⟨a.toNode, b.toNode⟩ = e := by
  -- Writing and reading back, and what is refused.
  refine ⟨fun g => ⟨g.closed, g.keys_nodes_toIndexed, g.values_nodes_toIndexed,
    g.pairwise_edges_toIndexed, g.length_edges_toIndexed, g.ofIndexed_toIndexed, ?_⟩,
    fun x => ⟨Graph.exists_ofIndexed_eq_error_iff, fun e => Graph.ofIndexed_eq_error_iff, ?_⟩⟩
  · intro hstored
    rw [g.ofIndexed_toIndexed, Graph.normalized_eq_self hstored]
  · intro g hread
    obtain ⟨_, rfl⟩ := Graph.ofIndexed_eq_ok_iff.1 hread
    refine ⟨fun y => IndexedGraph.mem_nodes_graph, fun e => ?_⟩
    simp only [IndexedGraph.mem_edges_graph, IndexedGraph.edge?_eq_some_iff]

/-- Two spellings of one path, with a call from the symbol under the one to that under the other. -/
def twoSpellings : Graph :=
  Graph.empty.addCall (.native ⟨⟨"p", "1"⟩, "./a.so"⟩ "f") (.native ⟨⟨"p", "1"⟩, "a.so"⟩ "f")

theorem indexed_form_exact_two_spellings :
    twoSpellings.toIndexed.edges = [(0, 1)] ∧
    Graph.ofIndexed twoSpellings.toIndexed = .ok twoSpellings.normalized ∧
    twoSpellings.nodes.size = 2 ∧ twoSpellings.normalized.nodes.size = 1 :=
  ⟨by decide +kernel, (indexed_form_exact.1 twoSpellings).2.2.2.2.2.1, by decide +kernel, by decide +kernel⟩

end Bridgework
