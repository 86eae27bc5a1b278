import Bridgework.Proofs.Collection.Increasing
import Bridgework.Proofs.Search.Closure
import Bridgework.Reach.Index
import Bridgework.Search.Simple

/-!
# The numbering of a graph

A node has a number exactly if the graph has the node, and the neighbours of a number are the numbers
of the neighbours of its node. So ways along numbers are ways of calls, in both directions.

- `Graph.NumberedAt` : the node with a number
- `Index.mem_next_iff`, `Index.mem_previous_iff` : neighbours by number are neighbours in the graph
- `Index.pairwise_next`, `Index.pairwise_previous` : neighbours come in increasing order
- `Index.numbering_exact` : nodes, positions and both tables together
- `Index.reachable_next_iff`, `Index.reachable_previous_iff` : reachability by number
- `Index.forward_iff`, `Index.reverse_iff` : what the closures mark
-/

namespace Bridgework

/-! ## Numbers of nodes -/

/-- The node `x` is the one with number `n` in the order of the nodes. -/
def Graph.NumberedAt (g : Graph) (n : Nat) (x : Node) : Prop := g.nodes.toList[n]? = some x

namespace Graph.NumberedAt

variable {g : Graph} {n m : Nat} {x y : Node}

theorem mem (h : g.NumberedAt n x) : x ∈ g.nodes := List.mem_of_getElem? h

theorem exists_of_mem (h : x ∈ g.nodes) : ∃ n, g.NumberedAt n x := List.mem_iff_getElem?.1 h

theorem unique_node (h : g.NumberedAt n x) (h' : g.NumberedAt n y) : x = y :=
  Option.some.inj (h.symm.trans h')

/-- A node has one number. -/
theorem unique_number (h : g.NumberedAt n x) (h' : g.NumberedAt m x) : n = m := by
  obtain ⟨hn, _⟩ := List.getElem?_eq_some_iff.1 h
  exact (List.getElem?_inj hn g.nodes.nodup_toList).1 (h.trans h'.symm)

/-- Numbers have the order of nodes. -/
theorem lt_iff (h : g.NumberedAt n x) (h' : g.NumberedAt m y) : compare x y = .lt ↔ n < m :=
  g.nodes.increasing.lt_iff h h'

theorem lt_length (h : g.NumberedAt n x) : n < g.nodes.toList.length :=
  (List.getElem?_eq_some_iff.1 h).1

theorem exists_of_lt (h : n < g.nodes.toList.length) : ∃ x, g.NumberedAt n x :=
  ⟨_, List.getElem?_eq_getElem h⟩

end Graph.NumberedAt

namespace Index

variable {g : Graph} {n m : Nat} {x y : Node}

/-- In a list without repetitions, the place of a member is its position. -/
theorem place?_eq_some_iff {l : List Node} (hl : l.Nodup) :
    place? l x = some n ↔ l[n]? = some x := by
  rw [place?, List.findIdx?_eq_some_iff_getElem, List.getElem?_eq_some_iff]
  constructor
  · rintro ⟨hn, hx, _⟩
    exact ⟨hn, eq_of_beq hx⟩
  · rintro ⟨hn, rfl⟩
    refine ⟨hn, beq_self_eq_true _, fun j hj hbeq => ?_⟩
    -- An equal member at an earlier place would be a repetition.
    have hjn : j = n := (List.getElem_inj hl).1 (eq_of_beq hbeq)
    omega

theorem size_ofGraph (g : Graph) : (ofGraph g).size = g.nodes.toList.length := by
  simp [size, ofGraph]

theorem lt_size_of_numberedAt (hn : g.NumberedAt n x) : n < (ofGraph g).size := by
  rw [size_ofGraph]
  exact hn.lt_length

theorem getElem?_nodes_ofGraph : (ofGraph g).nodes[n]? = some x ↔ g.NumberedAt n x := by
  simp [ofGraph, Graph.NumberedAt]

/-- A node has the number at which it stands. -/
theorem position?_eq_some_iff : (ofGraph g).position? x = some n ↔ g.NumberedAt n x := by
  have hl : (ofGraph g).nodes.toList = g.nodes.toList := rfl
  rw [position?, hl, place?_eq_some_iff g.nodes.nodup_toList]
  rfl

/-- Nodes of no graph have no number. -/
theorem position?_eq_none_iff : (ofGraph g).position? x = none ↔ x ∉ g.nodes := by
  constructor
  · intro h hx
    obtain ⟨n, hn⟩ := Graph.NumberedAt.exists_of_mem hx
    rw [position?_eq_some_iff.2 hn] at h
    cases h
  · intro h
    cases hp : (ofGraph g).position? x with
    | none => rfl
    | some n => exact absurd (position?_eq_some_iff.1 hp).mem h

/-! ## Neighbours -/

/-- The places of the far ends of those edges whose near end is a given node. Callees and callers are
the two cases of it. -/
theorem mem_farPlaces {l : List Node} (hl : l.Nodup) {edges : List Edge} (near far : Edge → Node) :
    m ∈ edges.filterMap (fun e => if near e = x then place? l (far e) else none) ↔
      ∃ e ∈ edges, near e = x ∧ l[m]? = some (far e) := by
  rw [List.mem_filterMap]
  constructor
  · rintro ⟨e, he, hplace⟩
    by_cases hx : near e = x
    · rw [if_pos hx, place?_eq_some_iff hl] at hplace
      exact ⟨e, he, hx, hplace⟩
    · rw [if_neg hx] at hplace
      cases hplace
  · rintro ⟨e, he, hx, hm⟩
    refine ⟨e, he, ?_⟩
    rw [if_pos hx, place?_eq_some_iff hl]
    exact hm

theorem getD_map {l : List Node} {f : Node → List Nat} :
    (l.map f).toArray.getD n [] = (l[n]?.map f).getD [] := by
  rw [Array.getD_eq_getD_getElem?, List.getElem?_toArray, List.getElem?_map]

theorem mem_getD_map {l : List Node} {f : Node → List Nat} :
    m ∈ (l.map f).toArray.getD n [] ↔ ∃ x, l[n]? = some x ∧ m ∈ f x := by
  rw [getD_map]
  cases l[n]? with
  | none => simp
  | some x => simp

/-- Successors are the numbers of the nodes that are called. -/
theorem mem_next_iff :
    m ∈ (ofGraph g).next n ↔ ∃ x y, g.NumberedAt n x ∧ g.NumberedAt m y ∧ g.Calls x y := by
  have hplaces (x : Node) : m ∈ calleePlaces g.nodes.toList g.edges.toList x ↔ _ :=
    mem_farPlaces g.nodes.nodup_toList Edge.source Edge.target
  have hnext : m ∈ (ofGraph g).next n ↔ _ := mem_getD_map
  rw [hnext]
  constructor
  · rintro ⟨x, hx, hm⟩
    obtain ⟨e, he, rfl, hy⟩ := (hplaces x).1 hm
    exact ⟨e.source, e.target, hx, hy, he⟩
  · rintro ⟨x, y, hx, hy, hxy⟩
    exact ⟨x, hx, (hplaces x).2 ⟨⟨x, y⟩, hxy, rfl, hy⟩⟩

theorem lt_size_of_mem_next (hm : m ∈ (ofGraph g).next n) : m < (ofGraph g).size := by
  obtain ⟨_, _, _, hy, _⟩ := mem_next_iff.1 hm
  exact lt_size_of_numberedAt hy

theorem mem_next_iff_calls (hx : g.NumberedAt n x) (hy : g.NumberedAt m y) :
    m ∈ (ofGraph g).next n ↔ g.Calls x y := by
  rw [mem_next_iff]
  constructor
  · rintro ⟨x', y', hx', hy', hcall⟩
    obtain rfl := hx.unique_node hx'
    obtain rfl := hy.unique_node hy'
    exact hcall
  · intro hcall
    exact ⟨x, y, hx, hy, hcall⟩

/-- Predecessors are the numbers of the nodes that call. -/
theorem mem_previous_iff :
    m ∈ (ofGraph g).previous n ↔ ∃ x y, g.NumberedAt n x ∧ g.NumberedAt m y ∧ g.Calls y x := by
  have hplaces (x : Node) : m ∈ callerPlaces g.nodes.toList g.edges.toList x ↔ _ :=
    mem_farPlaces g.nodes.nodup_toList Edge.target Edge.source
  have hprevious : m ∈ (ofGraph g).previous n ↔ _ := mem_getD_map
  rw [hprevious]
  constructor
  · rintro ⟨x, hx, hm⟩
    obtain ⟨e, he, rfl, hy⟩ := (hplaces x).1 hm
    exact ⟨e.target, e.source, hx, hy, he⟩
  · rintro ⟨x, y, hx, hy, hxy⟩
    exact ⟨x, hx, (hplaces x).2 ⟨⟨y, x⟩, hxy, rfl, hy⟩⟩

/-- The two tables have the same calls. -/
theorem mem_previous_iff_mem_next : m ∈ (ofGraph g).previous n ↔ n ∈ (ofGraph g).next m := by
  rw [mem_previous_iff, mem_next_iff]
  constructor
  · rintro ⟨x, y, hx, hy, hyx⟩
    exact ⟨y, x, hy, hx, hyx⟩
  · rintro ⟨y, x, hy, hx, hyx⟩
    exact ⟨x, y, hx, hy, hyx⟩

/-! ## Order of neighbours -/

/-- Edges from one node are in the order of their targets. -/
theorem compare_target_of_lt {e e' : Edge} (h : compare e e' = .lt) (hsource : e.source = e'.source) :
    compare e.target e'.target = .lt := by
  have hthen : (compare e.source e'.source).then (compare e.target e'.target) = .lt := h
  have hself : compare e'.source e'.source = .eq := Std.ReflCmp.compare_self
  rwa [hsource, hself] at hthen

/-- Edges to one node are in the order of their sources. -/
theorem compare_source_of_lt {e e' : Edge} (h : compare e e' = .lt) (htarget : e.target = e'.target) :
    compare e.source e'.source = .lt := by
  have hthen : (compare e.source e'.source).then (compare e.target e'.target) = .lt := h
  have hself : compare e'.target e'.target = .eq := Std.ReflCmp.compare_self
  rwa [htarget, hself, Ordering.then_eq] at hthen

/-- Edges that share their near end come in the order of their far ends, so the places of these increase. -/
theorem pairwise_farPlaces {near far : Edge → Node}
    (hfar : ∀ {e e'}, compare e e' = .lt → near e = near e' → compare (far e) (far e') = .lt) (x : Node) :
    (g.edges.toList.filterMap fun e =>
      if near e = x then place? g.nodes.toList (far e) else none).Pairwise (· < ·) := by
  refine List.pairwise_filterMap.2 (g.edges.increasing.imp ?_)
  intro e e' hlt m hm m' hm'
  split at hm
  · next hx =>
    split at hm'
    · next hx' =>
      have hy : g.NumberedAt m (far e) := (place?_eq_some_iff g.nodes.nodup_toList).1 hm
      have hy' : g.NumberedAt m' (far e') := (place?_eq_some_iff g.nodes.nodup_toList).1 hm'
      exact (hy.lt_iff hy').1 (hfar hlt (hx.trans hx'.symm))
    · cases hm'
  · cases hm

theorem pairwise_getD_map {l : List Node} {f : Node → List Nat} (hf : ∀ x, (f x).Pairwise (· < ·)) (n : Nat) :
    ((l.map f).toArray.getD n []).Pairwise (· < ·) := by
  rw [getD_map]
  cases l[n]? with
  | none => exact .nil
  | some x => exact hf x

/-- The successors of a number come in increasing order, as the edges of its node do. -/
theorem pairwise_next (n : Nat) : ((ofGraph g).next n).Pairwise (· < ·) :=
  pairwise_getD_map (pairwise_farPlaces compare_target_of_lt) n

/-- So do the predecessors, though the edges are not ordered by their targets first: those into one node
are ordered by their sources. -/
theorem pairwise_previous (n : Nat) : ((ofGraph g).previous n).Pairwise (· < ·) :=
  pairwise_getD_map (pairwise_farPlaces compare_source_of_lt) n

/-! ## Reachability -/

/-- Ways along numbers are ways of calls. -/
theorem reachable_next_iff (hx : g.NumberedAt n x) (hy : g.NumberedAt m y) :
    Search.Reachable (ofGraph g).next n m ↔ g.Reaches x y := by
  constructor
  -- Along the path of numbers, each of which is that of a node.
  · intro h
    induction h generalizing x with
    | refl n =>
      obtain rfl := hx.unique_node hy
      exact .refl x
    | step hb _ ih =>
      obtain ⟨x', z, hx', hz, hcall⟩ := mem_next_iff.1 hb
      obtain rfl := hx.unique_node hx'
      exact .step hcall (ih hz hy)
  -- Along the calls, each of which has a number at its end.
  · intro h
    induction h generalizing n with
    | refl x =>
      obtain rfl := hx.unique_number hy
      exact .refl n
    | step hcall _ ih =>
      obtain ⟨k, hk⟩ := Graph.NumberedAt.exists_of_mem (g.closed _ hcall).2
      exact .step ((mem_next_iff_calls hx hk).2 hcall) (ih hk hy)

/-- Ways backward are ways forward from the other end. -/
theorem reachable_previous_iff :
    Search.Reachable (ofGraph g).previous m n ↔ Search.Reachable (ofGraph g).next n m := by
  constructor
  · intro h
    induction h with
    | refl m => exact .refl m
    | step hb _ ih => exact ih.tail (mem_previous_iff_mem_next.1 hb)
  · intro h
    induction h with
    | refl n => exact .refl n
    | step hb _ ih => exact ih.tail (mem_previous_iff_mem_next.2 hb)

/-! ## Lists of numbers -/

/-- The numbers of some nodes, as far as the graph has them. -/
theorem mem_positions_iff {xs : List Node} :
    n ∈ (ofGraph g).positions xs ↔ ∃ x ∈ xs, g.NumberedAt n x := by
  have hmem : n ∈ (ofGraph g).positions xs ↔ n ∈ xs.filterMap (ofGraph g).position? :=
    SortedSet.mem_ofList
  rw [hmem, List.mem_filterMap]
  constructor
  · rintro ⟨x, hx, hn⟩
    exact ⟨x, hx, position?_eq_some_iff.1 hn⟩
  · rintro ⟨x, hx, hn⟩
    exact ⟨x, hx, position?_eq_some_iff.2 hn⟩

theorem pairwise_positions (xs : List Node) : ((ofGraph g).positions xs).Pairwise (· < ·) :=
  List.Pairwise.imp Nat.compare_eq_lt.1 (SortedSet.ofList _).increasing

theorem mem_nodesAt_iff {ns : List Nat} :
    x ∈ (ofGraph g).nodesAt ns ↔ ∃ n ∈ ns, g.NumberedAt n x := by
  rw [nodesAt, List.mem_filterMap]
  constructor
  · rintro ⟨n, hn, hx⟩
    exact ⟨n, hn, getElem?_nodes_ofGraph.1 hx⟩
  · rintro ⟨n, hn, hx⟩
    exact ⟨n, hn, getElem?_nodes_ofGraph.2 hx⟩

/-- The nodes are numbered in their order, each by its position; both tables list the edges, by increasing
numbers of the far ends; and the positions of some nodes are the increasing numbers of those in the graph. -/
theorem numbering_exact (g : Graph) :
    (Increasing (ofGraph g).nodes.toList ∧ (∀ x, x ∈ (ofGraph g).nodes.toList ↔ x ∈ g.nodes) ∧
      ∀ n x, (ofGraph g).nodes[n]? = some x ↔ (ofGraph g).position? x = some n) ∧
    ((ofGraph g).successors.size = (ofGraph g).nodes.size ∧
      (ofGraph g).predecessors.size = (ofGraph g).nodes.size) ∧
    (∀ i j,
      (j ∈ (ofGraph g).next i ↔
        ∃ x y, (ofGraph g).nodes[i]? = some x ∧ (ofGraph g).nodes[j]? = some y ∧ g.Calls x y) ∧
      (i ∈ (ofGraph g).previous j ↔
        ∃ x y, (ofGraph g).nodes[i]? = some x ∧ (ofGraph g).nodes[j]? = some y ∧ g.Calls x y)) ∧
    (∀ i, ((ofGraph g).next i).Pairwise (· < ·) ∧ ((ofGraph g).previous i).Pairwise (· < ·)) ∧
    ∀ xs, ((ofGraph g).positions xs).Pairwise (· < ·) ∧
      ∀ n, n ∈ (ofGraph g).positions xs ↔ ∃ x ∈ xs, (ofGraph g).nodes[n]? = some x := by
  simp only [getElem?_nodes_ofGraph]
  refine ⟨⟨g.nodes.increasing, fun x => Iff.rfl, fun n x => position?_eq_some_iff.symm⟩, ?_, fun i j => ?_,
    fun i => ⟨pairwise_next i, pairwise_previous i⟩, fun xs => ⟨pairwise_positions xs, fun n => mem_positions_iff⟩⟩
  · simp [ofGraph]
  · exact ⟨mem_next_iff, mem_previous_iff_mem_next.trans mem_next_iff⟩

/-! ## Marks -/

theorem getD_marks (i : Index) (ns : List Nat) :
    (i.marks ns).getD m false = true ↔ m ∈ ns ∧ m < i.size := by
  rw [marks, Search.getD_setMarks, Search.getD_noMarks, Array.size_replicate]
  simp

theorem mem_marked_iff {i : Index} {a : Array Bool} :
    n ∈ i.marked a ↔ n < i.size ∧ a.getD n false = true := by
  rw [marked, List.mem_filter, List.mem_range]

/-- What can be reached along the neighbours of a numbering is marked, and nothing else. -/
theorem getD_marks_closure {next : Nat → List Nat} {starts : List Nat}
    (hnext : ∀ a, ∀ b ∈ next a, b < (ofGraph g).size) (hs : ∀ a ∈ starts, a < (ofGraph g).size) :
    ((ofGraph g).marks (Search.closure next (ofGraph g).size starts)).getD n false = true ↔
      ∃ a ∈ starts, Search.Reachable next a n := by
  have hclosure := Search.mem_closure_iff (x := n)
    (fun a _ b hb => List.mem_range.2 (hnext a b hb)) (fun a ha => List.mem_range.2 (hs a ha))
    (Nat.le_of_eq List.length_range)
  rw [getD_marks, hclosure]
  constructor
  · exact fun h => h.1
  · rintro ⟨a, ha, han⟩
    refine ⟨⟨a, ha, han⟩, ?_⟩
    -- The numbers below the size are closed under the steps.
    have hmem : n ∈ List.range (ofGraph g).size :=
      han.mem_of_closed (fun a _ b hb => List.mem_range.2 (hnext a b hb)) (List.mem_range.2 (hs a ha))
    exact List.mem_range.1 hmem

/-- A search forward marks what can be reached, and nothing else. -/
theorem forward_iff {starts : List Nat} (hs : ∀ a ∈ starts, a < (ofGraph g).size) :
    ((ofGraph g).forward starts).getD n false = true ↔
      ∃ a ∈ starts, Search.Reachable (ofGraph g).next a n :=
  getD_marks_closure (fun _ _ hb => lt_size_of_mem_next hb) hs

/-- A search backward marks what reaches one of the goals, and nothing else. -/
theorem reverse_iff {goals : List Nat} (hs : ∀ a ∈ goals, a < (ofGraph g).size) :
    ((ofGraph g).reverse goals).getD n false = true ↔
      ∃ a ∈ goals, Search.Reachable (ofGraph g).next n a := by
  have hmarks : ((ofGraph g).reverse goals).getD n false = true ↔
      ∃ a ∈ goals, Search.Reachable (ofGraph g).previous a n := by
    refine getD_marks_closure (fun a b hb => ?_) hs
    obtain ⟨_, _, _, hy, _⟩ := mem_previous_iff.1 hb
    exact lt_size_of_numberedAt hy
  rw [hmarks]
  simp only [reachable_previous_iff]

theorem lt_size_of_mem_singleton (hn : g.NumberedAt n x) : ∀ a ∈ [n], a < (ofGraph g).size := by
  intro a ha
  rw [List.mem_singleton.1 ha]
  exact lt_size_of_numberedAt hn

theorem forward_singleton_iff (hn : g.NumberedAt n x) :
    ((ofGraph g).forward [n]).getD m false = true ↔ Search.Reachable (ofGraph g).next n m := by
  rw [forward_iff (lt_size_of_mem_singleton hn)]
  simp

theorem reverse_singleton_iff (hm : g.NumberedAt m x) :
    ((ofGraph g).reverse [m]).getD n false = true ↔ Search.Reachable (ofGraph g).next n m := by
  rw [reverse_iff (lt_size_of_mem_singleton hm)]
  simp

end Index
end Bridgework
