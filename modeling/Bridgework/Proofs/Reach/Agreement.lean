import Bridgework.Proofs.Reach.Chain
import Bridgework.Proofs.Search.Alike
import Bridgework.Proofs.Search.Shortest

/-!
# Chains over the reached graph

The reached graph has fewer nodes than the graph it is taken from, so its numbers are others, and a search
over it leaves out the nodes that reach the target from elsewhere. No chain from the roots meets one of
those, and numbers keep the order of nodes: the two searches are in step, and find the same chains.

- `Graph.SameNode` : the numbers of one node in two graphs
- `Graph.SameNode.forall₂_of_increasing` : increasing numbers of the same nodes
- `alike_hunt_reachedGraph` : the search over the reached graph and that over the whole
- `reachedGraph_chains_agree` : chains and shortest chains are the same in both
-/

namespace Bridgework

/-! ## Numbers of the same nodes -/

/-- The two numbers are those of one node in the two graphs. -/
def Graph.SameNode (g g' : Graph) (n m : Nat) : Prop := ∃ x, g.NumberedAt n x ∧ g'.NumberedAt m x

namespace Graph.SameNode

variable {g g' : Graph} {l m : List Nat}

/-- A node has one number in each graph. -/
theorem biUnique (g g' : Graph) : Relator.BiUnique (g.SameNode g') := by
  constructor
  · rintro n n' m ⟨x, hn, hm⟩ ⟨x', hn', hm'⟩
    obtain rfl := hm.unique_node hm'
    exact hn.unique_number hn'
  · rintro n m m' ⟨x, hn, hm⟩ ⟨x', hn', hm'⟩
    obtain rfl := hn.unique_node hn'
    exact hm.unique_number hm'

/-- Numbers of the same nodes give the same nodes. -/
theorem nodesAt_eq (h : List.Forall₂ (g.SameNode g') l m) :
    (Index.ofGraph g).nodesAt l = (Index.ofGraph g').nodesAt m := by
  induction h with
  | nil => rfl
  | cons hsame _ ih =>
    obtain ⟨x, hn, hm⟩ := hsame
    rw [Index.nodesAt, Index.nodesAt, List.filterMap_cons_some (Index.getElem?_nodes_ofGraph.2 hn),
      List.filterMap_cons_some (Index.getElem?_nodes_ofGraph.2 hm)]
    exact congrArg _ ih

theorem map_nodesAt_eq {ls ms : List (List Nat)} (h : List.Forall₂ (List.Forall₂ (g.SameNode g')) ls ms) :
    ls.map (Index.ofGraph g).nodesAt = ms.map (Index.ofGraph g').nodesAt := by
  have hmap : List.Forall₂ Eq (ls.map (Index.ofGraph g).nodesAt) (ms.map (Index.ofGraph g').nodesAt) :=
    List.rel_map (fun _ _ hlm => nodesAt_eq hlm) h
  rwa [List.forall₂_eq_eq_eq] at hmap

theorem option_map_nodesAt_eq {p q : Option (List Nat)}
    (h : Option.Rel (List.Forall₂ (g.SameNode g')) p q) :
    p.map (Index.ofGraph g).nodesAt = q.map (Index.ofGraph g').nodesAt := by
  cases h with
  | none => rfl
  | some hlm => exact congrArg some (nodesAt_eq hlm)

/-- Numbers that spell the same chain are numbers of the same nodes. -/
theorem forall₂_of_spells {c : Chain} (hl : g.Spells l c) (hm : g'.Spells m c) :
    List.Forall₂ (g.SameNode g') l m := by
  induction hl generalizing m with
  | nil =>
    cases hm
    exact .nil
  | cons hn _ ih =>
    obtain _ | ⟨hn', htail⟩ := hm
    exact .cons ⟨_, hn, hn'⟩ (ih htail)

theorem increasing_nodesAt (hl : l.Pairwise (· < ·)) : Increasing ((Index.ofGraph g).nodesAt l) := by
  refine List.pairwise_filterMap.2 (hl.imp ?_)
  intro n n' hlt x hx y hy
  exact ((Index.getElem?_nodes_ofGraph.1 hx).lt_iff (Index.getElem?_nodes_ofGraph.1 hy)).2 hlt

/-- Both graphs number their nodes in order, so increasing numbers of the same nodes agree place by
place. -/
theorem forall₂_of_increasing (hl : l.Pairwise (· < ·)) (hm : m.Pairwise (· < ·))
    (hlt : ∀ n ∈ l, n < g.nodes.toList.length) (hlt' : ∀ n ∈ m, n < g'.nodes.toList.length)
    (hsame : ∀ x, (∃ n ∈ l, g.NumberedAt n x) ↔ ∃ n ∈ m, g'.NumberedAt n x) :
    List.Forall₂ (g.SameNode g') l m := by
  -- Sorted lists with the same members are the same.
  have hnodes : (Index.ofGraph g).nodesAt l = (Index.ofGraph g').nodesAt m := by
    have hsets : SortedSet.mk ((Index.ofGraph g).nodesAt l) (increasing_nodesAt hl) =
        SortedSet.mk ((Index.ofGraph g').nodesAt m) (increasing_nodesAt hm) :=
      SortedSet.ext fun x => Index.mem_nodesAt_iff.trans ((hsame x).trans Index.mem_nodesAt_iff.symm)
    exact congrArg SortedSet.toList hsets
  obtain ⟨c, hc⟩ := Spells.exists_chain hlt
  obtain ⟨c', hc'⟩ := Spells.exists_chain hlt'
  rw [hc.nodesAt_eq, hc'.nodesAt_eq] at hnodes
  exact forall₂_of_spells hc (hnodes ▸ hc')

end Graph.SameNode

/-! ## The reached graph -/

variable {g : Graph} {roots : SortedSet Node} {x y target : Node}

/-- A node that is reached makes the same calls in the reached graph. -/
theorem calls_reachedGraph_iff (hx : x ∈ (reachedGraph g roots).graph.nodes) :
    (reachedGraph g roots).graph.Calls x y ↔ g.Calls x y := by
  have hedge : (reachedGraph g roots).graph.Calls x y ↔ _ := mem_edges_reachedGraph
  rw [hedge]
  exact and_iff_left hx

/-- A node that is reached reaches the same nodes in the reached graph. -/
theorem reaches_reachedGraph_iff (hx : x ∈ (reachedGraph g roots).graph.nodes) :
    (reachedGraph g roots).graph.Reaches x y ↔ g.Reaches x y := by
  constructor
  · intro h
    induction h with
    | refl x => exact .refl x
    | step hcall _ ih =>
      have hcall' := (calls_reachedGraph_iff hx).1 hcall
      exact .step hcall' (ih (mem_nodes_reachedGraph_of_calls hx hcall'))
  · intro h
    induction h with
    | refl x => exact .refl x
    | step hcall _ ih =>
      exact .step ((calls_reachedGraph_iff hx).2 hcall) (ih (mem_nodes_reachedGraph_of_calls hx hcall))

theorem mem_nodes_of_mem_reachedGraph (hx : x ∈ (reachedGraph g roots).graph.nodes) : x ∈ g.nodes := by
  obtain ⟨r, _, hr, hrx⟩ := mem_nodes_reachedGraph.1 hx
  exact hrx.mem_nodes hr

theorem mem_reachedGraph_of_mem_roots (hx : x ∈ roots) (hmem : x ∈ g.nodes) :
    x ∈ (reachedGraph g roots).graph.nodes :=
  mem_nodes_reachedGraph.2 ⟨x, hx, hmem, .refl x⟩

theorem length_nodes_reachedGraph_le (g : Graph) (roots : SortedSet Node) :
    (reachedGraph g roots).graph.nodes.toList.length ≤ g.nodes.toList.length :=
  (SortedSet.nodup_toList _).length_le_of_subset fun _ hx => mem_nodes_of_mem_reachedGraph hx

/-! ## Searches in step -/

/-- Successors in the reached graph are those in the whole graph, in the same order. -/
theorem forall₂_next_reachedGraph {n m : Nat} (h : (reachedGraph g roots).graph.SameNode g n m) :
    List.Forall₂ ((reachedGraph g roots).graph.SameNode g)
      ((Index.ofGraph (reachedGraph g roots).graph).next n) ((Index.ofGraph g).next m) := by
  obtain ⟨x, hn, hm⟩ := h
  -- Both lists of callees increase, and hold the same nodes: they agree place by place.
  have hbound {g : Graph} (n : Nat) : ∀ k ∈ (Index.ofGraph g).next n, k < g.nodes.toList.length := by
    intro k hk
    obtain ⟨_, _, _, hy, _⟩ := Index.mem_next_iff.1 hk
    exact hy.lt_length
  have hcallees {g : Graph} {n : Nat} (hn : g.NumberedAt n x) (y : Node) :
      (∃ k ∈ (Index.ofGraph g).next n, g.NumberedAt k y) ↔ g.Calls x y := by
    constructor
    · rintro ⟨k, hk, hy⟩
      exact (Index.mem_next_iff_calls hn hy).1 hk
    · intro hcall
      obtain ⟨k, hk⟩ := Graph.NumberedAt.exists_of_mem (g.closed _ hcall).2
      exact ⟨k, (Index.mem_next_iff_calls hn hk).2 hcall, hk⟩
  refine Graph.SameNode.forall₂_of_increasing (Index.pairwise_next n) (Index.pairwise_next m) (hbound n)
    (hbound m) ?_
  intro y
  rw [hcallees hn, hcallees hm, calls_reachedGraph_iff hn.mem]

/-- Roots in the reached graph are those in the whole graph, in the same order. -/
theorem forall₂_positions_reachedGraph (g : Graph) (roots : SortedSet Node) :
    List.Forall₂ ((reachedGraph g roots).graph.SameNode g)
      ((Index.ofGraph (reachedGraph g roots).graph).positions roots.toList)
      ((Index.ofGraph g).positions roots.toList) := by
  have hroots {g : Graph} (y : Node) :
      (∃ k ∈ (Index.ofGraph g).positions roots.toList, g.NumberedAt k y) ↔ y ∈ roots ∧ y ∈ g.nodes :=
    Index.mem_nodesAt_iff.symm.trans mem_nodesAt_positions
  have hbound {g : Graph} : ∀ k ∈ (Index.ofGraph g).positions roots.toList, k < g.nodes.toList.length := by
    intro k hk
    rw [← Index.size_ofGraph]
    exact lt_size_of_mem_positions hk
  refine Graph.SameNode.forall₂_of_increasing (Index.pairwise_positions _) (Index.pairwise_positions _)
    hbound hbound ?_
  intro y
  rw [hroots, hroots]
  refine and_congr_right fun hy => ?_
  exact ⟨mem_nodes_of_mem_reachedGraph, mem_reachedGraph_of_mem_roots hy⟩

/-- The two searches for chains go through corresponding points. -/
theorem alike_hunt_reachedGraph {t t' : Nat} (ht : (reachedGraph g roots).graph.NumberedAt t target)
    (ht' : g.NumberedAt t' target) (limits : Search.Limits) :
    ((Index.ofGraph (reachedGraph g roots).graph).hunt t limits).Alike
      ((reachedGraph g roots).graph.SameNode g) ((Index.ofGraph g).hunt t' limits) where
  unique := Graph.SameNode.biUnique _ _
  next := forall₂_next_reachedGraph
  useful := by
    rintro a b ⟨x, ha, hb⟩
    rw [Bool.eq_iff_iff, Index.isUseful_hunt_iff ht, Index.isUseful_hunt_iff ht',
      Index.reachable_next_iff ha ht, Index.reachable_next_iff hb ht', reaches_reachedGraph_iff ha.mem]
  goal := ⟨target, ht, ht'⟩
  limits := rfl

/-- From a target that is not reached, no root can be useful. -/
theorem not_reachable_of_not_mem_reachedGraph {t : Nat} (ht : g.NumberedAt t target)
    (htarget : target ∉ (reachedGraph g roots).graph.nodes) :
    ∀ a ∈ (Index.ofGraph g).positions roots.toList, ¬ Search.Reachable (Index.ofGraph g).next a t := by
  intro a ha hreach
  obtain ⟨r, hr, har⟩ := Index.mem_positions_iff.1 ha
  exact htarget (mem_nodes_reachedGraph.2 ⟨r, hr, har.mem, (Index.reachable_next_iff har ht).1 hreach⟩)

/-! ## Chains -/

namespace Index

theorem position?_reachedGraph_eq_none (h : (ofGraph g).position? target = none) :
    (ofGraph (reachedGraph g roots).graph).position? target = none := by
  rw [position?_eq_none_iff] at h ⊢
  exact fun hmem => h (mem_nodes_of_mem_reachedGraph hmem)

/-- The search for a shortest chain has fuel for every node and one more, and any further fuel is left. -/
theorem shortest?_eq_of_size_le {t fuel : Nat} {xs : List Node} (hle : (ofGraph g).size + 1 ≤ fuel) :
    Search.shortest? (ofGraph g).next t fuel ((ofGraph g).positions xs) =
      Search.shortest? (ofGraph g).next t ((ofGraph g).size + 1) ((ofGraph g).positions xs) :=
  Search.shortest?_eq_of_le range_closed (positions_subset_range xs) (length_range_lt _) hle

/-- The searches for chains through both graphs are in step, and end alike. -/
theorem chains_reachedGraph_eq (g : Graph) (roots : SortedSet Node) (target : Node)
    (limits : Search.Limits) :
    (ofGraph (reachedGraph g roots).graph).chains roots.toList target limits =
      (ofGraph g).chains roots.toList target limits := by
  rw [chains, chains]
  cases ht' : (ofGraph g).position? target with
  | none => rw [position?_reachedGraph_eq_none ht']
  | some t' =>
    have hnumber' := position?_eq_some_iff.1 ht'
    cases ht : (ofGraph (reachedGraph g roots).graph).position? target with
    | none =>
      -- The target is there, but no root leads to it: the search over the whole graph has nothing to do.
      have huseless : ∀ a ∈ (ofGraph g).positions roots.toList,
          ((ofGraph g).hunt t' limits).isUseful a = false := by
        intro a ha
        rw [← Bool.not_eq_true, isUseful_hunt_iff hnumber']
        exact not_reachable_of_not_mem_reachedGraph hnumber' (position?_eq_none_iff.1 ht) a ha
      obtain ⟨hfound, htruncated⟩ := Search.Hunt.search_of_useless huseless
      simp [hfound, htruncated]
    | some t =>
      have hnumber := position?_eq_some_iff.1 ht
      have hsearch := (alike_hunt_reachedGraph hnumber hnumber' limits).search
        (forall₂_positions_reachedGraph g roots)
      simp only [Graph.SameNode.map_nodesAt_eq hsearch.found, hsearch.truncated]

/-- The searches for a shortest chain through both graphs are in step. -/
theorem shortestChain?_reachedGraph_eq (g : Graph) (roots : SortedSet Node) (target : Node) :
    (ofGraph (reachedGraph g roots).graph).shortestChain? roots.toList target =
      (ofGraph g).shortestChain? roots.toList target := by
  rw [shortestChain?_eq, shortestChain?_eq]
  cases ht' : (ofGraph g).position? target with
  | none => rw [position?_reachedGraph_eq_none ht']
  | some t' =>
    have hnumber' := position?_eq_some_iff.1 ht'
    cases ht : (ofGraph (reachedGraph g roots).graph).position? target with
    | none =>
      have hunreached := not_reachable_of_not_mem_reachedGraph hnumber' (position?_eq_none_iff.1 ht)
      simp only [Search.shortest?_eq_none hunreached, Option.map_none]
    | some t =>
      have hnumber := position?_eq_some_iff.1 ht
      have hle : (ofGraph (reachedGraph g roots).graph).size + 1 ≤ (ofGraph g).size + 1 := by
        rw [size_ofGraph, size_ofGraph]
        exact Nat.succ_le_succ (length_nodes_reachedGraph_le g roots)
      -- With the same fuel the two searches are in step.
      have hsearch := Search.rel_shortest? (Graph.SameNode.biUnique _ _) forall₂_next_reachedGraph
        ⟨target, hnumber, hnumber'⟩ ((ofGraph g).size + 1) (forall₂_positions_reachedGraph g roots)
      simp only [← shortest?_eq_of_size_le hle]
      exact Graph.SameNode.option_map_nodesAt_eq hsearch

end Index

/-- A search for chains over the reached graph of the roots lists the chains that a search over the whole
graph lists, in the same order and with the same note on whether something was cut off, and finds the
same shortest chain. -/
theorem reachedGraph_chains_agree (g : Graph) (roots : SortedSet Node) (target : Node)
    (limits : Search.Limits) :
    (Index.ofGraph (reachedGraph g roots).graph).chains roots.toList target limits =
        (Index.ofGraph g).chains roots.toList target limits ∧
      (Index.ofGraph (reachedGraph g roots).graph).shortestChain? roots.toList target =
        (Index.ofGraph g).shortestChain? roots.toList target :=
  ⟨Index.chains_reachedGraph_eq g roots target limits, Index.shortestChain?_reachedGraph_eq g roots target⟩

end Bridgework
