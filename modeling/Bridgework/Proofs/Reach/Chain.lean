import Bridgework.Proofs.Reach.Reached
import Bridgework.Proofs.Search.Simple
import Bridgework.Proofs.Search.Sweep
import Bridgework.Reach.Chain
import Mathlib.Data.List.Forall2
import Mathlib.Data.List.Chain

/-!
# The chains to a target

A list of numbers spells a chain if it has the number of each node of the chain. Paths along numbers
spell chains of calls, the order of numbers is the order of nodes, and the numbers that are useful for a
target are those of the nodes that reach it. So the search by numbers lists the simple chains of the
graph in the order of their nodes.

- `Graph.IsSimpleChain` : the chains that are looked for
- `Graph.Spells` : numbers for a chain
- `Index.chains_exact` : what is listed, in which order, and up to where
-/

namespace Bridgework

/-! ## Chains -/

/-- A chain of calls from one of the roots that the graph has to the target, without a node that comes
twice and with a bounded number of calls. -/
structure Graph.IsSimpleChain (g : Graph) (roots : List Node) (target : Node) (steps : Nat)
    (c : Chain) : Prop where
  root : ∃ r ∈ roots, r ∈ g.nodes ∧ c.head? = some r
  calls : c.IsChain g.Calls
  target : c.getLast? = some target
  nodup : c.Nodup
  short : c.length ≤ steps + 1

/-- A chain from a node of the graph stays in the graph. -/
theorem Graph.mem_nodes_of_isChain {g : Graph} {c : Chain} (hc : c.IsChain g.Calls) {r : Node} (hr : r ∈ g.nodes)
    (hhead : c.head? = some r) : ∀ x ∈ c, x ∈ g.nodes := by
  induction c generalizing r with
  | nil =>
    intro x hx
    cases hx
  | cons y c ih =>
    obtain rfl : y = r := Option.some.inj hhead
    intro x hx
    rcases List.mem_cons.1 hx with rfl | hx
    · exact hr
    · cases c with
      | nil => cases hx
      | cons z c =>
        obtain ⟨hcall, htail⟩ := List.isChain_cons_cons.1 hc
        exact ih htail (g.closed _ hcall).2 rfl x hx

/-- The numbers of the nodes of a chain. -/
def Graph.Spells (g : Graph) : List Nat → Chain → Prop := List.Forall₂ g.NumberedAt

namespace Graph.Spells

variable {g : Graph} {p p' : List Nat} {c c' : Chain}

/-- Numbers that spell a chain give the chain. -/
theorem nodesAt_eq (h : g.Spells p c) : (Index.ofGraph g).nodesAt p = c := by
  induction h with
  | nil => rfl
  | cons hn _ ih =>
    rw [Index.nodesAt, List.filterMap_cons_some (Index.getElem?_nodes_ofGraph.2 hn)]
    exact congrArg _ ih

theorem exists_chain (h : ∀ n ∈ p, n < g.nodes.toList.length) : ∃ c, g.Spells p c := by
  induction p with
  | nil => exact ⟨[], .nil⟩
  | cons n p ih =>
    obtain ⟨x, hx⟩ := NumberedAt.exists_of_lt (h n List.mem_cons_self)
    obtain ⟨c, hc⟩ := ih fun m hm => h m (List.mem_cons_of_mem n hm)
    exact ⟨x :: c, .cons hx hc⟩

theorem exists_numbers (h : ∀ x ∈ c, x ∈ g.nodes) : ∃ p, g.Spells p c := by
  induction c with
  | nil => exact ⟨[], .nil⟩
  | cons x c ih =>
    obtain ⟨n, hn⟩ := NumberedAt.exists_of_mem (h x List.mem_cons_self)
    obtain ⟨p, hp⟩ := ih fun y hy => h y (List.mem_cons_of_mem x hy)
    exact ⟨n :: p, .cons hn hp⟩

/-- Chain and numbers begin alike. -/
theorem head? (h : g.Spells p c) {n : Nat} {x : Node} (hx : g.NumberedAt n x) :
    p.head? = some n ↔ c.head? = some x := by
  cases h with
  | nil => simp
  | cons hn _ =>
    simp only [List.head?_cons, Option.some.injEq]
    constructor
    · rintro rfl
      exact hn.unique_node hx
    · rintro rfl
      exact hn.unique_number hx

/-- Chain and numbers end alike. -/
theorem getLast? (h : g.Spells p c) {n : Nat} {x : Node} (hx : g.NumberedAt n x) :
    p.getLast? = some n ↔ c.getLast? = some x := by
  have hreverse : g.Spells p.reverse c.reverse := List.rel_reverse h
  rw [← List.head?_reverse, ← List.head?_reverse]
  exact hreverse.head? hx

theorem mem_iff (h : g.Spells p c) {n : Nat} {x : Node} (hx : g.NumberedAt n x) : n ∈ p ↔ x ∈ c := by
  induction h with
  | nil => simp
  | cons hn _ ih =>
    rw [List.mem_cons, List.mem_cons, ih]
    refine or_congr_left ?_
    constructor
    · rintro rfl
      exact hx.unique_node hn
    · rintro rfl
      exact hx.unique_number hn

theorem nodup_iff (h : g.Spells p c) : p.Nodup ↔ c.Nodup := by
  induction h with
  | nil => simp
  | cons hn htail ih =>
    have hmem : _ ∈ _ ↔ _ ∈ _ := Spells.mem_iff htail hn
    rw [List.nodup_cons, List.nodup_cons, ih, hmem]

/-- Paths along numbers are chains of calls. -/
theorem isPath_iff (h : g.Spells p c) :
    Search.IsPath (Index.ofGraph g).next p ↔ c.IsChain g.Calls := by
  induction h with
  | nil => simp [Search.IsPath]
  | cons hn htail ih =>
    cases htail with
    | nil => simp [Search.IsPath]
    | cons hm htail => rw [Search.IsPath, ih, Index.mem_next_iff_calls hn hm, List.isChain_cons_cons]

/-- The order of numbers is the order of nodes, and so it is for words of them. -/
theorem lex (h : g.Spells p c) (h' : g.Spells p' c') (hlex : List.Lex (· < ·) p p') :
    List.Lex (fun x y => compare x y = .lt) c c' := by
  induction hlex generalizing c c' with
  | nil =>
    cases h
    cases h'
    exact .nil
  | rel hlt =>
    obtain _ | ⟨hn, _⟩ := h
    obtain _ | ⟨hm, _⟩ := h'
    exact .rel ((hn.lt_iff hm).2 hlt)
  | cons _ ih =>
    obtain _ | ⟨hn, htail⟩ := h
    obtain _ | ⟨hm, htail'⟩ := h'
    obtain rfl := hn.unique_node hm
    exact .cons (ih htail htail')

end Graph.Spells

/-! ## The space of a search -/

namespace Index

variable {g : Graph}

theorem positions_subset_range (xs : List Node) :
    (ofGraph g).positions xs ⊆ List.range (ofGraph g).size :=
  fun _ ha => List.mem_range.2 (lt_size_of_mem_positions ha)

theorem range_closed : ∀ a ∈ List.range (ofGraph g).size, ∀ b ∈ (ofGraph g).next a,
    b ∈ List.range (ofGraph g).size :=
  fun _ _ _ hb => List.mem_range.2 (lt_size_of_mem_next hb)

theorem length_range_lt (i : Index) : (List.range i.size).length < i.size + 1 := by
  rw [List.length_range]
  exact Nat.lt_succ_self _

/-- The path that is read back is the one that a search with whole paths finds. -/
theorem shortestChain?_eq (roots : List Node) (target : Node) :
    (ofGraph g).shortestChain? roots target =
      match (ofGraph g).position? target with
      | none => none
      | some t => (Search.shortest? (ofGraph g).next t ((ofGraph g).size + 1)
          ((ofGraph g).positions roots)).map (ofGraph g).nodesAt := by
  rw [shortestChain?]
  cases (ofGraph g).position? target with
  | none => rfl
  | some t =>
    have hnodup : ((ofGraph g).positions roots).Nodup := (pairwise_positions roots).imp Nat.ne_of_lt
    simp only [Search.shortestPath?_eq (fun _ _ => lt_size_of_mem_next) (fun _ => lt_size_of_mem_positions) hnodup]

/-! ## Useful numbers -/

/-- A number is useful exactly if it reaches the target. -/
theorem isUseful_hunt_iff {limits : Search.Limits} {t n : Nat} {target : Node}
    (ht : g.NumberedAt t target) :
    ((ofGraph g).hunt t limits).isUseful n = true ↔ Search.Reachable (ofGraph g).next n t :=
  reverse_singleton_iff ht

/-! ## The chains that are listed -/

/-- The routes of the search are the numbers of the simple chains. -/
theorem isRoute_iff {roots : List Node} {target : Node} {limits : Search.Limits} {t : Nat}
    {p : List Nat} {c : Chain} (ht : g.NumberedAt t target) (hpc : g.Spells p c) :
    ((∃ a ∈ (ofGraph g).positions roots, p.head? = some a) ∧ ((ofGraph g).hunt t limits).IsRoute p) ↔
      g.IsSimpleChain roots target limits.steps c := by
  constructor
  · rintro ⟨⟨a, ha, hhead⟩, hp⟩
    obtain ⟨r, hr, har⟩ := mem_positions_iff.1 ha
    exact ⟨⟨r, hr, har.mem, (hpc.head? har).1 hhead⟩, hpc.isPath_iff.1 hp.steps,
      (hpc.getLast? ht).1 hp.goal, hpc.nodup_iff.1 hp.nodup, hpc.length_eq ▸ hp.short⟩
  · intro hc
    obtain ⟨r, hr, hmem, hhead⟩ := hc.root
    obtain ⟨a, ha⟩ := Graph.NumberedAt.exists_of_mem hmem
    have hsteps : Search.IsPath (ofGraph g).next p := hpc.isPath_iff.2 hc.calls
    have hlast : p.getLast? = some t := (hpc.getLast? ht).2 hc.target
    refine ⟨⟨a, mem_positions_iff.2 ⟨r, hr, ha⟩, (hpc.head? ha).2 hhead⟩, ?_⟩
    -- Every point of a path to the target reaches it, so the search leaves none of them out.
    exact ⟨hsteps, hlast, hpc.nodup_iff.2 hc.nodup, hpc.length_eq ▸ hc.short,
      fun n hn => (isUseful_hunt_iff ht).2 (Search.reachable_getLast hsteps hlast n hn)⟩

theorem exists_spells_of_useful {limits : Search.Limits} {t : Nat} {p : List Nat}
    (hp : ∀ n ∈ p, ((ofGraph g).hunt t limits).isUseful n = true) : ∃ c, g.Spells p c := by
  refine Graph.Spells.exists_chain fun n hn => ?_
  have hmark : ((ofGraph g).reverse [t]).getD n false = true := hp n hn
  have hlt := ((getD_marks _ _).1 hmark).2
  rwa [size_ofGraph] at hlt

/-- For a target in the graph, all routes of the search are the simple chains to it, in order. -/
theorem map_nodesAt_paths {roots : List Node} {target : Node} {limits : Search.Limits} {t : Nat}
    (ht : g.NumberedAt t target) :
    let all := (((ofGraph g).hunt t limits).paths ((ofGraph g).positions roots)).map (ofGraph g).nodesAt
    all.Pairwise (List.Lex fun x y => compare x y = .lt) ∧
      ∀ c, c ∈ all ↔ g.IsSimpleChain roots target limits.steps c := by
  -- A path over useful numbers spells a chain of nodes.
  have hspells : ∀ p ∈ ((ofGraph g).hunt t limits).paths ((ofGraph g).positions roots),
      ∃ c, g.Spells p c := fun p hp => exists_spells_of_useful (Search.Hunt.mem_paths_iff.1 hp).2.useful
  constructor
  -- Nodes are numbered in their order, so that the order of words is the same for both.
  · rw [List.pairwise_map]
    refine (Search.Hunt.pairwise_paths pairwise_next (pairwise_positions roots)).imp_of_mem ?_
    intro p p' hp hp' hlex
    obtain ⟨c, hc⟩ := hspells p hp
    obtain ⟨c', hc'⟩ := hspells p' hp'
    rw [hc.nodesAt_eq, hc'.nodesAt_eq]
    exact hc.lex hc' hlex
  · intro c
    rw [List.mem_map]
    -- A chain has the same beginning, calls, end and length as the path that spells it.
    constructor
    · rintro ⟨p, hp, rfl⟩
      obtain ⟨c, hc⟩ := hspells p hp
      rw [hc.nodesAt_eq]
      exact (isRoute_iff ht hc).1 (Search.Hunt.mem_paths_iff.1 hp)
    · intro hc
      obtain ⟨r, _, hr, hhead⟩ := hc.root
      obtain ⟨p, hp⟩ := Graph.Spells.exists_numbers (Graph.mem_nodes_of_isChain hc.calls hr hhead)
      exact ⟨p, Search.Hunt.mem_paths_iff.2 ((isRoute_iff ht hp).2 hc), hp.nodesAt_eq⟩

/-- The search comes to its end after finitely many steps, and what it has found by then are the first
of all simple chains to the target, listed in the order of their nodes, up to the bound. -/
theorem chains_exact (g : Graph) (roots : List Node) (target : Node) (limits : Search.Limits) :
    (∀ t, (ofGraph g).position? target = some t →
      ∃ n u, u = (Search.Trail.step ((ofGraph g).hunt t limits))^[n]
          (.start ((ofGraph g).hunt t limits) ((ofGraph g).positions roots)) ∧
        u.isDone = true ∧
        (ofGraph g).chains roots target limits =
          ⟨u.found.toList.map (ofGraph g).nodesAt, u.truncated⟩) ∧
    ∃ all : List Chain,
      all.Pairwise (List.Lex fun x y => compare x y = .lt) ∧
      (∀ c, c ∈ all ↔ g.IsSimpleChain roots target limits.steps c) ∧
      ((ofGraph g).chains roots target limits).chains = all.take limits.paths := by
  constructor
  · intro t ht
    obtain ⟨n, hn⟩ := Search.Trail.exists_iterate_step
      (Search.Trail.Sound.start ((ofGraph g).hunt t limits) ((ofGraph g).positions roots))
    refine ⟨n, _, hn, Search.Hunt.isDone_search _ _, ?_⟩
    rw [chains, ht]
    rfl
  · cases ht : (ofGraph g).position? target with
    | none =>
      -- No chain ends in a node that the graph does not have.
      refine ⟨[], .nil, ?_, by simp [chains, ht]⟩
      intro c
      refine iff_of_false List.not_mem_nil ?_
      intro hc
      obtain ⟨r, _, hr, hhead⟩ := hc.root
      have htarget : target ∈ g.nodes :=
        Graph.mem_nodes_of_isChain hc.calls hr hhead target (List.mem_of_getLast? hc.target)
      exact position?_eq_none_iff.1 ht htarget
    | some t =>
      obtain ⟨hsorted, hall⟩ := map_nodesAt_paths (position?_eq_some_iff.1 ht)
      refine ⟨_, hsorted, hall, ?_⟩
      have hchains : ((ofGraph g).chains roots target limits).chains =
          (((ofGraph g).hunt t limits).search ((ofGraph g).positions roots)).found.toList.map
            (ofGraph g).nodesAt := by
        rw [chains, ht]
      rw [hchains, Search.Hunt.found_search, List.map_take]
      rfl

end Index
end Bridgework
