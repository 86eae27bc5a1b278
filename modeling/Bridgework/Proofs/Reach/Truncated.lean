import Bridgework.Proofs.Reach.Chain
import Bridgework.Proofs.Search.Cut

/-!
# Enumerations that are cut short

An enumeration of chains says whether a bound cut something off. If it says no, then it has listed every
simple chain to the target, of whatever length. It says yes exactly if there are more chains within the bound
on their length than it may list, or if somewhere it had to turn back from a node that reaches the target,
since a chain through this node would have been too long.

- `Graph.Exceeds` : there are more chains than may be listed
- `Graph.IsOverrun` : calls at whose end the enumeration has to turn back
- `Index.truncated_chains_iff` : when something is cut off
- `Index.chains_of_not_truncated` : what is listed if nothing is cut off
- `Index.truncated_exact` : the flag is never clear by mistake
-/

namespace Bridgework

instance : Std.Asymm fun x y : Node => compare x y = .lt where
  asymm _ _ hlt hgt := by
    rw [Std.OrientedCmp.gt_of_lt hlt] at hgt
    cases hgt

namespace Graph

/-! ## What can be cut off -/

/-- There are more simple chains within the bound on their length than the bound on their number. -/
def Exceeds (g : Graph) (roots : List Node) (target : Node) (limits : Search.Limits) : Prop :=
  ∃ cs : List Chain, cs.Nodup ∧ (∀ c ∈ cs, g.IsSimpleChain roots target limits.steps c) ∧
    limits.paths < cs.length

/-- Calls from a root, one more than allowed, which come to no node twice and not to the target before
their end, and whose end reaches the target. -/
structure IsOverrun (g : Graph) (roots : List Node) (target : Node) (steps : Nat) (c : Chain) : Prop where
  root : ∃ r ∈ roots, r ∈ g.nodes ∧ c.head? = some r
  calls : c.IsChain g.Calls
  nodup : c.Nodup
  avoids : target ∉ c.dropLast
  reaches : ∃ x, c.getLast? = some x ∧ g.Reaches x target
  length : c.length = steps + 2

variable {g : Graph} {roots : List Node} {target : Node} {steps : Nat} {limits : Search.Limits}
  {c : Chain}

theorem IsSimpleChain.mem_nodes (hc : g.IsSimpleChain roots target steps c) : ∀ x ∈ c, x ∈ g.nodes := by
  obtain ⟨r, _, hr, hhead⟩ := hc.root
  exact mem_nodes_of_isChain hc.calls hr hhead

theorem IsSimpleChain.target_mem (hc : g.IsSimpleChain roots target steps c) : target ∈ g.nodes :=
  hc.mem_nodes target (List.mem_of_getLast? hc.target)

theorem IsSimpleChain.of_length_le {bound : Nat} (hc : g.IsSimpleChain roots target steps c)
    (hshort : c.length ≤ bound + 1) : g.IsSimpleChain roots target bound c :=
  ⟨hc.root, hc.calls, hc.target, hc.nodup, hshort⟩

theorem IsOverrun.mem_nodes (hc : g.IsOverrun roots target steps c) : ∀ x ∈ c, x ∈ g.nodes := by
  obtain ⟨r, _, hr, hhead⟩ := hc.root
  exact mem_nodes_of_isChain hc.calls hr hhead

theorem IsOverrun.target_mem (hc : g.IsOverrun roots target steps c) : target ∈ g.nodes := by
  obtain ⟨x, hlast, hreach⟩ := hc.reaches
  exact hreach.mem_nodes (hc.mem_nodes x (List.mem_of_getLast? hlast))

theorem Exceeds.target_mem (h : g.Exceeds roots target limits) : target ∈ g.nodes := by
  obtain ⟨cs, _, hcs, hlen⟩ := h
  obtain ⟨c, hc⟩ := List.exists_mem_of_length_pos (Nat.zero_lt_of_lt hlen)
  exact (hcs c hc).target_mem

theorem Spells.dropLast {p : List Nat} (h : g.Spells p c) : g.Spells p.dropLast c.dropLast := by
  rw [List.dropLast_eq_take, List.dropLast_eq_take, ← h.length_eq]
  exact List.forall₂_take _ h

end Graph

namespace Index

variable {g : Graph} {roots : List Node} {target : Node} {limits : Search.Limits} {t : Nat}
  {p : List Nat} {c : Chain}

/-! ## Overruns by numbers -/

/-- The paths at whose end the search turns back are the numbers of the overruns. -/
theorem isOverrun_iff (ht : g.NumberedAt t target) (hpc : g.Spells p c) :
    ((∃ a ∈ (ofGraph g).positions roots, p.head? = some a) ∧
        ((ofGraph g).hunt t limits).IsOverrun p) ↔
      g.IsOverrun roots target limits.steps c := by
  constructor
  · rintro ⟨⟨a, ha, hhead⟩, hp⟩
    obtain ⟨r, hr, har⟩ := mem_positions_iff.1 ha
    have hcalls : c.IsChain g.Calls := hpc.isPath_iff.1 hp.steps
    have hroot : c.head? = some r := (hpc.head? har).1 hhead
    have hlength : c.length = limits.steps + 2 := hpc.length_eq ▸ hp.length
    refine ⟨⟨r, hr, har.mem, hroot⟩, hcalls, hpc.nodup_iff.1 hp.nodup,
      fun hmem => hp.avoids ((hpc.dropLast.mem_iff ht).2 hmem), ?_, hlength⟩
    -- The last point is useful, so its node reaches the target.
    have hne : c ≠ [] := List.ne_nil_of_length_eq_add_one hlength
    have hlast : c.getLast? = some (c.getLast hne) := List.getLast?_eq_some_getLast hne
    obtain ⟨n, hn⟩ := Graph.NumberedAt.exists_of_mem
      (Graph.mem_nodes_of_isChain hcalls har.mem hroot _ (List.mem_of_getLast? hlast))
    have hend : p.getLast? = some n := (hpc.getLast? hn).2 hlast
    have huseful := (isUseful_hunt_iff ht).1 (hp.useful n (List.mem_of_getLast? hend))
    exact ⟨_, hlast, (reachable_next_iff hn ht).1 huseful⟩
  · intro hc
    obtain ⟨r, hr, hmem, hhead⟩ := hc.root
    obtain ⟨a, ha⟩ := Graph.NumberedAt.exists_of_mem hmem
    obtain ⟨x, hlast, hreach⟩ := hc.reaches
    obtain ⟨n, hn⟩ := Graph.NumberedAt.exists_of_mem (hc.mem_nodes x (List.mem_of_getLast? hlast))
    have hsteps : Search.IsPath (ofGraph g).next p := hpc.isPath_iff.2 hc.calls
    have hend : p.getLast? = some n := (hpc.getLast? hn).2 hlast
    have hgoal : Search.Reachable (ofGraph g).next n t := (reachable_next_iff hn ht).2 hreach
    refine ⟨⟨a, mem_positions_iff.2 ⟨r, hr, ha⟩, (hpc.head? ha).2 hhead⟩, ?_⟩
    -- Every point of the path reaches its end, and the end reaches the target.
    exact ⟨hsteps, hpc.nodup_iff.2 hc.nodup, fun hmem => hc.avoids ((hpc.dropLast.mem_iff ht).1 hmem),
      fun m hm => (isUseful_hunt_iff ht).2 ((Search.reachable_getLast hsteps hend m hm).trans hgoal),
      hpc.length_eq ▸ hc.length⟩

/-- The search has to turn back exactly if there is a chain of calls with one too many. -/
theorem exists_overruns_iff (ht : g.NumberedAt t target) :
    (∃ a ∈ (ofGraph g).positions roots, ((ofGraph g).hunt t limits).Overruns [a]) ↔
      ∃ c, g.IsOverrun roots target limits.steps c := by
  constructor
  · rintro ⟨a, ha, p, ⟨tail, rfl⟩, hp⟩
    obtain ⟨c, hc⟩ := exists_spells_of_useful hp.useful
    exact ⟨c, (isOverrun_iff ht hc).1 ⟨⟨a, ha, rfl⟩, hp⟩⟩
  · rintro ⟨c, hc⟩
    obtain ⟨p, hp⟩ := Graph.Spells.exists_numbers hc.mem_nodes
    obtain ⟨⟨a, ha, hhead⟩, hover⟩ := (isOverrun_iff ht hp).2 hc
    obtain ⟨tail, rfl⟩ := List.head?_eq_some_iff.1 hhead
    exact ⟨a, ha, a :: tail, ⟨tail, rfl⟩, hover⟩

/-- A simple chain that is too long begins with calls at whose end the enumeration turns back. -/
theorem isOverrun_take_of_long {steps : Nat} (hc : g.IsSimpleChain roots target steps c)
    (hlong : limits.steps + 1 < c.length) :
    g.IsOverrun roots target limits.steps (c.take (limits.steps + 2)) := by
  obtain ⟨t, ht⟩ := Graph.NumberedAt.exists_of_mem hc.target_mem
  obtain ⟨p, hp⟩ := Graph.Spells.exists_numbers hc.mem_nodes
  have hwide : (∃ a ∈ (ofGraph g).positions roots, p.head? = some a) ∧
      ((ofGraph g).hunt t ⟨limits.paths, steps⟩).IsRoute p := (isRoute_iff ht hp).2 hc
  obtain ⟨⟨a, ha, hhead⟩, hroute⟩ := hwide
  have hover : ((ofGraph g).hunt t limits).IsOverrun (p.take (limits.steps + 2)) :=
    .of_long hroute.steps hroute.goal hroute.nodup hroute.useful (hp.length_eq ▸ hlong)
  have hspells : g.Spells (p.take (limits.steps + 2)) (c.take (limits.steps + 2)) :=
    List.forall₂_take _ hp
  refine (isOverrun_iff ht hspells).1 ⟨⟨a, ha, ?_⟩, hover⟩
  obtain ⟨tail, rfl⟩ := List.head?_eq_some_iff.1 hhead
  rfl

/-! ## The number of chains -/

/-- In a strictly increasing list nothing comes twice. -/
theorem nodup_of_pairwise_lex {cs : List Chain}
    (h : cs.Pairwise (List.Lex fun x y => compare x y = .lt)) : cs.Nodup := by
  refine h.imp ?_
  rintro c _ hlex rfl
  exact (List.Lex.asymm _).asymm _ _ hlex hlex

/-- The search has more paths than room exactly if there are more chains than may be listed. -/
theorem lt_length_paths_iff (ht : g.NumberedAt t target) :
    limits.paths < (((ofGraph g).hunt t limits).paths ((ofGraph g).positions roots)).length ↔
      g.Exceeds roots target limits := by
  obtain ⟨all, hall, hsorted, hmem⟩ : ∃ all : List Chain,
      all = (((ofGraph g).hunt t limits).paths ((ofGraph g).positions roots)).map (ofGraph g).nodesAt ∧
      all.Pairwise (List.Lex fun x y => compare x y = .lt) ∧
      ∀ c, c ∈ all ↔ g.IsSimpleChain roots target limits.steps c := ⟨_, rfl, map_nodesAt_paths ht⟩
  have hlength : all.length =
      (((ofGraph g).hunt t limits).paths ((ofGraph g).positions roots)).length := by
    rw [hall, List.length_map]
  rw [← hlength]
  constructor
  · intro hmore
    exact ⟨all, nodup_of_pairwise_lex hsorted, fun c hc => (hmem c).1 hc, hmore⟩
  · rintro ⟨cs, hnodup, hcs, hmore⟩
    have hsub : cs ⊆ all := fun c hc => (hmem c).2 (hcs c hc)
    exact hmore.trans_le (hnodup.length_le_of_subset hsub)

/-! ## The flag -/

/-- Something is cut off exactly if there are more chains than may be listed, or the enumeration has to
turn back somewhere. -/
theorem truncated_chains_iff :
    ((ofGraph g).chains roots target limits).truncated = true ↔
      g.Exceeds roots target limits ∨ ∃ c, g.IsOverrun roots target limits.steps c := by
  cases ht : (ofGraph g).position? target with
  | none =>
    -- A target that the graph does not have is at no end of anything.
    have hout : target ∉ g.nodes := position?_eq_none_iff.1 ht
    rw [chains, ht]
    refine iff_of_false Bool.false_ne_true ?_
    rintro (hmore | ⟨c, hc⟩)
    · exact hout hmore.target_mem
    · exact hout hc.target_mem
  | some t =>
    have hnumber := position?_eq_some_iff.1 ht
    have hflag : ((ofGraph g).chains roots target limits).truncated =
        (((ofGraph g).hunt t limits).search ((ofGraph g).positions roots)).truncated := by
      rw [chains, ht]
    rw [hflag, Search.Hunt.truncated_search_iff, exists_overruns_iff hnumber, or_comm]
    exact or_congr_left (lt_length_paths_iff hnumber)

/-- An enumeration that cut nothing off has listed the simple chains of every length in order: no wider
bound on the number of calls would bring a further one. -/
theorem chains_of_not_truncated {steps : Nat}
    (hcut : ((ofGraph g).chains roots target limits).truncated = false) (hsteps : limits.steps ≤ steps) :
    ((ofGraph g).chains roots target limits).chains.Pairwise (List.Lex fun x y => compare x y = .lt) ∧
      ∀ c, c ∈ ((ofGraph g).chains roots target limits).chains ↔ g.IsSimpleChain roots target steps c := by
  have hclear : ¬ (g.Exceeds roots target limits ∨ ∃ c, g.IsOverrun roots target limits.steps c) := by
    rw [← truncated_chains_iff, hcut]
    exact Bool.false_ne_true
  obtain ⟨hfew, hnone⟩ := not_or.1 hclear
  -- There is no chain that the bound on the length keeps out.
  have hbound : ∀ c, g.IsSimpleChain roots target limits.steps c ↔ g.IsSimpleChain roots target steps c := by
    intro c
    constructor
    · intro hc
      exact hc.of_length_le (hc.short.trans (Nat.succ_le_succ hsteps))
    · intro hc
      refine hc.of_length_le (Nat.le_of_not_lt fun hlong => ?_)
      exact hnone ⟨_, isOverrun_take_of_long hc hlong⟩
  simp only [← hbound]
  cases ht : (ofGraph g).position? target with
  | none =>
    rw [chains, ht]
    refine ⟨.nil, fun c => iff_of_false List.not_mem_nil ?_⟩
    intro hc
    exact position?_eq_none_iff.1 ht hc.target_mem
  | some t =>
    have hnumber := position?_eq_some_iff.1 ht
    -- All paths of the search had room, so all of them were found.
    have hroom : (((ofGraph g).hunt t limits).paths ((ofGraph g).positions roots)).length ≤ limits.paths :=
      Nat.le_of_not_lt fun hmore => hfew ((lt_length_paths_iff hnumber).1 hmore)
    have hfound := ((ofGraph g).hunt t limits).found_search ((ofGraph g).positions roots)
    have hlist : ((ofGraph g).chains roots target limits).chains =
        (((ofGraph g).hunt t limits).paths ((ofGraph g).positions roots)).map (ofGraph g).nodesAt := by
      rw [chains, ht]
      exact congrArg (List.map (ofGraph g).nodesAt) (hfound.trans (List.take_of_length_le hroom))
    rw [hlist]
    exact map_nodesAt_paths hnumber

/-- The flag is never clear by mistake. If it is clear, then exactly the simple chains to the target are
listed, each once and of whatever length. It is up if there are more chains within the bound on their length
than may be listed, or if there is a simple chain that is too long. And it is up only for a reason: if there
are too many chains, or if the enumeration has to turn back from a node that reaches the target. -/
theorem truncated_exact (g : Graph) (roots : List Node) (target : Node) (limits : Search.Limits) :
    (((ofGraph g).chains roots target limits).truncated = false →
      ((ofGraph g).chains roots target limits).chains.Nodup ∧
      ∀ c, c ∈ ((ofGraph g).chains roots target limits).chains ↔
        ∃ steps, g.IsSimpleChain roots target steps c) ∧
    (g.Exceeds roots target limits ∨
        (∃ c steps, g.IsSimpleChain roots target steps c ∧ limits.steps + 1 < c.length) →
      ((ofGraph g).chains roots target limits).truncated = true) ∧
    (((ofGraph g).chains roots target limits).truncated = true ↔
      g.Exceeds roots target limits ∨ ∃ c, g.IsOverrun roots target limits.steps c) := by
  refine ⟨fun hcut => ⟨?_, fun c => ⟨fun hc => ?_, ?_⟩⟩, ?_, truncated_chains_iff⟩
  · exact nodup_of_pairwise_lex (chains_of_not_truncated hcut le_rfl).1
  · exact ⟨limits.steps, ((chains_of_not_truncated hcut le_rfl).2 c).1 hc⟩
  · rintro ⟨steps, hc⟩
    -- The bound of the chain itself may be the narrower one.
    have hwide : g.IsSimpleChain roots target (max limits.steps steps) c :=
      hc.of_length_le (hc.short.trans (Nat.succ_le_succ (Nat.le_max_right _ _)))
    exact ((chains_of_not_truncated hcut (Nat.le_max_left _ _)).2 c).2 hwide
  · rintro (hmore | ⟨c, steps, hc, hlong⟩)
    · exact truncated_chains_iff.2 (.inl hmore)
    · exact truncated_chains_iff.2 (.inr ⟨_, isOverrun_take_of_long hc hlong⟩)

end Index
end Bridgework
