import Bridgework.Proofs.Reach.Impact
import Bridgework.Proofs.Reach.Truncated
import Bridgework.Settings.Basic

/-!
# Chains to several targets

The chains to several targets are listed target by target, and each target leaves to the next ones what
room it did not use. So the result is a beginning of all chains to all targets in a row, and the flag goes
up where a target finds no room, where the room ends within the chains to a target, or where a chain to a
target would have been too long.

- `Graph.ListsChains` : a list of all simple chains to a target
- `Index.chains_chainsToAll`, `Index.truncated_chainsToAll_iff` : how the room is handed on
- `packageChains_exact` : the chains from the functions of a package to every node of a name
-/

namespace Bridgework

/-! ## All chains to a target -/

/-- The list has each simple chain to the target, in the order of their nodes. -/
structure Graph.ListsChains (g : Graph) (roots : List Node) (steps : Nat) (target : Node)
    (cs : List Chain) : Prop where
  sorted : cs.Pairwise (List.Lex fun x y => compare x y = .lt)
  mem_iff : ∀ c, c ∈ cs ↔ g.IsSimpleChain roots target steps c

namespace Graph.ListsChains

variable {g : Graph} {roots : List Node} {steps : Nat} {target : Node} {cs ds : List Chain}

/-- There is one list of the chains to a target. -/
theorem unique (hcs : g.ListsChains roots steps target cs) (hds : g.ListsChains roots steps target ds) :
    cs = ds := by
  -- The order is strict, so two lists of the same chains are the same list.
  have hperm : cs.Perm ds := by
    refine (List.perm_ext_iff_of_nodup (Index.nodup_of_pairwise_lex hcs.sorted)
      (Index.nodup_of_pairwise_lex hds.sorted)).2 fun c => ?_
    rw [hcs.mem_iff, hds.mem_iff]
  refine hperm.eq_of_pairwise ?_ hcs.sorted hds.sorted
  intro c d _ _ hcd hdc
  exact absurd hdc ((List.Lex.asymm _).asymm _ _ hcd)

/-- The bound on the number of chains is exceeded exactly if there are more in the list. -/
theorem exceeds_iff (hcs : g.ListsChains roots steps target cs) {room : Nat} :
    g.Exceeds roots target ⟨room, steps⟩ ↔ room < cs.length := by
  constructor
  · rintro ⟨ds, hnodup, hds, hmore⟩
    have hsub : ds ⊆ cs := fun d hd => (hcs.mem_iff d).2 (hds d hd)
    exact hmore.trans_le (hnodup.length_le_of_subset hsub)
  · intro hmore
    exact ⟨cs, Index.nodup_of_pairwise_lex hcs.sorted, fun c hc => (hcs.mem_iff c).1 hc, hmore⟩

end Graph.ListsChains

namespace Index

variable {g : Graph} {roots : List Node} {target : Node} {steps : Nat}

/-- All chains to a target can be listed, and any enumeration gives the first of them. -/
theorem exists_listsChains (g : Graph) (roots : List Node) (target : Node) (limits : Search.Limits) :
    ∃ cs, g.ListsChains roots limits.steps target cs ∧
      ((ofGraph g).chains roots target limits).chains = cs.take limits.paths := by
  cases ht : (ofGraph g).position? target with
  | none =>
    refine ⟨[], ⟨.nil, fun c => iff_of_false List.not_mem_nil fun hc => ?_⟩, by simp [chains, ht]⟩
    exact position?_eq_none_iff.1 ht hc.target_mem
  | some t =>
    obtain ⟨hsorted, hall⟩ := map_nodesAt_paths (position?_eq_some_iff.1 ht)
    refine ⟨_, ⟨hsorted, hall⟩, ?_⟩
    have hfound := ((ofGraph g).hunt t limits).found_search ((ofGraph g).positions roots)
    rw [chains, ht, ← List.map_take]
    exact congrArg (List.map (ofGraph g).nodesAt) hfound

/-- With little room the first chains of the list are given. -/
theorem chains_eq_take {cs : List Chain} (hcs : g.ListsChains roots steps target cs) (room : Nat) :
    ((ofGraph g).chains roots target ⟨room, steps⟩).chains = cs.take room := by
  obtain ⟨ds, hds, htake⟩ := exists_listsChains g roots target ⟨room, steps⟩
  rw [htake, hcs.unique hds]

/-- Every target has a list of chains. -/
theorem exists_forall₂_listsChains (g : Graph) (roots : List Node) (steps : Nat) (targets : List Node) :
    ∃ all, List.Forall₂ (g.ListsChains roots steps) targets all := by
  induction targets with
  | nil => exact ⟨[], .nil⟩
  | cons t ts ih =>
    obtain ⟨all, hall⟩ := ih
    obtain ⟨cs, hcs, _⟩ := exists_listsChains g roots t ⟨0, steps⟩
    exact ⟨cs :: all, .cons hcs hall⟩

/-! ## Room that is handed on -/

variable {targets : List Node} {all : List (List Chain)}

theorem chainsToAll_nil (i : Index) (room : Nat) :
    i.chainsToAll roots steps room [] = ⟨[], false⟩ := by
  rw [chainsToAll]

/-- What is listed is a beginning of all chains to all targets in a row. -/
theorem chains_chainsToAll (hall : List.Forall₂ (g.ListsChains roots steps) targets all) (room : Nat) :
    ((ofGraph g).chainsToAll roots steps room targets).chains = all.flatten.take room := by
  induction hall generalizing room with
  | nil => simp [chainsToAll_nil]
  | @cons t cs ts rest hcs _ ih =>
    cases room with
    | zero => rfl
    | succ room =>
      rw [chainsToAll, ih, chains_eq_take hcs, List.flatten_cons, List.take_append, List.length_take]
      -- The room that is left does not depend on whether the chains to the first target had to be cut.
      have hleft : room + 1 - min (room + 1) cs.length = room + 1 - cs.length := by omega
      rw [hleft]

/-- The flag is up exactly if there are more chains than room, if a chain to one of the targets would have been
too long, or if some target finds no room. -/
theorem truncated_chainsToAll_iff (hall : List.Forall₂ (g.ListsChains roots steps) targets all)
    (room : Nat) :
    ((ofGraph g).chainsToAll roots steps room targets).truncated = true ↔
      (room < all.flatten.length ∨ ∃ t ∈ targets, ∃ c, g.IsOverrun roots t steps c) ∨
        ∃ k < all.length, room ≤ (all.take k).flatten.length := by
  induction hall generalizing room with
  | nil => simp [chainsToAll_nil]
  | @cons t cs ts rest hcs _ ih =>
    cases room with
    | zero => exact iff_of_true rfl (.inr ⟨0, Nat.succ_pos _, Nat.zero_le _⟩)
    | succ room =>
      have hmore : room + 1 < cs.length + rest.flatten.length ↔
          room + 1 < cs.length ∨ room + 1 - min (room + 1) cs.length < rest.flatten.length := by
        omega
      -- The first target has room, so one that finds none is among the others.
      have hspent : (∃ k < (cs :: rest).length, room + 1 ≤ ((cs :: rest).take k).flatten.length) ↔
          ∃ k < rest.length, room + 1 - min (room + 1) cs.length ≤ (rest.take k).flatten.length := by
        constructor
        · rintro ⟨k, hk, hle⟩
          cases k with
          | zero => simp at hle
          | succ k =>
            rw [List.take_succ_cons, List.flatten_cons, List.length_append] at hle
            exact ⟨k, Nat.lt_of_succ_lt_succ hk, by omega⟩
        · rintro ⟨k, hk, hle⟩
          refine ⟨k + 1, Nat.succ_lt_succ hk, ?_⟩
          rw [List.take_succ_cons, List.flatten_cons, List.length_append]
          omega
      rw [chainsToAll, Bool.or_eq_true, truncated_chains_iff, ih, chains_eq_take hcs, hcs.exceeds_iff,
        List.length_take, List.flatten_cons, List.length_append, hmore, hspent, ← or_assoc, or_or_or_comm]
      simp only [List.mem_cons, exists_eq_or_imp]

/-- Put together, the lists have the chains to all targets. -/
theorem mem_flatten_iff (hall : List.Forall₂ (g.ListsChains roots steps) targets all) {c : Chain} :
    c ∈ all.flatten ↔ ∃ t ∈ targets, g.IsSimpleChain roots t steps c := by
  induction hall with
  | nil => simp
  | cons hcs _ ih =>
    simp only [List.flatten_cons, List.mem_append, hcs.mem_iff, ih, List.mem_cons, exists_eq_or_imp]

/-- If the flag is down, then every chain to a target was short enough and had room. -/
theorem mem_chainsToAll_of_not_truncated {room bound : Nat} {c : Chain}
    (hcut : ((ofGraph g).chainsToAll roots steps room targets).truncated = false) (ht : target ∈ targets)
    (hc : g.IsSimpleChain roots target bound c) :
    c ∈ ((ofGraph g).chainsToAll roots steps room targets).chains := by
  obtain ⟨all, hall⟩ := exists_forall₂_listsChains g roots steps targets
  have hclear := mt (truncated_chainsToAll_iff hall room).2 (Bool.eq_false_iff.1 hcut)
  rw [not_or, not_or] at hclear
  obtain ⟨⟨hroom, hshort⟩, _⟩ := hclear
  -- A chain with more steps would begin with one that was given up for its length.
  have hin : g.IsSimpleChain roots target steps c := by
    refine hc.of_length_le (Nat.le_of_not_lt fun hlong => hshort ⟨target, ht, c.take (steps + 2), ?_⟩)
    have hlong : (Search.Limits.mk room steps).steps + 1 < c.length := hlong
    exact isOverrun_take_of_long hc hlong
  rw [chains_chainsToAll hall, List.take_of_length_le (Nat.le_of_not_lt hroom), mem_flatten_iff hall]
  exact ⟨target, ht, hin⟩

end Index

/-! ## Chains from a package -/

theorem Graph.increasing_targets (g : Graph) (symbol : String) (library : Option String) :
    Increasing (g.targets symbol library) :=
  SortedSet.increasing_filter g.nodes.increasing

/-- The targets of a name are the nodes that it means. -/
theorem Graph.mem_targets_iff {g : Graph} {symbol : String} {library : Option String} {x : Node} :
    x ∈ g.targets symbol library ↔ x ∈ g.nodes ∧ TargetSymbol.Means ⟨symbol, library⟩ x := by
  have hfilter : g.targets symbol library =
      g.nodes.toList.filter fun x => TargetSymbol.Means ⟨symbol, library⟩ x :=
    TargetSymbol.nodes_eq_filter ⟨symbol, library⟩ g
  rw [hfilter, List.mem_filter, decide_eq_true_eq]
  rfl

/-- What a caller asks for, or else what is set, is brought within bounds. -/
theorem ChainSettings.limits_requested (settings : ChainSettings) (chains depth : Option Nat) :
    (settings.clamped.requested chains depth).limits =
      ⟨Limits.clamp (chains.getD settings.maxChains) Limits.maxChains,
        Limits.clamp (depth.getD settings.maxDepth) Limits.maxChainDepth⟩ := by
  cases chains <;> cases depth <;> rfl

/-- The chains from the functions of a package to the nodes of a name are the first of all chains to the first
of these nodes, to the second, and so on, up to the bound. If the flag is down, then all chains of whatever
length to all of these nodes are among them. It is up exactly if there are more chains, if a chain to one of
the nodes would have been too long, or if the bound was met before the last node. -/
theorem packageChains_exact (g : Graph) (client : Package) (symbol : String) (library : Option String)
    (settings : ChainSettings) (chains depth : Option Nat) :
    let most := Limits.clamp (chains.getD settings.maxChains) Limits.maxChains
    let steps := Limits.clamp (depth.getD settings.maxDepth) Limits.maxChainDepth
    let own := (g.ownFunctions client).toList
    let targets := g.targets symbol library
    let found := packageChains g client symbol library (settings.clamped.requested chains depth).limits
    (∀ f, f ∈ own ↔ f ∈ g.nodes ∧ ∃ name, f = .interpreted client name) ∧
    (Increasing targets ∧ ∀ x, x ∈ targets ↔ x ∈ g.nodes ∧ TargetSymbol.Means ⟨symbol, library⟩ x) ∧
    (∃ all, List.Forall₂ (g.ListsChains own steps) targets all ∧ found.chains = all.flatten.take most ∧
      (found.truncated = true ↔
        (most < all.flatten.length ∨ ∃ t ∈ targets, ∃ c, g.IsOverrun own t steps c) ∨
          ∃ k < all.length, most ≤ (all.take k).flatten.length)) ∧
    (found.truncated = false →
      ∀ t ∈ targets, ∀ c bound, g.IsSimpleChain own t bound c → c ∈ found.chains) := by
  intro most steps own targets found
  -- The limits that are asked for are clamped before the search begins.
  have hfound : found = (Index.ofGraph g).chainsToAll own steps most targets := by
    simp only [found, ChainSettings.limits_requested]
    rfl
  obtain ⟨all, hall⟩ := Index.exists_forall₂_listsChains g own steps targets
  refine ⟨fun f => Graph.mem_ownFunctions, ⟨g.increasing_targets symbol library, fun x => Graph.mem_targets_iff⟩,
    ⟨all, hall, ?_, ?_⟩, ?_⟩
  · rw [hfound, Index.chains_chainsToAll hall]
  · rw [hfound, Index.truncated_chainsToAll_iff hall]
  · rw [hfound]
    -- Nothing was left out, so that a chain of any length must have been found.
    intro hcut t ht c bound hc
    exact Index.mem_chainsToAll_of_not_truncated hcut ht hc

end Bridgework
