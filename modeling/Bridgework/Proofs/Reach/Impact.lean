import Bridgework.Proofs.Reach.Centrality
import Mathlib.Data.Finset.Max
import Mathlib.Data.List.ProdSigma
import Mathlib.Data.Set.Card

/-!
# Impact

The impact of several targets on a package is put together from the centralities of all nodes that a
target means, one after another: counts are added, of ratios the greatest stays, and of sample chains the
first shortest one. Targets may mean the same nodes, or none.

- `TargetSymbol.Means` : the nodes that a target means
- `Graph.meantPairs` : all pairs of a target and a node that it means
- `Impact.Gathers` : what an impact keeps of some centralities, along the whole list of them
- `Impact.Measures` : the impact of targets on a package, by ways of calls
- `impacts_measure` : every impact is measured so
-/

namespace Bridgework

/-! ## Targets -/

/-- The node has the name of the target, and is in a library at its path if the target has one. -/
def TargetSymbol.Means (t : TargetSymbol) (x : Node) : Prop :=
  x.name = t.symbol ∧ ∀ path ∈ t.library, ∃ l ∈ x.library?, l.path = path

instance TargetSymbol.decidableMeans (t : TargetSymbol) (x : Node) : Decidable (t.Means x) :=
  inferInstanceAs (Decidable (_ ∧ _))

/-- The nodes of a target are those that it means, in the order of the graph. -/
theorem TargetSymbol.nodes_eq_filter (t : TargetSymbol) (g : Graph) :
    t.nodes g = g.nodes.toList.filter fun x => t.Means x := by
  refine List.filter_congr fun x _ => ?_
  obtain ⟨symbol, library⟩ := t
  rw [Bool.eq_iff_iff, Bool.and_eq_true, beq_iff_eq, decide_eq_true_eq, Means]
  refine and_congr_right fun _ => ?_
  cases library with
  | none => simp
  | some path =>
    cases x.library? with
    | none => simp
    | some l => simp

/-- The pairs of a target and a node of the graph that it means. -/
def Graph.meantPairs (g : Graph) (targets : List TargetSymbol) : List (TargetSymbol × Node) :=
  (targets ×ˢ g.nodes.toList).filter fun q => q.1.Means q.2

/-- Target after target, the nodes that are meant are the second members of the pairs. -/
theorem Graph.map_snd_meantPairs (g : Graph) (targets : List TargetSymbol) :
    (g.meantPairs targets).map Prod.snd = targets.flatMap fun t => t.nodes g := by
  induction targets with
  | nil => rfl
  | cons t targets ih =>
    -- The pairs of the first target come first, with the nodes in their order.
    have hsplit : g.meantPairs (t :: targets) =
        (g.nodes.toList.map (Prod.mk t)).filter (fun q => q.1.Means q.2) ++ g.meantPairs targets := by
      rw [meantPairs, List.product_cons, List.filter_append]
      rfl
    rw [hsplit, List.map_append, ih, List.flatMap_cons, List.filter_map, List.map_map,
      TargetSymbol.nodes_eq_filter]
    simp [Function.comp_def]

/-! ## One target -/

namespace Graph

/-- The functions of a package that are in the graph. -/
def own (g : Graph) (p : Package) : Set Node := {f | f ∈ g.nodes ∧ ∃ name, f = .interpreted p name}

/-- Those of them from which there is a way of calls to a node. -/
def reachers (g : Graph) (p : Package) (x : Node) : Set Node := {f | f ∈ g.own p ∧ g.Reaches f x}

/-- Which part of the functions these are; nothing of no functions. -/
noncomputable def reachingPart (g : Graph) (p : Package) (x : Node) : ℚ :=
  if (g.own p).ncard = 0 then 0 else (g.reachers p x).ncard / (g.own p).ncard

/-- The part grows with the number of functions, since the package stays the same. -/
theorem reachingPart_mono {g : Graph} {p : Package} {x y : Node}
    (h : (g.reachers p x).ncard ≤ (g.reachers p y).ncard) : g.reachingPart p x ≤ g.reachingPart p y := by
  rw [reachingPart, reachingPart]
  split
  next => exact le_rfl
  next => exact div_le_div_of_nonneg_right (Nat.cast_le.2 h) (Nat.cast_nonneg _)

theorem mem_own_iff {g : Graph} {p : Package} {f : Node} : f ∈ g.own p ↔ f ∈ (g.ownFunctions p).toList :=
  mem_ownFunctions.symm

/-- A chain from one of some nodes starts at one of them alone. -/
theorem isChainTo_iff_exists {g : Graph} {roots : List Node} {x : Node} {c : Chain} :
    g.IsChainTo roots x c ↔ ∃ f ∈ roots, g.IsChainTo [f] x c := by
  constructor
  · intro hc
    obtain ⟨f, hf, hmem, hhead⟩ := hc.root
    exact ⟨f, hf, ⟨f, List.mem_singleton_self f, hmem, hhead⟩, hc.calls, hc.target⟩
  · rintro ⟨f, hf, hc⟩
    obtain ⟨r, hr, hmem, hhead⟩ := hc.root
    obtain rfl := List.mem_singleton.1 hr
    exact ⟨⟨r, hf, hmem, hhead⟩, hc.calls, hc.target⟩

end Graph

namespace Index

variable {g : Graph} {p : Package} {x f : Node} {s d : Chain}

/-- The functions that the numbering counts are those of the package. -/
theorem ownFunctions_centrality (g : Graph) (p : Package) (x : Node) :
    ((ofGraph g).centrality p x).ownFunctions = (g.own p).ncard := by
  have hset : g.own p = ((g.ownFunctions p).toList.toFinset : Set Node) := by
    ext f
    rw [List.coe_toFinset, Graph.mem_own_iff]
    rfl
  rw [hset, Set.ncard_coe_finset, List.toFinset_card_of_nodup (g.ownFunctions p).nodup_toList, centrality_eq]

/-- The functions that are counted are those from which there is a way of calls. -/
theorem reaching_centrality (g : Graph) (p : Package) (x : Node) :
    ((ofGraph g).centrality p x).reaching = (g.reachers p x).ncard := by
  have hset : g.reachers p x =
      (((ofGraph g).marking (g.ownFunctions p).toList x).toFinset : Set Node) := by
    ext f
    rw [List.coe_toFinset, Set.mem_ofPred_eq, marking, List.mem_filter, ← Graph.mem_own_iff]
    exact and_congr_right fun hf => (marksFrom_iff hf.1).symm
  -- No function is listed twice, so that the length of the list is the number of functions.
  have hnodup : ((ofGraph g).marking (g.ownFunctions p).toList x).Nodup :=
    (g.ownFunctions p).nodup_toList.filter _
  rw [hset, Set.ncard_coe_finset, List.toFinset_card_of_nodup hnodup, centrality_eq]

theorem ncard_reachers_le (g : Graph) (p : Package) (x : Node) :
    (g.reachers p x).ncard ≤ (g.own p).ncard := by
  rw [← reaching_centrality, ← ownFunctions_centrality g p x]
  exact reaching_le_ownFunctions

theorem ratio_eq_part (g : Graph) (p : Package) (x : Node) :
    ((ofGraph g).centrality p x).ratio = Centrality.part (g.reachers p x).ncard (g.own p).ncard := by
  rw [ratio_centrality, reaching_centrality, ownFunctions_centrality]

/-- The sample is a chain from one of the package's functions. -/
theorem isChainTo_of_sample (hs : ((ofGraph g).centrality p x).sample = some s) :
    ∃ f ∈ g.own p, g.IsChainTo [f] x s := by
  rw [centrality_eq] at hs
  have hchain := isChainTo_marking_iff.1 (least_of_shortestChain? hs).1
  obtain ⟨f, hf, hc⟩ := Graph.isChainTo_iff_exists.1 hchain
  exact ⟨f, Graph.mem_own_iff.2 hf, hc⟩

theorem sample_eq_none_iff :
    ((ofGraph g).centrality p x).sample = none ↔ ((ofGraph g).centrality p x).reaching = 0 := by
  rw [← Option.not_isSome_iff_eq_none, isSome_sample_iff, Nat.pos_iff_ne_zero, not_not]

/-- Where there is a chain at all, there is a sample, and it is no longer. -/
theorem exists_sample (hf : f ∈ g.own p) (hd : g.IsChainTo [f] x d) :
    ∃ s, ((ofGraph g).centrality p x).sample = some s ∧ s.length ≤ d.length := by
  have hmarked : g.IsChainTo ((ofGraph g).marking (g.ownFunctions p).toList x) x d :=
    isChainTo_marking_iff.2 (Graph.isChainTo_iff_exists.2 ⟨f, Graph.mem_own_iff.1 hf, hd⟩)
  rw [centrality_eq]
  obtain ⟨s, hs⟩ := Option.isSome_iff_exists.1 (isSome_shortestChain? hmarked)
  exact ⟨s, hs, ((least_of_shortestChain? hs).2 d hmarked).1⟩

end Index

/-! ## Several targets -/

namespace Impact

/-- What an impact keeps of some centralities. -/
structure Gathers (i : Impact) (cs : List Centrality) : Prop where
  count : i.chainCount = (cs.map Centrality.reaching).sum
  bound : ∀ c ∈ cs, c.ratio.toRat ≤ i.centrality.toRat
  kept : i.centrality = .zero false ∨ ∃ c ∈ cs, c.ratio = i.centrality
  sampled : ∀ s, i.sample = some s → ∃ c ∈ cs, c.sample = some s
  shortest : ∀ c ∈ cs, ∀ s, c.sample = some s → ∃ b, i.sample = some b ∧ b.length ≤ s.length

variable {i : Impact} {cs : List Centrality} {c : Centrality}

theorem gathers_none (p : Package) : (none p).Gathers [] where
  count := rfl
  bound := nofun
  kept := .inl rfl
  sampled := nofun
  shortest := nofun

/-- The shorter of two chains is one of them. -/
theorem shorter_eq_some {b c : Option Chain} {s : Chain} (h : shorter b c = some s) :
    b = some s ∨ c = some s := by
  cases b with
  | none => exact .inr h
  | some b =>
    cases c with
    | none => exact .inl h
    | some c =>
      simp only [shorter] at h
      split at h
      next => exact .inr h
      next => exact .inl h

/-- The shorter of two chains is there if one of them is, and is as short as either. -/
theorem exists_shorter {b c : Option Chain} {s : Chain} (h : b = some s ∨ c = some s) :
    ∃ d, shorter b c = some d ∧ d.length ≤ s.length := by
  cases b with
  | none =>
    obtain rfl : c = some s := h.resolve_left nofun
    exact ⟨s, rfl, le_rfl⟩
  | some b =>
    cases c with
    | none =>
      obtain rfl : b = s := Option.some.inj (h.resolve_right nofun)
      exact ⟨b, rfl, le_rfl⟩
    | some c =>
      simp only [shorter]
      split
      -- The second is shorter, and is kept.
      next hlt =>
        refine ⟨c, rfl, ?_⟩
        rcases h with h | h
        · exact Option.some.inj h ▸ hlt.le
        · exact Option.some.inj h ▸ le_rfl
      -- The second is no shorter, and the first is kept.
      next hle =>
        refine ⟨b, rfl, ?_⟩
        rcases h with h | h
        · exact Option.some.inj h ▸ le_rfl
        · exact Option.some.inj h ▸ not_lt.1 hle

/-- Of two ratios one is kept, and neither is greater. -/
theorem centrality_add_cases (i : Impact) (c : Centrality) :
    ((i.add c).centrality = i.centrality ∧ c.ratio.toRat ≤ i.centrality.toRat) ∨
      ((i.add c).centrality = c.ratio ∧ i.centrality.toRat ≤ c.ratio.toRat) := by
  rw [add]
  split
  next hless => exact .inr ⟨rfl, ((Binary64.less_iff _ _).1 hless).le⟩
  next hless => exact .inl ⟨rfl, not_lt.1 fun h => hless ((Binary64.less_iff _ _).2 h)⟩

/-- Taking one more centrality into account gathers it too. -/
theorem Gathers.add (h : i.Gathers cs) (c : Centrality) : (i.add c).Gathers (cs ++ [c]) where
  count := by
    rw [List.map_append, List.sum_append, ← h.count]
    rfl
  bound := by
    intro d hd
    -- The greatest share so far is either kept or exceeded by the new one.
    rcases i.centrality_add_cases c with ⟨heq, hle⟩ | ⟨heq, hle⟩
    · rw [heq]
      rcases List.mem_append.1 hd with hd | hd
      · exact h.bound d hd
      · exact List.mem_singleton.1 hd ▸ hle
    · rw [heq]
      rcases List.mem_append.1 hd with hd | hd
      · exact (h.bound d hd).trans hle
      · exact List.mem_singleton.1 hd ▸ le_rfl
  kept := by
    rcases i.centrality_add_cases c with ⟨heq, -⟩ | ⟨heq, -⟩
    · rw [heq]
      refine h.kept.imp_right ?_
      rintro ⟨d, hd, hratio⟩
      exact ⟨d, List.mem_append_left _ hd, hratio⟩
    · exact .inr ⟨c, List.mem_append_right _ (List.mem_singleton_self c), heq.symm⟩
  sampled := by
    intro s hs
    rcases shorter_eq_some hs with hs | hs
    · obtain ⟨d, hd, hsample⟩ := h.sampled s hs
      exact ⟨d, List.mem_append_left _ hd, hsample⟩
    · exact ⟨c, List.mem_append_right _ (List.mem_singleton_self c), hs⟩
  shortest := by
    intro d hd s hs
    -- The shortest sample is no longer than the old one, and no longer than the new one.
    rcases List.mem_append.1 hd with hd | hd
    · obtain ⟨b, hb, hle⟩ := h.shortest d hd s hs
      obtain ⟨e, he, hshort⟩ := exists_shorter (.inl hb : _ ∨ c.sample = some b)
      exact ⟨e, he, hshort.trans hle⟩
    · obtain rfl := List.mem_singleton.1 hd
      exact exists_shorter (.inr hs)

/-- Taking centralities into account one after another gathers all of them. -/
theorem Gathers.foldl {ds : List Centrality} (h : i.Gathers cs) :
    (ds.foldl Impact.add i).Gathers (cs ++ ds) := by
  -- The impact so far gathers what is done; each step moves one centrality from the rest to it.
  induction ds generalizing i cs with
  | nil => rwa [List.append_nil]
  | cons d ds ih =>
    rw [List.append_cons]
    exact ih (h.add d)

/-- There is no sample exactly if no centrality has one. -/
theorem Gathers.sample_eq_none_iff (h : i.Gathers cs) : i.sample = .none ↔ ∀ c ∈ cs, c.sample = .none := by
  constructor
  · intro hnone c hc
    rw [Option.eq_none_iff_forall_ne_some]
    intro s hs
    obtain ⟨b, hb, _⟩ := h.shortest c hc s hs
    exact Option.some_ne_none b (hb.symm.trans hnone)
  · intro hall
    rw [Option.eq_none_iff_forall_ne_some]
    intro s hs
    obtain ⟨c, hc, hsample⟩ := h.sampled s hs
    exact Option.some_ne_none s (hsample.symm.trans (hall c hc))

theorem package_foldl_add (i : Impact) (cs : List Centrality) :
    (cs.foldl add i).package = i.package := by
  induction cs generalizing i with
  | nil => rfl
  | cons c cs ih => exact ih (i.add c)

/-- The impact of some targets on a package, by ways of calls in its graph: all pairs of a target and a node
that it means are taken together. -/
structure Measures (i : Impact) (p : Package) (g : Graph) (targets : List TargetSymbol) : Prop where
  package : i.package = p
  /-- The functions that reach a node are counted for each pair. -/
  count : i.chainCount = ((g.meantPairs targets).map fun q => (g.reachers p q.2).ncard).sum
  bound : ∀ q ∈ g.meantPairs targets,
    (Centrality.part (g.reachers p q.2).ncard (g.own p).ncard).toRat ≤ i.centrality.toRat
  /-- The centrality is the double of the greatest part. -/
  attained : (∃ q ∈ g.meantPairs targets, (∀ r ∈ g.meantPairs targets, g.reachingPart p r.2 ≤ g.reachingPart p q.2) ∧
      Centrality.IsPart i.centrality (g.reachers p q.2).ncard (g.own p).ncard) ∨
    g.meantPairs targets = [] ∧ i.centrality = .zero false
  sample_none : i.sample = .none ↔ i.chainCount = 0
  sampled : ∀ s, i.sample = some s →
    ∃ q ∈ g.meantPairs targets, ∃ f ∈ g.own p, g.IsChainTo [f] q.2 s
  shortest : ∀ s, i.sample = some s →
    ∀ q ∈ g.meantPairs targets, ∀ f ∈ g.own p, ∀ d, g.IsChainTo [f] q.2 d → s.length ≤ d.length

end Impact

/-- An impact gathers the centralities of all pairs. -/
theorem gathers_impact (p : Package) (g : Graph) (targets : List TargetSymbol) :
    (impact p g targets).Gathers ((g.meantPairs targets).map fun q => (Index.ofGraph g).centrality p q.2) := by
  have hnodes : (targets.flatMap fun t => t.nodes g).map ((Index.ofGraph g).centrality p) =
      (g.meantPairs targets).map fun q => (Index.ofGraph g).centrality p q.2 := by
    rw [← Graph.map_snd_meantPairs, List.map_map]
    rfl
  rw [← hnodes]
  exact (Impact.gathers_none p).foldl

/-- One of some pairs has the most functions that reach its node. -/
theorem exists_most_reachers {g : Graph} (p : Package) {pairs : List (TargetSymbol × Node)} (hne : pairs ≠ []) :
    ∃ q ∈ pairs, ∀ r ∈ pairs, (g.reachers p r.2).ncard ≤ (g.reachers p q.2).ncard := by
  classical
  have hnonempty : pairs.toFinset.Nonempty := List.toFinset_nonempty_iff pairs |>.2 hne
  obtain ⟨q, hq, hmost⟩ :=
    pairs.toFinset.exists_max_image (fun q => (g.reachers p q.2).ncard) hnonempty
  exact ⟨q, List.mem_toFinset.1 hq, fun r hr => hmost r (List.mem_toFinset.2 hr)⟩

/-- The ratio that is kept has the value of the ratio of the pair with the most functions. -/
theorem Impact.Gathers.isPart_of_most {i : Impact} {p : Package} {g : Graph} {pairs : List (TargetSymbol × Node)}
    {q : TargetSymbol × Node} (h : i.Gathers (pairs.map fun q => (Index.ofGraph g).centrality p q.2))
    (hq : q ∈ pairs) (hmost : ∀ r ∈ pairs, (g.reachers p r.2).ncard ≤ (g.reachers p q.2).ncard) :
    Centrality.IsPart i.centrality (g.reachers p q.2).ncard (g.own p).ncard := by
  have hpart : ∀ x, Centrality.IsPart (Centrality.part (g.reachers p x).ncard (g.own p).ncard) _ _ :=
    fun x => Centrality.isPart_part (Index.ncard_reachers_le g p x)
  -- No part is greater than the one of the most reachers, up to rounding.
  have hge : (Centrality.part (g.reachers p q.2).ncard (g.own p).ncard).toRat ≤ i.centrality.toRat := by
    rw [← Index.ratio_eq_part]
    exact h.bound _ (List.mem_map_of_mem hq)
  rcases h.kept with hzero | ⟨c, hc, hratio⟩
  -- Nothing was kept: even the greatest part is zero.
  · have hvalue : (Centrality.part (g.reachers p q.2).ncard (g.own p).ncard).toRat = i.centrality.toRat := by
      refine le_antisymm hge ?_
      rw [hzero, Binary64.toRat_zero]
      exact (hpart q.2).nonneg
    exact (hpart q.2).of_toRat_eq hvalue (hzero ▸ Binary64.fits_zero) fun _ => hzero
  -- What was kept is a part of fewer reachers at most, and rounding keeps the order.
  · obtain ⟨r, hr, rfl⟩ := List.mem_map.1 hc
    rw [Index.ratio_eq_part] at hratio
    rw [← hratio] at hge ⊢
    refine (hpart q.2).of_toRat_eq (le_antisymm hge ?_) (hpart r.2).fits (hpart r.2).zero
    exact Centrality.part_mono (hmost r hr) (Index.ncard_reachers_le g p q.2)

/-- What is gathered from centralities is measured by ways of calls. -/
theorem measures_impact (p : Package) (g : Graph) (targets : List TargetSymbol) :
    (impact p g targets).Measures p g targets := by
  have h := gathers_impact p g targets
  constructor
  case package => exact Impact.package_foldl_add _ _
  case count =>
    rw [h.count, List.map_map]
    exact congrArg List.sum (List.map_congr_left fun q _ => Index.reaching_centrality g p q.2)
  case bound =>
    intro q hq
    rw [← Index.ratio_eq_part]
    exact h.bound _ (List.mem_map_of_mem hq)
  case attained =>
    rcases eq_or_ne (g.meantPairs targets) [] with hnil | hne
    · refine .inr ⟨hnil, h.kept.resolve_right ?_⟩
      rintro ⟨c, hc, -⟩
      rw [hnil] at hc
      exact absurd hc List.not_mem_nil
    · obtain ⟨q, hq, hmost⟩ := exists_most_reachers p hne
      exact .inl ⟨q, hq, fun r hr => Graph.reachingPart_mono (hmost r hr), h.isPart_of_most hq hmost⟩
  case sample_none =>
    rw [h.sample_eq_none_iff, h.count, List.sum_eq_zero_iff_forall_eq_nat, List.map_map,
      List.forall_mem_map, List.forall_mem_map]
    exact forall₂_congr fun q _ => Index.sample_eq_none_iff
  case sampled =>
    intro s hs
    obtain ⟨c, hc, hsample⟩ := h.sampled s hs
    obtain ⟨q, hq, rfl⟩ := List.mem_map.1 hc
    exact ⟨q, hq, Index.isChainTo_of_sample hsample⟩
  case shortest =>
    -- No chain is shorter than the sample of its own target, nor that than the sample of all.
    intro s hs q hq f hf d hd
    obtain ⟨e, he, hle⟩ := Index.exists_sample hf hd
    obtain ⟨b, hb, hshort⟩ := h.shortest _ (List.mem_map_of_mem hq) e he
    obtain rfl : s = b := Option.some.inj (hs.symm.trans hb)
    exact hshort.trans hle

/-- There is one impact for each dependent, in their order, and it says how much of the dependent depends on
the targets: its functions that reach a meant node are counted for each target and node, the greatest part
of them over these is the centrality, and the sample is a shortest chain of all to a meant node. -/
theorem impacts_measure (dependents : List (Package × Graph)) (targets : List TargetSymbol) :
    List.Forall₂ (fun d i => i.Measures d.1 d.2 targets) dependents (impacts dependents targets) := by
  rw [impacts, List.forall₂_map_right_iff, List.forall₂_same]
  intro d _
  exact measures_impact d.1 d.2 targets

end Bridgework
