import Bridgework.Proofs.Reach.Truncated
import Bridgework.Proofs.Search.Least

/-!
# The shortest chain to a target

Numbers keep the order of nodes, so the path that the search by numbers finds spells the least of the
shortest chains. A shortest chain meets no node twice. If an enumeration cut nothing off, it has listed
every simple chain in order, and the shortest chain is the first of the shortest ones in its list.

- `Graph.IsChainTo` : a chain of calls from a root to the target
- `Index.least_of_shortestChain?`, `Index.shortestChain?_eq_none_iff` : what is found, and when
- `Index.shortestChain_exact` : the shortest chain, by itself and among the chains of an enumeration
-/

namespace Bridgework

/-- Paths of numbers that come first spell chains that come first. -/
theorem Graph.Spells.least {g : Graph} {p q : List Nat} {c d : Chain} (hc : g.Spells p c)
    (hd : g.Spells q d) (h : Search.NoLater p q) :
    c.length ≤ d.length ∧ (c.length = d.length → c = d ∨ List.Lex (fun x y => compare x y = .lt) c d) := by
  rw [← hc.length_eq, ← hd.length_eq]
  rcases h with rfl | hbefore
  · exact ⟨le_rfl, fun _ => .inl (hc.nodesAt_eq.symm.trans hd.nodesAt_eq)⟩
  · rcases List.shortlex_def.1 hbefore with hlt | ⟨heq, hlex⟩
    · exact ⟨hlt.le, fun heq => absurd heq hlt.ne⟩
    · exact ⟨heq.le, fun _ => .inr (hc.lex hd hlex)⟩

/-! ## Chains to a target -/

/-- A chain of calls from one of the roots that the graph has to the target. -/
structure Graph.IsChainTo (g : Graph) (roots : List Node) (target : Node) (c : Chain) : Prop where
  root : ∃ r ∈ roots, r ∈ g.nodes ∧ c.head? = some r
  calls : c.IsChain g.Calls
  target : c.getLast? = some target

namespace Graph

variable {g : Graph} {roots : List Node} {target x : Node} {steps : Nat} {c d : Chain}

theorem IsSimpleChain.isChainTo (h : g.IsSimpleChain roots target steps c) : g.IsChainTo roots target c :=
  ⟨h.root, h.calls, h.target⟩

theorem IsChainTo.mem_nodes (h : g.IsChainTo roots target c) : ∀ y ∈ c, y ∈ g.nodes := by
  obtain ⟨r, _, hr, hhead⟩ := h.root
  exact mem_nodes_of_isChain h.calls hr hhead

theorem IsChainTo.target_mem (h : g.IsChainTo roots target c) : target ∈ g.nodes :=
  h.mem_nodes target (List.mem_of_getLast? h.target)

/-- Along a chain of calls there is a way. -/
theorem reaches_of_isChain (hc : c.IsChain g.Calls) (hhead : c.head? = some x)
    (hlast : c.getLast? = some target) : g.Reaches x target := by
  induction c generalizing x with
  | nil => cases hhead
  | cons y c ih =>
    obtain rfl : y = x := Option.some.inj hhead
    cases c with
    | nil =>
      obtain rfl : y = target := Option.some.inj hlast
      exact .refl y
    | cons z c =>
      obtain ⟨hcall, htail⟩ := List.isChain_cons_cons.1 hc
      rw [List.getLast?_cons_cons] at hlast
      exact .step hcall (ih htail rfl hlast)

/-- Along a way there is a chain of calls. -/
theorem Reaches.exists_isChain (h : g.Reaches x target) :
    ∃ c : Chain, c.IsChain g.Calls ∧ c.head? = some x ∧ c.getLast? = some target := by
  induction h with
  | refl x => exact ⟨[x], .singleton x, rfl, rfl⟩
  | @step x y z hcall _ ih =>
    obtain ⟨c, hc, hhead, hlast⟩ := ih
    obtain ⟨c, rfl⟩ := List.head?_eq_some_iff.1 hhead
    exact ⟨x :: y :: c, List.isChain_cons_cons.2 ⟨hcall, hc⟩, rfl, hlast⟩

/-- There is a chain to the target exactly if a root reaches it. -/
theorem exists_isChainTo_iff :
    (∃ c, g.IsChainTo roots target c) ↔ ∃ r ∈ roots, r ∈ g.nodes ∧ g.Reaches r target := by
  constructor
  · rintro ⟨c, hc⟩
    obtain ⟨r, hr, hmem, hhead⟩ := hc.root
    exact ⟨r, hr, hmem, reaches_of_isChain hc.calls hhead hc.target⟩
  · rintro ⟨r, hr, hmem, hreach⟩
    obtain ⟨c, hc, hhead, hlast⟩ := hreach.exists_isChain
    exact ⟨c, ⟨r, hr, hmem, hhead⟩, hc, hlast⟩

/-- A chain that comes twice to a node can be shortened between the two. -/
theorem nodup_of_shortest (hc : c.IsChain g.Calls) (hlast : c.getLast? = some target)
    (hshort : ∀ d : Chain, d.IsChain g.Calls → d.head? = c.head? → d.getLast? = some target →
      c.length ≤ d.length) : c.Nodup := by
  induction c with
  | nil => exact List.nodup_nil
  | cons x c ih =>
    refine List.nodup_cons.2 ⟨?_, ?_⟩
    -- Were the node called again, the chain could be cut short at its second place.
    · intro hx
      obtain ⟨s, e, rfl⟩ := List.append_of_mem hx
      have hend : (x :: e).getLast? = some target := by
        rwa [← List.cons_append, List.getLast?_append_of_ne_nil _ (List.cons_ne_nil x e)] at hlast
      have hle := hshort (x :: e) (hc.suffix ⟨x :: s, rfl⟩) rfl hend
      simp only [List.length_cons, List.length_append] at hle
      omega
    -- A shortest chain goes on by a shortest chain.
    · cases c with
      | nil => exact List.nodup_nil
      | cons y c =>
        obtain ⟨hcall, htail⟩ := List.isChain_cons_cons.1 hc
        rw [List.getLast?_cons_cons] at hlast
        refine ih htail hlast ?_
        intro d hd hhead hdlast
        obtain ⟨d, rfl⟩ := List.head?_eq_some_iff.1 hhead
        have hle := hshort (x :: y :: d) (List.isChain_cons_cons.2 ⟨hcall, hd⟩) rfl hdlast
        exact Nat.le_of_succ_le_succ hle

/-- A shortest chain comes to no node twice. -/
theorem IsChainTo.isSimpleChain_of_shortest (hc : g.IsChainTo roots target c)
    (hshort : ∀ d, g.IsChainTo roots target d → c.length ≤ d.length) (hsteps : c.length ≤ steps + 1) :
    g.IsSimpleChain roots target steps c where
  root := hc.root
  calls := hc.calls
  target := hc.target
  nodup := nodup_of_shortest hc.calls hc.target fun d hd hhead hlast =>
    hshort d ⟨hhead ▸ hc.root, hd, hlast⟩
  short := hsteps

end Graph

namespace Index

variable {g : Graph} {roots : List Node} {target : Node} {c : Chain}

/-! ## The search by numbers -/

/-- Paths to a number from those of the roots spell chains to the node. -/
theorem isWay_iff {t : Nat} {p : List Nat} (ht : g.NumberedAt t target) (hpc : g.Spells p c) :
    Search.IsWay (ofGraph g).next ((ofGraph g).positions roots) t p ↔ g.IsChainTo roots target c := by
  constructor
  · intro hp
    obtain ⟨a, ha, hhead⟩ := hp.start
    obtain ⟨r, hr, har⟩ := mem_positions_iff.1 ha
    exact ⟨⟨r, hr, har.mem, (hpc.head? har).1 hhead⟩, hpc.isPath_iff.1 hp.steps,
      (hpc.getLast? ht).1 hp.goal⟩
  · intro hc
    obtain ⟨r, hr, hmem, hhead⟩ := hc.root
    obtain ⟨a, ha⟩ := Graph.NumberedAt.exists_of_mem hmem
    exact ⟨⟨a, mem_positions_iff.2 ⟨r, hr, ha⟩, (hpc.head? ha).2 hhead⟩, hpc.isPath_iff.2 hc.calls,
      (hpc.getLast? ht).2 hc.target⟩

theorem exists_spells_of_isWay {t : Nat} {p : List Nat}
    (hp : Search.IsWay (ofGraph g).next ((ofGraph g).positions roots) t p) : ∃ c, g.Spells p c := by
  refine Graph.Spells.exists_chain fun n hn => ?_
  rw [← size_ofGraph]
  exact List.mem_range.1 (hp.subset_of_closed (positions_subset_range roots) range_closed hn)

/-- The chain that is found is as short as any other to the target, and less in the order of nodes than
the others of its length. -/
theorem least_of_shortestChain? (h : (ofGraph g).shortestChain? roots target = some c) :
    g.IsChainTo roots target c ∧ ∀ d, g.IsChainTo roots target d → c.length ≤ d.length ∧
      (c.length = d.length → c = d ∨ List.Lex (fun x y => compare x y = .lt) c d) := by
  rw [shortestChain?_eq] at h
  split at h
  next => cases h
  next t ht =>
    have hnumber := position?_eq_some_iff.1 ht
    obtain ⟨p, hp, rfl⟩ := Option.map_eq_some_iff.1 h
    obtain ⟨hway, hleast⟩ := Search.noLater_of_shortest? pairwise_next (pairwise_positions roots) hp
    obtain ⟨c, hc⟩ := exists_spells_of_isWay hway
    rw [hc.nodesAt_eq]
    refine ⟨(isWay_iff hnumber hc).1 hway, fun d hd => ?_⟩
    obtain ⟨q, hq⟩ := Graph.Spells.exists_numbers hd.mem_nodes
    exact hc.least hq (hleast q ((isWay_iff hnumber hq).2 hd))

/-- Where there is a chain one is found. -/
theorem isSome_shortestChain? (hc : g.IsChainTo roots target c) :
    ((ofGraph g).shortestChain? roots target).isSome := by
  obtain ⟨t, ht⟩ := Graph.NumberedAt.exists_of_mem hc.target_mem
  obtain ⟨p, hp⟩ := Graph.Spells.exists_numbers hc.mem_nodes
  rw [shortestChain?_eq, position?_eq_some_iff.2 ht, Option.isSome_map]
  exact Search.isSome_shortest? pairwise_next (pairwise_positions roots) range_closed
    (positions_subset_range roots) (length_range_lt _) ((isWay_iff ht hp).2 hc)

theorem shortestChain?_eq_none_iff :
    (ofGraph g).shortestChain? roots target = none ↔ ∀ c, ¬ g.IsChainTo roots target c := by
  constructor
  · intro hnone c hc
    have hsome := isSome_shortestChain? hc
    rw [hnone] at hsome
    cases hsome
  · intro hno
    cases hfound : (ofGraph g).shortestChain? roots target with
    | none => rfl
    | some c => exact absurd (least_of_shortestChain? hfound).1 (hno c)

end Index

/-! ## The first of the shortest -/

/-- The first chain of an enumeration that no other is shorter than. -/
def ChainList.firstShortest? (l : ChainList) : Option Chain :=
  l.chains.find? fun c => l.chains.all fun d => c.length ≤ d.length

/-- In a list in the order of nodes, the least of the shortest chains is the first of them. -/
theorem ChainList.firstShortest?_eq_some {l : ChainList} {c : Chain} (hc : c ∈ l.chains)
    (hsorted : l.chains.Pairwise (List.Lex fun x y => compare x y = .lt))
    (hleast : ∀ d ∈ l.chains, c.length ≤ d.length ∧
      (c.length = d.length → c = d ∨ List.Lex (fun x y => compare x y = .lt) c d)) :
    l.firstShortest? = some c := by
  obtain ⟨before, after, hsplit⟩ := List.append_of_mem hc
  refine List.find?_eq_some_iff_append.2 ⟨?_, before, after, hsplit, ?_⟩
  · simpa using fun d hd => (hleast d hd).1
  · intro d hd
    have hmem : d ∈ l.chains := hsplit ▸ List.mem_append_left _ hd
    have hbefore : List.Lex (fun x y => compare x y = .lt) d c := by
      rw [hsplit, List.pairwise_append] at hsorted
      exact hsorted.2.2 d hd c List.mem_cons_self
    rw [Bool.not_eq_true', List.all_eq_false]
    refine ⟨c, hc, ?_⟩
    -- A chain before the least one is not as short, since the order would put it behind.
    intro hle
    obtain ⟨hshort, hless⟩ := hleast d hmem
    have hlength : c.length = d.length := Nat.le_antisymm hshort (of_decide_eq_true hle)
    rcases hless hlength with rfl | hlex
    · exact (List.Lex.asymm _).asymm _ _ hbefore hbefore
    · exact (List.Lex.asymm _).asymm _ _ hbefore hlex

namespace Index

/-- The shortest chain is found whenever the target is in the graph and a root reaches it; it is a chain
of calls from a root to the target, of the least length over all of them and least in the order of nodes
among those of that length. An enumeration that cut nothing off lists it as the first of its shortest. -/
theorem shortestChain_exact (g : Graph) (roots : List Node) (target : Node) :
    ((ofGraph g).shortestChain? roots target = none ↔
      target ∉ g.nodes ∨ ∀ r ∈ roots, r ∈ g.nodes → ¬ g.Reaches r target) ∧
    (∀ c, (ofGraph g).shortestChain? roots target = some c →
      g.IsChainTo roots target c ∧ ∀ d, g.IsChainTo roots target d → c.length ≤ d.length ∧
        (c.length = d.length → c = d ∨ List.Lex (fun x y => compare x y = .lt) c d)) ∧
    ∀ limits, ((ofGraph g).chains roots target limits).truncated = false →
      (ofGraph g).shortestChain? roots target =
        ((ofGraph g).chains roots target limits).firstShortest? := by
  refine ⟨?_, fun c => least_of_shortestChain?, ?_⟩
  · rw [shortestChain?_eq_none_iff, ← not_exists, Graph.exists_isChainTo_iff]
    constructor
    · intro hno
      exact .inr fun r hr hmem hreach => hno ⟨r, hr, hmem, hreach⟩
    · rintro hno ⟨r, hr, hmem, hreach⟩
      rcases hno with hout | hno
      · exact hout (hreach.mem_nodes hmem)
      · exact hno r hr hmem hreach
  · intro limits hcut
    cases hfound : (ofGraph g).shortestChain? roots target with
    | none =>
      have hempty : ((ofGraph g).chains roots target limits).chains = [] := by
        refine List.eq_nil_iff_forall_not_mem.2 fun c hc => ?_
        have hsimple := ((chains_of_not_truncated hcut le_rfl).2 c).1 hc
        exact shortestChain?_eq_none_iff.1 hfound c hsimple.isChainTo
      rw [ChainList.firstShortest?, hempty, List.find?_nil]
    | some c =>
      obtain ⟨hc, hleast⟩ := least_of_shortestChain? hfound
      obtain ⟨hsorted, hall⟩ := chains_of_not_truncated hcut (Nat.le_max_left limits.steps c.length)
      refine (ChainList.firstShortest?_eq_some ((hall c).2 ?_) hsorted ?_).symm
      · -- A shortest chain comes to no node twice, so it is among those that are listed.
        exact hc.isSimpleChain_of_shortest (fun d hd => (hleast d hd).1) (by omega)
      · exact fun d hd => hleast d ((hall d).1 hd).isChainTo

end Index
end Bridgework
