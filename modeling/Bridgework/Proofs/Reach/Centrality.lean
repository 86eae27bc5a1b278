import Bridgework.Proofs.Binary64.Rounding
import Bridgework.Proofs.Reach.Shortest
import Bridgework.Reach.Centrality

/-!
# Centrality

One search backward from the target marks the functions that reach it. A search forward from each of the
functions would have marked the target from the same ones. The sample chain is looked for from the marked
functions only; a chain from any other function does not exist, so it is a shortest one of all.

- `Index.marksFrom` : the search forward from one node
- `Index.centrality_eq` : centrality by searches forward
- `Centrality.IsPart`, `Centrality.isPart_part` : the double that says which part some functions are
- `Index.centrality_exact` : the counts, the ratio and the sample chain
-/

namespace Bridgework

/-! ## Numbers of some nodes -/

namespace Graph.Spells

variable {g : Graph} {p : List Nat} {c : Chain}

/-- All numbers spell all nodes. -/
theorem range (g : Graph) : g.Spells (List.range (Index.ofGraph g).size) g.nodes.toList := by
  refine List.forall₂_iff_get.2 ⟨?_, fun n hn hn' => ?_⟩
  · rw [List.length_range, Index.size_ofGraph]
  · rw [List.get_eq_getElem, List.get_eq_getElem, List.getElem_range]
    exact List.getElem?_eq_getElem hn'

theorem filter {f : Nat → Bool} {f' : Node → Bool} (h : g.Spells p c)
    (hf : ∀ n x, g.NumberedAt n x → f n = f' x) : g.Spells (p.filter f) (c.filter f') :=
  List.rel_filter (fun n x hn => iff_of_eq (congrArg (· = true) (hf n x hn))) h

end Graph.Spells

namespace Index

variable {g : Graph} {p : Package} {target x : Node} {n t : Nat}

theorem spells_ownFunctions (g : Graph) (p : Package) :
    g.Spells ((ofGraph g).ownFunctions p) (g.ownFunctions p).toList := by
  refine (Graph.Spells.range g).filter fun n x hn => ?_
  rw [getElem?_nodes_ofGraph.2 hn]

/-! ## Forward and backward -/

/-- Whether the search forward from a node marks the target. -/
def marksFrom (i : Index) (x target : Node) : Bool :=
  match i.position? x, i.position? target with
  | some n, some t => (i.forward [n]).getD t false
  | _, _ => false

/-- A search forward marks what is reached. -/
theorem marksFrom_iff (hx : x ∈ g.nodes) :
    (ofGraph g).marksFrom x target = true ↔ g.Reaches x target := by
  obtain ⟨n, hn⟩ := Graph.NumberedAt.exists_of_mem hx
  rw [marksFrom, position?_eq_some_iff.2 hn]
  cases ht : (ofGraph g).position? target with
  | none =>
    refine iff_of_false Bool.false_ne_true fun hreach => ?_
    exact position?_eq_none_iff.1 ht (hreach.mem_nodes hx)
  | some t =>
    rw [← reachable_next_iff hn (position?_eq_some_iff.1 ht)]
    exact forward_singleton_iff hn

/-- The search backward from the target marks the nodes from which the search forward marks it. -/
theorem getD_reverse_eq_marksFrom (ht : g.NumberedAt t target) (hn : g.NumberedAt n x) :
    ((ofGraph g).reverse [t]).getD n false = (ofGraph g).marksFrom x target := by
  rw [Bool.eq_iff_iff, marksFrom_iff hn.mem, ← reachable_next_iff hn ht]
  exact reverse_singleton_iff ht

/-- Those of some nodes from which the search forward marks the target. -/
def marking (i : Index) (roots : List Node) (target : Node) : List Node :=
  roots.filter fun x => i.marksFrom x target

/-- The functions that are counted are those from which a search forward marks the target. -/
theorem reachingFunctions_eq (ht : g.NumberedAt t target) :
    (ofGraph g).reachingFunctions p t = (ofGraph g).marking (g.ownFunctions p).toList target :=
  ((spells_ownFunctions g p).filter fun _ _ hn => getD_reverse_eq_marksFrom ht hn).nodesAt_eq

/-- Centrality, with one search forward from each function in place of the one backward. -/
theorem centrality_eq (g : Graph) (p : Package) (target : Node) :
    (ofGraph g).centrality p target =
      ⟨p, target, (g.ownFunctions p).toList.length,
        ((ofGraph g).marking (g.ownFunctions p).toList target).length,
        Centrality.part ((ofGraph g).marking (g.ownFunctions p).toList target).length
          (g.ownFunctions p).toList.length,
        (ofGraph g).shortestChain? ((ofGraph g).marking (g.ownFunctions p).toList target) target⟩ := by
  have hown : ((ofGraph g).ownFunctions p).length = (g.ownFunctions p).toList.length :=
    (spells_ownFunctions g p).length_eq
  rw [centrality, hown]
  cases ht : (ofGraph g).position? target with
  | none =>
    -- No search marks a target that is not in the graph.
    have hnone : (ofGraph g).marking (g.ownFunctions p).toList target = [] := by
      simp [marking, marksFrom, ht]
    rw [hnone, shortestChain?, ht]
    rfl
  | some t => rw [← reachingFunctions_eq (position?_eq_some_iff.1 ht)]

/-! ## The sample chain -/

/-- No chain starts at a root that is left out because it does not reach the target. -/
theorem isChainTo_marking_iff {roots : List Node} {c : Chain} :
    g.IsChainTo ((ofGraph g).marking roots target) target c ↔ g.IsChainTo roots target c := by
  constructor
  · intro hc
    obtain ⟨r, hr, hmem, hhead⟩ := hc.root
    exact ⟨⟨r, List.mem_of_mem_filter hr, hmem, hhead⟩, hc.calls, hc.target⟩
  · intro hc
    obtain ⟨r, hr, hmem, hhead⟩ := hc.root
    have hmark : (ofGraph g).marksFrom r target = true :=
      (marksFrom_iff hmem).2 (Graph.reaches_of_isChain hc.calls hhead hc.target)
    exact ⟨⟨r, List.mem_filter.2 ⟨hr, hmark⟩, hmem, hhead⟩, hc.calls, hc.target⟩

/-- If a function reaches the target, then there is a chain to show. -/
theorem isSome_sample_iff :
    ((ofGraph g).centrality p target).sample.isSome ↔ 0 < ((ofGraph g).centrality p target).reaching := by
  rw [centrality_eq, List.length_pos_iff_exists_mem, Option.isSome_iff_ne_none, ne_eq,
    shortestChain?_eq_none_iff, not_forall_not, Graph.exists_isChainTo_iff]
  constructor
  · rintro ⟨r, hr, _⟩
    exact ⟨r, hr⟩
  · rintro ⟨r, hr⟩
    obtain ⟨hown, hmark⟩ := List.mem_filter.1 hr
    have hmem : r ∈ g.nodes := (Graph.mem_ownFunctions.1 hown).1
    exact ⟨r, hr, hmem, (marksFrom_iff hmem).1 hmark⟩

end Index

/-! ## Ratios -/

namespace Centrality

/-- The double says which part `reaching` of `own` functions are. The counts become doubles, and their quotient is
rounded; below `2 ^ 53` the counts stay as they are, and no double is nearer to their quotient. -/
structure IsPart (x : Binary64) (reaching own : Nat) : Prop where
  zero : own = 0 → x = .zero false
  fits : x.Fits
  rounds : 0 < own →
    Binary64.Rounds ((Binary64.ofNat reaching).toRat / (Binary64.ofNat own).toRat) x.toRat
  nearest : 0 < own → own < 2 ^ 53 → ∀ z : Binary64, z.Fits →
    |x.toRat - (reaching : ℚ) / own| ≤ |z.toRat - (reaching : ℚ) / own|
  nonneg : 0 ≤ x.toRat
  le_one : x.toRat ≤ 1

variable {x y : Binary64} {reaching reaching' own : Nat}

/-- The doubles of the counts are in order, so that their quotient is at most one. -/
theorem quotient_mem (hle : reaching ≤ own) (hown : 0 < own) :
    0 ≤ (Binary64.ofNat reaching).toRat / (Binary64.ofNat own).toRat ∧
      (Binary64.ofNat reaching).toRat / (Binary64.ofNat own).toRat ≤ 1 := by
  have hpos : 0 < (Binary64.ofNat own).toRat := one_pos.trans_le (Binary64.one_le_toRat_ofNat hown)
  have hnonneg : 0 ≤ (Binary64.ofNat reaching).toRat := by
    have hzero : (Binary64.ofNat 0).toRat = 0 := by simpa using Binary64.toRat_ofNat (n := 0) (by norm_num)
    exact hzero ▸ Binary64.ofNat_mono (Nat.zero_le reaching)
  exact ⟨div_nonneg hnonneg hpos.le, (div_le_one hpos).2 (Binary64.ofNat_mono hle)⟩

/-- The quotient of the counts is at most one, so that it never becomes infinite. -/
theorem part_rounds (hle : reaching ≤ own) (hown : 0 < own) :
    (part reaching own).Fits ∧
      Binary64.Rounds ((Binary64.ofNat reaching).toRat / (Binary64.ofNat own).toRat) (part reaching own).toRat := by
  have hpos : 0 < (Binary64.ofNat own).toRat := one_pos.trans_le (Binary64.one_le_toRat_ofNat hown)
  obtain ⟨q, hq, hresult⟩ :=
    Binary64.div?_spec (Binary64.ofNat_spec reaching).1 (Binary64.ofNat_spec own).1 hpos
  rw [part, if_neg hown.ne']
  rcases hresult with ⟨z, hz, -, hfits, rfl⟩ | ⟨-, hlarge⟩
  · rw [hz]
    exact ⟨hfits, hq⟩
  · have hone : q ≤ 1 := hq.mono Binary64.rounds_one (quotient_mem hle hown).2
    exact absurd (hlarge.trans hone) (not_le.2 (one_lt_zpow₀ one_lt_two (by norm_num)))

/-- The ratio is the double of the part. -/
theorem isPart_part (hle : reaching ≤ own) : IsPart (part reaching own) reaching own := by
  rcases Nat.eq_zero_or_pos own with rfl | hown
  · have hzero : part reaching 0 = .zero false := if_pos rfl
    rw [hzero]
    exact
      { zero := fun _ => rfl, fits := Binary64.fits_zero, rounds := fun h => absurd h (lt_irrefl 0),
        nearest := fun h => absurd h (lt_irrefl 0), nonneg := Binary64.toRat_zero.ge,
        le_one := Binary64.toRat_zero.le.trans zero_le_one }
  · obtain ⟨hfits, hrounds⟩ := part_rounds hle hown
    obtain ⟨hnonneg, hone⟩ := quotient_mem hle hown
    refine ⟨fun h => absurd h hown.ne', hfits, fun _ => hrounds, fun _ hsmall z hz => ?_,
      Binary64.rounds_zero.mono hrounds hnonneg, hrounds.mono Binary64.rounds_one hone⟩
    rw [Binary64.toRat_ofNat (hle.trans_lt hsmall), Binary64.toRat_ofNat hsmall] at hrounds
    exact hrounds.nearest hz

/-- Which part it is depends on the value, apart from the zero of no functions. -/
theorem IsPart.of_toRat_eq (h : IsPart x reaching own) (hvalue : x.toRat = y.toRat) (hfits : y.Fits)
    (hzero : own = 0 → y = .zero false) : IsPart y reaching own where
  zero := hzero
  fits := hfits
  rounds hown := hvalue ▸ h.rounds hown
  nearest hown hsmall z hz := hvalue ▸ h.nearest hown hsmall z hz
  nonneg := hvalue ▸ h.nonneg
  le_one := hvalue ▸ h.le_one

/-- More functions are no lesser part. -/
theorem part_mono (h : reaching ≤ reaching') (hle : reaching' ≤ own) :
    (part reaching own).toRat ≤ (part reaching' own).toRat := by
  rcases Nat.eq_zero_or_pos own with rfl | hown
  · rw [part, part, if_pos rfl, if_pos rfl]
  · refine (part_rounds (h.trans hle) hown).2.mono (part_rounds hle hown).2 ?_
    have hpos := one_pos.trans_le (Binary64.one_le_toRat_ofNat hown)
    exact div_le_div_of_nonneg_right (Binary64.ofNat_mono h) hpos.le

end Centrality

namespace Index

variable {g : Graph} {p : Package} {target : Node}

theorem reaching_le_ownFunctions :
    ((ofGraph g).centrality p target).reaching ≤ ((ofGraph g).centrality p target).ownFunctions := by
  rw [centrality_eq]
  exact List.length_filter_le _ _

theorem ratio_centrality :
    ((ofGraph g).centrality p target).ratio =
      Centrality.part ((ofGraph g).centrality p target).reaching ((ofGraph g).centrality p target).ownFunctions := by
  rw [centrality_eq]

end Index

/-- The functions that are counted are those from which a search forward marks the target. They are a
part of the package's own functions, and the ratio says which part. A sample chain is there exactly if
any are counted, and no chain from an own function to the target is shorter. -/
theorem Index.centrality_exact (g : Graph) (p : Package) (target : Node) :
    let own := (g.ownFunctions p).toList
    let c := (ofGraph g).centrality p target
    (own.Nodup ∧ ∀ x, x ∈ own ↔ x ∈ g.nodes ∧ ∃ name, x = .interpreted p name) ∧
    c.ownFunctions = own.length ∧
    c.reaching = own.countP (fun x => (ofGraph g).marksFrom x target) ∧
    c.reaching ≤ c.ownFunctions ∧
    Centrality.IsPart c.ratio c.reaching c.ownFunctions ∧
    (c.sample.isSome ↔ 0 < c.reaching) ∧
    ∀ s, c.sample = some s →
      g.IsChainTo own target s ∧ ∀ d, g.IsChainTo own target d → s.length ≤ d.length := by
  intro own c
  have heq : c = ⟨p, target, own.length, _, _, _⟩ := centrality_eq g p target
  have hown : c.ownFunctions = own.length := congrArg Centrality.ownFunctions heq
  have hcount : c.reaching = own.countP (fun x => (ofGraph g).marksFrom x target) :=
    (congrArg Centrality.reaching heq).trans List.countP_eq_length_filter.symm
  have hpart : Centrality.IsPart c.ratio c.reaching c.ownFunctions :=
    ratio_centrality (g := g) ▸ Centrality.isPart_part reaching_le_ownFunctions
  refine ⟨⟨(g.ownFunctions p).nodup_toList, fun x => Graph.mem_ownFunctions⟩, hown, hcount,
    reaching_le_ownFunctions, hpart, isSome_sample_iff, fun s hs => ?_⟩
  -- The sample is a shortest chain from the marked functions, and no other function starts a chain.
  rw [heq] at hs
  obtain ⟨hchain, hleast⟩ := least_of_shortestChain? hs
  exact ⟨isChainTo_marking_iff.1 hchain, fun d hd => (hleast d (isChainTo_marking_iff.2 hd)).1⟩

end Bridgework
