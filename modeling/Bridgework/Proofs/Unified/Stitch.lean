import Bridgework.Proofs.CallGraph.Consistent
import Bridgework.Proofs.Collection.Increasing
import Bridgework.Proofs.Text.Dotted
import Bridgework.Proofs.Unified.Graph
import Bridgework.Unified.Stitch
import Mathlib.Logic.ExistsUnique

/-!
# The stitched graph

What the stitched graph has to be, by rules on the inputs alone: which functions and symbols are nodes,
and which calls are edges. The rules say nothing about the passes that build the graph, and packages and
libraries may come in several pieces.

- `StitchInputs.Owns`, `StitchInputs.LinksTo` : where a dotted name of elsewhere and an import lead
- `StitchInputs.IsNode`, `StitchInputs.IsCall` : the nodes and the edges
- `stitch_exact` : the graph is what the rules say
-/

namespace Bridgework
namespace StitchInputs

/-! ## Rules -/

section Rules

variable (i : StitchInputs)

/-- Some graph of the package declares the name. -/
def Declares (p : Package) (name : String) : Prop :=
  ∃ g ∈ i.interpreted, g.package = p ∧ name ∈ g.functions

/-- The least package that declares a name with this first part. -/
def Owns (top : String) : Package → Prop :=
  Least fun p => ∃ name, i.Declares p name ∧ Text.IsFirstPart top name

/-- Some graph of the library defines or imports the symbol. -/
def HasSymbol (l : Library) (s : String) : Prop :=
  ∃ g ∈ i.native, g.library = l ∧ g.HasSymbol s

/-- Some graph of the library imports the symbol. -/
def Imports (l : Library) (s : String) : Prop :=
  ∃ g ∈ i.native, g.library = l ∧ s ∈ g.imports

/-- Another library than `l` exports the symbol. -/
def Offers (l : Library) (s : String) (t : Library) : Prop :=
  t ≠ l ∧ ∃ g ∈ i.native, g.library = t ∧ ∃ e ∈ g.exports, e.name = s

/-- The library where an import of `l` leads: the least of the others that export the symbol in the
package of `l`, and if there is none in that package, the least of all others. -/
def LinksTo (l : Library) (s : String) (t : Library) : Prop :=
  Least (fun u => i.Offers l s u ∧ u.package = l.package) t ∨
    (¬ ∃ u, i.Offers l s u ∧ u.package = l.package) ∧ Least (i.Offers l s) t

/-- The nodes of the stitched graph. -/
inductive IsNode : Node → Prop where
  | function {p : Package} {name : String} (h : i.Declares p name) : IsNode (.interpreted p name)
  | symbol {l : Library} {s : String} (h : i.HasSymbol l s) : IsNode (.native l s)
  | exporter {l t : Library} {s : String} (himport : i.Imports l s) (hlink : i.LinksTo l s t) :
      IsNode (.native t s)

/-- The calls that the graphs give rise to. -/
inductive IsPlainCall : Node → Node → Prop where
  | within {g : InterpretedGraph} {c : Call} (hg : g ∈ i.interpreted) (hc : c ∈ g.calls) :
      IsPlainCall (.interpreted g.package c.caller) (.interpreted g.package c.callee)
  | initializer {g : InterpretedGraph} {c : Call} (hg : g ∈ i.interpreted) (hc : c ∈ g.calls)
      (hname : i.Declares g.package (c.callee ++ ".__init__")) :
      IsPlainCall (.interpreted g.package c.caller) (.interpreted g.package (c.callee ++ ".__init__"))
  | across {g : InterpretedGraph} {c : Call} {top : String} {p : Package} {name : String}
      (hg : g ∈ i.interpreted) (hc : c ∈ g.externalCalls) (htop : Text.IsFirstPart top c.callee)
      (howner : i.Owns top p) (hcallee : name = c.callee ∨ name = c.callee ++ ".__init__")
      (hname : i.Declares p name) :
      IsPlainCall (.interpreted g.package c.caller) (.interpreted p name)
  | native {g : NativeGraph} {c : Call} (hg : g ∈ i.native) (hc : c ∈ g.calls) :
      IsPlainCall (.native g.library c.caller) (.native g.library c.callee)
  | link {l t : Library} {s : String} (himport : i.Imports l s) (hlink : i.LinksTo l s t) :
      IsPlainCall (.native l s) (.native t s)

/-- The edges of the stitched graph. -/
inductive IsCall : Node → Node → Prop where
  | plain {x y : Node} (h : i.IsPlainCall x y) : IsCall x y
  | bridge {r : BridgeReport} {b : Bridge} (hr : r ∈ i.bridges) (hb : b ∈ r.bridges)
      (hsource : i.IsNode (.interpreted r.package b.callable))
      (htarget : i.IsNode (.native (.ofPath r.package b.library) b.symbol)) :
      IsCall (.interpreted r.package b.callable) (.native (.ofPath r.package b.library) b.symbol)

/-- Every graph declares what it has to. -/
structure Consistent : Prop where
  interpreted : ∀ g ∈ i.interpreted, g.Consistent
  native : ∀ g ∈ i.native, g.Consistent

end Rules

variable {i : StitchInputs}

/-- The interpreted nodes are those that are declared. -/
theorem isNode_interpreted_iff {p : Package} {name : String} :
    i.IsNode (.interpreted p name) ↔ i.Declares p name := by
  constructor
  · intro h
    cases h with
    | function h => exact h
  · exact .function

/-! ## Names of elsewhere -/

/-- The lookup of a name decides whether it is declared. -/
theorem declares_iff {p : Package} {name : String} :
    i.declares p name = true ↔ i.Declares p name := by
  simp [declares, Declares, SortedSet.contains_iff]

/-- The lookup of a first part decides whether some name with it is declared. -/
theorem declaresTop_iff {p : Package} {top : String} :
    i.declaresTop p top = true ↔ ∃ name, i.Declares p name ∧ Text.IsFirstPart top name := by
  simp only [declaresTop, List.any_eq_true, Bool.and_eq_true, beq_iff_eq, Text.firstPart_eq_iff]
  constructor
  · intro h
    rcases h with ⟨g, hg, hp, name, hname, htop⟩
    exact ⟨name, ⟨g, hg, hp, hname⟩, htop⟩
  · intro h
    rcases h with ⟨name, ⟨g, hg, hp, hname⟩, htop⟩
    exact ⟨g, hg, hp, name, hname, htop⟩

/-- The search goes through the packages in their order, so it ends at the least one. -/
theorem owner?_eq_some_iff {top : String} {p : Package} :
    i.owner? top = some p ↔ i.Owns top p := by
  rw [owner?, i.packages.increasing.find?_eq_some_iff]
  refine least_congr fun q => ?_
  rw [declaresTop_iff]
  refine and_iff_right_of_imp ?_
  intro h
  rcases h with ⟨_, ⟨g, hg, hq, _⟩, _⟩
  exact SortedSet.mem_ofList.2 (List.mem_map.2 ⟨g, hg, hq⟩)

/-- A callee is itself or a class, which stands for its initializer. -/
theorem mem_declaredTargets_iff {p : Package} {callee : String} {x : Node} :
    x ∈ i.declaredTargets p callee ↔
      ∃ name, (name = callee ∨ name = callee ++ ".__init__") ∧ i.Declares p name ∧
        .interpreted p name = x := by
  simp only [declaredTargets, List.mem_filterMap, List.mem_cons, List.not_mem_nil, or_false,
    constructorOf, Option.ite_none_right_eq_some, Option.some.injEq, declares_iff]

/-- An external callee is looked for in the packages that own its first part. -/
theorem mem_externalTargets_iff {callee : String} {x : Node} :
    x ∈ i.externalTargets callee ↔
      ∃ top p name, Text.IsFirstPart top callee ∧ i.Owns top p ∧
        (name = callee ∨ name = callee ++ ".__init__") ∧ i.Declares p name ∧
        .interpreted p name = x := by
  constructor
  · intro h
    unfold externalTargets at h
    split at h
    next p howner =>
      rcases mem_declaredTargets_iff.1 h with ⟨name, hname⟩
      exact ⟨_, p, name, Text.firstPart_eq_iff.1 rfl, owner?_eq_some_iff.1 howner, hname⟩
    next => cases h
  · intro h
    rcases h with ⟨top, p, name, htop, howner, hname⟩
    rw [externalTargets, Text.firstPart_eq_iff.2 htop, owner?_eq_some_iff.2 howner]
    exact mem_declaredTargets_iff.2 ⟨name, hname⟩

/-! ## Imports -/

/-- All exporters but the library itself offer it the symbol. -/
theorem mem_others_iff {l u : Library} {s : String} :
    u ∈ (i.exporters s).toList.filter (· != l) ↔ i.Offers l s u := by
  rw [List.mem_filter, ← SortedSet.mem_def, exporters, SortedSet.mem_ofList, List.mem_map, bne_iff_ne,
    and_comm]
  simp only [List.mem_filter, NativeGraph.exportsSymbol, List.any_eq_true, beq_iff_eq]
  refine and_congr_right fun _ => ?_
  constructor
  · intro h
    rcases h with ⟨g, ⟨hg, hexport⟩, hl⟩
    exact ⟨g, hg, hl, hexport⟩
  · intro h
    rcases h with ⟨g, hg, hl, hexport⟩
    exact ⟨g, ⟨hg, hexport⟩, hl⟩

/-- The exporter that is chosen is the first of those that offer the symbol. -/
theorem exporter?_eq_some_iff {l t : Library} {s : String} :
    i.exporter? l s = some t ↔ i.LinksTo l s t := by
  have hsorted : Increasing ((i.exporters s).toList.filter (· != l)) :=
    SortedSet.increasing_filter (i.exporters s).increasing
  -- The first of an increasing list is the least, with or without the condition on the package.
  have hown : ∀ u, (((i.exporters s).toList.filter (· != l)).find? fun u => u.package == l.package)
      = some u ↔ Least (fun u => i.Offers l s u ∧ u.package = l.package) u := by
    intro u
    rw [hsorted.find?_eq_some_iff]
    exact least_congr fun u => and_congr mem_others_iff beq_iff_eq
  have hnone : (((i.exporters s).toList.filter (· != l)).find? fun u => u.package == l.package)
      = none ↔ ¬ ∃ u, i.Offers l s u ∧ u.package = l.package := by
    rw [List.find?_eq_none]
    simp only [mem_others_iff, beq_iff_eq, not_exists, not_and]
  have hall : ((i.exporters s).toList.filter (· != l)).head? = some t ↔ Least (i.Offers l s) t := by
    rw [hsorted.head?_eq_some_iff]
    exact least_congr fun u => mem_others_iff
  rw [exporter?, Option.or_eq_some_iff, hown, hnone, hall]
  rfl

/-- An import is linked to one library at most. -/
theorem linksTo_unique {l t u : Library} {s : String} (ht : i.LinksTo l s t) (hu : i.LinksTo l s u) :
    u = t := by
  have hsome : some u = some t :=
    (exporter?_eq_some_iff.2 hu).symm.trans (exporter?_eq_some_iff.2 ht)
  exact Option.some.inj hsome

/-- An import that is offered is linked. -/
theorem exists_linksTo {l u : Library} {s : String} (hu : i.Offers l s u) : ∃ t, i.LinksTo l s t := by
  cases ht : i.exporter? l s with
  | some t => exact ⟨t, exporter?_eq_some_iff.1 ht⟩
  | none =>
    have hnil : ((i.exporters s).toList.filter (· != l)).head? = none :=
      (Option.or_eq_none_iff.1 ht).2
    have hmem := mem_others_iff.2 hu
    rw [List.head?_eq_none_iff.1 hnil] at hmem
    cases hmem

theorem LinksTo.offers {l t : Library} {s : String} (h : i.LinksTo l s t) : i.Offers l s t := by
  rcases h with h | h
  · exact h.1.1
  · exact h.2.1

theorem mem_imports_iff {l : Library} {s : String} : (l, s) ∈ i.imports ↔ i.Imports l s := by
  simp only [imports, List.mem_flatMap, List.mem_map, Prod.mk.injEq, Imports, SortedSet.mem_def]
  constructor
  · intro h
    rcases h with ⟨g, hg, s', hs, hl, rfl⟩
    exact ⟨g, hg, hl, hs⟩
  · intro h
    rcases h with ⟨g, hg, hl, hs⟩
    exact ⟨g, hg, s, hs, hl, rfl⟩

/-! ## Before the bridges -/

/-- The nodes that are declared are the names of the packages and the symbols of the libraries. -/
theorem mem_declaredNodes_iff {x : Node} :
    x ∈ i.declaredNodes ↔
      (∃ p name, i.Declares p name ∧ x = .interpreted p name) ∨
        ∃ l s, i.HasSymbol l s ∧ x = .native l s := by
  rw [declaredNodes, List.mem_append]
  refine or_congr ?_ ?_
  · simp only [List.mem_flatMap, interpretedNodes, List.mem_map]
    constructor
    · intro h
      rcases h with ⟨g, hg, name, hname, rfl⟩
      exact ⟨g.package, name, ⟨g, hg, rfl, hname⟩, rfl⟩
    · intro h
      rcases h with ⟨p, name, ⟨g, hg, rfl, hname⟩, rfl⟩
      exact ⟨g, hg, name, hname, rfl⟩
  · simp only [List.mem_flatMap, nativeNodes, List.mem_map, List.mem_append]
    constructor
    · intro h
      rcases h with ⟨g, hg, s, hs, rfl⟩
      exact ⟨g.library, s, ⟨g, hg, rfl, hs⟩, rfl⟩
    · intro h
      rcases h with ⟨l, s, ⟨g, hg, rfl, hs⟩, rfl⟩
      exact ⟨g, hg, s, hs, rfl⟩

/-- An internal call goes to its callee, and to the initializer if the callee is a class. -/
theorem mem_internalEdges_iff {g : InterpretedGraph} {c : Call} {e : Edge} :
    e ∈ i.internalEdges g c ↔
      e = ⟨.interpreted g.package c.caller, .interpreted g.package c.callee⟩ ∨
        i.Declares g.package (c.callee ++ ".__init__") ∧
          e = ⟨.interpreted g.package c.caller, .interpreted g.package (c.callee ++ ".__init__")⟩ := by
  rw [internalEdges, List.mem_cons, ← declares_iff, ← constructorOf]
  cases i.declares g.package (constructorOf c.callee) with
  | false => simp
  | true => simp

/-- Every edge that is put in comes from a plain call. -/
theorem isPlainCall_of_mem {e : Edge} (he : e ∈ i.plainEdges) : i.IsPlainCall e.source e.target := by
  simp only [plainEdges, List.mem_append, List.mem_flatMap, List.mem_filterMap] at he
  rcases he with ((⟨g, hg, c, hc, he⟩ | ⟨⟨g, c⟩, hgc, he⟩) | ⟨g, hg, he⟩) | ⟨⟨l, s⟩, hls, he⟩
  · rcases mem_internalEdges_iff.1 he with rfl | ⟨hname, rfl⟩
    · exact .within hg hc
    · exact .initializer hg hc hname
  · simp only [externalCalls, List.mem_flatMap, List.mem_map, Prod.mk.injEq] at hgc
    rcases hgc with ⟨_, hg, _, hc, rfl, rfl⟩
    rcases List.mem_map.1 he with ⟨x, hx, rfl⟩
    rcases mem_externalTargets_iff.1 hx with ⟨top, p, name, htop, howner, hcallee, hname, rfl⟩
    exact .across hg hc htop howner hcallee hname
  · rcases List.mem_map.1 he with ⟨c, hc, rfl⟩
    exact .native hg hc
  · rcases Option.map_eq_some_iff.1 he with ⟨t, ht, rfl⟩
    exact .link (mem_imports_iff.1 hls) (exporter?_eq_some_iff.1 ht)

/-- Every plain call gives an edge. -/
theorem mem_plainEdges_of_isPlainCall {x y : Node} (h : i.IsPlainCall x y) :
    ⟨x, y⟩ ∈ i.plainEdges := by
  simp only [plainEdges, List.mem_append, List.mem_flatMap, List.mem_filterMap]
  cases h with
  | @within g c hg hc => exact .inl (.inl (.inl ⟨g, hg, c, hc, mem_internalEdges_iff.2 (.inl rfl)⟩))
  | @initializer g c hg hc hname =>
    exact .inl (.inl (.inl ⟨g, hg, c, hc, mem_internalEdges_iff.2 (.inr ⟨hname, rfl⟩)⟩))
  | @across g c top p name hg hc htop howner hcallee hname =>
    have htarget : .interpreted p name ∈ i.externalTargets c.callee :=
      mem_externalTargets_iff.2 ⟨top, p, name, htop, howner, hcallee, hname, rfl⟩
    refine .inl (.inl (.inr ⟨(g, c), ?_, List.mem_map.2 ⟨_, htarget, rfl⟩⟩))
    exact List.mem_flatMap.2 ⟨g, hg, List.mem_map.2 ⟨c, hc, rfl⟩⟩
  | @native g c hg hc => exact .inl (.inr ⟨g, hg, List.mem_map.2 ⟨c, hc, rfl⟩⟩)
  | @link l t s himport hlink =>
    exact .inr ⟨(l, s), mem_imports_iff.2 himport,
      Option.map_eq_some_iff.2 ⟨t, exporter?_eq_some_iff.2 hlink, rfl⟩⟩

/-- Before the bridges the edges are the plain calls. -/
theorem mem_edges_baseGraph {e : Edge} :
    e ∈ i.baseGraph.edges ↔ i.IsPlainCall e.source e.target := by
  have hmem : e ∈ i.baseGraph.edges ↔ e ∈ i.plainEdges := by
    rw [baseGraph, Graph.mem_edges_addEdges, Graph.mem_edges_addNodes]
    exact or_iff_left Graph.mem_edges_empty
  rw [hmem]
  exact ⟨isPlainCall_of_mem, mem_plainEdges_of_isPlainCall⟩

/-- Edges bring in no node of their own, except for the exporter of an import: every other end is
declared by a consistent graph. -/
theorem IsPlainCall.isNode (hi : i.Consistent) {x y : Node} (h : i.IsPlainCall x y) :
    i.IsNode x ∧ i.IsNode y := by
  -- Every call has its ends checked, or looked for among what is declared.
  cases h with
  | @within g c hg hc =>
    have hends := (hi.interpreted g hg).calls c hc
    exact ⟨.function ⟨g, hg, rfl, hends.1⟩, .function ⟨g, hg, rfl, hends.2⟩⟩
  | @initializer g c hg hc hname =>
    have hends := (hi.interpreted g hg).calls c hc
    exact ⟨.function ⟨g, hg, rfl, hends.1⟩, .function hname⟩
  | @across g c top p name hg hc htop howner hcallee hname =>
    have hcaller := (hi.interpreted g hg).externalCalls c hc
    exact ⟨.function ⟨g, hg, rfl, hcaller⟩, .function hname⟩
  | @native g c hg hc =>
    have hends := hi.native g hg c hc
    exact ⟨.symbol ⟨g, hg, rfl, hends.1⟩, .symbol ⟨g, hg, rfl, hends.2⟩⟩
  | link himport hlink =>
    rcases himport with ⟨g, hg, hl, hs⟩
    exact ⟨.symbol ⟨g, hg, hl, .inr hs⟩, .exporter ⟨g, hg, hl, hs⟩ hlink⟩

/-- Before the bridges the nodes are those of the inputs: no call has an end that is not declared. -/
theorem mem_nodes_baseGraph (hi : i.Consistent) {x : Node} : x ∈ i.baseGraph.nodes ↔ i.IsNode x := by
  have hmem : x ∈ i.baseGraph.nodes ↔
      (∃ e ∈ i.plainEdges, x = e.source ∨ x = e.target) ∨ x ∈ i.declaredNodes := by
    rw [baseGraph, Graph.mem_nodes_addEdges, Graph.mem_nodes_addNodes]
    exact or_congr_right (or_iff_left Graph.mem_nodes_empty)
  rw [hmem, mem_declaredNodes_iff]
  constructor
  · intro h
    rcases h with ⟨e, he, rfl | rfl⟩ | ⟨p, name, hname, rfl⟩ | ⟨l, s, hs, rfl⟩
    · exact ((isPlainCall_of_mem he).isNode hi).1
    · exact ((isPlainCall_of_mem he).isNode hi).2
    · exact .function hname
    · exact .symbol hs
  · intro h
    cases h with
    | @function p name hname => exact .inr (.inl ⟨p, name, hname, rfl⟩)
    | @symbol l s hs => exact .inr (.inr ⟨l, s, hs, rfl⟩)
    | exporter himport hlink =>
      -- Nothing declares this node; it comes in with the link.
      exact .inl ⟨_, mem_plainEdges_of_isPlainCall (.link himport hlink), .inr rfl⟩

/-! ## With the bridges -/

/-- A bridge is placed exactly if it is reported for its package. -/
theorem mem_placedBridges_iff {b : PlacedBridge} :
    b ∈ i.placedBridges ↔ ∃ r ∈ i.bridges, r.package = b.package ∧ b.bridge ∈ r.bridges := by
  simp only [placedBridges, SortedSet.mem_ofList, List.mem_flatMap, List.mem_map]
  constructor
  · intro h
    rcases h with ⟨r, hr, b, hb, rfl⟩
    exact ⟨r, hr, rfl, hb⟩
  · intro h
    rcases h with ⟨r, hr, hp, hb⟩
    exact ⟨r, hr, b.bridge, hb, by rw [hp]⟩

/-- A bridge is applied exactly if both of its ends are there. -/
theorem fate_eq_applied_iff {g : Graph} {b : PlacedBridge} :
    b.fate g = .applied ↔ b.source ∈ g.nodes ∧ b.target ∈ g.nodes := by
  rw [PlacedBridge.fate, ← SortedSet.contains_iff, ← SortedSet.contains_iff]
  cases g.nodes.contains b.source with
  | false => simp
  | true =>
    cases g.nodes.contains b.target with
    | false => simp
    | true => simp

/-- A bridge without its source is one that misses its interpreted end. -/
theorem fate_eq_missingInterpreted_iff {g : Graph} {b : PlacedBridge} :
    b.fate g = .missingInterpreted ↔ b.source ∉ g.nodes := by
  rw [PlacedBridge.fate, ← SortedSet.contains_iff]
  cases g.nodes.contains b.source with
  | false => simp
  | true =>
    cases g.nodes.contains b.target with
    | false => simp
    | true => simp

/-- A bridge with its source, but without its target, is one that misses its native end. -/
theorem fate_eq_missingNative_iff {g : Graph} {b : PlacedBridge} :
    b.fate g = .missingNative ↔ b.source ∈ g.nodes ∧ b.target ∉ g.nodes := by
  rw [PlacedBridge.fate, ← SortedSet.contains_iff, ← SortedSet.contains_iff]
  cases g.nodes.contains b.source with
  | false => simp
  | true =>
    cases g.nodes.contains b.target with
    | false => simp
    | true => simp

/-- The bridges that become edges, as edges. -/
def appliedEdges (i : StitchInputs) : List Edge :=
  (i.placedBridges.toList.filter fun b => b.fate i.baseGraph == .applied).map fun b =>
    ⟨b.source, b.target⟩

theorem graph_report (i : StitchInputs) : i.report.graph = i.appliedEdges.foldl .addEdge i.baseGraph := by
  rw [appliedEdges, List.foldl_map]
  rfl

/-- The edges of the bridges that are applied are those between nodes of the graph. -/
theorem mem_appliedEdges_iff {e : Edge} :
    e ∈ i.appliedEdges ↔
      ∃ b ∈ i.placedBridges, (b.source ∈ i.baseGraph.nodes ∧ b.target ∈ i.baseGraph.nodes) ∧
        ⟨b.source, b.target⟩ = e := by
  simp only [appliedEdges, List.mem_map, List.mem_filter, beq_iff_eq, fate_eq_applied_iff, and_assoc,
    SortedSet.mem_def]

/-- The bridges bring no new nodes. -/
theorem mem_nodes_report (hi : i.Consistent) {x : Node} : x ∈ i.report.graph.nodes ↔ i.IsNode x := by
  rw [graph_report, Graph.mem_nodes_addEdges, ← mem_nodes_baseGraph hi]
  -- Both ends of a bridge that is applied are nodes already.
  refine or_iff_right_of_imp ?_
  intro h
  rcases h with ⟨e, he, hx⟩
  rcases mem_appliedEdges_iff.1 he with ⟨b, _, ⟨hsource, htarget⟩, rfl⟩
  rcases hx with rfl | rfl
  · exact hsource
  · exact htarget

/-- The calls of the report are the plain calls and the bridges between nodes. -/
theorem calls_report_iff (hi : i.Consistent) {x y : Node} :
    i.report.graph.Calls x y ↔ i.IsCall x y := by
  -- Bridges come to the plain calls, but only those with both ends.
  have hmem : i.report.graph.Calls x y ↔ ⟨x, y⟩ ∈ i.appliedEdges ∨ i.IsPlainCall x y := by
    rw [Graph.Calls, graph_report, Graph.mem_edges_addEdges, mem_edges_baseGraph]
  rw [hmem, mem_appliedEdges_iff]
  simp only [mem_nodes_baseGraph hi]
  constructor
  · intro h
    rcases h with ⟨⟨p, b⟩, hb, ⟨hsource, htarget⟩, hxy⟩ | h
    · obtain ⟨rfl, rfl⟩ := Edge.mk.inj hxy
      rcases mem_placedBridges_iff.1 hb with ⟨r, hr, rfl, hb⟩
      exact .bridge hr hb hsource htarget
    · exact .plain h
  · intro h
    cases h with
    | plain h => exact .inr h
    | @bridge r b hr hb hsource htarget =>
      exact .inl ⟨⟨r.package, b⟩, mem_placedBridges_iff.2 ⟨r, hr, rfl, hb⟩, ⟨hsource, htarget⟩, rfl⟩

theorem mem_missingNative_report (hi : i.Consistent) {b : PlacedBridge} :
    b ∈ i.report.missingNative ↔ b ∈ i.placedBridges ∧ i.IsNode b.source ∧ ¬ i.IsNode b.target := by
  have hfilter : b ∈ i.report.missingNative ↔
      b ∈ i.placedBridges ∧ (b.fate i.baseGraph == .missingNative) = true := List.mem_filter
  rw [hfilter, beq_iff_eq, fate_eq_missingNative_iff, mem_nodes_baseGraph hi, mem_nodes_baseGraph hi]

/-- The calls of a library stay in it and a bridge begins in a package, so an edge from one library to
another is the link of an import. -/
theorem IsCall.linksTo {x y : Node} {l t : Library} {s : String} (h : i.IsCall x y)
    (hx : x = .native l s) (hy : y = .native t s) (hne : t ≠ l) : i.LinksTo l s t := by
  rcases h with h | _
  · cases h with
    | within _ _ => cases hx
    | initializer _ _ _ => cases hx
    | across _ _ _ _ _ _ => cases hx
    | native _ _ => exact absurd ((Node.native.inj hy).1.symm.trans (Node.native.inj hx).1) hne
    | link _ hlink =>
      obtain ⟨rfl, rfl⟩ := Node.native.inj hx
      obtain ⟨rfl, _⟩ := Node.native.inj hy
      exact hlink
  · cases hx

/-! ## Acceptance -/

/-- A loop of checks passes exactly if each check does. -/
theorem forM_eq_ok_iff {α ε : Type} {f : α → Except ε Unit} {xs : List α} :
    xs.forM f = .ok () ↔ ∀ x ∈ xs, f x = .ok () := by
  induction xs with
  | nil => simp [pure, Except.pure]
  | cons x xs ih =>
    rw [List.forall_mem_cons, ← ih, List.forM]
    cases f x with
    | error e => simp [bind, Except.bind]
    | ok u => simp [bind, Except.bind]

/-- The check passes for consistent inputs. -/
theorem validate_eq_ok_iff : i.validate = .ok () ↔ i.Consistent := by
  have hboth : i.validate = .ok () ↔
      i.interpreted.forM InterpretedGraph.validate = .ok () ∧
        i.native.forM NativeGraph.validate = .ok () := by
    rw [validate]
    cases i.interpreted.forM InterpretedGraph.validate with
    | error e => simp [bind, Except.bind]
    | ok u => simp [bind, Except.bind]
  rw [hboth, forM_eq_ok_iff, forM_eq_ok_iff]
  simp only [InterpretedGraph.validate_eq_ok_iff, NativeGraph.validate_eq_ok_iff]
  exact ⟨fun h => ⟨h.1, h.2⟩, fun h => ⟨h.interpreted, h.native⟩⟩

/-- Stitching gives the report of consistent inputs. -/
theorem stitch_eq_ok_iff {r : StitchReport} : stitch i = .ok r ↔ i.Consistent ∧ r = i.report := by
  rw [← validate_eq_ok_iff, stitch]
  cases i.validate with
  | error e => simp [bind, Except.bind]
  | ok u => simp [bind, Except.bind, pure, Except.pure, eq_comm]

end StitchInputs

/-- Inputs are stitched exactly if each graph declares what it has to. Then the nodes and the edges are
those of the rules, and an import that some other library can serve leads out of its library by exactly
one edge to the same symbol. -/
theorem stitch_exact (i : StitchInputs) :
    ((∃ r, stitch i = .ok r) ↔ i.Consistent) ∧
    ∀ r, stitch i = .ok r →
      (∀ x, x ∈ r.graph.nodes ↔ i.IsNode x) ∧
      (∀ x y, r.graph.Calls x y ↔ i.IsCall x y) ∧
      ∀ l s, i.Imports l s → (∃ u, i.Offers l s u) →
        ∃! t, t ≠ l ∧ r.graph.Calls (.native l s) (.native t s) := by
  constructor
  · constructor
    · intro h
      rcases h with ⟨r, hr⟩
      exact (StitchInputs.stitch_eq_ok_iff.1 hr).1
    · intro hi
      exact ⟨i.report, StitchInputs.stitch_eq_ok_iff.2 ⟨hi, rfl⟩⟩
  · intro r hr
    obtain ⟨hi, rfl⟩ := StitchInputs.stitch_eq_ok_iff.1 hr
    refine ⟨fun x => StitchInputs.mem_nodes_report hi, fun x y => StitchInputs.calls_report_iff hi, ?_⟩
    -- An import that is offered is linked, and to one library only.
    intro l s himport hoffer
    rcases hoffer with ⟨u, hu⟩
    obtain ⟨t, ht⟩ := StitchInputs.exists_linksTo hu
    refine ⟨t, ⟨ht.offers.1, (StitchInputs.calls_report_iff hi).2 (.plain (.link himport ht))⟩, ?_⟩
    -- A call from the imported symbol to the same symbol of another library can only be a link.
    intro t' ht'
    have hcall := (StitchInputs.calls_report_iff hi).1 ht'.2
    exact StitchInputs.linksTo_unique ht (hcall.linksTo rfl rfl ht'.1)

end Bridgework
