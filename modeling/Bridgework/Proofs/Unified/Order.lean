import Bridgework.Proofs.Unified.Stitch
import Mathlib.Data.List.Forall2
import Mathlib.Data.List.Perm.Basic

/-!
# Stitching and the order of its inputs

The rules of a stitch ask only what the pieces of the inputs hold, so the graph and the misses depend on
the pieces as a set, and the counts on how often each of them is there.

- `InterpretedGraph.Rearranged`, `NativeGraph.Rearranged`, `BridgeReport.Rearranged` : a piece with its
  lists in another order
- `StitchInputs.Rearranged` : the same pieces in another order
- `StitchInputs.SamePieces` : the same pieces, in another order and any number of times
- `stitch_order_free` : what stays the same
-/

namespace Bridgework

/-! ## Rearranged pieces -/

/-- The same graph with its calls in another order. -/
structure InterpretedGraph.Rearranged (g h : InterpretedGraph) : Prop where
  package : g.package = h.package
  functions : g.functions = h.functions
  calls : g.calls.Perm h.calls
  externalCalls : g.externalCalls.Perm h.externalCalls

/-- The same graph with its calls and exports in another order. -/
structure NativeGraph.Rearranged (g h : NativeGraph) : Prop where
  library : g.library = h.library
  functions : g.functions = h.functions
  calls : g.calls.Perm h.calls
  exports : g.exports.Perm h.exports
  imports : g.imports = h.imports

/-- A report on the same package with its bridges in another order. A stitch looks at nothing else in a
report. -/
structure BridgeReport.Rearranged (r s : BridgeReport) : Prop where
  package : r.package = s.package
  bridges : r.bridges.Perm s.bridges

namespace InterpretedGraph.Rearranged

variable {g h : InterpretedGraph}

theorem refl (g : InterpretedGraph) : g.Rearranged g := ⟨rfl, rfl, .refl _, .refl _⟩

theorem symm (hgh : g.Rearranged h) : h.Rearranged g :=
  ⟨hgh.package.symm, hgh.functions.symm, hgh.calls.symm, hgh.externalCalls.symm⟩

/-- Consistency does not depend on the order within a graph. -/
theorem consistent (hgh : g.Rearranged h) (hg : g.Consistent) : h.Consistent where
  calls c hc := by
    have hends := hg.calls c (hgh.calls.mem_iff.2 hc)
    rwa [hgh.functions] at hends
  externalCalls c hc := by
    have hcaller := hg.externalCalls c (hgh.externalCalls.mem_iff.2 hc)
    rwa [hgh.functions] at hcaller

end InterpretedGraph.Rearranged

namespace NativeGraph.Rearranged

variable {g h : NativeGraph}

theorem refl (g : NativeGraph) : g.Rearranged g := ⟨rfl, rfl, .refl _, .refl _, rfl⟩

theorem symm (hgh : g.Rearranged h) : h.Rearranged g :=
  ⟨hgh.library.symm, hgh.functions.symm, hgh.calls.symm, hgh.exports.symm, hgh.imports.symm⟩

theorem hasSymbol (hgh : g.Rearranged h) {s : String} (hs : g.HasSymbol s) : h.HasSymbol s := by
  unfold HasSymbol at hs ⊢
  rwa [hgh.functions, hgh.imports] at hs

/-- Consistency does not depend on the order within a graph. -/
theorem consistent (hgh : g.Rearranged h) (hg : g.Consistent) : h.Consistent := by
  intro c hc
  have hends := hg c (hgh.calls.mem_iff.2 hc)
  exact ⟨hgh.hasSymbol hends.1, hgh.hasSymbol hends.2⟩

end NativeGraph.Rearranged

namespace BridgeReport.Rearranged

theorem refl (r : BridgeReport) : r.Rearranged r := ⟨rfl, .refl _⟩

theorem symm {r s : BridgeReport} (h : r.Rearranged s) : s.Rearranged r :=
  ⟨h.package.symm, h.bridges.symm⟩

end BridgeReport.Rearranged

/-! ## Lists of pieces -/

section Lists

variable {α β : Type} {R : α → α → Prop} {l m : List α}

/-- The members of the first list in any order, each changed within a relation. -/
def Shuffled (R : α → α → Prop) (l m : List α) : Prop := ∃ k, l.Perm k ∧ List.Forall₂ R k m

/-- Each member of either list has a counterpart in the other. -/
def SameMembers (R : α → α → Prop) (l m : List α) : Prop :=
  (∀ a ∈ l, ∃ b ∈ m, R a b) ∧ ∀ b ∈ m, ∃ a ∈ l, R a b

theorem SameMembers.of_mem_iff (hR : ∀ a, R a a) (h : ∀ a, a ∈ l ↔ a ∈ m) : SameMembers R l m :=
  ⟨fun a ha => ⟨a, (h a).1 ha, hR a⟩, fun b hb => ⟨b, (h b).2 hb, hR b⟩⟩

theorem SameMembers.symm (hR : ∀ a b, R a b → R b a) (h : SameMembers R l m) : SameMembers R m l := by
  constructor
  · intro b hb
    rcases h.2 b hb with ⟨a, ha, hab⟩
    exact ⟨a, ha, hR a b hab⟩
  · intro a ha
    rcases h.1 a ha with ⟨b, hb, hab⟩
    exact ⟨b, hb, hR a b hab⟩

/-- Lists that are related place by place have the same members. -/
theorem sameMembers_of_forall₂ (h : List.Forall₂ R l m) : SameMembers R l m := by
  induction h with
  | nil => exact ⟨fun a ha => absurd ha List.not_mem_nil, fun b hb => absurd hb List.not_mem_nil⟩
  | cons hab _ ih =>
    constructor
    · intro c hc
      rcases List.mem_cons.1 hc with rfl | hc
      · exact ⟨_, List.mem_cons_self, hab⟩
      · rcases ih.1 c hc with ⟨d, hd, hcd⟩
        exact ⟨d, List.mem_cons_of_mem _ hd, hcd⟩
    · intro d hd
      rcases List.mem_cons.1 hd with rfl | hd
      · exact ⟨_, List.mem_cons_self, hab⟩
      · rcases ih.2 d hd with ⟨c, hc, hcd⟩
        exact ⟨c, List.mem_cons_of_mem _ hc, hcd⟩

/-- Shuffled lists have the same members. -/
theorem Shuffled.sameMembers (h : Shuffled R l m) : SameMembers R l m := by
  rcases h with ⟨k, hperm, hall⟩
  have hsame : SameMembers R k m := sameMembers_of_forall₂ hall
  constructor
  · intro a ha
    exact hsame.1 a (hperm.mem_iff.1 ha)
  · intro b hb
    rcases hsame.2 b hb with ⟨a, ha, hab⟩
    exact ⟨a, hperm.mem_iff.2 ha, hab⟩

/-- What the members of shuffled lists hold is the same up to order. -/
theorem Shuffled.perm_flatMap {f : α → List β} (h : Shuffled R l m)
    (hf : ∀ a b, R a b → (f a).Perm (f b)) : (l.flatMap f).Perm (m.flatMap f) := by
  rcases h with ⟨k, hperm, hall⟩
  refine (hperm.flatMap_right f).trans ?_
  clear hperm
  induction hall with
  | nil => exact .nil
  | cons hab _ ih =>
    rw [List.flatMap_cons, List.flatMap_cons]
    exact (hf _ _ hab).append ih

end Lists

namespace StitchInputs

/-- The same pieces in another order, each with its lists in another order. -/
structure Rearranged (i j : StitchInputs) : Prop where
  interpreted : Shuffled InterpretedGraph.Rearranged i.interpreted j.interpreted
  native : Shuffled NativeGraph.Rearranged i.native j.native
  bridges : Shuffled BridgeReport.Rearranged i.bridges j.bridges

/-- The same pieces in another order and any number of times, each with its lists in another order. -/
structure SamePieces (i j : StitchInputs) : Prop where
  interpreted : SameMembers InterpretedGraph.Rearranged i.interpreted j.interpreted
  native : SameMembers NativeGraph.Rearranged i.native j.native
  bridges : SameMembers BridgeReport.Rearranged i.bridges j.bridges

variable {i j : StitchInputs}

/-- Stitching fails exactly if the inputs are not consistent. -/
theorem exists_stitch_eq_error_iff : (∃ e, stitch i = .error e) ↔ ¬ i.Consistent := by
  rw [← validate_eq_ok_iff, stitch]
  cases i.validate with
  | error e => simp [bind, Except.bind]
  | ok u => simp [bind, Except.bind, pure, Except.pure]

/-- Rearranged inputs have the same pieces. -/
theorem Rearranged.samePieces (h : i.Rearranged j) : i.SamePieces j :=
  ⟨h.interpreted.sameMembers, h.native.sameMembers, h.bridges.sameMembers⟩

namespace SamePieces

theorem symm (h : i.SamePieces j) : j.SamePieces i :=
  ⟨h.interpreted.symm fun _ _ => .symm, h.native.symm fun _ _ => .symm,
    h.bridges.symm fun _ _ => .symm⟩

theorem of_mem_iff (hinterpreted : ∀ g, g ∈ i.interpreted ↔ g ∈ j.interpreted)
    (hnative : ∀ g, g ∈ i.native ↔ g ∈ j.native) (hbridges : ∀ r, r ∈ i.bridges ↔ r ∈ j.bridges) :
    i.SamePieces j :=
  ⟨.of_mem_iff .refl hinterpreted, .of_mem_iff .refl hnative, .of_mem_iff .refl hbridges⟩

/-- Consistency depends on the pieces only. -/
theorem consistent (h : i.SamePieces j) (hi : i.Consistent) : j.Consistent where
  interpreted g' hg' := by
    rcases h.interpreted.2 g' hg' with ⟨g, hg, hgg'⟩
    exact hgg'.consistent (hi.interpreted g hg)
  native g' hg' := by
    rcases h.native.2 g' hg' with ⟨g, hg, hgg'⟩
    exact hgg'.consistent (hi.native g hg)

/-- Inputs with the same pieces are both consistent, or neither is. -/
theorem consistent_iff (h : i.SamePieces j) : i.Consistent ↔ j.Consistent :=
  ⟨h.consistent, h.symm.consistent⟩

/-- Inputs with the same pieces are both refused, or neither is. -/
theorem refused_iff (h : i.SamePieces j) :
    (∃ e, stitch i = .error e) ↔ ∃ e, stitch j = .error e := by
  rw [exists_stitch_eq_error_iff, exists_stitch_eq_error_iff, h.consistent_iff]

/-! ## The rules see the same pieces -/

theorem declares_imp (h : i.SamePieces j) {p : Package} {name : String} (hname : i.Declares p name) :
    j.Declares p name := by
  rcases hname with ⟨g, hg, hp, hname⟩
  rcases h.interpreted.1 g hg with ⟨g', hg', hgg'⟩
  exact ⟨g', hg', hgg'.package.symm.trans hp, hgg'.functions ▸ hname⟩

/-- Inputs with the same pieces declare the same names. -/
theorem declares_iff (h : i.SamePieces j) {p : Package} {name : String} :
    i.Declares p name ↔ j.Declares p name :=
  ⟨h.declares_imp, h.symm.declares_imp⟩

/-- Inputs with the same pieces give the same owners. -/
theorem owns_iff (h : i.SamePieces j) {top : String} {p : Package} : i.Owns top p ↔ j.Owns top p := by
  refine least_congr fun q => exists_congr fun name => ?_
  rw [h.declares_iff]

theorem hasSymbol_imp (h : i.SamePieces j) {l : Library} {s : String} (hs : i.HasSymbol l s) :
    j.HasSymbol l s := by
  rcases hs with ⟨g, hg, hl, hs⟩
  rcases h.native.1 g hg with ⟨g', hg', hgg'⟩
  exact ⟨g', hg', hgg'.library.symm.trans hl, hgg'.hasSymbol hs⟩

theorem imports_imp (h : i.SamePieces j) {l : Library} {s : String} (hs : i.Imports l s) :
    j.Imports l s := by
  rcases hs with ⟨g, hg, hl, hs⟩
  rcases h.native.1 g hg with ⟨g', hg', hgg'⟩
  exact ⟨g', hg', hgg'.library.symm.trans hl, hgg'.imports ▸ hs⟩

theorem offers_imp (h : i.SamePieces j) {l t : Library} {s : String} (ht : i.Offers l s t) :
    j.Offers l s t := by
  rcases ht with ⟨hne, g, hg, hl, e, he, hs⟩
  rcases h.native.1 g hg with ⟨g', hg', hgg'⟩
  exact ⟨hne, g', hg', hgg'.library.symm.trans hl, e, hgg'.exports.mem_iff.1 he, hs⟩

/-- Inputs with the same pieces link the same symbols. -/
theorem linksTo_iff (h : i.SamePieces j) {l t : Library} {s : String} :
    i.LinksTo l s t ↔ j.LinksTo l s t := by
  have hoffers : i.Offers l s = j.Offers l s :=
    funext fun u => propext ⟨h.offers_imp, h.symm.offers_imp⟩
  unfold LinksTo
  rw [hoffers]

/-- A plain call of some inputs is one of all inputs with the same pieces. -/
theorem isPlainCall_imp (h : i.SamePieces j) {x y : Node} (hxy : i.IsPlainCall x y) :
    j.IsPlainCall x y := by
  -- Each kind of call is made of some piece, and the other inputs have the piece too.
  cases hxy with
  | within hg hc =>
    rcases h.interpreted.1 _ hg with ⟨g', hg', hgg'⟩
    rw [hgg'.package]
    exact .within hg' (hgg'.calls.mem_iff.1 hc)
  | initializer hg hc hname =>
    rcases h.interpreted.1 _ hg with ⟨g', hg', hgg'⟩
    rw [hgg'.package] at hname ⊢
    exact .initializer hg' (hgg'.calls.mem_iff.1 hc) (h.declares_imp hname)
  | across hg hc htop howner hcallee hname =>
    rcases h.interpreted.1 _ hg with ⟨g', hg', hgg'⟩
    rw [hgg'.package]
    exact .across hg' (hgg'.externalCalls.mem_iff.1 hc) htop (h.owns_iff.1 howner) hcallee
      (h.declares_imp hname)
  | native hg hc =>
    rcases h.native.1 _ hg with ⟨g', hg', hgg'⟩
    rw [hgg'.library]
    exact .native hg' (hgg'.calls.mem_iff.1 hc)
  | link himport hlink => exact .link (h.imports_imp himport) (h.linksTo_iff.1 hlink)

/-! ## The report -/

theorem mem_declaredNodes_imp (h : i.SamePieces j) {x : Node} (hx : x ∈ i.declaredNodes) :
    x ∈ j.declaredNodes := by
  rw [mem_declaredNodes_iff] at hx ⊢
  rcases hx with ⟨p, name, hname, rfl⟩ | ⟨l, s, hs, rfl⟩
  · exact .inl ⟨p, name, h.declares_imp hname, rfl⟩
  · exact .inr ⟨l, s, h.hasSymbol_imp hs, rfl⟩

theorem mem_plainEdges_imp (h : i.SamePieces j) {e : Edge} (he : e ∈ i.plainEdges) :
    e ∈ j.plainEdges :=
  mem_plainEdges_of_isPlainCall (h.isPlainCall_imp (isPlainCall_of_mem he))

/-- Inputs with the same pieces have the same graph before the bridges. -/
theorem baseGraph_eq (h : i.SamePieces j) : i.baseGraph = j.baseGraph := by
  have hnodes : ∀ x, x ∈ i.declaredNodes ↔ x ∈ j.declaredNodes := fun x =>
    ⟨h.mem_declaredNodes_imp, h.symm.mem_declaredNodes_imp⟩
  have hedges : ∀ e, e ∈ i.plainEdges ↔ e ∈ j.plainEdges := fun e =>
    ⟨h.mem_plainEdges_imp, h.symm.mem_plainEdges_imp⟩
  apply Graph.ext
  · intro x
    simp only [baseGraph, Graph.mem_nodes_addEdges, Graph.mem_nodes_addNodes, hnodes, hedges]
  · intro e
    simp only [baseGraph, Graph.mem_edges_addEdges, Graph.mem_edges_addNodes, hedges]

theorem placedBridges_imp (h : i.SamePieces j) {b : PlacedBridge} (hb : b ∈ i.placedBridges) :
    b ∈ j.placedBridges := by
  rw [mem_placedBridges_iff] at hb ⊢
  rcases hb with ⟨r, hr, hp, hb⟩
  rcases h.bridges.1 r hr with ⟨r', hr', hrr'⟩
  exact ⟨r', hr', hrr'.package.symm.trans hp, hrr'.bridges.mem_iff.1 hb⟩

/-- Inputs with the same pieces place the same bridges. -/
theorem placedBridges_eq (h : i.SamePieces j) : i.placedBridges = j.placedBridges :=
  SortedSet.ext fun _ => ⟨h.placedBridges_imp, h.symm.placedBridges_imp⟩

/-- Inputs with the same pieces send an external callee to the same targets. -/
theorem externalTargets_eq (h : i.SamePieces j) : i.externalTargets = j.externalTargets := by
  have howner : i.owner? = j.owner? := by
    funext top
    apply Option.ext
    intro p
    rw [owner?_eq_some_iff, owner?_eq_some_iff, h.owns_iff]
  have hdeclares : i.declares = j.declares := by
    funext p name
    rw [Bool.eq_iff_iff, StitchInputs.declares_iff, StitchInputs.declares_iff, h.declares_iff]
  funext callee
  unfold externalTargets declaredTargets
  rw [howner, hdeclares]

/-- Inputs with the same pieces have the same exporter for a symbol. -/
theorem exporter?_eq (h : i.SamePieces j) : i.exporter? = j.exporter? := by
  funext l s
  apply Option.ext
  intro t
  rw [exporter?_eq_some_iff, exporter?_eq_some_iff, h.linksTo_iff]

theorem missedExternals_imp (h : i.SamePieces j) {m : ExternalMiss} (hm : m ∈ i.missedExternals) :
    m ∈ j.missedExternals := by
  simp only [missedExternals, externalCalls, List.mem_filterMap, List.mem_flatMap, List.mem_map] at hm ⊢
  rcases hm with ⟨_, ⟨g, hg, c, hc, rfl⟩, hmiss⟩
  rcases h.interpreted.1 g hg with ⟨g', hg', hgg'⟩
  refine ⟨(g', c), ⟨g', hg', c, hgg'.externalCalls.mem_iff.1 hc, rfl⟩, ?_⟩
  rw [← hmiss, h.externalTargets_eq, hgg'.package]

theorem missedImports_imp (h : i.SamePieces j) {m : ImportMiss} (hm : m ∈ i.missedImports) :
    m ∈ j.missedImports := by
  simp only [missedImports, List.mem_filterMap] at hm ⊢
  rcases hm with ⟨⟨l, s⟩, hls, hmiss⟩
  refine ⟨(l, s), mem_imports_iff.2 (h.imports_imp (mem_imports_iff.1 hls)), ?_⟩
  rwa [h.exporter?_eq] at hmiss

/-- Everything in a report but the counts of calls and imports is a matter of which pieces there are. -/
theorem report_eq (h : i.SamePieces j) :
    j.report = { i.report with
      externalsResolved := j.report.externalsResolved
      importsLinked := j.report.importsLinked } := by
  have hexternals : SortedSet.ofList i.missedExternals = SortedSet.ofList j.missedExternals := by
    ext m
    rw [SortedSet.mem_ofList, SortedSet.mem_ofList]
    exact ⟨h.missedExternals_imp, h.symm.missedExternals_imp⟩
  have himports : SortedSet.ofList i.missedImports = SortedSet.ofList j.missedImports := by
    ext m
    rw [SortedSet.mem_ofList, SortedSet.mem_ofList]
    exact ⟨h.missedImports_imp, h.symm.missedImports_imp⟩
  unfold report
  rw [h.baseGraph_eq, h.placedBridges_eq, hexternals, himports]

end SamePieces

/-! ## The counts -/

/-- Rearranged inputs resolve as many external calls. -/
theorem Rearranged.externalsResolved_eq (h : i.Rearranged j) :
    i.report.externalsResolved = j.report.externalsResolved := by
  -- The graph that a call stands in plays no part in whether the call is resolved.
  have hcount (k : StitchInputs) : k.report.externalsResolved =
      (k.interpreted.flatMap (·.externalCalls)).countP fun c => !(k.externalTargets c.callee).isEmpty := by
    have hcalls : k.interpreted.flatMap (·.externalCalls) = k.externalCalls.map Prod.snd := by
      simp [externalCalls, List.map_flatMap, Function.comp_def]
    rw [hcalls, List.countP_map, List.countP_eq_length_filter]
    rfl
  rw [hcount, hcount, h.samePieces.externalTargets_eq]
  exact (h.interpreted.perm_flatMap fun _ _ hgg' => hgg'.externalCalls).countP_eq _

/-- Rearranged inputs link as many imports. -/
theorem Rearranged.importsLinked_eq (h : i.Rearranged j) :
    i.report.importsLinked = j.report.importsLinked := by
  have hedge : i.importEdge? = j.importEdge? := by
    funext m
    rw [importEdge?, importEdge?, h.samePieces.exporter?_eq]
  have hperm : i.imports.Perm j.imports := by
    refine h.native.perm_flatMap fun g g' hgg' => ?_
    rw [hgg'.library, hgg'.imports]
  have hlinked : (i.imports.filterMap i.importEdge?).Perm (j.imports.filterMap j.importEdge?) := by
    rw [hedge]
    exact hperm.filterMap _
  exact hlinked.length_eq

/-- Rearranged inputs have the same report. -/
theorem Rearranged.report_eq (h : i.Rearranged j) : j.report = i.report := by
  rw [h.samePieces.report_eq, ← h.externalsResolved_eq, ← h.importsLinked_eq]

end StitchInputs

/-- Pieces in another order, each with its lists in another order, give the same report, or they are
refused in both orders. Pieces that are given several times change at most the numbers of resolved
calls and of linked imports. -/
theorem stitch_order_free (i j : StitchInputs) :
    (i.Rearranged j →
      (∀ r, stitch i = .ok r ↔ stitch j = .ok r) ∧
      ((∃ e, stitch i = .error e) ↔ ∃ e, stitch j = .error e)) ∧
    (i.SamePieces j →
      ((∃ e, stitch i = .error e) ↔ ∃ e, stitch j = .error e) ∧
      ∀ r, stitch i = .ok r → ∃ r', stitch j = .ok r' ∧
        r'.graph = r.graph ∧ r'.bridgesApplied = r.bridgesApplied ∧
        r'.missingInterpreted = r.missingInterpreted ∧ r'.missingNative = r.missingNative ∧
        r'.missedExternals = r.missedExternals ∧ r'.unresolvedImports = r.unresolvedImports) := by
  constructor
  · intro h
    refine ⟨fun r => ?_, h.samePieces.refused_iff⟩
    rw [StitchInputs.stitch_eq_ok_iff, StitchInputs.stitch_eq_ok_iff, h.samePieces.consistent_iff,
      h.report_eq]
  · intro h
    refine ⟨h.refused_iff, ?_⟩
    intro r hr
    obtain ⟨hi, rfl⟩ := StitchInputs.stitch_eq_ok_iff.1 hr
    refine ⟨j.report, StitchInputs.stitch_eq_ok_iff.2 ⟨h.consistent hi, rfl⟩, ?_⟩
    rw [h.report_eq]
    exact ⟨rfl, rfl, rfl, rfl, rfl, rfl⟩

/-- A package that calls a name of elsewhere which two packages have, and a library with an import that
two other libraries export. -/
def contestedInputs (calls : List Call) (exports : List Export) : StitchInputs :=
  let p : Package := ⟨"p", "1"⟩
  let q : Package := ⟨"q", "1"⟩
  { interpreted := [⟨p, .ofList ["p.main", "a.f"], [], calls⟩, ⟨q, .ofList ["a.f"], [], []⟩]
    native := [⟨⟨p, "x.so"⟩, .empty, [], [], .ofList ["s"]⟩,
      ⟨⟨q, "y.so"⟩, .ofList ["s", "t"], [], exports, .empty⟩,
      ⟨⟨q, "z.so"⟩, .ofList ["s"], [], [⟨"s", 0⟩], .empty⟩]
    bridges := [{ BridgeReport.empty p with bridges := [.of "a.f" "s" "x.so", .of "a.f" "u" "x.so"] }] }

theorem stitch_order_free_contested :
    let i := contestedInputs [⟨"p.main", "a.f"⟩, ⟨"p.main", "b.g"⟩] [⟨"s", 0⟩, ⟨"t", 8⟩]
    let j := contestedInputs [⟨"p.main", "b.g"⟩, ⟨"p.main", "a.f"⟩] [⟨"t", 8⟩, ⟨"s", 0⟩]
    let shuffled : StitchInputs := ⟨j.interpreted.reverse, j.native.reverse, j.bridges⟩
    let twice : StitchInputs :=
      ⟨i.interpreted ++ i.interpreted, i.native ++ i.native, i.bridges ++ i.bridges⟩
    (∃ r, stitch i = .ok r ∧ stitch shuffled = .ok r) ∧
    ∃ r r', stitch i = .ok r ∧ stitch twice = .ok r' ∧ r'.graph = r.graph ∧
      r'.missingNative = r.missingNative ∧ r.importsLinked = 1 ∧ r'.importsLinked = 2 := by
  intro i j shuffled twice
  have hi : stitch i = .ok i.report := rfl
  constructor
  -- The graphs stand in another order, and so do the calls and the symbols in each.
  · have h : i.Rearranged shuffled := by
      refine ⟨⟨i.interpreted.reverse, by decide, ?_⟩, ⟨i.native.reverse, by decide, ?_⟩,
        ⟨i.bridges, by decide, ?_⟩⟩
      · exact .cons ⟨rfl, rfl, by decide, by decide⟩ (.cons ⟨rfl, rfl, by decide, by decide⟩ .nil)
      · exact .cons ⟨rfl, rfl, by decide, by decide, rfl⟩ (.cons ⟨rfl, rfl, by decide, by decide, rfl⟩
          (.cons ⟨rfl, rfl, by decide, by decide, rfl⟩ .nil))
      · exact .cons ⟨rfl, by decide⟩ .nil
    exact ⟨i.report, hi, (((stitch_order_free i shuffled).1 h).1 i.report).1 hi⟩
  -- Every piece twice: the counts double, and the graph stays.
  · have h : i.SamePieces twice := .of_mem_iff (by simp [twice]) (by simp [twice]) (by simp [twice])
    rcases ((stitch_order_free i twice).2 h).2 i.report hi with ⟨r', hr', hgraph, _, _, hmissing, _⟩
    obtain ⟨_, rfl⟩ := StitchInputs.stitch_eq_ok_iff.1 hr'
    exact ⟨i.report, twice.report, hi, hr', hgraph, hmissing, by decide, by decide⟩

end Bridgework
