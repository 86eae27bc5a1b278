import Bridgework.Proofs.Unified.Stitch
import Mathlib.Data.List.Dedup
import Mathlib.Data.List.Perm.Basic

/-!
# What becomes of each entry of a stitch

A report counts what was connected and lists what was not, and the two together account for every entry of
the inputs. Bridges are told apart before they are counted, so a bridge that several reports name is one
bridge. Calls to names of elsewhere and imports are counted as often as they are given, and what is missed
is listed once.

- `Accounts` : entries that are counted, with a list of the others
- `StitchInputs.reported`, `StitchInputs.Resolves` : the bridges that are told of, and the calls that lead
  somewhere
- `StitchInputs.perm_filter_fates` : each bridge has one fate
- `stitch_accounts` : nothing is lost and nothing is counted twice
-/

namespace Bridgework

/-! ## Counts and lists -/

/-- The entries with a property are counted as often as they come, and the misses of all others are
listed in increasing order, each once. -/
structure Accounts {α β : Type} [Ord β] (entries : List α) (P : α → Prop) [DecidablePred P] (miss : α → β)
    (count : Nat) (missed : List β) : Prop where
  counted : count = entries.countP fun e => P e
  increasing : Increasing missed
  mem_iff : ∀ m, m ∈ missed ↔ ∃ e ∈ entries, ¬ P e ∧ miss e = m

/-- What is counted and what is listed account for all entries if each one is either counted or listed. -/
theorem Accounts.of {α β : Type} [Ord β] [Std.TransOrd β] [Std.LawfulEqOrd β] {entries : List α}
    {P : α → Prop} [DecidablePred P] {miss : α → β} {count : Nat} {missed : List β}
    (hcount : count = entries.countP fun e => P e)
    (hmissed : missed = entries.filterMap fun e => if P e then none else some (miss e)) :
    Accounts entries P miss count (SortedSet.ofList missed).toList where
  counted := hcount
  increasing := (SortedSet.ofList missed).increasing
  mem_iff m := by
    rw [← SortedSet.mem_def, SortedSet.mem_ofList, hmissed, List.mem_filterMap]
    simp only [Option.ite_none_left_eq_some, Option.some.injEq]

namespace StitchInputs

/-! ## What is accounted for -/

section Rules

variable (i : StitchInputs)

/-- All bridges with their packages, as often as they are reported. -/
def reported : List PlacedBridge := i.bridges.flatMap fun r => r.bridges.map fun b => ⟨r.package, b⟩

/-- The package that owns the first part of the name declares the name or its constructor. -/
def Resolves (callee : String) : Prop :=
  ∃ top p, Text.IsFirstPart top callee ∧ i.Owns top p ∧
    (i.Declares p callee ∨ i.Declares p (callee ++ ".__init__"))

end Rules

variable {i : StitchInputs}

/-- A callee resolves exactly if it has a target. -/
theorem resolves_iff {callee : String} :
    i.Resolves callee ↔ (i.externalTargets callee).isEmpty = false := by
  rw [List.isEmpty_eq_false_iff_exists_mem]
  simp only [mem_externalTargets_iff]
  constructor
  · rintro ⟨top, p, htop, howner, hname | hname⟩
    · exact ⟨_, top, p, callee, htop, howner, .inl rfl, hname, rfl⟩
    · exact ⟨_, top, p, callee ++ ".__init__", htop, howner, .inr rfl, hname, rfl⟩
  · rintro ⟨_, top, p, name, htop, howner, rfl | rfl, hname, rfl⟩
    · exact ⟨top, p, htop, howner, .inl hname⟩
    · exact ⟨top, p, htop, howner, .inr hname⟩

instance (i : StitchInputs) : DecidablePred i.Resolves := fun _ => decidable_of_iff _ resolves_iff.symm

/-- An import is offered exactly if there is an exporter for it. -/
theorem exists_offers_iff {l : Library} {s : String} :
    (∃ t, i.Offers l s t) ↔ (i.exporter? l s).isSome = true := by
  rw [Option.isSome_iff_exists]
  simp only [exporter?_eq_some_iff]
  constructor
  · rintro ⟨t, ht⟩
    exact exists_linksTo ht
  · rintro ⟨t, ht⟩
    exact ⟨t, ht.offers⟩

instance (i : StitchInputs) (l : Library) (s : String) : Decidable (∃ t, i.Offers l s t) :=
  decidable_of_iff _ exists_offers_iff.symm

/-! ## Calls to names of elsewhere, and imports -/

/-- Each external call is resolved or missed. -/
theorem accounts_externals (i : StitchInputs) :
    Accounts i.externalCalls (fun e => i.Resolves e.2.callee)
      (fun e => ExternalMiss.mk e.1.package e.2.caller e.2.callee)
      i.report.externalsResolved i.report.missedExternals := by
  refine .of ?_ ?_
  · rw [List.countP_eq_length_filter]
    refine congrArg List.length (List.filter_congr fun e _ => ?_)
    simp only [resolves_iff]
    cases (i.externalTargets e.2.callee).isEmpty with
    | false => rfl
    | true => rfl
  · refine congrArg (List.filterMap · i.externalCalls) (funext fun e => ?_)
    simp only [resolves_iff]
    cases (i.externalTargets e.2.callee).isEmpty with
    | false => rfl
    | true => rfl

/-- Each import is linked or left unresolved. -/
theorem accounts_imports (i : StitchInputs) :
    Accounts i.imports (fun m => ∃ t, i.Offers m.1 m.2 t) (fun m => ImportMiss.mk m.1 m.2)
      i.report.importsLinked i.report.unresolvedImports := by
  refine .of ?_ ?_
  · refine List.length_filterMap_eq_countP.trans (List.countP_congr fun m _ => ?_)
    simp [importEdge?, exists_offers_iff]
  · refine congrArg (List.filterMap · i.imports) (funext fun m => ?_)
    simp only [exists_offers_iff]
    cases i.exporter? m.1 m.2 with
    | none => rfl
    | some t => rfl

/-! ## Bridges -/

/-- The bridges are placed once each, however often they are reported. -/
theorem toList_placedBridges_perm (i : StitchInputs) : i.placedBridges.toList.Perm i.reported.dedup := by
  refine (List.perm_ext_iff_of_nodup i.placedBridges.nodup_toList (List.nodup_dedup _)).2 fun b => ?_
  rw [List.mem_dedup]
  exact SortedSet.mem_ofList

/-- The bridges with a fate. -/
def bridgesOf (i : StitchInputs) (f : BridgeFate) : List PlacedBridge :=
  i.placedBridges.toList.filter fun b => b.fate i.baseGraph == f

theorem mem_bridgesOf {f : BridgeFate} {b : PlacedBridge} :
    b ∈ i.bridgesOf f ↔ b ∈ i.reported ∧ b.fate i.baseGraph = f := by
  rw [bridgesOf, List.mem_filter, (toList_placedBridges_perm i).mem_iff, List.mem_dedup, beq_iff_eq]

/-- Each bridge has one of the three fates. -/
theorem perm_filter_fates (fate : PlacedBridge → BridgeFate) (l : List PlacedBridge) :
    ((l.filter fun b => fate b == .applied) ++ (l.filter fun b => fate b == .missingInterpreted) ++
      (l.filter fun b => fate b == .missingNative)).Perm l := by
  induction l with
  | nil => exact .nil
  | cons b l ih =>
    -- Whatever its fate, the first bridge can be brought to the front.
    cases hfate : fate b with
    | applied => simpa [hfate] using ih.cons b
    | missingInterpreted =>
      rw [List.append_assoc] at ih
      have hfront := List.perm_middle.trans (ih.cons b)
      simpa [hfate] using hfront
    | missingNative =>
      have hfront := List.perm_middle.trans (ih.cons b)
      simpa [hfate] using hfront

/-- Every bridge that is reported is applied, or misses one of its ends. -/
theorem perm_bridges_report (i : StitchInputs) :
    (i.bridgesOf .applied ++ i.report.missingInterpreted ++ i.report.missingNative).Perm i.reported.dedup :=
  (perm_filter_fates _ _).trans (toList_placedBridges_perm i)

/-- The source of a bridge is there before the bridges are applied if its package declares it. -/
theorem source_mem_baseGraph (hi : i.Consistent) {b : PlacedBridge} :
    b.source ∈ i.baseGraph.nodes ↔ i.Declares b.package b.bridge.callable :=
  (mem_nodes_baseGraph hi).trans isNode_interpreted_iff

theorem mem_baseGraph_iff_mem_report (hi : i.Consistent) {x : Node} :
    x ∈ i.baseGraph.nodes ↔ x ∈ i.report.graph.nodes :=
  (mem_nodes_baseGraph hi).trans (mem_nodes_report hi).symm

end StitchInputs

/-- Every bridge that some report names is applied or listed as missing, by which of its ends are there, and
each of them once. A call to a name of elsewhere is counted if the package that owns the name declares it
or its constructor, an import if another library exports its symbol; the calls and the imports for which this
is not so are listed in order, each once. -/
theorem stitch_accounts (i : StitchInputs) (r : StitchReport) (h : stitch i = .ok r) :
    (∃ applied : List PlacedBridge, r.bridgesApplied = applied.length ∧
      (applied ++ r.missingInterpreted ++ r.missingNative).Perm i.reported.dedup ∧
      ∀ b, b ∈ applied ↔ b ∈ i.reported ∧ i.Declares b.package b.bridge.callable ∧
        b.target ∈ r.graph.nodes) ∧
    (∀ b, b ∈ r.missingInterpreted ↔ b ∈ i.reported ∧ ¬ i.Declares b.package b.bridge.callable) ∧
    (∀ b, b ∈ r.missingNative ↔ b ∈ i.reported ∧ i.Declares b.package b.bridge.callable ∧
      b.target ∉ r.graph.nodes) ∧
    r.bridgesApplied + r.bridgesMissed = i.reported.dedup.length ∧
    Accounts i.externalCalls (fun e => i.Resolves e.2.callee)
      (fun e => ExternalMiss.mk e.1.package e.2.caller e.2.callee) r.externalsResolved r.missedExternals ∧
    Accounts i.imports (fun m => ∃ t, i.Offers m.1 m.2 t) (fun m => ImportMiss.mk m.1 m.2)
      r.importsLinked r.unresolvedImports := by
  obtain ⟨hi, rfl⟩ := StitchInputs.stitch_eq_ok_iff.1 h
  have hperm := i.perm_bridges_report
  -- A bridge is told by its ends in the graph without bridges, which has the nodes of the report
  -- already.
  refine ⟨⟨i.bridgesOf .applied, rfl, hperm, fun b => ?_⟩, fun b => ?_, fun b => ?_, ?_, i.accounts_externals,
    i.accounts_imports⟩
  · rw [StitchInputs.mem_bridgesOf, StitchInputs.fate_eq_applied_iff,
      StitchInputs.source_mem_baseGraph hi, StitchInputs.mem_baseGraph_iff_mem_report hi]
  · have hmem : b ∈ i.report.missingInterpreted ↔ _ := StitchInputs.mem_bridgesOf
    rw [hmem, StitchInputs.fate_eq_missingInterpreted_iff, StitchInputs.source_mem_baseGraph hi]
  · have hmem : b ∈ i.report.missingNative ↔ _ := StitchInputs.mem_bridgesOf
    rw [hmem, StitchInputs.fate_eq_missingNative_iff, StitchInputs.source_mem_baseGraph hi,
      StitchInputs.mem_baseGraph_iff_mem_report hi]
  · rw [← hperm.length_eq, List.length_append, List.length_append, Nat.add_assoc]
    rfl

/-- A package in two pieces that makes the same two calls in both, a library in two pieces with the same
imports, and a report that is given twice. -/
def repeatedInputs : StitchInputs :=
  let p : Package := ⟨"p", "1"⟩
  let q : Package := ⟨"q", "1"⟩
  let calls : InterpretedGraph := ⟨p, .ofList ["p.main"], [], [⟨"p.main", "q.C"⟩, ⟨"p.main", "r.f"⟩]⟩
  let user : NativeGraph := ((NativeGraph.empty ⟨p, "a.so"⟩).addImport "s").addImport "t"
  let found : BridgeReport :=
    { BridgeReport.empty p with
      bridges := [.of "p.main" "s" "a.so", .of "p.main" "u" "a.so", .of "p.none" "s" "a.so"] }
  { interpreted := [calls, calls, ⟨q, .ofList ["q.C.__init__"], [], []⟩]
    native := [user, user, (NativeGraph.empty ⟨q, "b.so"⟩).addExport ⟨"s", 0⟩]
    bridges := [found, found] }

theorem stitch_accounts_repeated :
    ∃ r, stitch repeatedInputs = .ok r ∧ repeatedInputs.reported.length = 6 ∧
      r.bridgesApplied + r.bridgesMissed = 3 ∧
      (⟨⟨"p", "1"⟩, .of "p.main" "u" "a.so"⟩ : PlacedBridge) ∈ r.missingNative ∧
      (⟨⟨"p", "1"⟩, .of "p.none" "s" "a.so"⟩ : PlacedBridge) ∈ r.missingInterpreted ∧
      r.externalsResolved = 2 ∧ r.missedExternals = [⟨⟨"p", "1"⟩, "p.main", "r.f"⟩] ∧
      r.importsLinked = 2 ∧ r.unresolvedImports = [⟨⟨⟨"p", "1"⟩, "a.so"⟩, "t"⟩] := by
  have hstitch : stitch repeatedInputs = .ok repeatedInputs.report := rfl
  obtain ⟨_, hinterpreted, hnative, htotal, hexternals, himports⟩ :=
    stitch_accounts repeatedInputs repeatedInputs.report hstitch
  refine ⟨_, hstitch, by decide, htotal.trans (by decide), (hnative _).2 ⟨by decide, ?_, by decide⟩,
    (hinterpreted _).2 ⟨by decide, ?_⟩, hexternals.counted.trans (by decide), by decide,
    himports.counted.trans (by decide), by decide⟩
  · exact StitchInputs.declares_iff.1 (by decide)
  · rw [← StitchInputs.declares_iff]
    decide

end Bridgework
