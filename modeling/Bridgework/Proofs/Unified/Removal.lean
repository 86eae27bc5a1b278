import Bridgework.Proofs.Unified.Stitch

/-!
# Stitching without a library

The rules of a stitch are compared on two inputs, with and without the native call graphs of one library.
Where every export is declared, the library takes its own nodes with it and the edges at them. All else
stays, except that an import which led into the library is linked again: preference is an order on the
exporters of a symbol, and taking one exporter away moves only the imports that had it first.

- `NativeGraph.DeclaresExports` : graphs without an export that is neither defined nor imported
- `StitchInputs.without` : the inputs without a library
- `StitchInputs.Prefers`, `StitchInputs.NextExporter` : the order in which an import takes exporters
- `StitchInputs.isNode_without_iff`, `StitchInputs.isPlainCall_without_iff` : what the rules give without it
- `stitch_without_library` : the two stitched graphs side by side
-/

namespace Bridgework

/-- The graph defines or imports each symbol that it exports. -/
def NativeGraph.DeclaresExports (g : NativeGraph) : Prop := ∀ e ∈ g.exports, g.HasSymbol e.name

instance (g : NativeGraph) : Decidable g.DeclaresExports :=
  inferInstanceAs (Decidable (∀ e ∈ g.exports, e.name ∈ g.functions ∨ e.name ∈ g.imports))

/-- The node is a symbol of the library. -/
def Node.IsIn (l : Library) : Node → Prop
  | .interpreted _ _ => False
  | .native k _ => k = l

instance (l : Library) : (x : Node) → Decidable (x.IsIn l)
  | .interpreted _ _ => isFalse id
  | .native k _ => inferInstanceAs (Decidable (k = l))

namespace StitchInputs

/-- The inputs without the native call graphs of a library. -/
def without (i : StitchInputs) (gone : Library) : StitchInputs :=
  { i with native := i.native.filter fun g => g.library ≠ gone }

variable {i : StitchInputs} {gone l t u : Library} {s : String} {x y : Node}

/-! ## Preference among exporters -/

/-- An import of `l` is rather linked to `t` than to `u`: the package of `l` comes before all others, and
otherwise the lesser library comes first. -/
def Prefers (l t u : Library) : Prop :=
  t.package = l.package ∧ u.package ≠ l.package ∨
    (t.package = l.package ↔ u.package = l.package) ∧ (compare t u).isLE

/-- An import is linked to the exporter that it prefers to all others. -/
theorem linksTo_iff : i.LinksTo l s t ↔ i.Offers l s t ∧ ∀ u, i.Offers l s u → Prefers l t u := by
  constructor
  -- The two cases of a link are those of the preference: a library of the own package first.
  · rintro (⟨⟨hoffer, hown⟩, hleast⟩ | ⟨hnone, hoffer, hleast⟩)
    · refine ⟨hoffer, fun u hu => ?_⟩
      by_cases howner : u.package = l.package
      · exact .inr ⟨iff_of_true hown howner, hleast u ⟨hu, howner⟩⟩
      · exact .inl ⟨hown, howner⟩
    · refine ⟨hoffer, fun u hu => .inr ⟨iff_of_false ?_ ?_, hleast u hu⟩⟩
      · exact fun hown => hnone ⟨t, hoffer, hown⟩
      · exact fun hown => hnone ⟨u, hu, hown⟩
  -- The best of all that offer the symbol decides by its own package which of the two cases it is.
  · rintro ⟨hoffer, hbest⟩
    by_cases hown : t.package = l.package
    · refine .inl ⟨⟨hoffer, hown⟩, fun u hu => ?_⟩
      rcases hbest u hu.1 with ⟨_, hother⟩ | ⟨_, hle⟩
      · exact absurd hu.2 hother
      · exact hle
    · refine .inr ⟨?_, hoffer, fun u hu => ?_⟩
      · rintro ⟨u, hu, howner⟩
        rcases hbest u hu with ⟨hsame, _⟩ | ⟨hsame, _⟩
        · exact hown hsame
        · exact hown (hsame.2 howner)
      · rcases hbest u hu with ⟨hsame, _⟩ | ⟨_, hle⟩
        · exact absurd hsame hown
        · exact hle

/-- The exporter that an import prefers to all others when one library is left out of account. -/
def NextExporter (i : StitchInputs) (gone l : Library) (s : String) (t : Library) : Prop :=
  (i.Offers l s t ∧ t ≠ gone) ∧ ∀ u, i.Offers l s u ∧ u ≠ gone → Prefers l t u

/-! ## The rules without a library -/

/-- Without a library its graphs are gone, and no other. -/
theorem mem_native_without {g : NativeGraph} :
    g ∈ (i.without gone).native ↔ g ∈ i.native ∧ g.library ≠ gone := by
  simp [without]

/-- Consistent inputs stay so without a library. -/
theorem Consistent.without (hi : i.Consistent) : (i.without gone).Consistent where
  interpreted := hi.interpreted
  native g hg := hi.native g (mem_native_without.1 hg).1

/-- Whatever is asked of some graph of a library has the same answer, unless the library is gone. -/
theorem exists_native_without_iff {P : NativeGraph → Prop} :
    (∃ g ∈ (i.without gone).native, g.library = l ∧ P g) ↔
      (∃ g ∈ i.native, g.library = l ∧ P g) ∧ l ≠ gone := by
  constructor
  · rintro ⟨g, hg, rfl, hP⟩
    obtain ⟨hg, hne⟩ := mem_native_without.1 hg
    exact ⟨⟨g, hg, rfl, hP⟩, hne⟩
  · rintro ⟨⟨g, hg, rfl, hP⟩, hne⟩
    exact ⟨g, mem_native_without.2 ⟨hg, hne⟩, rfl, hP⟩

theorem hasSymbol_without_iff : (i.without gone).HasSymbol l s ↔ i.HasSymbol l s ∧ l ≠ gone :=
  exists_native_without_iff

theorem imports_without_iff : (i.without gone).Imports l s ↔ i.Imports l s ∧ l ≠ gone :=
  exists_native_without_iff

/-- Without a library what it offered is gone. -/
theorem offers_without_iff : (i.without gone).Offers l s t ↔ i.Offers l s t ∧ t ≠ gone := by
  unfold Offers
  rw [exists_native_without_iff, and_assoc]

/-- Without a library each symbol is linked to the next exporter. -/
theorem linksTo_without_iff : (i.without gone).LinksTo l s t ↔ i.NextExporter gone l s t := by
  rw [linksTo_iff, NextExporter]
  simp only [offers_without_iff]

/-- A link that does not lead into the library stays as it is. -/
theorem LinksTo.nextExporter (h : i.LinksTo l s t) (hne : t ≠ gone) : i.NextExporter gone l s t := by
  obtain ⟨hoffer, hbest⟩ := linksTo_iff.1 h
  exact ⟨⟨hoffer, hne⟩, fun u hu => hbest u hu.1⟩

/-- An import that is linked without the library was linked to the same exporter, or into the library. -/
theorem NextExporter.linksTo_or (h : i.NextExporter gone l s t) : i.LinksTo l s t ∨ i.LinksTo l s gone := by
  obtain ⟨u, hu⟩ := exists_linksTo h.1.1
  by_cases hgone : u = gone
  · exact .inr (hgone ▸ hu)
  · have hsame : u = t :=
      linksTo_unique (linksTo_without_iff.2 h) (linksTo_without_iff.2 (hu.nextExporter hgone))
    exact .inl (hsame ▸ hu)

/-- Where another library offers the symbol, there is one next exporter. -/
theorem existsUnique_nextExporter (hu : i.Offers l s u) (hne : u ≠ gone) :
    ∃! t, i.NextExporter gone l s t := by
  obtain ⟨t, ht⟩ := exists_linksTo (offers_without_iff.2 ⟨hu, hne⟩)
  refine ⟨t, linksTo_without_iff.1 ht, fun t' ht' => ?_⟩
  exact linksTo_unique ht (linksTo_without_iff.2 ht')

/-! ## Nodes -/

/-- An exporter declares what it exports, so linking brings in no node. -/
theorem isNode_native_iff (hexports : ∀ g ∈ i.native, g.DeclaresExports) :
    i.IsNode (.native l s) ↔ i.HasSymbol l s := by
  constructor
  · intro h
    cases h with
    | symbol h => exact h
    | exporter _ hlink =>
      obtain ⟨_, g, hg, hl, e, he, rfl⟩ := hlink.offers
      exact ⟨g, hg, hl, hexports g hg e he⟩
  · exact .symbol

/-- Without a library its nodes are gone, and no other. -/
theorem isNode_without_iff (hexports : ∀ g ∈ i.native, g.DeclaresExports) :
    (i.without gone).IsNode x ↔ i.IsNode x ∧ ¬ x.IsIn gone := by
  cases x with
  | interpreted p name =>
    have hsame : (i.without gone).IsNode (.interpreted p name) ↔ i.IsNode (.interpreted p name) := by
      rw [isNode_interpreted_iff, isNode_interpreted_iff]
      rfl
    exact hsame.trans (and_iff_left id).symm
  | native l s =>
    have hrest : ∀ g ∈ (i.without gone).native, g.DeclaresExports := fun g hg =>
      hexports g (mem_native_without.1 hg).1
    rw [isNode_native_iff hrest, isNode_native_iff hexports, hasSymbol_without_iff]
    rfl

/-! ## Edges -/

/-- A link into the library, with what takes its place. -/
structure Relinks (i : StitchInputs) (gone : Library) (x y : Node) (l t : Library) (s : String) : Prop where
  imported : i.Imports l s
  linked : i.LinksTo l s gone
  next : i.NextExporter gone l s t
  source : x = .native l s
  target : y = .native t s

/-- The graphs give rise to the same calls, except for those at the library and the links that take the
place of links into it. -/
theorem isPlainCall_without_iff :
    (i.without gone).IsPlainCall x y ↔
      i.IsPlainCall x y ∧ ¬ x.IsIn gone ∧ ¬ y.IsIn gone ∨ ∃ l t s, i.Relinks gone x y l t s := by
  constructor
  · intro h
    cases h with
    | within hg hc => exact .inl ⟨.within hg hc, id, id⟩
    | initializer hg hc hname => exact .inl ⟨.initializer hg hc hname, id, id⟩
    | across hg hc htop howner hcallee hname =>
      exact .inl ⟨.across hg hc htop howner hcallee hname, id, id⟩
    | native hg hc =>
      obtain ⟨hg, hne⟩ := mem_native_without.1 hg
      exact .inl ⟨.native hg hc, hne, hne⟩
    | @link l t s himport hlink =>
      obtain ⟨himport, hl⟩ := imports_without_iff.1 himport
      have hnext : i.NextExporter gone l s t := linksTo_without_iff.1 hlink
      rcases hnext.linksTo_or with hsame | hgone
      · exact .inl ⟨.link himport hsame, hl, hnext.1.2⟩
      · exact .inr ⟨l, t, s, himport, hgone, hnext, rfl, rfl⟩
  · rintro (⟨h, hx, hy⟩ | ⟨l, t, s, h⟩)
    · cases h with
      | within hg hc => exact .within hg hc
      | initializer hg hc hname => exact .initializer hg hc hname
      | across hg hc htop howner hcallee hname => exact .across hg hc htop howner hcallee hname
      | native hg hc => exact .native (mem_native_without.2 ⟨hg, hx⟩) hc
      | link himport hlink =>
        exact .link (imports_without_iff.2 ⟨himport, hx⟩) (linksTo_without_iff.2 (hlink.nextExporter hy))
    · -- The library is no exporter for its own imports, so the import is one of another library.
      have hl : l ≠ gone := fun hl => h.linked.offers.1 hl.symm
      rw [h.source, h.target]
      exact .link (imports_without_iff.2 ⟨h.imported, hl⟩) (linksTo_without_iff.2 h.next)

/-- Without a library its calls are gone, and where it was linked to, the next exporter is called. -/
theorem isCall_without_iff (hexports : ∀ g ∈ i.native, g.DeclaresExports) :
    (i.without gone).IsCall x y ↔
      i.IsCall x y ∧ ¬ x.IsIn gone ∧ ¬ y.IsIn gone ∨ ∃ l t s, i.Relinks gone x y l t s := by
  constructor
  · intro h
    cases h with
    | plain h => exact (isPlainCall_without_iff.1 h).imp_left fun h => ⟨.plain h.1, h.2⟩
    | bridge hr hb hsource htarget =>
      obtain ⟨hsource, hx⟩ := (isNode_without_iff hexports).1 hsource
      obtain ⟨htarget, hy⟩ := (isNode_without_iff hexports).1 htarget
      exact .inl ⟨.bridge hr hb hsource htarget, hx, hy⟩
  · rintro (⟨h, hx, hy⟩ | h)
    · cases h with
      | plain h => exact .plain (isPlainCall_without_iff.2 (.inl ⟨h, hx, hy⟩))
      | bridge hr hb hsource htarget =>
        exact .bridge hr hb ((isNode_without_iff hexports).2 ⟨hsource, hx⟩)
          ((isNode_without_iff hexports).2 ⟨htarget, hy⟩)
    · exact .plain (isPlainCall_without_iff.2 (.inr h))

/-- A link into the library is an edge that leads there from the import of another library. -/
theorem linksTo_iff_calls (hi : i.Consistent) (himport : i.Imports l s) :
    i.LinksTo l s gone ↔ l ≠ gone ∧ i.report.graph.Calls (.native l s) (.native gone s) := by
  rw [calls_report_iff hi]
  constructor
  · intro h
    exact ⟨h.offers.1.symm, .plain (.link himport h)⟩
  · rintro ⟨hne, hcall⟩
    exact hcall.linksTo rfl rfl hne.symm

/-! ## Reports -/

/-- The bridges that miss their source are the same without a library. -/
theorem missingInterpreted_without (hi : i.Consistent) (hexports : ∀ g ∈ i.native, g.DeclaresExports) :
    (i.without gone).report.missingInterpreted = i.report.missingInterpreted := by
  have hfate (b : PlacedBridge) :
      b.fate (i.without gone).baseGraph = .missingInterpreted ↔
        b.fate i.baseGraph = .missingInterpreted := by
    rw [fate_eq_missingInterpreted_iff, fate_eq_missingInterpreted_iff, mem_nodes_baseGraph hi.without,
      mem_nodes_baseGraph hi, isNode_without_iff hexports]
    -- The interpreted end of a bridge is in no library.
    exact not_congr (and_iff_left id)
  refine List.filter_congr fun b _ => ?_
  rw [Bool.eq_iff_iff, beq_iff_eq, beq_iff_eq]
  exact hfate b

/-- The bridges that landed in the library are missing now, and those that were missing still are. -/
theorem mem_missingNative_without (hi : i.Consistent) (hexports : ∀ g ∈ i.native, g.DeclaresExports)
    {b : PlacedBridge} :
    b ∈ (i.without gone).report.missingNative ↔
      b ∈ i.report.missingNative ∨
        b ∈ i.placedBridges ∧ (i.IsNode b.source ∧ i.IsNode b.target) ∧ b.target.IsIn gone := by
  -- The source is interpreted, and stays.
  have hsource : (i.without gone).IsNode b.source ↔ i.IsNode b.source :=
    (isNode_without_iff hexports).trans (and_iff_left id)
  have htarget : ¬ (i.without gone).IsNode b.target ↔ ¬ i.IsNode b.target ∨ b.target.IsIn gone := by
    rw [isNode_without_iff hexports, Classical.not_and_iff_not_or_not, Classical.not_not]
  have hplaced : b ∈ (i.without gone).placedBridges ↔ b ∈ i.placedBridges := Iff.rfl
  rw [mem_missingNative_report hi.without, mem_missingNative_report hi, hsource, htarget, hplaced]
  constructor
  · rintro ⟨hb, hfrom, hmissing | hgone⟩
    · exact .inl ⟨hb, hfrom, hmissing⟩
    -- A bridge whose target was missing before misses it still.
    · by_cases hto : i.IsNode b.target
      · exact .inr ⟨hb, ⟨hfrom, hto⟩, hgone⟩
      · exact .inl ⟨hb, hfrom, hto⟩
  · rintro (⟨hb, hfrom, hmissing⟩ | ⟨hb, ⟨hfrom, _⟩, hgone⟩)
    · exact ⟨hb, hfrom, .inl hmissing⟩
    · exact ⟨hb, hfrom, .inr hgone⟩

/-- A bridge becomes an edge exactly if both of its ends are nodes. -/
theorem calls_bridge_iff (hi : i.Consistent) {b : PlacedBridge} (hb : b ∈ i.placedBridges) :
    i.report.graph.Calls b.source b.target ↔ i.IsNode b.source ∧ i.IsNode b.target := by
  constructor
  · intro h
    have hends := i.report.graph.closed _ h
    exact ⟨(mem_nodes_report hi).1 hends.1, (mem_nodes_report hi).1 hends.2⟩
  · rintro ⟨hsource, htarget⟩
    obtain ⟨r, hr, hp, hb⟩ := mem_placedBridges_iff.1 hb
    rw [calls_report_iff hi]
    unfold PlacedBridge.source at hsource ⊢
    unfold PlacedBridge.target at htarget ⊢
    rw [← hp] at hsource htarget ⊢
    exact .bridge hr hb hsource htarget

end StitchInputs

/-! ## Main result -/

/-- Inputs that can be stitched can be stitched without any of their libraries. The nodes are then those
outside the library. The edges are those that do not touch it, and for each import that was linked into it
and has another exporter, one link to the next exporter. The bridges that are missing beyond those that were
missing before are the ones that landed in the library. -/
theorem stitch_without_library (i : StitchInputs) (gone : Library) (r : StitchReport)
    (hr : stitch i = .ok r) (hexports : ∀ g ∈ i.native, g.DeclaresExports) :
    ∃ r', stitch (i.without gone) = .ok r' ∧
      (∀ x, x ∈ r'.graph.nodes ↔ x ∈ r.graph.nodes ∧ ¬ x.IsIn gone) ∧
      (∀ x y, r'.graph.Calls x y ↔
        r.graph.Calls x y ∧ ¬ x.IsIn gone ∧ ¬ y.IsIn gone ∨
        ∃ l t s, i.Imports l s ∧ (l ≠ gone ∧ r.graph.Calls (.native l s) (.native gone s)) ∧
          i.NextExporter gone l s t ∧ x = .native l s ∧ y = .native t s) ∧
      (∀ l s, (∃ u, i.Offers l s u ∧ u ≠ gone) → ∃! t, i.NextExporter gone l s t) ∧
      (∀ b, b ∈ r'.missingNative ∧ b ∉ r.missingNative ↔
        b ∈ i.placedBridges ∧ r.graph.Calls b.source b.target ∧ b.target.IsIn gone) ∧
      (∀ b ∈ r.missingNative, b ∈ r'.missingNative) ∧
      r'.missingInterpreted = r.missingInterpreted ∧ r'.missedExternals = r.missedExternals ∧
      r'.externalsResolved = r.externalsResolved := by
  obtain ⟨hi, rfl⟩ := StitchInputs.stitch_eq_ok_iff.1 hr
  refine ⟨(i.without gone).report, StitchInputs.stitch_eq_ok_iff.2 ⟨hi.without, rfl⟩, ?_, ?_, ?_, ?_, ?_,
    StitchInputs.missingInterpreted_without hi hexports, rfl, rfl⟩
  · intro x
    rw [StitchInputs.mem_nodes_report hi.without, StitchInputs.mem_nodes_report hi]
    exact StitchInputs.isNode_without_iff hexports
  -- A call without the library is an old one between other nodes, or one that found its next
  -- exporter.
  · intro x y
    rw [StitchInputs.calls_report_iff hi.without, StitchInputs.calls_report_iff hi,
      StitchInputs.isCall_without_iff hexports]
    refine or_congr_right (exists_congr fun l => exists_congr fun t => exists_congr fun s => ?_)
    constructor
    · intro h
      exact ⟨h.imported, (StitchInputs.linksTo_iff_calls hi h.imported).1 h.linked, h.next, h.source, h.target⟩
    · rintro ⟨himport, hlinked, hnext, hx, hy⟩
      exact ⟨himport, (StitchInputs.linksTo_iff_calls hi himport).2 hlinked, hnext, hx, hy⟩
  · rintro l s ⟨u, hu, hne⟩
    exact StitchInputs.existsUnique_nextExporter hu hne
  -- What misses its native end only now was a call into the library.
  · intro b
    rw [StitchInputs.mem_missingNative_without hi hexports]
    constructor
    · rintro ⟨hold | ⟨hb, hends, hgone⟩, hnew⟩
      · exact absurd hold hnew
      · exact ⟨hb, (StitchInputs.calls_bridge_iff hi hb).2 hends, hgone⟩
    · rintro ⟨hb, hcall, hgone⟩
      have hends := (StitchInputs.calls_bridge_iff hi hb).1 hcall
      refine ⟨.inr ⟨hb, hends, hgone⟩, fun hold => ?_⟩
      exact ((StitchInputs.mem_missingNative_report hi).1 hold).2.2 hends.2
  · intro b hb
    exact (StitchInputs.mem_missingNative_without hi hexports).2 (.inl hb)

/-- A library with an import that a library of its own package and one of another package export, and a bridge
into each library of its package. -/
def sharedImport : StitchInputs :=
  let p : Package := ⟨"p", "1"⟩
  let q : Package := ⟨"q", "1"⟩
  { interpreted := [⟨p, .ofList ["p.main"], [], []⟩]
    native := [(NativeGraph.empty ⟨p, "a.so"⟩).addImport "s",
      (NativeGraph.empty ⟨p, "b.so"⟩).addExport ⟨"s", 0⟩,
      (NativeGraph.empty ⟨q, "c.so"⟩).addExport ⟨"s", 0⟩]
    bridges := [{ BridgeReport.empty p with bridges := [.of "p.main" "s" "a.so", .of "p.main" "s" "b.so"] }] }

theorem stitch_without_library_relinked :
    let p : Package := ⟨"p", "1"⟩
    let a : Node := .native ⟨p, "a.so"⟩ "s"
    let b : Node := .native ⟨p, "b.so"⟩ "s"
    let c : Node := .native ⟨⟨"q", "1"⟩, "c.so"⟩ "s"
    let landed : PlacedBridge := ⟨p, .of "p.main" "s" "b.so"⟩
    ∃ r r', stitch sharedImport = .ok r ∧ stitch (sharedImport.without ⟨p, "b.so"⟩) = .ok r' ∧
      (r.graph.Calls a b ∧ ¬ r.graph.Calls a c) ∧ (r'.graph.Calls a c ∧ b ∉ r'.graph.nodes) ∧
      landed ∉ r.missingNative ∧ landed ∈ r'.missingNative := by
  intro p a b c landed
  have hstitch : stitch sharedImport = .ok sharedImport.report := rfl
  have hexports : ∀ g ∈ sharedImport.native, g.DeclaresExports := by decide
  obtain ⟨r', hr', hnodes, hcalls, _, hmissing, _⟩ :=
    stitch_without_library sharedImport ⟨p, "b.so"⟩ sharedImport.report hstitch hexports
  have hlinked : sharedImport.report.graph.Calls a b := by decide
  have himport : sharedImport.Imports ⟨p, "a.so"⟩ "s" :=
    ⟨_, List.mem_cons_self, rfl, SortedSet.mem_insert.2 (.inl rfl)⟩
  -- Without the library of the own package the other one is next.
  have hnext : sharedImport.NextExporter ⟨p, "b.so"⟩ ⟨p, "a.so"⟩ "s" ⟨⟨"q", "1"⟩, "c.so"⟩ :=
    StitchInputs.linksTo_without_iff.1 (StitchInputs.exporter?_eq_some_iff.1 (by decide))
  have hnew := (hmissing landed).2 ⟨by decide, by decide, by decide⟩
  refine ⟨sharedImport.report, r', hstitch, hr', ⟨hlinked, by decide⟩, ⟨?_, ?_⟩, hnew.2, hnew.1⟩
  · exact (hcalls a c).2 (.inr ⟨_, _, _, himport, ⟨by decide, hlinked⟩, hnext, rfl, rfl⟩)
  · exact fun hb => ((hnodes b).1 hb).2 rfl

end Bridgework
