import Bridgework.Bridge
import Bridgework.Unified.Indexed

/-!
# Reports of a stitch

The unified graph together with everything that could not be connected.

- `PlacedBridge`, `ExternalMiss`, `ImportMiss` : a bridge in its package, a call and an import without
  a target
- `StitchReport` : the graph, the counts and the misses
-/

namespace Bridgework

/-! ## What can be missed -/

/-- A bridge together with the package that reports it. -/
structure PlacedBridge where
  package : Package
  bridge : Bridge
  deriving DecidableEq, Repr, Inhabited

namespace PlacedBridge

instance : Ord PlacedBridge where
  compare := compareLex (compareOn PlacedBridge.package) (compareOn PlacedBridge.bridge)

instance : Std.TransOrd PlacedBridge :=
  inferInstanceAs (Std.TransCmp
    (compareLex (compareOn PlacedBridge.package) (compareOn PlacedBridge.bridge)))

instance : Std.LawfulEqOrd PlacedBridge where
  eq_of_compare {a b} h := by
    have h : ((compareOn PlacedBridge.package a b).then (compareOn PlacedBridge.bridge a b)) = .eq := h
    rw [Ordering.then_eq_eq] at h
    cases a
    cases b
    simp only [PlacedBridge.mk.injEq]
    exact ⟨Std.LawfulEqOrd.eq_of_compare h.1, Std.LawfulEqOrd.eq_of_compare h.2⟩

def source (b : PlacedBridge) : Node := .interpreted b.package b.bridge.callable

def target (b : PlacedBridge) : Node := .native (b.bridge.target b.package) b.bridge.symbol

def toJson (b : PlacedBridge) : Json :=
  .object [("package", b.package.toJson), ("bridge", b.bridge.toJson)]

def ofJson? (j : Json) : Option PlacedBridge := do
  let r ← j.record ["package", "bridge"]
  return ⟨← r.required "package" Package.ofJson?, ← r.required "bridge" Bridge.ofJson?⟩

end PlacedBridge

/-- A call to another package that leads nowhere. -/
structure ExternalMiss where
  package : Package
  caller : String
  callee : String
  deriving DecidableEq, Repr, Inhabited

namespace ExternalMiss

instance : Ord ExternalMiss where
  compare :=
    compareLex (compareOn ExternalMiss.package)
      (compareLex (compareOn ExternalMiss.caller) (compareOn ExternalMiss.callee))

instance : Std.TransOrd ExternalMiss :=
  inferInstanceAs (Std.TransCmp (compareLex (compareOn ExternalMiss.package)
    (compareLex (compareOn ExternalMiss.caller) (compareOn ExternalMiss.callee))))

instance : Std.LawfulEqOrd ExternalMiss where
  eq_of_compare {a b} h := by
    have h : ((compareOn ExternalMiss.package a b).then
      ((compareOn ExternalMiss.caller a b).then (compareOn ExternalMiss.callee a b))) = .eq := h
    rw [Ordering.then_eq_eq, Ordering.then_eq_eq] at h
    cases a
    cases b
    simp only [ExternalMiss.mk.injEq]
    exact ⟨Std.LawfulEqOrd.eq_of_compare h.1, Std.LawfulEqOrd.eq_of_compare h.2.1,
      Std.LawfulEqOrd.eq_of_compare h.2.2⟩

def toJson (m : ExternalMiss) : Json :=
  .object [("package", m.package.toJson), ("caller", .text m.caller), ("callee", .text m.callee)]

def ofJson? (j : Json) : Option ExternalMiss := do
  let r ← j.record ["package", "caller", "callee"]
  return ⟨← r.required "package" Package.ofJson?, ← r.required "caller" Json.asString,
    ← r.required "callee" Json.asString⟩

end ExternalMiss

/-- An imported symbol that no other library exports. -/
structure ImportMiss where
  library : Library
  symbol : String
  deriving DecidableEq, Repr, Inhabited

namespace ImportMiss

instance : Ord ImportMiss where
  compare := compareLex (compareOn ImportMiss.library) (compareOn ImportMiss.symbol)

instance : Std.TransOrd ImportMiss :=
  inferInstanceAs (Std.TransCmp
    (compareLex (compareOn ImportMiss.library) (compareOn ImportMiss.symbol)))

instance : Std.LawfulEqOrd ImportMiss where
  eq_of_compare {a b} h := by
    have h : ((compareOn ImportMiss.library a b).then (compareOn ImportMiss.symbol a b)) = .eq := h
    rw [Ordering.then_eq_eq] at h
    cases a
    cases b
    simp only [ImportMiss.mk.injEq]
    exact ⟨Std.LawfulEqOrd.eq_of_compare h.1, Std.LawfulEqOrd.eq_of_compare h.2⟩

def toJson (m : ImportMiss) : Json :=
  .object [("library", m.library.toJson), ("symbol", .text m.symbol)]

def ofJson? (j : Json) : Option ImportMiss := do
  let r ← j.record ["library", "symbol"]
  return ⟨← r.required "library" Library.ofJson?, ← r.required "symbol" Json.asString⟩

end ImportMiss

/-! ## Reports -/

/-- The unified graph and what could not be connected. -/
structure StitchReport where
  graph : Graph
  /-- How many bridges became edges. -/
  bridgesApplied : Nat
  /-- Bridges whose callable no package declares. -/
  missingInterpreted : List PlacedBridge
  /-- Bridges whose symbol is no node. -/
  missingNative : List PlacedBridge
  /-- How many calls to other packages were resolved. -/
  externalsResolved : Nat
  missedExternals : List ExternalMiss
  /-- How many imports were linked to an exporter. -/
  importsLinked : Nat
  unresolvedImports : List ImportMiss
  deriving DecidableEq

namespace StitchReport

def bridgesMissed (r : StitchReport) : Nat :=
  r.missingInterpreted.length + r.missingNative.length

def toJson (r : StitchReport) : Json :=
  .object [("graph", r.graph.toJson), ("bridges_applied", .nat r.bridgesApplied),
    ("missing_interpreted", .list PlacedBridge.toJson r.missingInterpreted),
    ("missing_native", .list PlacedBridge.toJson r.missingNative),
    ("externals_resolved", .nat r.externalsResolved),
    ("missed_externals", .list ExternalMiss.toJson r.missedExternals),
    ("imports_linked", .nat r.importsLinked),
    ("unresolved_imports", .list ImportMiss.toJson r.unresolvedImports)]

def ofJson (j : Json) : Except Error StitchReport := do
  -- Whatever is missing or of another form is one error.
  let read {α : Type} (a : Option α) : Except Error α :=
    match a with
    | some a => .ok a
    | none => .error .unexpectedForm
  let r ← read (j.record ["graph", "bridges_applied", "missing_interpreted", "missing_native",
    "externals_resolved", "missed_externals", "imports_linked", "unresolved_imports"])
  return {
    graph := ← Graph.ofJson (← read (r.value? "graph"))
    bridgesApplied := ← read (r.required "bridges_applied" Json.asNat)
    missingInterpreted :=
      ← read (r.required "missing_interpreted" (Json.asList PlacedBridge.ofJson?))
    missingNative := ← read (r.required "missing_native" (Json.asList PlacedBridge.ofJson?))
    externalsResolved := ← read (r.required "externals_resolved" Json.asNat)
    missedExternals := ← read (r.required "missed_externals" (Json.asList ExternalMiss.ofJson?))
    importsLinked := ← read (r.required "imports_linked" Json.asNat)
    unresolvedImports :=
      ← read (r.required "unresolved_imports" (Json.asList ImportMiss.ofJson?)) }

end StitchReport
end Bridgework
