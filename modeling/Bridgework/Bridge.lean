import Bridgework.Json.Printer
import Bridgework.Package

/-!
# Bridges

A bridge leads from a callable of a package, by its dotted name, to the native symbol that runs when
it is called. A report collects the bridges of one package with what the scan has seen.

- `Bridge`, `Bridge.of` : bridges, ordered by callable, symbol and library
- `BridgeReport` : what a scan of one package found
-/

namespace Bridgework

/-! ## Bridges -/

/-- A way from an interpreted callable into native code. -/
structure Bridge where
  /-- The dotted name of the callable. -/
  callable : String
  /-- The native symbol behind it. -/
  symbol : String
  /-- The path of the library below the install root. -/
  library : String
  deriving DecidableEq, Repr, Inhabited

namespace Bridge

instance : Ord Bridge where
  compare :=
    compareLex (compareOn Bridge.callable)
      (compareLex (compareOn Bridge.symbol) (compareOn Bridge.library))

instance : Std.TransOrd Bridge :=
  inferInstanceAs (Std.TransCmp (compareLex (compareOn Bridge.callable)
    (compareLex (compareOn Bridge.symbol) (compareOn Bridge.library))))

instance : Std.LawfulEqOrd Bridge where
  eq_of_compare {a b} h := by
    simp only [compare, compareLex, compareOn, Ordering.then_eq_eq] at h
    cases a
    cases b
    simp only [Bridge.mk.injEq]
    exact ⟨Std.LawfulEqOrd.eq_of_compare h.1, Std.LawfulEqOrd.eq_of_compare h.2.1,
      Std.LawfulEqOrd.eq_of_compare h.2.2⟩

/-- The bridge into a library, whose path is brought to its stored form. -/
def of (callable symbol library : String) : Bridge := ⟨callable, symbol, Path.normalize library⟩

/-- The library in which a bridge of a package ends. -/
def target (b : Bridge) (package : Package) : Library := .ofPath package b.library

/-- The name under which the loading of a module is recorded as a bridge. -/
def importName : String := "___IMPORT___"

/-- What the name of a module's loader symbol begins with. -/
def loaderStem : String := "PyInit_"

def toJson (b : Bridge) : Json :=
  .object [("pyname", .text b.callable), ("cfunc", .text b.symbol), ("library", .text b.library)]

/-- The bridge of a document, with the path as it is written. -/
def ofJson? (j : Json) : Option Bridge := do
  let r ← j.record ["pyname", "cfunc", "library"]
  return ⟨← r.required "pyname" Json.asString, ← r.required "cfunc" Json.asString,
    ← r.required "library" Json.asString⟩

end Bridge

/-! ## Reports -/

/-- A module that gave at least one bridge. -/
structure ModuleRecord where
  path : String
  importName : String
  deriving DecidableEq, Repr, Inhabited

namespace ModuleRecord

def toJson (m : ModuleRecord) : Json :=
  .object [("path", .text m.path), ("import_name", .text m.importName)]

def ofJson? (j : Json) : Option ModuleRecord := do
  let r ← j.record ["path", "import_name"]
  return ⟨← r.required "path" Json.asString, ← r.required "import_name" Json.asString⟩

end ModuleRecord

/-- A module that could not be scanned. -/
structure SkippedModule where
  importName : String
  reason : String
  deriving DecidableEq, Repr, Inhabited

namespace SkippedModule

def toJson (m : SkippedModule) : Json :=
  .object [("import_name", .text m.importName), ("reason", .text m.reason)]

def ofJson? (j : Json) : Option SkippedModule := do
  let r ← j.record ["import_name", "reason"]
  return ⟨← r.required "import_name" Json.asString, ← r.required "reason" Json.asString⟩

end SkippedModule

/-- What a scan of one package found. -/
structure BridgeReport where
  package : Package
  /-- How many objects were looked at. -/
  objectsExamined : Nat
  /-- How many of them can be called. -/
  callableObjects : Nat
  /-- How many of them run native code. -/
  foreignObjects : Nat
  /-- How long the scan took, in seconds. -/
  duration : Binary64
  /-- The number of bridges. -/
  count : Nat
  modules : List ModuleRecord
  /-- The paths of the libraries in which bridges end. -/
  libraries : List String
  bridges : List Bridge
  /-- How many objects run native code that no library accounts for. -/
  unresolvedForeign : Nat
  skippedModules : List SkippedModule
  deriving DecidableEq, Repr

namespace BridgeReport

def empty (package : Package) : BridgeReport :=
  { package, objectsExamined := 0, callableObjects := 0, foreignObjects := 0,
    duration := .zero false, count := 0, modules := [], libraries := [], bridges := [],
    unresolvedForeign := 0, skippedModules := [] }

def implicatedLibraries (r : BridgeReport) : List Library :=
  r.libraries.map fun path => .ofPath r.package path

/-- The members of a report's document, except for its duration. -/
def members (r : BridgeReport) : List (String × Json) × List (String × Json) :=
  ([("package", r.package.toJson), ("objects_examined", .nat r.objectsExamined),
    ("callable_objects", .nat r.callableObjects),
    ("foreign_callable_objects", .nat r.foreignObjects)],
   [("count", .nat r.count), ("modules", .list ModuleRecord.toJson r.modules),
    ("jump_libs", .list .text r.libraries), ("bridges", .list Bridge.toJson r.bridges),
    ("unresolved_foreign", .nat r.unresolvedForeign),
    ("skipped_modules", .list SkippedModule.toJson r.skippedModules)])

def toJson (r : BridgeReport) : Json :=
  .object (r.members.1 ++ ("duration_sec", .double r.duration) :: r.members.2)

def ofJson? (j : Json) : Option BridgeReport := do
  let r ← j.record ["package", "objects_examined", "callable_objects", "foreign_callable_objects",
    "duration_sec", "count", "modules", "jump_libs", "bridges", "unresolved_foreign",
    "skipped_modules"]
  return {
    package := ← r.required "package" Package.ofJson?
    objectsExamined := ← r.required "objects_examined" Json.asNat
    callableObjects := ← r.required "callable_objects" Json.asNat
    foreignObjects := ← r.required "foreign_callable_objects" Json.asNat
    duration := ← r.required "duration_sec" Json.asDouble
    count := ← r.required "count" Json.asNat
    modules := ← r.required "modules" (Json.asList ModuleRecord.ofJson?)
    libraries := ← r.required "jump_libs" (Json.asList Json.asString)
    bridges := ← r.required "bridges" (Json.asList Bridge.ofJson?)
    unresolvedForeign := ← r.withDefault "unresolved_foreign" 0 Json.asNat
    skippedModules := ← r.withDefault "skipped_modules" [] (Json.asList SkippedModule.ofJson?) }

end BridgeReport
end Bridgework
