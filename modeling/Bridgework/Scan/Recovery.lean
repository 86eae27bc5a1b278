import Bridgework.Bridge
import Bridgework.Image.Resolver
import Bridgework.Install.ModuleName
import Bridgework.Scan.Walk

/-!
# Recovering bridges

A scan walks from the entry modules of a package and pairs every object that enters native code with the
symbols that it enters.

- `Scan.Entries` : the entry modules that could be walked from, and those that could not
- `Scan.bridgesOf` : the bridges of one object
- `Scan.reportOn`, `Scan.recover` : the report on what was found, and that of a whole scan
-/

namespace Bridgework
namespace Scan

/-! ## Entry modules -/

/-- What became of the entry modules. -/
structure Entries where
  walk : Walk
  /-- The path of each module that was walked from. -/
  paths : SortedMap String String
  skipped : List SkippedModule

/-- Walks from one more module. A module that cannot be imported, or that lies outside the root, is
skipped. -/
def enter (g : Ground) (e : Entries) (name : String) : Entries :=
  let skip (reason : String) := { e with skipped := e.skipped ++ [⟨name, reason⟩] }
  if e.walk.exhausted then e
  else
    match g.model.importModule name with
    | .error err => skip err.message
    | .ok id =>
      let path? := match g.model.shape id with
        | .ok shape => g.modulePath? shape
        | .error _ => none
      match path? with
      | none => skip "module file is outside the package root"
      | some path =>
        { e with paths := e.paths.insert name path, walk := e.walk.fromModule g name id }

/-- Walks from all entry modules, in the order of their names. -/
def enterAll (g : Ground) (names : List String) : Entries :=
  (SortedSet.ofList names).toList.foldl (enter g) ⟨.start, .empty, []⟩

/-! ## Bridges -/

/-- A bridge with the path of its library as the resolver gives it. -/
structure Landing where
  bridge : Bridge
  path : String

def Landing.of (name symbol : String) (library : Library) : Landing :=
  ⟨.of name symbol library.path, library.path⟩

def addressLandings (r : Resolver) (f : Found) : List Landing :=
  f.entry.addresses.filterMap fun a =>
    match r.resolve a with
    | .resolved library symbol => some (.of f.name symbol library)
    | _ => none

/-- Where an object lands: at its addresses, or else at its declared name. -/
def bridgesOf (r : Resolver) (f : Found) : List Landing :=
  match addressLandings r f with
  | [] =>
    match f.entry.declaredName with
    | none => []
    | some name =>
      match r.resolveName? name with
      | none => []
      | some library => [.of f.name name library]
  | landings => landings

/-- The bridge of the import of a module in a shared object. -/
def importLanding? (name path : String) : Option Landing :=
  if Install.isSharedObject (Path.fileName path) then
    some ⟨.of Bridge.importName (Bridge.loaderStem ++ Text.lastPart name) path, path⟩
  else none

def importLandings (g : Ground) (paths : SortedMap String String) : List Landing :=
  if g.settings.importBridges then paths.toList.filterMap fun p => importLanding? p.1 p.2 else []

/-! ## Reports -/

/-- Objects in the order of their names. Those of one name stay as they were listed. -/
def byName (found : List Found) : List Found :=
  found.mergeSort fun a b => (compareNames a.name b.name).isLE

def collect (g : Ground) (r : Resolver) (package : Package) (e : Entries) (found : List Found) :
    BridgeReport :=
  let landed := found.filter fun f => !(bridgesOf r f).isEmpty
  let landings := found.flatMap (bridgesOf r) ++ importLandings g e.paths
  let bridges := (SortedSet.ofList (landings.map (·.bridge))).toList
  let modules := (SortedSet.ofList (landed.map (·.origin))).toList
  { BridgeReport.empty package with
    objectsExamined := e.walk.examined
    callableObjects := e.walk.callable
    foreignObjects := found.length
    unresolvedForeign := found.length - landed.length
    count := bridges.length
    modules := modules.filterMap fun name => (e.paths.get? name).map fun path => ⟨path, name⟩
    libraries := (SortedSet.ofList (landings.map (·.path))).toList
    bridges
    skippedModules := e.skipped }

/-- The report on what the table of a walk lists, in whatever order it does. -/
def reportOn (g : Ground) (r : Resolver) (package : Package) (e : Entries) (listed : List Found) :
    BridgeReport :=
  collect g r package e (byName listed)

def recover (g : Ground) (r : Resolver) (package : Package) (entries : List String) :
    BridgeReport :=
  let e := enterAll g entries
  reportOn g r package e (e.walk.found.map Prod.snd)

end Scan
end Bridgework
