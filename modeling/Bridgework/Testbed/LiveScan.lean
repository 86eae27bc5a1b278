import Bridgework.Install.Tree
import Bridgework.Scan.Recovery
import Bridgework.Testbed.Import

/-!
# Scanning a running program

- `ExportSpec` : an export of a mapped library, given by a symbol of the specimen extension
- `Program.entryModules` : the modules that a scan starts from unless told otherwise
- `Program.scan` : runs a program and scans it
-/

namespace Bridgework
namespace Testbed

/-! ## Exports -/

/-- A name at the place of a symbol, or at the start of the library, moved by some bytes. -/
structure ExportSpec where
  name : String
  symbol : Option String
  shift : Int

namespace ExportSpec

def ofJson? (j : Json) : Option ExportSpec := do
  let r ← j.record ["name", "at", "delta"]
  return ⟨← r.required "name" Json.asString, ← r.nullable "at" Json.asString,
    ← r.withDefault "delta" 0 Json.asInt⟩

/-- The export with its offset; `none` if it would lie before the library. -/
def place? (e : ExportSpec) : Option Export :=
  let start : Int := ((e.symbol.bind Specimen.offset?).getD 0 : Nat)
  if start + e.shift < 0 then none else some ⟨e.name, UInt64.ofNat (start + e.shift).toNat⟩

def tableOfJson? (j : Json) : Option (SortedMap String (List Export)) :=
  Json.asMap (Json.asList fun e => (ofJson? e).bind place?) j

end ExportSpec

namespace Program

def entryModules (p : Program) : List String := (Install.Tree.ofPaths p.paths []).entryModules.toList

def root : String := "/scan/root"

/-- Runs a program and scans it. All entry modules are imported before the scan, so that their libraries
are mapped; those that fail are tried again. -/
def scan (p : Program) (package : Package) (entries : List String)
    (exports : SortedMap String (List Export)) (settings : ScanSettings) : BridgeReport :=
  let mapped := (Exec.imports p entries (.start root)).2
  let (results, i) := Exec.imports p (SortedSet.ofList entries).toList mapped
  let table : SortedMap String (Except Raised ObjectId) := .ofList results
  let model := i.model fun name => (table.get? name).getD (.error (.notFound name))
  Scan.recover ⟨model, root, settings⟩ (.ofRanges package mapped.ranges exports settings.matchMode)
    package entries

end Program
end Testbed
end Bridgework
