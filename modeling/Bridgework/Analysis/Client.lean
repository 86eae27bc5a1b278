import Bridgework.Analysis.Job
import Bridgework.Analysis.Stage
import Bridgework.Digest
import Bridgework.Reach.Reached
import Bridgework.Unified.Stitch

/-!
# The analysis of one client

The stages in their order: native call graphs, bridge reports, interpreted call graphs, the unified graph,
what the client reaches. All but the last go through the cache. A library without a native call graph is
left out and recorded; every other failure ends the analysis.

- `scanContext`, `unifiedContext` : the contexts under which results are kept
- `PackageAnalysis` : the result
- `Job.analyze` : the stages together
-/

namespace Bridgework

/-! ## Contexts -/

/-- The context of a bridge report: the settings of its scan. -/
def scanContext (s : ScanSettings) : String := "scan-" ++ shortDigest 16 s.toJson.render

/-- What a unified graph depends on besides its client: the packages, the libraries that are left out,
and the context of the bridge reports. -/
def unifiedText (packages : List Package) (missing : List Library) (context : String) : String :=
  String.intercalate "," (packages.map Package.display) ++ "|" ++
    String.intercalate "," (missing.map Library.display) ++ "|" ++ context

def unifiedContext (packages : List Package) (missing : List Library) (context : String) : String :=
  "xlcg-" ++ shortDigest 16 (unifiedText packages missing context)

/-! ## Results -/

/-- A library without a native call graph. -/
structure LibraryFailure where
  library : Library
  error : String
  deriving DecidableEq, Repr

def LibraryFailure.toJson (f : LibraryFailure) : Json :=
  .object [("library", f.library.toJson), ("error", .text f.error)]

structure PackageAnalysis where
  package : Package
  bridgeReports : List BridgeReport
  stitch : StitchReport
  reached : ReachedGraph
  degraded : List LibraryFailure

namespace PackageAnalysis

def skippedModules (a : PackageAnalysis) : Nat :=
  a.bridgeReports.foldr (fun r n => r.skippedModules.length + n) 0

def unresolvedForeign (a : PackageAnalysis) : Nat :=
  a.bridgeReports.foldr (fun r n => r.unresolvedForeign + n) 0

def toJson (a : PackageAnalysis) : Json :=
  .object [("package", a.package.toJson), ("bridge_reports", .list BridgeReport.toJson a.bridgeReports),
    ("stitch", a.stitch.toJson), ("reached", a.reached.toJson),
    ("degraded_libraries", .list LibraryFailure.toJson a.degraded)]

end PackageAnalysis

/-! ## Stages -/

def nativeCodec : Codec NativeGraph := .ofOption NativeGraph.toJson NativeGraph.ofJson?

def bridgeCodec : Codec BridgeReport := .ofOption BridgeReport.toJson BridgeReport.ofJson?

def interpretedCodec : Codec InterpretedGraph := .ofOption InterpretedGraph.toJson InterpretedGraph.ofJson?

def stitchCodec : Codec StitchReport := ⟨StitchReport.toJson, StitchReport.ofJson⟩

section

variable {σ : Type} (c : Collaborators σ) (settings : Settings)

def nativeStage (p : InstalledPackage) (l : Library) : Stage σ NativeGraph :=
  .cached ⟨.nativeGraph, l.package, l.path⟩ nativeCodec
    (c.nativeGraph p l settings.batch.nativeTimeout)

def bridgeStage (p : InstalledPackage) : Stage σ BridgeReport :=
  .cached ⟨.bridgeReport, p.package, scanContext settings.scan⟩ bridgeCodec
    (c.bridgeReport p settings.scan)

def interpretedStage (p : InstalledPackage) : Stage σ InterpretedGraph :=
  .cached ⟨.interpretedGraph, p.package, "callgraph"⟩ interpretedCodec (c.interpretedGraph p)

/-- The native call graphs that can be had, and the libraries without one. -/
def nativeStages : List (InstalledPackage × Library) → Stage σ (List NativeGraph × List LibraryFailure)
  | [] => pure ([], [])
  | (p, l) :: rest => do
    let found ← (nativeStage c settings p l).caught
    let (graphs, failures) ← nativeStages rest
    match found with
    | .ok g => return (g :: graphs, failures)
    | .error e => return (graphs, ⟨l, e.message⟩ :: failures)

def Job.analyze (j : Job) : Stage σ PackageAnalysis := do
  let (native, degraded) ← nativeStages c settings j.libraries
  let bridges ← Stage.each (bridgeStage c settings) j.packages
  let interpreted ← Stage.each (interpretedStage c) j.packages
  let context := unifiedContext (j.packages.map (·.package)) (degraded.map (·.library))
    (scanContext settings.scan)
  let report ← Stage.cached ⟨.unifiedGraph, j.client.package, context⟩ stitchCodec
    fun w => (stitch ⟨interpreted, native, bridges⟩, w)
  return ⟨j.client.package, bridges, report, reachedFromPackage report.graph j.client.package, degraded⟩

end

end Bridgework
