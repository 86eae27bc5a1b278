import Bridgework.CallGraph.Native
import Bridgework.Unified.Report

/-!
# Stitching

Interpreted call graphs, native call graphs and bridges make one graph. Each kind of edge has its own
rule, and all of them look only at the inputs, so the order of the inputs is of no account.

- `StitchInputs` : what is stitched
- `StitchInputs.owner?` : the package that a dotted name of elsewhere belongs to
- `StitchInputs.exporter?` : the library that an import is linked to
- `stitch` : the graph and the report
-/

namespace Bridgework

structure StitchInputs where
  interpreted : List InterpretedGraph
  native : List NativeGraph
  bridges : List BridgeReport

namespace StitchInputs

/-! ## Interpreted code -/

def constructorOf (name : String) : String := name ++ ".__init__"

def declares (i : StitchInputs) (p : Package) (name : String) : Bool :=
  i.interpreted.any fun g => g.package == p && g.functions.contains name

/-- Whether some graph of the package declares a name with this first part. -/
def declaresTop (i : StitchInputs) (p : Package) (top : String) : Bool :=
  i.interpreted.any fun g => g.package == p && g.functions.toList.any (Text.firstPart · == top)

def packages (i : StitchInputs) : SortedSet Package := .ofList (i.interpreted.map (·.package))

/-- The least package that declares a name with this first part. -/
def owner? (i : StitchInputs) (top : String) : Option Package :=
  i.packages.toList.find? fun p => i.declaresTop p top

/-- The nodes of a package for a called name: the name itself and its constructor, as far as they are
declared. -/
def declaredTargets (i : StitchInputs) (p : Package) (callee : String) : List Node :=
  [callee, constructorOf callee].filterMap fun name =>
    if i.declares p name then some (.interpreted p name) else none

def externalTargets (i : StitchInputs) (callee : String) : List Node :=
  match i.owner? (Text.firstPart callee) with
  | some p => i.declaredTargets p callee
  | none => []

def interpretedNodes (g : InterpretedGraph) : List Node :=
  g.functions.toList.map (.interpreted g.package)

/-- A call within a package: to the callee, and to its constructor if that is declared. -/
def internalEdges (i : StitchInputs) (g : InterpretedGraph) (c : Call) : List Edge :=
  let source := Node.interpreted g.package c.caller
  ⟨source, .interpreted g.package c.callee⟩ ::
    if i.declares g.package (constructorOf c.callee) then
      [⟨source, .interpreted g.package (constructorOf c.callee)⟩]
    else []

def externalEdges (i : StitchInputs) (g : InterpretedGraph) (c : Call) : List Edge :=
  (i.externalTargets c.callee).map fun t => ⟨.interpreted g.package c.caller, t⟩

def externalCalls (i : StitchInputs) : List (InterpretedGraph × Call) :=
  i.interpreted.flatMap fun g => g.externalCalls.map fun c => (g, c)

def missedExternals (i : StitchInputs) : List ExternalMiss :=
  i.externalCalls.filterMap fun (g, c) =>
    if (i.externalTargets c.callee).isEmpty then some ⟨g.package, c.caller, c.callee⟩ else none

/-! ## Native code -/

def nativeNodes (g : NativeGraph) : List Node :=
  (g.functions.toList ++ g.imports.toList).map (.native g.library)

def nativeEdges (g : NativeGraph) : List Edge :=
  g.calls.map fun c => ⟨.native g.library c.caller, .native g.library c.callee⟩

def exporters (i : StitchInputs) (symbol : String) : SortedSet Library :=
  .ofList ((i.native.filter (·.exportsSymbol symbol)).map (·.library))

/-- The library that an import is linked to: of the other libraries that export the symbol the least
one in the same package, or else the least one. -/
def exporter? (i : StitchInputs) (library : Library) (symbol : String) : Option Library :=
  let others := (i.exporters symbol).toList.filter (· != library)
  (others.find? fun l => l.package == library.package).or others.head?

def imports (i : StitchInputs) : List (Library × String) :=
  i.native.flatMap fun g => g.imports.toList.map fun s => (g.library, s)

def importEdge? (i : StitchInputs) (m : Library × String) : Option Edge :=
  (i.exporter? m.1 m.2).map fun t => ⟨.native m.1 m.2, .native t m.2⟩

def missedImports (i : StitchInputs) : List ImportMiss :=
  i.imports.filterMap fun m =>
    if (i.exporter? m.1 m.2).isNone then some ⟨m.1, m.2⟩ else none

/-! ## The graph before bridges -/

def declaredNodes (i : StitchInputs) : List Node :=
  i.interpreted.flatMap interpretedNodes ++ i.native.flatMap nativeNodes

/-- All edges except those of bridges. -/
def plainEdges (i : StitchInputs) : List Edge :=
  i.interpreted.flatMap (fun g => g.calls.flatMap (i.internalEdges g)) ++
    i.externalCalls.flatMap (fun (g, c) => i.externalEdges g c) ++
    i.native.flatMap nativeEdges ++
    i.imports.filterMap i.importEdge?

/-- The graph before bridges become edges. -/
def baseGraph (i : StitchInputs) : Graph :=
  i.plainEdges.foldl .addEdge (i.declaredNodes.foldl .addNode .empty)

/-! ## Bridges -/

def placedBridges (i : StitchInputs) : SortedSet PlacedBridge :=
  .ofList (i.bridges.flatMap fun r => r.bridges.map fun b => ⟨r.package, b⟩)

end StitchInputs

inductive BridgeFate where
  | applied
  | missingInterpreted
  | missingNative
  deriving DecidableEq, Repr

/-- A bridge becomes an edge if both of its ends are nodes; the interpreted end is looked for first. -/
def PlacedBridge.fate (g : Graph) (b : PlacedBridge) : BridgeFate :=
  if !g.nodes.contains b.source then .missingInterpreted
  else if !g.nodes.contains b.target then .missingNative
  else .applied

/-! ## The stitch -/

/-- The first error among the inputs: interpreted graphs first, then native ones. -/
def StitchInputs.validate (i : StitchInputs) : Except Error Unit := do
  i.interpreted.forM InterpretedGraph.validate
  i.native.forM NativeGraph.validate

def StitchInputs.report (i : StitchInputs) : StitchReport :=
  let base := i.baseGraph
  let bridges := i.placedBridges.toList
  let ofFate (f : BridgeFate) := bridges.filter fun b => b.fate base == f
  let applied := ofFate .applied
  { graph := applied.foldl (fun g b => g.addCall b.source b.target) base
    bridgesApplied := applied.length
    missingInterpreted := ofFate .missingInterpreted
    missingNative := ofFate .missingNative
    externalsResolved :=
      (i.externalCalls.filter fun (_, c) => !(i.externalTargets c.callee).isEmpty).length
    missedExternals := (SortedSet.ofList i.missedExternals).toList
    importsLinked := (i.imports.filterMap i.importEdge?).length
    unresolvedImports := (SortedSet.ofList i.missedImports).toList }

/-- Stitches the inputs. The only errors are names in them that are not declared; everything else that
does not fit is reported. -/
def stitch (i : StitchInputs) : Except Error StitchReport := do
  i.validate
  return i.report

end Bridgework
