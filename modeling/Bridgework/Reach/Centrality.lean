import Bridgework.Json.Decode
import Bridgework.Json.Printer
import Bridgework.Reach.Chain

/-!
# Centrality and impact

How much of a package depends on a target: the part of its own functions from which there is a chain of
calls to the target.

- `Centrality`, `Index.centrality` : one package, one target
- `centralityByDependent` : several packages that share a graph
- `TargetSymbol`, `Impact`, `impact` : one package and several targets, in the package's own graph
- `impacts` : several packages, each in its own graph
-/

namespace Bridgework

def Chain.toJson (c : Chain) : Json := .list Node.toJson c

/-! ## One target -/

/-- How much of a package depends on a target. -/
structure Centrality where
  package : Package
  target : Node
  /-- How many functions the package defines. -/
  ownFunctions : Nat
  /-- How many of them have a chain to the target. -/
  reaching : Nat
  /-- Which part of them that is. -/
  ratio : Binary64
  /-- A shortest chain from one of them. -/
  sample : Option Chain
  deriving DecidableEq

namespace Centrality

/-- The part that some functions of a package are, and nothing if it has no functions. -/
def part (reaching own : Nat) : Binary64 :=
  if own = 0 then .zero false
  else ((Binary64.ofNat reaching).div? (Binary64.ofNat own)).getD (.zero false)

def toJson (c : Centrality) : Json :=
  .object [("package", c.package.toJson), ("target", c.target.toJson),
    ("own_functions", .nat c.ownFunctions), ("chain_count", .nat c.reaching),
    ("centrality", .double c.ratio), ("sample_chain", .orNull Chain.toJson c.sample)]

end Centrality

namespace Index

def reachingFunctions (i : Index) (p : Package) (t : Nat) : List Node :=
  let marks := i.reverse [t]
  i.nodesAt ((i.ownFunctions p).filter fun n => marks.getD n false)

def centrality (i : Index) (p : Package) (target : Node) : Centrality :=
  let own := (i.ownFunctions p).length
  let (reaching, sample) :=
    match i.position? target with
    | none => (0, none)
    | some t =>
      let reaching := i.reachingFunctions p t
      (reaching.length, i.shortestChain? reaching target)
  ⟨p, target, own, reaching, Centrality.part reaching own, sample⟩

end Index

def centralityByDependent (g : Graph) (dependents : List Package) (target : Node) :
    SortedMap Package Centrality :=
  let index := Index.ofGraph g
  .ofList (dependents.map fun p => (p, index.centrality p target))

/-! ## Several targets -/

/-- A name to look for, in one library or in all. -/
structure TargetSymbol where
  symbol : String
  library : Option String
  deriving DecidableEq, Repr

namespace TargetSymbol

def ofJson? (j : Json) : Option TargetSymbol := do
  let r ← j.record ["symbol", "library"]
  return ⟨← r.required "symbol" Json.asString, ← r.withDefault "library" none (Json.asOption Json.asString)⟩

def nodes (t : TargetSymbol) (g : Graph) : List Node := g.targets t.symbol t.library

end TargetSymbol

/-- How much of a package depends on some targets together. -/
structure Impact where
  package : Package
  /-- The greatest ratio over the targets. -/
  centrality : Binary64
  /-- The sum over the targets of the functions with a chain. -/
  chainCount : Nat
  /-- A shortest of the sample chains. -/
  sample : Option Chain
  deriving DecidableEq

namespace Impact

def none (p : Package) : Impact := ⟨p, .zero false, 0, .none⟩

/-- The shorter of two chains, the earlier one if they are equally long. -/
def shorter : Option Chain → Option Chain → Option Chain
  | .none, c => c
  | some b, some c => if c.length < b.length then some c else some b
  | some b, .none => some b

def add (i : Impact) (c : Centrality) : Impact where
  package := i.package
  centrality := if i.centrality.less c.ratio then c.ratio else i.centrality
  chainCount := i.chainCount + c.reaching
  sample := shorter i.sample c.sample

def toJson (i : Impact) : Json :=
  .object [("package", i.package.toJson), ("centrality", .double i.centrality),
    ("chain_count", .nat i.chainCount), ("sample_chain", .orNull Chain.toJson i.sample)]

end Impact

def impact (p : Package) (g : Graph) (targets : List TargetSymbol) : Impact :=
  let index := Index.ofGraph g
  ((targets.flatMap fun t => t.nodes g).map (index.centrality p)).foldl Impact.add (.none p)

/-- The impact of targets on each of several packages, each in its own graph. -/
def impacts (dependents : List (Package × Graph)) (targets : List TargetSymbol) : List Impact :=
  dependents.map fun d => impact d.1 d.2 targets

/-- The impact of one target on each of several packages of one graph, by their texts. -/
def impactByDependent (g : Graph) (dependents : List Package) (target : TargetSymbol) :
    SortedMap String Impact :=
  .ofList (dependents.map fun p => (p.display, impact p g [target]))

end Bridgework
