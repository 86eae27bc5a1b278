import Bridgework.Error
import Bridgework.Json.Printer
import Bridgework.Json.Reader
import Bridgework.Package
import Bridgework.Text.Dotted

/-!
# Call graphs of interpreted code

The source-level call graph of one package: the names it defines, the calls between them, and the
calls to names defined elsewhere.

- `Call` : a caller and a callee by name
- `InterpretedGraph` : the call graph of a package
- `InterpretedGraph.validate` : every name that has to be declared is
-/

namespace Bridgework

/-! ## Calls -/

structure Call where
  caller : String
  callee : String
  deriving DecidableEq, Repr, Inhabited

namespace Call

def toJson (c : Call) : Json := .arr [.text c.caller, .text c.callee]

def ofJson? (j : Json) : Option Call :=
  (j.asPair Json.asString Json.asString).map fun c => ⟨c.1, c.2⟩

def display (c : Call) : String := c.caller ++ " -> " ++ c.callee

/-- The first of the two names that is not declared. -/
def undeclared? (declared : String → Bool) (c : Call) : Option String :=
  if !declared c.caller then some c.caller
  else if !declared c.callee then some c.callee
  else none

def complaint? (declared : String → Bool) (c : Call) : Option String :=
  (c.undeclared? declared).map fun name =>
    "edge " ++ c.display ++ " references undeclared " ++ name

end Call

/-! ## Graphs -/

/-- The call graph of a package in its own language. -/
structure InterpretedGraph where
  package : Package
  /-- The dotted names of the functions and classes that the package defines. -/
  functions : SortedSet String
  /-- Calls between declared names. -/
  calls : List Call
  /-- Calls from a declared name to a name defined elsewhere. -/
  externalCalls : List Call
  deriving DecidableEq

namespace InterpretedGraph

def empty (package : Package) : InterpretedGraph := ⟨package, .empty, [], []⟩

def addFunction (g : InterpretedGraph) (name : String) : InterpretedGraph :=
  { g with functions := g.functions.insert name }

/-- Adds a call and declares both names. -/
def addCall (g : InterpretedGraph) (c : Call) : InterpretedGraph :=
  { g with
    functions := (g.functions.insert c.caller).insert c.callee
    calls := g.calls ++ [c] }

/-- Adds a call to a name defined elsewhere and declares the caller. -/
def addExternalCall (g : InterpretedGraph) (c : Call) : InterpretedGraph :=
  { g with
    functions := g.functions.insert c.caller
    externalCalls := g.externalCalls ++ [c] }

def externalComplaint? (g : InterpretedGraph) (c : Call) : Option String :=
  if g.functions.contains c.caller then none
  else some ("external call " ++ c.display ++ " has an undeclared caller")

/-- The first complaint: about calls in their order, then about external calls in theirs. -/
def complaint? (g : InterpretedGraph) : Option String :=
  (g.calls.findSome? (Call.complaint? g.functions.contains)).or
    (g.externalCalls.findSome? g.externalComplaint?)

/-- Both names of a call and the caller of an external call have to be declared. -/
def validate (g : InterpretedGraph) : Except Error Unit :=
  match g.complaint? with
  | some detail => .error (.graphInconsistency ("interpreted graph " ++ g.package.display) detail)
  | none => .ok ()

/-- The first parts of the declared names, the empty one apart. -/
def topLevels (g : InterpretedGraph) : SortedSet String :=
  .ofList ((g.functions.toList.map Text.firstPart).filter (· ≠ ""))

def toJson (g : InterpretedGraph) : Json :=
  .object [("package", g.package.toJson), ("functions", .list .text g.functions.toList),
    ("edges", .list Call.toJson g.calls), ("external_calls", .list Call.toJson g.externalCalls)]

def ofJson? (j : Json) : Option InterpretedGraph := do
  let r ← j.record ["package", "functions", "edges", "external_calls"]
  return {
    package := ← r.required "package" Package.ofJson?
    functions := .ofList (← r.required "functions" (Json.asList Json.asString))
    calls := ← r.withDefault "edges" [] (Json.asList Call.ofJson?)
    externalCalls := ← r.withDefault "external_calls" [] (Json.asList Call.ofJson?) }

end InterpretedGraph
end Bridgework
