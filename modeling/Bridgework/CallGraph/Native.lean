import Bridgework.CallGraph.Interpreted

/-!
# Call graphs of native code

The call graph of one library: the symbols it defines, the calls between symbols, what it exports and
what it imports from elsewhere.

- `Export` : an exported symbol with its offset in the library
- `NativeGraph` : the call graph of a library
- `NativeGraph.validate` : every symbol of a call is defined or imported
-/

namespace Bridgework

/-! ## Exports -/

structure Export where
  name : String
  /-- The distance from the start of the library. -/
  offset : UInt64
  deriving DecidableEq, Repr, Inhabited

namespace Export

instance : Ord Export where
  compare := compareLex (compareOn Export.name) (compareOn Export.offset)

instance : Std.TransOrd Export :=
  inferInstanceAs (Std.TransCmp (compareLex (compareOn Export.name) (compareOn Export.offset)))

instance : Std.LawfulEqOrd Export where
  eq_of_compare {a b} h := by
    have h : ((compareOn Export.name a b).then (compareOn Export.offset a b)) = .eq := h
    rw [Ordering.then_eq_eq] at h
    cases a
    cases b
    simp only [Export.mk.injEq]
    exact ⟨Std.LawfulEqOrd.eq_of_compare h.1, Std.LawfulEqOrd.eq_of_compare h.2⟩

def toJson (e : Export) : Json :=
  .object [("name", .text e.name), ("offset", .nat e.offset.toNat)]

def ofJson? (j : Json) : Option Export := do
  let r ← j.record ["name", "offset"]
  return ⟨← r.required "name" Json.asString, ← r.required "offset" Json.asWord⟩

end Export

/-! ## Graphs -/

/-- The call graph of a library. -/
structure NativeGraph where
  library : Library
  /-- The symbols that the library defines. -/
  functions : SortedSet String
  calls : List Call
  exports : List Export
  /-- The symbols that the library expects from elsewhere. -/
  imports : SortedSet String
  deriving DecidableEq

namespace NativeGraph

def empty (library : Library) : NativeGraph := ⟨library, .empty, [], [], .empty⟩

/-- Adds a call; both symbols become defined, the callee unless it is imported. -/
def addCall (g : NativeGraph) (c : Call) : NativeGraph :=
  let functions := g.functions.insert c.caller
  { g with
    functions := if g.imports.contains c.callee then functions else functions.insert c.callee
    calls := g.calls ++ [c] }

/-- Adds an export; its symbol becomes defined. -/
def addExport (g : NativeGraph) (e : Export) : NativeGraph :=
  { g with
    functions := g.functions.insert e.name
    exports := g.exports ++ [e] }

/-- Adds an import; its symbol is no longer defined here. -/
def addImport (g : NativeGraph) (name : String) : NativeGraph :=
  { g with
    functions := g.functions.erase name
    imports := g.imports.insert name }

def declares (g : NativeGraph) (symbol : String) : Bool :=
  g.functions.contains symbol || g.imports.contains symbol

def exportsSymbol (g : NativeGraph) (symbol : String) : Bool :=
  g.exports.any fun e => e.name == symbol

def sourceName (library : Library) : String := "native graph " ++ library.display

/-- Both symbols of a call have to be defined or imported. -/
def validate (g : NativeGraph) : Except Error Unit :=
  match g.calls.findSome? (Call.complaint? g.declares) with
  | some detail => .error (.graphInconsistency (sourceName g.library) detail)
  | none => .ok ()

def toJson (g : NativeGraph) : Json :=
  .object [("library", g.library.toJson), ("functions", .list .text g.functions.toList),
    ("edges", .list Call.toJson g.calls), ("exports", .list Export.toJson g.exports),
    ("imports", .list .text g.imports.toList)]

def ofJson? (j : Json) : Option NativeGraph := do
  let r ← j.record ["library", "functions", "edges", "exports", "imports"]
  return {
    library := ← r.required "library" Library.ofJson?
    functions := .ofList (← r.required "functions" (Json.asList Json.asString))
    calls := ← r.withDefault "edges" [] (Json.asList Call.ofJson?)
    exports := ← r.withDefault "exports" [] (Json.asList Export.ofJson?)
    imports := .ofList (← r.withDefault "imports" [] (Json.asList Json.asString)) }

end NativeGraph
end Bridgework
