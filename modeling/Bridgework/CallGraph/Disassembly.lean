import Bridgework.CallGraph.Native

/-!
# What a disassembler reports

A disassembler numbers the symbols it finds and gives calls as pairs of numbers. Imported symbols are
numbered like the others.

- `Disassembly` : the report
- `Disassembly.toGraph` : the call graph of the library
- `NativeGraph.ofDisassembly` : the call graph from the text of a report
-/

namespace Bridgework

structure Disassembly where
  /-- The name of each numbered symbol. -/
  symbols : SortedMap String String
  /-- Calls as pairs of numbers. -/
  calls : List (String × String)
  exports : List Export
  imports : List String

namespace Disassembly

/-! ## Documents -/

/-- The end of a call: a whole number counts as the text of its digits. -/
def asEnd (j : Json) : Json :=
  match j.asNat with
  | some n => .text (toString n)
  | none => j

def asEnds : Json → Json
  | .arr ends => .arr (ends.map asEnd)
  | j => j

def asCalls : Json → Json
  | .arr calls => .arr (calls.map asEnds)
  | j => j

/-- A report written by name, with the ends of its calls as texts. -/
def normalizeEnds : Json → Json
  | .obj members =>
    .obj (members.map fun m => if m.1.value = some "edges" then (m.1, asCalls m.2) else m)
  | j => j

def symbolOfJson? (j : Json) : Option String := do
  let r ← j.record ["name"]
  r.required "name" Json.asString

def ofJson? (j : Json) : Option Disassembly := do
  let r ← (normalizeEnds j).record ["nodes", "edges", "exports", "imports"]
  return {
    symbols := ← r.withDefault "nodes" .empty (Json.asMap symbolOfJson?)
    calls := ← r.withDefault "edges" [] (Json.asList (Json.asPair Json.asString Json.asString))
    exports := ← r.withDefault "exports" [] (Json.asList Export.ofJson?)
    imports := ← r.withDefault "imports" [] (Json.asList Json.asString) }

/-! ## Graphs -/

def call? (d : Disassembly) (c : String × String) : Option Call :=
  match d.symbols.get? c.1, d.symbols.get? c.2 with
  | some a, some b => some ⟨a, b⟩
  | _, _ => none

/-- The names behind all pairs; the first pair with a number that is not listed is an error. -/
def resolveCalls (library : Library) (d : Disassembly) :
    List (String × String) → Except Error (List Call)
  | [] => .ok []
  | c :: cs =>
    match d.call? c with
    | some call => (resolveCalls library d cs).map (call :: ·)
    | none =>
      .error (.graphInconsistency (NativeGraph.sourceName library)
        ("edge [" ++ c.1 ++ ", " ++ c.2 ++ "] references an undeclared node"))

/-- The call graph of the library: listed symbols are defined unless they are imported, and exported
symbols are defined in any case. -/
def toGraph (library : Library) (d : Disassembly) : Except Error NativeGraph :=
  match resolveCalls library d d.calls with
  | .error e => .error e
  | .ok calls =>
    let imports : SortedSet String := .ofList d.imports
    let defined := d.symbols.values.filter fun name => !imports.contains name
    let exports : SortedSet Export := .ofList d.exports
    .ok {
      library
      functions := (SortedSet.ofList defined).insertMany (d.exports.map Export.name)
      calls
      exports := exports.toList
      imports }

end Disassembly

def NativeGraph.ofDisassembly (library : Library) (text : String) : Except Error NativeGraph :=
  match (Json.parse? text).bind Json.settled? with
  | none => .error .unexpectedForm
  | some j =>
    match Disassembly.ofJson? j with
    | none => .error .unexpectedForm
    | some d => d.toGraph library

end Bridgework
