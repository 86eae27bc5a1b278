import Bridgework.CallGraph.Native
import Bridgework.Collection.SortedMap
import Bridgework.Image.MatchMode

/-!
# Mapped libraries

Libraries loaded into memory, and the symbols at addresses in them.

- `MappedLibrary` : a library with its range of addresses and its exports
- `MappedLibrary.of`, `MappedLibrary.ofOffsets` : from absolute addresses, from offsets to the start
- `MappedLibrary.symbolAt?` : the symbol of an address
-/

namespace Bridgework

/-- A library that is loaded at the addresses from `start` up to, but not including, `stop`. -/
structure MappedLibrary where
  library : Library
  start : UInt64
  stop : UInt64
  /-- One name for each exported address. -/
  exports : SortedMap UInt64 String
  deriving DecidableEq

namespace MappedLibrary

/-- Adds a name for an address; of several names the least stays. -/
def addExport (exports : SortedMap UInt64 String) (name : String) (address : UInt64) :
    SortedMap UInt64 String :=
  exports.alter address fun
    | none => name
    | some old => if (compare old name).isLE then old else name

def of (library : Library) (start stop : UInt64) (exports : List (String × UInt64)) : MappedLibrary :=
  ⟨library, start, stop, exports.foldl (fun m e => addExport m e.1 e.2) .empty⟩

/-- The address at an offset; beyond the last address it is the last one. -/
def offsetAddress (start offset : UInt64) : UInt64 :=
  UInt64.ofNat (min (start.toNat + offset.toNat) (UInt64.size - 1))

/-- A library whose exports are given with their offsets to its start. -/
def ofOffsets (library : Library) (start stop : UInt64) (exports : List Export) : MappedLibrary :=
  of library start stop (exports.map fun e => (e.name, offsetAddress start e.offset))

def contains (l : MappedLibrary) (a : UInt64) : Bool := l.start ≤ a && a < l.stop

def symbolAt? (l : MappedLibrary) (a : UInt64) : MatchMode → Option String
  | .exact => l.exports.get? a
  | .nearest => ((l.exports.toList.takeWhile fun e => e.1 ≤ a).getLast?).map Prod.snd

def exportsName (l : MappedLibrary) (name : String) : Bool := l.exports.values.contains name

/-- Reads a library; its exports are given with offsets or else with addresses. -/
def ofJson? (j : Json) : Option MappedLibrary := do
  let r ← j.record ["library", "start", "end", "exports", "offsets"]
  let library := (← r.required "library" Library.ofJson?).normalized
  let start ← r.required "start" Json.asWord
  let stop ← r.required "end" Json.asWord
  let exports ← r.nullable "exports" (Json.asList (Json.asPair Json.asString Json.asWord))
  let offsets ← r.nullable "offsets" (Json.asList Export.ofJson?)
  return match offsets with
    | some es => ofOffsets library start stop es
    | none => of library start stop (exports.getD [])

/-- The document of a library, which only counts its exports. -/
def toJson (l : MappedLibrary) : Json :=
  .object [("library", .text l.library.display), ("start", .nat l.start.toNat),
    ("end", .nat l.stop.toNat), ("exports", .nat l.exports.size)]

end MappedLibrary
end Bridgework
