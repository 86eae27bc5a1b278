import Bridgework.Image.Mapped

/-!
# Resolving addresses

- `Resolution` : what an address resolves to
- `Resolver` : libraries in the order in which they are asked, with a match mode
- `Resolver.resolve`, `Resolver.resolveName?` : the symbol of an address, the library of a name
-/

namespace Bridgework

inductive Resolution where
  | resolved (library : Library) (symbol : String)
  /-- In no library. -/
  | outside
  /-- In a library, but at no symbol. -/
  | noSymbol (library : Library)
  deriving DecidableEq, Repr

def Resolution.toJson : Resolution → Json
  | .resolved library symbol =>
    .object [("resolved", .text symbol), ("library", .text library.display)]
  | .outside => .text "outside"
  | .noSymbol library => .object [("no_symbol", .text library.display)]

structure Resolver where
  libraries : List MappedLibrary
  mode : MatchMode

namespace Resolver

/-- Whether one library is asked before another, or they stand equal: by start, then by library. -/
def before (a b : MappedLibrary) : Bool :=
  ((compare a.start b.start).then (compare a.library b.library)).isLE

def of (libraries : List MappedLibrary) (mode : MatchMode) : Resolver :=
  ⟨libraries.mergeSort before, mode⟩

/-- What an address resolves to: the first library that contains it decides. -/
def resolve (r : Resolver) (a : UInt64) : Resolution :=
  match r.libraries.find? (·.contains a) with
  | none => .outside
  | some l =>
    match l.symbolAt? a r.mode with
    | some symbol => .resolved l.library symbol
    | none => .noSymbol l.library

/-- The least library that exports a name. -/
def resolveName? (r : Resolver) (name : String) : Option Library :=
  (SortedSet.ofList ((r.libraries.filter (·.exportsName name)).map (·.library))).min?

end Resolver
end Bridgework
