import Bridgework.Json.Decode
import Bridgework.Path

/-!
# Packages and libraries

A package is one published release. A library is a shared object that a package installs; copies of
one library in two packages are two libraries.

- `Package`, `Package.parse?`, `Package.display` : releases, ordered by name and then by version
- `Library`, `Library.ofPath`, `Library.display` : shared objects, ordered by package and then by path
-/

namespace Bridgework

/-! ## Packages -/

/-- A published release of a package. -/
structure Package where
  name : String
  version : String
  deriving DecidableEq, Repr, Inhabited

namespace Package

instance : Ord Package where
  compare := compareLex (compareOn Package.name) (compareOn Package.version)

instance : Std.TransOrd Package :=
  inferInstanceAs (Std.TransCmp (compareLex (compareOn Package.name) (compareOn Package.version)))

instance : Std.LawfulEqOrd Package where
  eq_of_compare {a b} h := by
    simp only [compare, compareLex, compareOn, Ordering.then_eq_eq] at h
    cases a
    cases b
    simp only [Package.mk.injEq]
    exact ⟨Std.LawfulEqOrd.eq_of_compare h.1, Std.LawfulEqOrd.eq_of_compare h.2⟩

/-- The package as `name:version`. -/
def display (p : Package) : String := p.name ++ ":" ++ p.version

/-- Reads `name:version` up to blanks at the ends; the first colon divides the two, and neither is
empty. -/
def parse? (spec : String) : Option Package :=
  let s := Text.trimChars spec.toList
  match s.span (· != ':') with
  | (name, _ :: version) =>
    if name.isEmpty || version.isEmpty then none
    else some ⟨String.ofList name, String.ofList version⟩
  | (_, []) => none

def toJson (p : Package) : Json := .object [("name", .text p.name), ("version", .text p.version)]

def ofJson? (j : Json) : Option Package := do
  let r ← j.record ["name", "version"]
  return ⟨← r.required "name" Json.asString, ← r.required "version" Json.asString⟩

end Package

/-! ## Libraries -/

/-- A shared object in the package that installs it. -/
structure Library where
  package : Package
  /-- The path below the install root of the package. -/
  path : String
  deriving DecidableEq, Repr, Inhabited

namespace Library

instance : Ord Library where
  compare := compareLex (compareOn Library.package) (compareOn Library.path)

instance : Std.TransOrd Library :=
  inferInstanceAs (Std.TransCmp (compareLex (compareOn Library.package) (compareOn Library.path)))

instance : Std.LawfulEqOrd Library where
  eq_of_compare {a b} h := by
    simp only [compare, compareLex, compareOn, Ordering.then_eq_eq] at h
    cases a
    cases b
    simp only [Library.mk.injEq]
    refine ⟨Std.LawfulEqOrd.eq_of_compare ?_, Std.LawfulEqOrd.eq_of_compare h.2⟩
    simpa [compare, compareLex, compareOn, Ordering.then_eq_eq] using h.1

/-- The library at a path, which is brought to its stored form. -/
def ofPath (package : Package) (path : String) : Library := ⟨package, Path.normalize path⟩

/-- The same library with its path in stored form. -/
def normalized (l : Library) : Library := Library.ofPath l.package l.path

def fileName (l : Library) : String := Path.fileName l.path

/-- The library as `name:version!path`. -/
def display (l : Library) : String := l.package.display ++ "!" ++ l.path

def toJson (l : Library) : Json :=
  .object [("package", l.package.toJson), ("path", .text l.path)]

/-- The library of a document, with the path as it is written. -/
def ofJson? (j : Json) : Option Library := do
  let r ← j.record ["package", "path"]
  return ⟨← r.required "package" Package.ofJson?, ← r.required "path" Json.asString⟩

end Library
end Bridgework
