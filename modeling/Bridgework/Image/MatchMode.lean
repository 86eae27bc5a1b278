import Bridgework.Json.Decode

/-!
# Match modes

How an address is matched with the exports of a library.

- `MatchMode` : at an export, or at the last export before
- `MatchMode.name`, `MatchMode.ofName?` : the word for each
-/

namespace Bridgework

/-- How an address is matched with exports. -/
inductive MatchMode where
  /-- An export at the very address. -/
  | exact
  /-- The last export at or before the address. -/
  | nearest
  deriving DecidableEq, Repr

namespace MatchMode

def name : MatchMode → String
  | .exact => "exact"
  | .nearest => "nearest"

def ofName? : String → Option MatchMode
  | "exact" => some .exact
  | "nearest" => some .nearest
  | _ => none

theorem ofName?_name (m : MatchMode) : ofName? m.name = some m := by cases m <;> rfl

def toJson (m : MatchMode) : Json := .text m.name

def ofJson? (j : Json) : Option MatchMode := j.variant.bind ofName?

end MatchMode
end Bridgework
