import Bridgework.Collection.SortedMap
import Bridgework.Json.Basic

/-!
# Decoding JSON documents

What a part of a document means where a value of some type is due. `none` stands for a document of
another form.

- `Json.asString`, `Json.asNat`, `Json.asList`, … : values of a simple form
- `Json.record` : the fields of a structure, written by name or by position
- `Json.tagged` : a choice between structures, named by one of its fields
- `Json.variant` : a choice between names
-/

namespace Bridgework
namespace Json

/-! ## Simple values -/

def asString : Json → Option String
  | .str s => s.value
  | _ => none

def asBool : Json → Option Bool
  | .bool b => some b
  | _ => none

/-- A whole number from `0` to `2 ^ 64 - 1`. -/
def asNat : Json → Option Nat
  | .num n =>
    match n.number? with
    | some (.natural k) => some k
    | _ => none
  | _ => none

def asWord (j : Json) : Option UInt64 := j.asNat.map UInt64.ofNat

/-- A whole number from `-2 ^ 63` to `2 ^ 63 - 1`. -/
def asInt : Json → Option Int
  | .num n =>
    match n.number? with
    | some (.natural k) => if k < 0x8000000000000000 then some k else none
    | some (.negative k) => some (-(k : Int))
    | _ => none
  | _ => none

/-- A double; whole numbers are rounded to one. -/
def asDouble : Json → Option Binary64
  | .num n =>
    match n.number? with
    | some (.natural k) => some (.ofNat k)
    | some (.negative k) => some (Binary64.ofNat k).neg
    | some (.double x) => some x
    | none => none
  | _ => none

def asOption {α : Type} (f : Json → Option α) : Json → Option (Option α)
  | .null => some none
  | j => (f j).map some

def asList {α : Type} (f : Json → Option α) : Json → Option (List α)
  | .arr items => items.mapM f
  | _ => none

/-- A list of exactly two. -/
def asPair {α β : Type} (f : Json → Option α) (g : Json → Option β) : Json → Option (α × β)
  | .arr [a, b] =>
    match f a, g b with
    | some a, some b => some (a, b)
    | _, _ => none
  | _ => none

/-- The members of an object, in their order and with repetitions. -/
def asMembers {α : Type} (f : Json → Option α) : Json → Option (List (String × α))
  | .obj members => members.mapM fun m =>
    match m.1.value, f m.2 with
    | some k, some v => some (k, v)
    | _, _ => none
  | _ => none

/-- An object as a map; of repeated members the last one stays. -/
def asMap {α : Type} (f : Json → Option α) (j : Json) : Option (SortedMap String α) :=
  (j.asMembers f).map .ofList

/-- A name that is a whole number below `2 ^ 64`, in plain digits without zeros in front. -/
def numberKey? (k : Literal) : Option Nat :=
  match k.value with
  | some s =>
    let digits := s.toList
    let plain := k.plain && (digits.length ≤ 1 || digits.head? != some '0')
    match Text.natOfDecimal? digits with
    | some n => if plain && n < UInt64.size then some n else none
    | none => none
  | none => none

/-- The members of an object whose names are whole numbers, in their order and with repetitions. -/
def asNumbered {α : Type} (f : Json → Option α) : Json → Option (List (Nat × α))
  | .obj members => members.mapM fun m =>
    match numberKey? m.1, f m.2 with
    | some k, some v => some (k, v)
    | _, _ => none
  | _ => none

def member? (j : Json) (name : String) : Option Json :=
  match j with
  | .obj members => (members.find? fun m => m.1.value == some name).map Prod.snd
  | _ => none

/-! ## Structures -/

/-- The declared fields of a structure with what is written for each. -/
structure Fields where
  /-- Whether the fields are written by name. -/
  named : Bool
  /-- Each declared field, with its value if it has one. -/
  values : List (String × Option Json)

def valuesOf (name : String) (members : List (Literal × Json)) : List Json :=
  members.filterMap fun m => if m.1.value = some name then some m.2 else none

/-- The value of each declared name; `none` if a declared name is repeated. -/
def fieldsByName (names : List String) (members : List (Literal × Json)) :
    Option (List (String × Option Json)) :=
  names.mapM fun name =>
    match valuesOf name members with
    | [] => some (name, none)
    | [j] => some (name, some j)
    | _ => none

/-- The declared names with the items in their order; `none` if there are more items than names. -/
def fieldsByPosition : List String → List Json → Option (List (String × Option Json))
  | [], [] => some []
  | [], _ :: _ => none
  | name :: names, [] => (fieldsByPosition names []).map ((name, none) :: ·)
  | name :: names, j :: js => (fieldsByPosition names js).map ((name, some j) :: ·)

/-- The fields of a structure: an object, in which other names are passed over but have to be
readable, or an array in the order of declaration. -/
def record (names : List String) : Json → Option Fields
  | .obj members =>
    if members.all fun m => m.1.value.isSome then
      (fieldsByName names members).map fun vs => ⟨true, vs⟩
    else none
  | .arr items => (fieldsByPosition names items).map fun vs => ⟨false, vs⟩
  | _ => none

namespace Fields

def value? (r : Fields) (name : String) : Option Json :=
  (r.values.find? fun v => v.1 == name).bind Prod.snd

def required {α : Type} (r : Fields) (name : String) (f : Json → Option α) : Option α :=
  (r.value? name).bind f

/-- A field that may be null, and that may be left out where fields are written by name. -/
def nullable {α : Type} (r : Fields) (name : String) (f : Json → Option α) : Option (Option α) :=
  match r.value? name with
  | some j => j.asOption f
  | none => if r.named then some none else none

def withDefault {α : Type} (r : Fields) (name : String) (default : α) (f : Json → Option α) :
    Option α :=
  match r.value? name with
  | some j => f j
  | none => some default

end Fields

/-! ## Choices -/

/-- A choice between names: the name alone, or an object with null under it. -/
def variant : Json → Option String
  | .str s => s.value
  | .obj [(k, .null)] => k.value
  | _ => none

/-- The same within a choice between structures, where an empty object may stand for null. -/
def innerVariant : Json → Option String
  | .obj [(k, .obj [])] => k.value
  | j => j.variant

/-- A choice between structures: the name under the tag, and the document without it. In an array the
name comes first. Everything in the document has to be readable. -/
def tagged (tag : String) (j : Json) : Option (String × Json) :=
  if j.settle?.isNone then none
  else
    match j with
    | .obj members =>
      match valuesOf tag members with
      | [v] => v.asString.map fun name => (name, .obj (members.filter fun m => m.1.value ≠ some tag))
      | _ => none
    | .arr (v :: items) => v.asString.map fun name => (name, .arr items)
    | _ => none

/-- A structure without fields: an object with any members, or an empty array. -/
def asUnitFields : Json → Option Unit
  | .obj _ => some ()
  | .arr [] => some ()
  | _ => none

end Json
end Bridgework
