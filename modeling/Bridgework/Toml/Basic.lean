/-!
# TOML documents

- `Toml` : the values of a document
- `Toml.Origin` : how a table came to be, which decides what may be added to it
- `Toml.descend?` : reaching a table by a path of keys, making tables on the way
- `Toml.define?` : defining a dotted key
-/

namespace Bridgework

inductive Toml.Origin where
  /-- By a header of its own, or as the document itself. -/
  | header
  /-- On the way to the table of a longer header. -/
  | implied
  /-- On the way of a dotted key. -/
  | dotted
  /-- Written in braces. -/
  | braces
  deriving DecidableEq, Repr

/-- A value of a document. Floating-point numbers and points in time are kept as written. -/
inductive Toml where
  | text (s : String)
  | integer (n : Int)
  | float (written : String)
  | bool (b : Bool)
  | moment (written : String)
  | array (items : List Toml)
  | table (origin : Toml.Origin) (members : List (String × Toml))
  /-- An array of tables, each with a header of its own. -/
  | tables (items : List (List (String × Toml)))
  deriving Repr

namespace Toml

abbrev Members := List (String × Toml)

namespace Members

def get? (m : Members) (key : String) : Option Toml := (m.find? fun p => p.1 == key).map Prod.snd

/-- Gives a key a value in place of the one that it has, or at the end. -/
def set (m : Members) (key : String) (value : Toml) : Members :=
  match m with
  | [] => [(key, value)]
  | p :: rest => if p.1 == key then (key, value) :: rest else p :: set rest key value

def erase (m : Members) (key : String) : Members := m.filter fun p => p.1 != key

end Members

def changeLast? (f : Members → Option Members) : List Members → Option (List Members)
  | [] => none
  | [m] => (f m).map fun m' => [m']
  | m :: rest => (changeLast? f rest).map (m :: ·)

/-- Changes the table at the end of a path. Missing tables on the way are made; those of a dotted key
may pass through tables without a header of their own only. -/
def descend? (dotted : Bool) (f : Origin → Members → Option Members) :
    List String → Origin → Members → Option Members
  | [], origin, m => f origin m
  | key :: path, _, m =>
    match m.get? key with
    | none =>
      let origin := if dotted then .dotted else .implied
      (descend? dotted f path origin []).map fun inner => m.set key (.table origin inner)
    | some (.table origin inner) =>
      if origin = .braces || (dotted && origin = .header) then none
      else (descend? dotted f path origin inner).map fun inner => m.set key (.table origin inner)
    | some (.tables items) =>
      (changeLast? (descend? dotted f path .header) items).map fun items => m.set key (.tables items)
    | some _ => none

/-- Defines a new key of a table; a dotted one ends in a table that dotted keys have made. -/
def define? (m : Members) (origin : Origin) (path : List String) (key : String) (value : Toml) :
    Option Members :=
  descend? true (fun o inner =>
    if (o == .dotted) == path.isEmpty then none
    else if (inner.get? key).isSome then none
    else some (inner.set key value)) path origin m

end Toml
end Bridgework
