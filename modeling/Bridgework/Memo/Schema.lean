import Bridgework.Error
import Bridgework.Memo.Table
import Bridgework.Text.Digit

/-!
# The database of the cache

The tables in which the cache is kept, and how a database is brought to the current version.

- `Memo.Entries`, `Memo.Migration`, `Memo.Database` : the tables
- `Memo.Database.version` : the stored version
- `Memo.Database.migrate` : the steps that are still to be made
- `Memo.Database.init` : making what is missing, then migrating, or nothing at all
-/

namespace Bridgework
namespace Memo

/-- The version that databases are brought to. -/
def schemaVersion : Int := 1

/-! ## Tables -/

/-- What the name of the table of results stands for. -/
inductive Entries where
  | absent
  /-- A table; the flag says that its status is indexed. -/
  | table (rows : Table) (indexed : Bool)
  /-- A view, on which no index can be made. -/
  | view

/-- A step that was made, or that failed with a reason. -/
structure Migration where
  source : Int
  target : Int
  failure : Option String
  deriving DecidableEq, Repr

def Migration.status (m : Migration) : String := if m.failure.isSome then "failed" else "success"

def Migration.toJson (m : Migration) : Json :=
  .arr [.int m.source, .int m.target, .text m.status, .bool m.failure.isNone]

/-- A row of a table of texts: it may be missing, and its text may be null. -/
abbrev Cell := Option (Option String)

structure Database where
  /-- The stored version, if the table that holds it exists. -/
  version? : Option Cell
  /-- The steps made so far, if the table that holds them exists. -/
  history? : Option (List Migration)
  entries : Entries

namespace Database

def empty : Database := ⟨none, none, .absent⟩

def noTable {α : Type} (name : String) : Except Error α := .error (.database ("no such table: " ++ name))

/-- The stored version, or zero if there is none that can be read. -/
def version (d : Database) : Int :=
  match d.version? with
  | some (some (some text)) => (Text.int32? text.toList).getD 0
  | _ => 0

def setVersion (d : Database) (text : Option String) : Except Error Database :=
  match d.version? with
  | some _ => .ok { d with version? := some (some text) }
  | none => noTable "cache_meta"

def deleteVersion (d : Database) : Except Error Database :=
  match d.version? with
  | some _ => .ok { d with version? := some none }
  | none => noTable "cache_meta"

def record (d : Database) (m : Migration) : Except Error Database :=
  match d.history? with
  | some l => .ok { d with history? := some (l ++ [m]) }
  | none => noTable "migration_history"

/-- Removes the table of results, and puts a view in its place. -/
def replaceEntries (d : Database) : Except Error Database :=
  match d.entries with
  | .view => .error (.database "cache_entries is a view")
  | _ => .ok { d with entries := .view }

def dropVersion (d : Database) : Except Error Database :=
  match d.version? with
  | some _ => .ok { d with version? := none }
  | none => noTable "cache_meta"

def dropHistory (d : Database) : Except Error Database :=
  match d.history? with
  | some _ => .ok { d with history? := none }
  | none => noTable "migration_history"

def history (d : Database) : Except Error (List Migration) :=
  match d.history? with
  | some l => .ok l
  | none => noTable "migration_history"

def dropEntries (d : Database) : Except Error Database :=
  match d.entries with
  | .table _ _ => .ok { d with entries := .absent }
  | .view => .error (.database "cache_entries is a view")
  | .absent => noTable "cache_entries"

/-- The names of what the database holds, each with its kind, in order. -/
def names (d : Database) : List String :=
  let entries := match d.entries with
    | .absent => ([], [], [])
    | .table _ indexed =>
      (if indexed then ["index idx_cache_entries_status"] else [], ["table cache_entries"], [])
    | .view => ([], [], ["view cache_entries"])
  entries.1 ++ entries.2.1 ++ (if d.version?.isSome then ["table cache_meta"] else []) ++
    (if d.history?.isSome then ["table migration_history"] else []) ++ entries.2.2

/-! ## Migrations -/

/-- One step: stores the next version and records the step. A step that fails changes nothing but the
history, in which it is recorded as failed if there is one. -/
def step (d : Database) (from_ : Int) : Except Error Database :=
  (d.setVersion (some (toString (from_ + 1)))).bind fun d => d.record ⟨from_, from_ + 1, none⟩

def recordFailure (d : Database) (from_ : Int) (e : Error) : Database :=
  match d.record ⟨from_, from_ + 1, some e.message⟩ with
  | .ok d => d
  | .error _ => d

/-- Makes a number of steps from a version, up to the first that fails. -/
def steps : Nat → Int → Database → Except Error Unit × Database
  | 0, _, d => (.ok (), d)
  | n + 1, from_, d =>
    match d.step from_ with
    | .ok d => steps n (from_ + 1) d
    | .error e => (.error e, d.recordFailure from_ e)

def migrate (d : Database) : Except Error Unit × Database :=
  steps (schemaVersion - d.version).toNat d.version d

def create (d : Database) : Except Error Database :=
  let d := { d with version? := some (d.version?.getD none), history? := some (d.history?.getD []) }
  match d.entries with
  | .absent => .ok { d with entries := .table .empty true }
  | .table rows _ => .ok { d with entries := .table rows true }
  | .view => .error (.database "views may not be indexed")

/-- Makes what is missing and migrates; a failure leaves the database as it was. -/
def init (d : Database) : Except Error Unit × Database :=
  match d.create with
  | .error e => (.error e, d)
  | .ok made =>
    match made.migrate with
    | (.ok _, done) => (.ok (), done)
    | (.error e, _) => (.error e, d)

end Database
end Memo
end Bridgework
