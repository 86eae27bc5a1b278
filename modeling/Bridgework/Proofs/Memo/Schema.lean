import Bridgework.Memo.Schema

/-!
# Bringing a database to the current version

Each step stores the next version and records itself, so a run of steps records exactly the versions that it
goes through. What is made before the first step keeps the stored version, the history and the rows. A
database that has been brought to the current version, or is newer, is left as it is.

- `Memo.Migration.successes` : the records of steps in a row
- `Memo.Database.steps_eq` : what steps in a row do
- `Memo.Database.create_eq` : what is made before the first step
- `Memo.Database.brought` : the database at the current version
- `Memo.Database.init_exact` : the database afterwards, for any stored version
-/

namespace Bridgework
namespace Memo

/-- The records of steps that were made in a row from a version on. -/
def Migration.successes (first : Int) (n : Nat) : List Migration :=
  (List.range n).map fun (i : Nat) => ⟨first + i, first + i + 1, none⟩

theorem Migration.successes_succ (first : Int) (n : Nat) :
    successes first (n + 1) = ⟨first, first + 1, none⟩ :: successes (first + 1) n := by
  have hnext : ∀ i : Nat, first + ((i + 1 : Nat) : Int) = first + 1 + i := by
    intro i
    omega
  simp only [successes, List.range_succ_eq_map, List.map_cons, List.map_map, Function.comp_def,
    Nat.succ_eq_add_one, hnext, Int.add_zero, Int.natCast_zero]

/-- The rows of results; a database without the table has none. -/
def Entries.rows : Entries → Table
  | .table rows _ => rows
  | _ => .empty

namespace Database

variable {d : Database} {stored : Cell} {past : List Migration}

/-! ## Steps -/

/-- A step raises the stored version by one and records this. -/
theorem step_eq (hversion : d.version? = some stored) (hhistory : d.history? = some past) (v : Int) :
    d.step v = .ok { d with
      version? := some (some (some (toString (v + 1))))
      history? := some (past ++ [⟨v, v + 1, none⟩]) } := by
  simp [step, setVersion, record, Except.bind, hversion, hhistory]

/-- Steps in a row succeed. They store the version that they reach, if there is one at all, and record
each version that they go through. -/
theorem steps_eq (n : Nat) (v : Int) (hversion : d.version? = some stored)
    (hhistory : d.history? = some past) :
    steps n v d = (.ok (), { d with
      version? := some (if n = 0 then stored else some (some (toString (v + n))))
      history? := some (past ++ Migration.successes v n) }) := by
  induction n generalizing d v stored past with
  | zero =>
    rw [steps, if_pos rfl, Migration.successes, List.range_zero, List.map_nil, List.append_nil, ← hversion,
      ← hhistory]
  | succ n ih =>
    have hlast : v + 1 + (n : Int) = v + (n + 1 : Nat) := by omega
    rw [steps, step_eq hversion hhistory v]
    simp only
    rw [ih (v + 1) rfl rfl, Migration.successes_succ, hlast]
    cases n with
    | zero => simp
    | succ n => simp

/-! ## What is made before the first step -/

/-- Missing tables are made, and those that are there stay as they are. -/
theorem create_eq (h : d.entries ≠ .view) :
    d.create = .ok ⟨some (d.version?.getD none), some (d.history?.getD []), .table d.entries.rows true⟩ := by
  unfold create
  cases hentries : d.entries with
  | absent => rfl
  | table rows indexed => rfl
  | view => exact absurd hentries h

/-- A table without a version is as good as none. -/
theorem version_mk_getD (history? : Option (List Migration)) (entries : Entries) :
    version ⟨some (d.version?.getD none), history?, entries⟩ = d.version := by
  unfold version
  cases d.version? with
  | none => rfl
  | some stored => rfl

/-! ## Bringing a database to the current version -/

/-- How many steps there are to the current version. -/
def stepsLeft (d : Database) : Nat := (schemaVersion - d.version).toNat

/-- The database at the current version. -/
def brought (d : Database) : Database where
  version? := some (if d.stepsLeft = 0 then d.version?.getD none
    else some (some (toString (d.version + d.stepsLeft))))
  history? := some (d.history?.getD [] ++ Migration.successes d.version d.stepsLeft)
  entries := .table d.entries.rows true

/-- A database whose table of results is no view is brought to the current version. -/
theorem init_eq (h : d.entries ≠ .view) : d.init = (.ok (), d.brought) := by
  unfold init
  rw [create_eq h]
  simp only [migrate, version_mk_getD]
  rw [steps_eq _ _ rfl rfl]
  rfl

/-- The text of the current version is read as that version. -/
theorem int32?_schemaVersion : Text.int32? (toString schemaVersion).toList = some schemaVersion := by
  decide

/-- The version is never lowered. -/
theorem version_brought (d : Database) : d.brought.version = max d.version schemaVersion := by
  unfold brought
  split
  next hnone =>
    have hcurrent : schemaVersion ≤ d.version := by
      rw [stepsLeft] at hnone
      omega
    rw [version_mk_getD, Int.max_eq_left hcurrent]
  next hsome =>
    have hreached : d.version + d.stepsLeft = schemaVersion ∧ d.version ≤ schemaVersion := by
      rw [stepsLeft] at hsome ⊢
      omega
    rw [hreached.1, version, Int.max_eq_right hreached.2]
    simp only [int32?_schemaVersion, Option.getD_some]

/-- A database that was brought to the current version stays as it is. -/
theorem brought_brought (d : Database) : d.brought.brought = d.brought := by
  have hnone : d.brought.stepsLeft = 0 := by
    rw [stepsLeft, version_brought]
    omega
  rw [brought.eq_def d.brought, hnone, if_pos rfl, Migration.successes, List.range_zero, List.map_nil,
    List.append_nil]
  rfl

/-- Whatever is stored as the version, a database whose results are in a table, or that has no such table
yet, is brought to the current version unless it is newer. Each version that it goes through is recorded
behind what was recorded before, the rows of results stay as they are, and doing it again changes nothing. -/
theorem init_exact (d : Database) (h : d.entries ≠ .view) :
    ∃ done, d.init = (.ok (), done) ∧
      done.version = max d.version schemaVersion ∧
      done.history? = some (d.history?.getD [] ++
        Migration.successes d.version (schemaVersion - d.version).toNat) ∧
      done.entries = .table d.entries.rows true ∧
      done.init = (.ok (), done) := by
  refine ⟨d.brought, init_eq h, version_brought d, rfl, rfl, ?_⟩
  have hagain : d.brought.entries ≠ .view := nofun
  rw [init_eq hagain, brought_brought]

/-- A database with a version below zero, a step that has failed, and a table of results whose status is
not indexed. -/
def outdated (k : Key) : Database where
  version? := some (some (some "-2"))
  history? := some [⟨0, 1, some "disk full"⟩]
  entries := .table (SortedMap.empty.insert k (.started none (.stranger "elsewhere") 0)) false

theorem init_exact_outdated :
    let k : Key := ⟨.nativeGraph, ⟨"numpy", "2.0"⟩, "analysis"⟩
    (outdated k).version = -2 ∧ (outdated k).entries ≠ .view ∧
      ∃ done, (outdated k).init = (.ok (), done) ∧ done.version = 1 ∧
        done.history? = some [⟨0, 1, some "disk full"⟩, ⟨-2, -1, none⟩, ⟨-1, 0, none⟩, ⟨0, 1, none⟩] ∧
        done.entries.rows.get? k = some (.started none (.stranger "elsewhere") 0) ∧
        done.init = (.ok (), done) := by
  intro k
  have hversion : (outdated k).version = -2 := by decide
  have hview : (outdated k).entries ≠ .view := nofun
  obtain ⟨done, hinit, hdone, hhistory, hentries, hagain⟩ := init_exact (outdated k) hview
  rw [hversion] at hdone hhistory
  refine ⟨hversion, hview, done, hinit, hdone, hhistory, ?_, hagain⟩
  rw [hentries]
  exact SortedMap.get?_insert_self

end Database
end Memo
end Bridgework
