import Bridgework.Collection.SortedMap
import Bridgework.Memo.Key

/-!
# The table of cached results

One row for each key. A row in progress belongs to an owner, who gives signs of life while computing; a
row whose last sign of life is older than the lease can be taken over. Each operation here is one atomic
change of the table.

- `Memo.Status`, `Memo.Owner`, `Memo.Row`, `Memo.Table`
- `Memo.Table.lookup?` : the payload of a complete row
- `Memo.Table.claim` : asking for the right to compute
- `Memo.Table.beat`, `Memo.Table.complete`, `Memo.Table.fail` : what an owner does; nothing happens to
  a row that has another owner by now
- `Memo.Table.invalidate` : removing a row that is not in progress
-/

namespace Bridgework
namespace Memo

/-! ## Rows -/

inductive Status where
  | inProgress
  | complete
  | failed
  /-- A word that means nothing to this library. -/
  | other (text : String)
  deriving DecidableEq, Repr

namespace Status

def text : Status → String
  | .inProgress => "in_progress"
  | .complete => "complete"
  | .failed => "failed"
  | .other text => text

def ofText : String → Status
  | "in_progress" => .inProgress
  | "complete" => .complete
  | "failed" => .failed
  | text => .other text

def isKnown : Status → Bool
  | .other _ => false
  | _ => true

end Status

/-- Who computes a result. -/
inductive Owner where
  /-- A manager of this process, by its number. -/
  | manager (n : Nat)
  /-- Anyone else. -/
  | stranger (name : String)
  deriving DecidableEq, Repr

structure Row where
  status : Status
  payload : Option String
  owner : Option Owner
  /-- The last sign of life, in milliseconds. -/
  heartbeat : Option Int
  error : Option String
  /-- How often computing was started. -/
  attempts : Int
  deriving DecidableEq, Repr

abbrev Table := SortedMap Key Row

/-- What an owner-to-be is told. -/
inductive Claim where
  /-- The result is there. -/
  | complete (payload : String)
  /-- The right is granted; the flag says that it was taken from another owner. -/
  | owned (reclaimed : Bool)
  /-- Someone else is computing. -/
  | busy
  deriving DecidableEq, Repr

/-- The lease as it is compared: the number of milliseconds as a signed word of 64 bits, in which great
numbers wrap around. -/
def leaseWord (lease : Nat) : Int := Int.bmod lease UInt64.size

namespace Row

/-- Whether a row in progress keeps another owner out. -/
def isHeld (r : Row) (asking : Owner) (now : Int) (lease : Nat) : Bool :=
  r.owner != some asking && now - r.heartbeat.getD 0 < leaseWord lease

/-- The document of a row, which does not tell the owner and the times. -/
def toJson (r : Row) : Json :=
  .object [("status", .text r.status.text), ("payload", .orNull Json.text r.payload),
    ("unowned", .bool r.owner.isNone), ("no_heartbeat", .bool r.heartbeat.isNone),
    ("error", .orNull Json.text r.error), ("attempts", .int r.attempts)]

def started (old : Option Row) (owner : Owner) (now : Int) : Row where
  status := .inProgress
  payload := none
  owner := some owner
  heartbeat := some now
  error := none
  attempts := match old with
    | some r => r.attempts + 1
    | none => 1

end Row

namespace Table

/-! ## Looking -/

/-- The payload of a complete row. -/
def lookup? (t : Table) (k : Key) : Option String :=
  match t.get? k with
  | some r => if r.status = .complete then r.payload else none
  | none => none

def status? (t : Table) (k : Key) : Option Status :=
  (t.get? k).bind fun r => if r.status.isKnown then some r.status else none

def attempts (t : Table) (k : Key) : Int :=
  match t.get? k with
  | some r => r.attempts
  | none => 0

def counts (t : Table) : SortedMap String Nat :=
  t.values.foldl (fun m r => m.alter r.status.text fun n => n.getD 0 + 1) .empty

def countsJson (t : Table) : Json := .object (t.counts.toList.map fun c => (c.1, .nat c.2))

/-! ## Changing -/

def start (t : Table) (k : Key) (owner : Owner) (now : Int) : Table :=
  t.insert k (.started (t.get? k) owner now)

def claim (t : Table) (k : Key) (owner : Owner) (now : Int) (lease : Nat) : Claim × Table :=
  match t.get? k with
  | none => (.owned false, t.start k owner now)
  | some r =>
    match r.status, r.payload with
    | .complete, some p => (.complete p, t)
    | .inProgress, _ =>
      if r.isHeld owner now lease then (.busy, t)
      else (.owned (r.owner != some owner), t.start k owner now)
    | _, _ => (.owned false, t.start k owner now)

def changeOwned (t : Table) (k : Key) (owner : Owner) (f : Row → Row) : Table :=
  match t.get? k with
  | none => t
  | some r => if r.owner = some owner then t.insert k (f r) else t

def beat (t : Table) (k : Key) (owner : Owner) (now : Int) : Table :=
  t.changeOwned k owner fun r =>
    if r.status = .inProgress then { r with heartbeat := some now } else r

def complete (t : Table) (k : Key) (owner : Owner) (payload : String) : Table :=
  t.changeOwned k owner fun r =>
    { r with status := .complete, payload := some payload, owner := none, error := none }

def fail (t : Table) (k : Key) (owner : Owner) (reason : String) : Table :=
  t.changeOwned k owner fun r =>
    { r with status := .failed, payload := none, owner := none, error := some reason }

def isRemovable (t : Table) (k : Key) : Bool :=
  match t.get? k with
  | some r => r.status != .inProgress
  | none => false

/-- Removes a row unless it is in progress. -/
def invalidate (t : Table) (k : Key) : Table := if t.isRemovable k then t.erase k else t

end Table
end Memo
end Bridgework
