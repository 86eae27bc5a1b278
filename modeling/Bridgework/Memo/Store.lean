import Bridgework.Error
import Bridgework.Memo.Table

/-!
# Computing each result once

Managers share one table. A call for a key looks the result up, or joins the flight of a call of the same
manager that is under way, or starts a flight: it claims the key, computes, and settles.

- `Memo.Stats`, `Memo.Manager`, `Memo.Store` : counters, managers, and the state that they share
- `Memo.Computed`, `Memo.Outcome` : what a computation gives, and what its caller gets
- `Memo.Store.begin`, `Memo.Store.settle` : the parts of a call before and after the computation
- `Memo.Store.getOrCompute` : a whole call
- `Memo.Store.join`, `Memo.Outcome.shared` : callers that wait on a flight
-/

namespace Bridgework
namespace Memo

/-! ## State -/

structure Stats where
  hits : Nat
  computed : Nat
  waited : Nat
  failures : Nat
  reclaimed : Nat
  deriving DecidableEq, Repr

def Stats.zero : Stats := ⟨0, 0, 0, 0, 0⟩

def Stats.toJson (s : Stats) : Json :=
  .object [("hits", .nat s.hits), ("computed", .nat s.computed), ("waited", .nat s.waited),
    ("failures", .nat s.failures), ("reclaimed", .nat s.reclaimed)]

structure Manager where
  /-- How long claims hold without a sign of life, in milliseconds. -/
  lease : Nat
  /-- The keys of calls under way. -/
  flights : List Key
  stats : Stats
  deriving DecidableEq, Repr

/-- The table, its users by their numbers, and the time. -/
structure Store where
  table : Table
  managers : List Manager
  now : Int

namespace Store

def start (lease : Nat) (now : Int) : Store := ⟨.empty, [⟨lease, [], .zero⟩], now⟩

def addManager (s : Store) (lease : Nat) : Store :=
  { s with managers := s.managers ++ [⟨lease, [], .zero⟩] }

def changeManager (s : Store) (m : Nat) (f : Manager → Manager) : Store :=
  { s with managers := s.managers.modify m f }

def count (s : Store) (m : Nat) (f : Stats → Stats) : Store :=
  s.changeManager m fun x => { x with stats := f x.stats }

def stats? (s : Store) (m : Nat) : Option Stats := (s.managers[m]?).map (·.stats)

def leaseOf (s : Store) (m : Nat) : Nat :=
  match s.managers[m]? with
  | some x => x.lease
  | none => 0

def inFlight (s : Store) (m : Nat) (k : Key) : Bool :=
  match s.managers[m]? with
  | some x => x.flights.contains k
  | none => false

end Store

/-! ## Calls -/

inductive Computed where
  | payload (text : String)
  | failed (e : Error)
  /-- It ended without giving anything. -/
  | aborted

inductive Outcome where
  | payload (text : String)
  | failed (e : Error)
  | aborted
  deriving DecidableEq, Repr

/-- What is stored as the reason when a computation is aborted. -/
def abortReason : String := "computation aborted"

/-- What those get who have waited for a result. -/
def Outcome.shared (k : Key) : Outcome → Except Error String
  | .payload text => .ok text
  | .failed e => .error (.computationFailed k.display e.message)
  | .aborted => .error (.computationFailed k.display abortReason)

namespace Computed

def outcome (k : Key) : Computed → Outcome
  | .payload text => .payload text
  | .failed e => .failed (.computationFailed k.display e.message)
  | .aborted => .aborted

def tally (c : Computed) (s : Stats) : Stats :=
  match c with
  | .payload _ => { s with computed := s.computed + 1 }
  | .failed _ => { s with failures := s.failures + 1 }
  | .aborted => s

end Computed

/-- The table after an owner has ended computing. -/
def Table.settle (t : Table) (k : Key) (owner : Owner) : Computed → Table
  | .payload text => t.complete k owner text
  | .failed e => t.fail k owner e.message
  | .aborted => t.fail k owner abortReason

inductive Begun where
  /-- The result is there. -/
  | hit (payload : String)
  /-- The caller has to wait for another call of the same manager. -/
  | waiting
  /-- The caller has to compute. -/
  | leading
  deriving DecidableEq, Repr

namespace Store

/-- Claims a key. Where someone else is computing, time passes until the lease has expired. -/
def claim (s : Store) (m : Nat) (k : Key) : Claim × Store :=
  let lease := s.leaseOf m
  match s.table.claim k (.manager m) s.now lease with
  | (.busy, _) =>
    let expiry := ((s.table.get? k).bind (·.heartbeat)).getD 0 + leaseWord lease
    let (c, table) := s.table.claim k (.manager m) expiry lease
    (c, { s with table, now := expiry })
  | (c, table) => (c, { s with table })

def join (s : Store) (m : Nat) : Store := s.count m fun x => { x with waited := x.waited + 1 }

def depart (s : Store) (m : Nat) (k : Key) : Store :=
  s.changeManager m fun x => { x with flights := k :: x.flights }

def land (s : Store) (m : Nat) (k : Key) : Store :=
  s.changeManager m fun x => { x with flights := x.flights.filter (· != k) }

def hit (s : Store) (m : Nat) : Store := s.count m fun x => { x with hits := x.hits + 1 }

def begin (s : Store) (m : Nat) (k : Key) : Begun × Store :=
  match s.table.lookup? k with
  | some p => (.hit p, s.hit m)
  | none =>
    if s.inFlight m k then (.waiting, s.join m)
    else
      match (s.depart m k).claim m k with
      | (.complete p, s) => (.hit p, (s.hit m).land m k)
      | (.owned reclaimed, s) =>
        (.leading, if reclaimed then s.count m fun x => { x with reclaimed := x.reclaimed + 1 } else s)
      | (.busy, s) => (.waiting, s.land m k)

def settle (s : Store) (m : Nat) (k : Key) (c : Computed) : Outcome × Store :=
  let s := { s with table := s.table.settle k (.manager m) c }
  (c.outcome k, (s.count m c.tally).land m k)

/-- A whole call. The computation changes a state of its own and does not use the store. `none` means
that the call waits for another one that is under way. -/
def getOrCompute {σ : Type} (s : Store) (m : Nat) (k : Key) (compute : σ → Computed × σ) (w : σ) :
    Option Outcome × Store × σ :=
  match s.begin m k with
  | (.hit p, s) => (some (.payload p), s, w)
  | (.waiting, s) => (none, s, w)
  | (.leading, s) =>
    let (c, w) := compute w
    let (o, s) := s.settle m k c
    (some o, s, w)

end Store
end Memo
end Bridgework
