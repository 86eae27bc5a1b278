import Bridgework.Memo.Store

/-!
# Callers in any order

Any number of callers, each of some manager, ask for results at the same time. Every action of a caller is
one atomic change, and the actions of different callers come in any order.

- `Memo.Phase`, `Memo.Caller` : how far a call has come
- `Memo.Scene` : the table, the callers, the flights that are under way, and the time
- `Memo.Action`, `Memo.Scene.act?` : one atomic change, `none` where it is not possible
- `Memo.Scene.Reachable` : what any run can lead to
-/

namespace Bridgework
namespace Memo

/-! ## Callers -/

/-- How far a call has come. -/
inductive Phase where
  /-- It has not looked yet. -/
  | asking
  /-- It has found no result. -/
  | missed
  /-- It waits for the call of another caller. -/
  | waiting (leader : Nat)
  /-- It leads a flight and tries to claim the key. -/
  | claiming
  /-- It has claimed the key and computes. -/
  | computing
  /-- It has an outcome that those who wait do not know yet. -/
  | settled (o : Outcome)
  /-- It has led a flight and returned. -/
  | landed (o : Outcome)
  /-- It has returned without leading a flight. -/
  | answered (r : Except Error String)

structure Caller where
  /-- The number of the manager. -/
  manager : Nat
  key : Key
  phase : Phase

/-- Everything that calls share. -/
structure Scene where
  table : Table
  callers : Nat → Option Caller
  /-- Who leads the flight of a manager for a key. -/
  flights : Nat → Key → Option Nat
  now : Int

namespace Scene

/-- Nobody has called yet. -/
def opened (table : Table) (now : Int) : Scene := ⟨table, fun _ => none, fun _ _ => none, now⟩

/-- Nobody has called yet, and there are no rows. -/
def start (now : Int) : Scene := opened .empty now

def move (s : Scene) (n : Nat) (c : Caller) (phase : Phase) : Scene :=
  { s with callers := fun i => if i = n then some { c with phase } else s.callers i }

def setFlight (s : Scene) (m : Nat) (k : Key) (leader : Option Nat) : Scene :=
  { s with flights := fun i j => if i = m ∧ j = k then leader else s.flights i j }

def setTable (s : Scene) (table : Table) : Scene := { s with table }

end Scene

/-! ## Actions -/

inductive Action where
  /-- A caller that was not there before asks a manager for a key. -/
  | call (n manager : Nat) (key : Key)
  | lookUp (n : Nat)
  /-- Joins the flight that is under way, or starts one. -/
  | join (n : Nat)
  | claim (n : Nat)
  /-- Gives a sign of life while computing. -/
  | beat (n : Nat)
  /-- Ends computing. -/
  | settle (n : Nat) (c : Computed)
  /-- Ends the flight. -/
  | publish (n : Nat)
  /-- Takes over what the flight has given. -/
  | wake (n : Nat)
  | invalidate (key : Key)
  /-- Time passes. -/
  | wait (millis : Nat)

namespace Scene

def lookUp (s : Scene) (n : Nat) (c : Caller) : Scene :=
  match s.table.lookup? c.key with
  | some p => s.move n c (.answered (.ok p))
  | none => s.move n c .missed

/-- A caller that has found nothing joins a flight or starts one. -/
def join (s : Scene) (n : Nat) (c : Caller) : Scene :=
  match s.flights c.manager c.key with
  | some leader => s.move n c (.waiting leader)
  | none => (s.setFlight c.manager c.key (some n)).move n c .claiming

def claim (lease : Nat → Nat) (s : Scene) (n : Nat) (c : Caller) : Scene :=
  match s.table.claim c.key (.manager c.manager) s.now (lease c.manager) with
  | (.complete p, table) => (s.setTable table).move n c (.settled (.payload p))
  | (.owned _, table) => (s.setTable table).move n c .computing
  | (.busy, table) => s.setTable table

def settle (s : Scene) (n : Nat) (c : Caller) (result : Computed) : Scene :=
  (s.setTable (s.table.settle c.key (.manager c.manager) result)).move n c
    (.settled (result.outcome c.key))

/-- One atomic change by a caller in its phase. -/
def actIn? (lease : Nat → Nat) (s : Scene) (n : Nat) (c : Caller) : Phase → Action → Option Scene
  | .asking, .lookUp _ => some (s.lookUp n c)
  | .missed, .join _ => some (s.join n c)
  | .claiming, .claim _ => some (s.claim lease n c)
  | .computing, .beat _ => some (s.setTable (s.table.beat c.key (.manager c.manager) s.now))
  | .computing, .settle _ result => some (s.settle n c result)
  | .settled o, .publish _ => some ((s.setFlight c.manager c.key none).move n c (.landed o))
  | .waiting leader, .wake _ =>
    match s.callers leader with
    | some ⟨_, _, .landed o⟩ => some (s.move n c (.answered (o.shared c.key)))
    | _ => none
  | _, _ => none

/-- Who acts, if it is a caller that was there before. -/
def actor? : Action → Option Nat
  | .lookUp n => some n
  | .join n => some n
  | .claim n => some n
  | .beat n => some n
  | .settle n _ => some n
  | .publish n => some n
  | .wake n => some n
  | _ => none

/-- One atomic change. Each manager has a lease. -/
def act? (lease : Nat → Nat) (s : Scene) : Action → Option Scene
  | .call n manager key =>
    match s.callers n with
    | none => some (s.move n ⟨manager, key, .asking⟩ .asking)
    | some _ => none
  | .invalidate key => some (s.setTable (s.table.invalidate key))
  | .wait millis => some { s with now := s.now + millis }
  | a =>
    match actor? a with
    | none => none
    | some n =>
      match s.callers n with
      | none => none
      | some c => s.actIn? lease n c c.phase a

inductive Reachable (lease : Nat → Nat) (s : Scene) : Scene → Prop where
  | refl : Reachable lease s s
  | step {t u : Scene} {a : Action} (r : Reachable lease s t) (h : t.act? lease a = some u) :
      Reachable lease s u

end Scene
end Memo
end Bridgework
