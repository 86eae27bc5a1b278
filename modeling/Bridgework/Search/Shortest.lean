import Bridgework.Search.Closure

/-!
# Shortest paths

Breadth-first search for a goal from several starting points, over numbers below some size. For each number that
is met a table keeps the number from which it was met; the path to the goal is read back from the table.

- `Search.Sweep` : the queue, the marks and the table
- `Search.Sweep.trace` : reading back
- `Search.shortestPath?` : the search
-/

namespace Bridgework
namespace Search

structure Sweep where
  /-- The numbers to be taken, in the order in which they were met. -/
  queue : List Nat
  visited : Array Bool
  /-- Where a number was met; starting points were met nowhere. -/
  parent : Array (Option Nat)

namespace Sweep

/-- The starting points wait, all marked. Each is there once. -/
def start (size : Nat) (starts : List Nat) : Sweep where
  queue := starts
  visited := starts.foldl (fun marks n => marks.setIfInBounds n true) (Array.replicate size false)
  parent := Array.replicate size none

/-- Meets a successor of the number `a`. -/
def meet (a : Nat) (s : Sweep) (b : Nat) : Sweep :=
  if s.visited.getD b false then s
  else ⟨s.queue ++ [b], s.visited.setIfInBounds b true, s.parent.setIfInBounds b (some a)⟩

/-- The way back from a number to where its parents end. No way is longer than the table. -/
def trace (parent : Array (Option Nat)) : Nat → Nat → List Nat
  | 0, a => [a]
  | fuel + 1, a =>
    match parent.getD a none with
    | none => [a]
    | some b => a :: trace parent fuel b

def run (next : Nat → List Nat) (goal : Nat) : Nat → Sweep → Option (List Nat)
  | 0, _ => none
  | fuel + 1, s =>
    match s.queue with
    | [] => none
    | a :: queue =>
      if a = goal then some (trace s.parent s.parent.size a).reverse
      else run next goal fuel ((next a).foldl (meet a) { s with queue := queue })

end Sweep

/-- A shortest path from one of the starting points to the goal. No number is taken twice, so that there is fuel
for all of them and for the end of the queue. -/
def shortestPath? (next : Nat → List Nat) (goal size : Nat) (starts : List Nat) : Option (List Nat) :=
  (Sweep.start size starts).run next goal (size + 1)

end Search
end Bridgework
