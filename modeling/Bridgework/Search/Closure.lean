/-!
# Closures of successor lists

What can be reached from some starting points by following successors, for any type of points.

- `Search.Reachable` : there is a way of steps from one point to another
- `Search.explore` : breadth-first traversal with a bound on the number of points taken up
- `Search.closure` : the points met from the starting points, in the order in which they are met
-/

namespace Bridgework
namespace Search

variable {α : Type}

/-- There is a way of steps, possibly none, from `a` to `b`. -/
inductive Reachable (next : α → List α) : α → α → Prop where
  | refl (a : α) : Reachable next a a
  | step {a b c : α} (h : b ∈ next a) (r : Reachable next b c) : Reachable next a c

/-- The members of a list without those met before, each once. -/
def fresh [DecidableEq α] (met : List α) : List α → List α
  | [] => []
  | a :: l => if a ∈ met then fresh met l else a :: fresh (a :: met) l

/-- Takes points from a queue, and puts those of their successors into it that were not met before.
The first argument bounds the number of points taken. -/
def explore [DecidableEq α] (next : α → List α) : Nat → List α → List α → List α
  | 0, _, met => met
  | _ + 1, [], met => met
  | fuel + 1, a :: queue, met =>
    let new := fresh met (next a)
    explore next fuel (queue ++ new) (met ++ new)

/-- The points met from some starting points. With at least as many units of fuel as there are
points, these are all points that can be reached. -/
def closure [DecidableEq α] (next : α → List α) (fuel : Nat) (starts : List α) : List α :=
  let new := fresh [] starts
  explore next fuel new new

end Search
end Bridgework
