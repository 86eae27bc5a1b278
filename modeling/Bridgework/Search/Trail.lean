import Bridgework.Search.Closure

/-!
# One step of the search for simple paths

A depth-first search with a path, a cursor for each point of the path, and marks for the points on it.
The three are kept in step: whoever enters a point pushes a cursor and sets a mark, and whoever leaves it
pops the cursor and clears the mark. Points from which the goal cannot be reached are never entered, and
a path ends where it comes to the goal.

- `Search.Limits`, `Search.Hunt` : the bounds, and what is looked for
- `Search.Trail` : the state between two steps
- `Search.Trail.step` : one step
-/

namespace Bridgework
namespace Search

structure Limits where
  /-- The greatest number of paths. -/
  paths : Nat
  /-- The greatest number of steps in a path. -/
  steps : Nat
  deriving DecidableEq, Repr

/-- A search for paths to a goal among numbered points. -/
structure Hunt where
  next : Nat → List Nat
  /-- Marks the points from which the goal can be reached. -/
  useful : Array Bool
  goal : Nat
  limits : Limits

def Hunt.isUseful (h : Hunt) (a : Nat) : Bool := h.useful.getD a false

structure Trail where
  /-- The starting points that were not tried yet. -/
  pending : List Nat
  /-- The points of the current path, the last one first. -/
  path : List Nat
  /-- For each point of the path, how many of its successors were tried. -/
  cursors : List Nat
  /-- Marks the points of the path. -/
  onPath : Array Bool
  /-- The paths to the goal, in the order in which they were found. -/
  found : Array (List Nat)
  /-- Whether a bound cut off a path. -/
  truncated : Bool

namespace Trail

def start (h : Hunt) (starts : List Nat) : Trail :=
  ⟨starts, [], [], Array.replicate h.useful.size false, #[], false⟩

def isDone (t : Trail) : Bool := t.path.isEmpty && t.pending.isEmpty

/-! ## Changes of the state -/

def enter (t : Trail) (a : Nat) : Trail :=
  { t with
    path := a :: t.path
    cursors := 0 :: t.cursors
    onPath := t.onPath.setIfInBounds a true }

def leave (t : Trail) : Trail :=
  match t.path with
  | [] => t
  | a :: path =>
    { t with path, cursors := t.cursors.tail, onPath := t.onPath.setIfInBounds a false }

theorem leave_eq {t : Trail} {a : Nat} {path : List Nat} (hpath : t.path = a :: path) :
    t.leave =
      { t with path, cursors := t.cursors.tail, onPath := t.onPath.setIfInBounds a false } := by
  rw [leave, hpath]

/-- Passes over one successor of the last point. -/
def advance (t : Trail) : Trail :=
  match t.cursors with
  | [] => t
  | c :: cursors => { t with cursors := (c + 1) :: cursors }

theorem advance_eq {t : Trail} {c : Nat} {cursors : List Nat} (hcursors : t.cursors = c :: cursors) :
    t.advance = { t with cursors := (c + 1) :: cursors } := by
  rw [advance, hcursors]

def cut (t : Trail) : Trail := { t with truncated := true }

def record (t : Trail) : Trail := { t with found := t.found.push t.path.reverse }

/-- Gives up everything that was not tried yet. -/
def halt (t : Trail) : Trail :=
  { t with
    pending := []
    path := []
    cursors := []
    onPath := t.path.foldl (fun marks a => marks.setIfInBounds a false) t.onPath
    truncated := true }

/-! ## Steps -/

/-- Begins a path at the next starting point, unless it is of no use. -/
def depart (h : Hunt) (t : Trail) : Trail :=
  match t.pending with
  | [] => t
  | a :: pending => if h.isUseful a then { t with pending }.enter a else { t with pending }

def arrive (h : Hunt) (t : Trail) : Trail :=
  if h.limits.paths ≤ t.found.size then t.halt else t.record.leave

/-- Tries the next successor `b` of the last point. -/
def attempt (h : Hunt) (t : Trail) (b : Nat) : Trail :=
  if t.onPath.getD b false || !h.isUseful b then t.advance
  else if h.limits.steps < t.path.length then t.advance.cut
  else t.advance.enter b

/-- Goes on from the last point `a`, or leaves it if all its successors were tried. -/
def proceed (h : Hunt) (t : Trail) (a : Nat) : Trail :=
  match t.cursors with
  | [] => { t with path := [] }
  | c :: _ =>
    match (h.next a)[c]? with
    | none => t.leave
    | some b => t.attempt h b

def step (h : Hunt) (t : Trail) : Trail :=
  match t.path with
  | [] => t.depart h
  | a :: _ => if a = h.goal then t.arrive h else t.proceed h a

end Trail
end Search
end Bridgework
