import Bridgework.Search.Simple
import Mathlib.Logic.Function.Iterate

/-!
# What the steps of a search add up to

The paths that a search will still find can be read off its state: for each point of the path those that
continue it by the successors not tried yet, and for each starting point not tried yet those that begin
there. A step moves paths from what is ahead to what was found, in this order, until the bound on their
number is met.

- `Search.Hunt.completions`, `Search.Hunt.paths` : the paths to the goal, by recursion
- `Search.Trail.ahead`, `Search.Trail.rest` : the paths that are still to be found
- `Search.Trail.total_of_move` : a step loses no path, unless it gives up
- `Search.Trail.outlook_of_move` : a step does not change what is found in the end
- `Search.Hunt.found_search` : what is found in the end
-/

namespace Bridgework
namespace Search

variable {h : Hunt} {t u : Trail} {a b : Nat}

/-! ## The paths by recursion -/

namespace Hunt

/-- A path, given with its last point first, can be continued by a point that is not on it, that is
useful, and that does not make it too long. -/
def Admits (h : Hunt) (path : List Nat) (b : Nat) : Prop :=
  b ∉ path ∧ h.isUseful b = true ∧ path.length ≤ h.limits.steps

instance (h : Hunt) (path : List Nat) (b : Nat) : Decidable (h.Admits path b) :=
  inferInstanceAs (Decidable (_ ∧ _ ∧ _))

/-- The paths to the goal that continue a path, given with its last point first. The fuel bounds the
number of points after the last but one. -/
def completions (h : Hunt) : Nat → List Nat → List (List Nat)
  | 0, _ => []
  | _ + 1, [] => []
  | fuel + 1, a :: path =>
    if a = h.goal then [(a :: path).reverse]
    else (h.next a).flatMap fun b =>
      if h.Admits (a :: path) b then h.completions fuel (b :: a :: path) else []

/-- The paths to the goal that continue a path by one of some points. -/
def continuations (h : Hunt) (fuel : Nat) (path bs : List Nat) : List (List Nat) :=
  bs.flatMap fun b => if h.Admits path b then h.completions fuel (b :: path) else []

/-- The paths to the goal from some starting points, start by start. -/
def paths (h : Hunt) (starts : List Nat) : List (List Nat) :=
  starts.flatMap fun a => if h.isUseful a then h.completions h.useful.size [a] else []

theorem continuations_cons {fuel : Nat} {path bs : List Nat} :
    h.continuations fuel path (b :: bs) =
      (if h.Admits path b then h.completions fuel (b :: path) else []) ++
        h.continuations fuel path bs :=
  List.flatMap_cons

theorem paths_cons {starts : List Nat} :
    h.paths (a :: starts) =
      (if h.isUseful a then h.completions h.useful.size [a] else []) ++ h.paths starts :=
  List.flatMap_cons

end Hunt

/-! ## What is ahead -/

namespace Trail

/-- The paths that are still to be found from the points of a path with their cursors. -/
def ahead (h : Hunt) : List Nat → List Nat → List (List Nat)
  | a :: path, c :: cursors =>
    (if a = h.goal then [(a :: path).reverse]
      else h.continuations (h.useful.size - (path.length + 1)) (a :: path) ((h.next a).drop c)) ++
      ahead h path cursors
  | _, _ => []

/-- The paths that are still to be found. -/
def rest (h : Hunt) (t : Trail) : List (List Nat) := ahead h t.path t.cursors ++ h.paths t.pending

/-- The paths that were found and those that are still to be found. -/
def total (h : Hunt) (t : Trail) : List (List Nat) := t.found.toList ++ t.rest h

/-- The paths that will have been found in the end. -/
def outlook (h : Hunt) (t : Trail) : List (List Nat) :=
  (t.found.toList ++ t.rest h).take h.limits.paths

/-- At the goal the path itself is next. -/
theorem ahead_goal {path cursors : List Nat} {c : Nat} :
    ahead h (h.goal :: path) (c :: cursors) = (h.goal :: path).reverse :: ahead h path cursors := by
  rw [ahead, if_pos rfl]
  rfl

/-- A point whose successors were all tried has nothing ahead. -/
theorem ahead_tried {path cursors : List Nat} {c : Nat} (hgoal : a ≠ h.goal)
    (hnone : (h.next a)[c]? = none) : ahead h (a :: path) (c :: cursors) = ahead h path cursors := by
  have hdrop : (h.next a).drop c = [] := List.drop_eq_nil_iff.2 (List.getElem?_eq_none_iff.1 hnone)
  rw [ahead, if_neg hgoal, hdrop]
  rfl

/-- What is ahead of a point begins with the paths through its next successor. -/
theorem ahead_next {path cursors : List Nat} {c : Nat} (hgoal : a ≠ h.goal)
    (hb : (h.next a)[c]? = some b) :
    ahead h (a :: path) (c :: cursors) =
      (if h.Admits (a :: path) b then
        h.completions (h.useful.size - (path.length + 1)) (b :: a :: path) else []) ++
        ahead h (a :: path) ((c + 1) :: cursors) := by
  obtain ⟨hc, rfl⟩ := List.getElem?_eq_some_iff.1 hb
  have hdrop : (h.next a).drop c = (h.next a)[c] :: (h.next a).drop (c + 1) :=
    List.drop_eq_getElem_cons hc
  rw [ahead, ahead, if_neg hgoal, if_neg hgoal, hdrop, Hunt.continuations_cons, List.append_assoc]

/-- A point that is entered has all of its completions ahead. -/
theorem ahead_enter {path cursors : List Nat} (hlt : path.length < h.useful.size) :
    ahead h (b :: path) (0 :: cursors) =
      h.completions (h.useful.size - path.length) (b :: path) ++ ahead h path cursors := by
  have hfuel : h.useful.size - path.length = h.useful.size - (path.length + 1) + 1 := by omega
  rw [ahead, hfuel, Hunt.completions]
  rfl

/-! ## Steps -/

theorem lt_length_total {path : List Nat} (ht : Sound h t) (hpath : t.path = h.goal :: path)
    (hfull : h.limits.paths ≤ t.found.size) : h.limits.paths < (t.total h).length := by
  obtain ⟨c, cursors, hcursors⟩ := ht.exists_cursor hpath
  simp only [total, rest, hpath, hcursors, ahead_goal, List.length_append, List.length_cons,
    Array.length_toList]
  omega

/-- A step moves a path from what is ahead to what was found, or passes over what leads to none, unless
it gives up because there is no room for a path that it has come to. -/
theorem total_of_move (ht : Sound h t) (hm : Move h t u) :
    u.total h = t.total h ∨
      h.limits.paths ≤ t.found.size ∧ h.limits.paths < (t.total h).length ∧ u = t.halt := by
  -- Only a search that has no room left loses anything; every other move takes from what lies ahead
  -- what it adds to the rest.
  have hu : Sound h u := ht.of_move hm
  cases hm with
  | skip hpath hpending ha =>
    left
    simp [total, rest, hpending, Hunt.paths_cons, ha]
  | @depart a pending hpath hpending ha =>
    left
    -- No point is on the path, and no cursor.
    have hcursors : t.cursors = [] := List.eq_nil_of_length_eq_zero (by rw [ht.inStep, hpath]; rfl)
    have henter : ahead h [a] [0] = h.completions h.useful.size [a] ++ ahead h [] [] :=
      ahead_enter (Nat.lt_of_le_of_lt (Nat.zero_le a) (lt_size_of_isUseful ha))
    simp [total, rest, Trail.enter, hpath, hcursors, hpending, Hunt.paths_cons, ha, henter, ahead]
  | halt hpath hfull => exact .inr ⟨hfull, lt_length_total ht hpath hfull, rfl⟩
  | @record path hpath hroom =>
    left
    obtain ⟨c, cursors, hcursors⟩ := ht.exists_cursor hpath
    have hrecord : t.record.path = h.goal :: path := hpath
    rw [total, total, leave_eq hrecord]
    simp [rest, Trail.record, hpath, hcursors, ahead_goal]
  | leave hpath hcursors hgoal hnone =>
    left
    rw [total, total, leave_eq hpath]
    simp [rest, hpath, hcursors, ahead_tried hgoal hnone]
  -- The successor is on the path, or useless: no path goes on by it.
  | @pass a b c path cursors hpath hcursors hgoal hb hno =>
    left
    have hadmits : ¬ h.Admits (a :: path) b := by
      rintro ⟨hfresh, huseful, _⟩
      rcases hno with hmem | huseless
      · exact hfresh (hpath ▸ hmem)
      · rw [huseful] at huseless
        cases huseless
    rw [total, total, advance_eq hcursors]
    simp [rest, hpath, hcursors, ahead_next hgoal hb, hadmits]
  -- The path would be too long: nothing is lost that had to be found.
  | @cut a b c path cursors hpath hcursors hgoal hb hfresh huseful hlong =>
    left
    have hadmits : ¬ h.Admits (a :: path) b := by
      rintro ⟨_, _, hshort⟩
      rw [hpath] at hlong
      omega
    rw [total, total, advance_eq hcursors]
    simp [rest, Trail.cut, hpath, hcursors, ahead_next hgoal hb, hadmits]
  | @enter a b c path cursors hpath hcursors hgoal hb hfresh huseful hshort =>
    left
    rw [hpath] at hfresh hshort
    have hadmits : h.Admits (a :: path) b := ⟨hfresh, huseful, hshort⟩
    -- The path with the new point has no more points than are useful.
    have hlt : (a :: path).length < h.useful.size := by
      have hle := hu.length_path_le
      rw [advance_eq hcursors] at hle
      exact Nat.lt_of_succ_le (by simpa [Trail.enter, hpath] using hle)
    rw [total, total, advance_eq hcursors]
    simp only [rest, Trail.enter, hpath, hcursors, ahead_enter hlt, ahead_next hgoal hb, if_pos hadmits,
      List.length_cons]

/-- A move does not change what is found in the end. -/
theorem outlook_of_move (ht : Sound h t) (hm : Move h t u) : u.outlook h = t.outlook h := by
  rcases total_of_move ht hm with hsame | ⟨hfull, _, rfl⟩
  · exact congrArg (List.take h.limits.paths) hsame
  · -- There is no room for anything that is ahead.
    have hlen : h.limits.paths ≤ t.found.toList.length := hfull
    rw [outlook, outlook, List.take_append_of_le_length hlen]
    exact List.take_append_of_le_length hlen

/-- No more paths are found than there is room for. -/
theorem size_found_le_of_move (hm : Move h t u) (hle : t.found.size ≤ h.limits.paths) :
    u.found.size ≤ h.limits.paths := by
  cases hm with
  -- Only here a path is added, and there is room for it.
  | record hpath hroom =>
    have hrecord : t.record.path = _ := hpath
    rw [leave_eq hrecord]
    exact Nat.le_of_lt_succ (by simpa [Trail.record] using hroom)
  | leave hpath hcursors hgoal hnone =>
    rw [leave_eq hpath]
    exact hle
  | pass hpath hcursors hgoal hb hno =>
    rw [advance_eq hcursors]
    exact hle
  | cut hpath hcursors hgoal hb hfresh huseful hlong =>
    rw [advance_eq hcursors]
    exact hle
  | enter hpath hcursors hgoal hb hfresh huseful hshort =>
    rw [advance_eq hcursors]
    exact hle
  | skip hpath hpending ha => exact hle
  | depart hpath hpending ha => exact hle
  | halt hpath hfull => exact hle

/-! ## Runs -/

/-- What every move preserves holds when nothing is left to try. -/
theorem run_invariant {P : Trail → Prop}
    (hstep : ∀ {t u : Trail}, Sound h t → t.isDone = false → Move h t u → u = t.step h → P t → P u)
    (ht : Sound h t) (hP : P t) : P (t.run h ht) ∧ (t.run h ht).isDone = true := by
  fun_induction run h t ht with
  | case1 t ht hdone => exact ⟨hP, hdone⟩
  | case2 t ht hdone ih =>
    have hrest : t.isDone = false := Bool.not_eq_true _ ▸ hdone
    exact ih (hstep ht hrest (move_step ht hrest) rfl hP)

/-- When nothing is left to try, everything was found. -/
theorem found_eq_outlook (hdone : t.isDone = true) (hle : t.found.size ≤ h.limits.paths) :
    t.found.toList = t.outlook h := by
  have hempty : t.path = [] ∧ t.pending = [] := by simpa [isDone] using hdone
  have hrest : t.rest h = [] := by
    rw [rest, hempty.1, hempty.2]
    rfl
  have hlen : t.found.toList.length ≤ h.limits.paths := hle
  rw [outlook, hrest, List.append_nil, List.take_of_length_le hlen]

/-- The search is over after finitely many steps. -/
theorem exists_iterate_step (ht : Sound h t) : ∃ n, t.run h ht = (step h)^[n] t := by
  refine (run_invariant (P := fun u => ∃ n, u = (step h)^[n] t) ?_ ht ⟨0, rfl⟩).1
  rintro u _ _ _ _ rfl ⟨n, rfl⟩
  exact ⟨n + 1, (Function.iterate_succ_apply' _ _ _).symm⟩

end Trail

theorem Hunt.isDone_search (h : Hunt) (starts : List Nat) : (h.search starts).isDone = true :=
  (Trail.run_invariant (P := fun _ => True) (fun _ _ _ _ _ => trivial) _ trivial).2

/-- The search finds the paths to the goal in their order, as far as there is room. -/
theorem Hunt.found_search (h : Hunt) (starts : List Nat) :
    (h.search starts).found.toList = (h.paths starts).take h.limits.paths := by
  have hstart : (Trail.start h starts).outlook h = (h.paths starts).take h.limits.paths := by
    simp [Trail.outlook, Trail.start, Trail.rest, Trail.ahead]
  obtain ⟨⟨hsame, hle⟩, hdone⟩ := Trail.run_invariant
    (P := fun u => u.outlook h = (h.paths starts).take h.limits.paths ∧ u.found.size ≤ h.limits.paths)
    (fun ht _ hm _ hP =>
      ⟨(Trail.outlook_of_move ht hm).trans hP.1, Trail.size_found_le_of_move hm hP.2⟩)
    (Trail.Sound.start h starts) ⟨hstart, Nat.zero_le _⟩
  exact (Trail.found_eq_outlook hdone hle).trans hsame

end Search
end Bridgework
