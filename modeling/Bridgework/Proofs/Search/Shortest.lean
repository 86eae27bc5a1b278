import Bridgework.Proofs.Search.Closure
import Mathlib.Data.List.Forall2

/-!
# Breadth-first search for a goal

A search whose queue holds whole paths, for any type of points: the path that comes to a point first is the least
of the shortest ones in the order of starts and successors. The last points of the waiting paths are the frontier
of a traversal, so a search takes each point at most once, and fuel for all points and one more is as good as any.
Two searches whose points correspond find paths that correspond.

- `Search.IsPath` : each point of a list is a successor of the one before
- `Search.shortestFrom`, `Search.shortest?` : the search
- `Search.Queue` : the waiting paths as a frontier
- `Search.shortest?_eq_of_le` : more fuel than there are points changes nothing
- `Search.shortest?_eq_none` : nothing is found where nothing can be reached
- `Search.rel_shortest?` : two searches in step
-/

namespace Bridgework
namespace Search

/-! ## The search -/

section Paths

variable {α : Type}

/-- A list of points, each a successor of the one before. -/
def IsPath (next : α → List α) : List α → Prop
  | [] => True
  | [_] => True
  | a :: b :: l => b ∈ next a ∧ IsPath next (b :: l)

/-- Takes paths from a queue, each with its last point first, until one ends in the goal. -/
def shortestFrom [DecidableEq α] (next : α → List α) (goal : α) :
    Nat → List (List α) → List α → Option (List α)
  | 0, _, _ => none
  | _ + 1, [], _ => none
  | fuel + 1, [] :: queue, met => shortestFrom next goal fuel queue met
  | fuel + 1, (a :: path) :: queue, met =>
    if a = goal then some (a :: path).reverse
    else
      let new := fresh met (next a)
      shortestFrom next goal fuel (queue ++ new.map fun b => b :: a :: path) (met ++ new)

/-- A shortest path from one of the starting points to the goal. The fuel is more than the number of
points. -/
def shortest? [DecidableEq α] (next : α → List α) (goal : α) (fuel : Nat) (starts : List α) :
    Option (List α) :=
  let new := fresh [] starts
  shortestFrom next goal fuel (new.map fun a => [a]) new

end Paths

variable {α : Type} [DecidableEq α] {next : α → List α} {goal a : α} {path : List α}
  {queue : List (List α)} {met : List α}

theorem shortestFrom_goal {fuel : Nat} :
    shortestFrom next goal (fuel + 1) ((goal :: path) :: queue) met = some (goal :: path).reverse := by
  rw [shortestFrom, if_pos rfl]

theorem shortestFrom_ne (hne : a ≠ goal) {fuel : Nat} :
    shortestFrom next goal (fuel + 1) ((a :: path) :: queue) met =
      shortestFrom next goal fuel (queue ++ (fresh met (next a)).map fun b => b :: a :: path)
        (met ++ fresh met (next a)) := by
  rw [shortestFrom, if_neg hne]

/-! ## Fuel -/

/-- The last points of the waiting paths are the queue of a traversal. -/
structure Queue (next : α → List α) (taken : List α) (queue : List (List α)) (met : List α) : Prop where
  ne_nil : [] ∉ queue
  frontier : Frontier next taken (queue.filterMap List.head?) met

namespace Queue

variable {taken : List α}

theorem start (starts : List α) :
    Queue next [] ((fresh [] starts).map fun a => [a]) (fresh [] starts) where
  ne_nil := by simp
  frontier := by
    have hheads : ((fresh [] starts).map fun a => [a]).filterMap List.head? = fresh [] starts := by
      simp [List.filterMap_map, Function.comp_def]
    rw [hheads]
    exact .start starts

/-- Taking a path from the queue puts its continuations by new points into it. -/
theorem take (hq : Queue next taken ((a :: path) :: queue) met) :
    Queue next (taken ++ [a]) (queue ++ (fresh met (next a)).map fun b => b :: a :: path)
      (met ++ fresh met (next a)) where
  ne_nil := by
    have hrest : [] ∉ queue := fun hmem => hq.ne_nil (List.mem_cons_of_mem _ hmem)
    simpa using hrest
  frontier := by
    have hheads : (queue ++ (fresh met (next a)).map fun b => b :: a :: path).filterMap List.head? =
        queue.filterMap List.head? ++ fresh met (next a) := by
      simp [List.filterMap_map, Function.comp_def]
    rw [hheads]
    exact hq.frontier.take

omit [DecidableEq α] in
/-- No point is taken twice. -/
theorem length_taken_le {space : List α} (hq : Queue next taken queue met) (hmet : met ⊆ space) :
    taken.length ≤ space.length := by
  have hsplit := hq.frontier.split
  have hnodup : taken.Nodup := (List.nodup_append.1 (hsplit ▸ hq.frontier.nodup)).1
  refine hnodup.length_le_of_subset fun b hb => hmet ?_
  rw [hsplit]
  exact List.mem_append_left _ hb

omit [DecidableEq α] in
theorem mem_met (hq : Queue next taken ((a :: path) :: queue) met) : a ∈ met :=
  hq.frontier.queue_subset (by simp)

theorem append_fresh_subset {space : List α} (hq : Queue next taken ((a :: path) :: queue) met)
    (hclosed : ∀ a ∈ space, ∀ b ∈ next a, b ∈ space) (hmet : met ⊆ space) :
    met ++ fresh met (next a) ⊆ space := by
  refine List.append_subset.2 ⟨hmet, fun b hb => ?_⟩
  exact hclosed a (hmet hq.mem_met) b (mem_fresh.1 hb).1

end Queue

/-- A search that can still take every point of a closed space has no use for more. -/
theorem shortestFrom_succ {space taken : List α} (fuel : Nat)
    (hclosed : ∀ a ∈ space, ∀ b ∈ next a, b ∈ space) (hq : Queue next taken queue met)
    (hmet : met ⊆ space) (hfuel : space.length < fuel + taken.length) :
    shortestFrom next goal (fuel + 1) queue met = shortestFrom next goal fuel queue met := by
  induction fuel generalizing taken queue met with
  | zero =>
    -- More points would have been taken than there are.
    have hle := hq.length_taken_le hmet
    omega
  | succ fuel ih =>
    match queue with
    | [] => rfl
    | [] :: queue => exact absurd List.mem_cons_self hq.ne_nil
    | (a :: path) :: queue =>
      by_cases hgoal : a = goal
      · subst hgoal
        rw [shortestFrom_goal, shortestFrom_goal]
      · rw [shortestFrom_ne hgoal, shortestFrom_ne hgoal]
        refine ih hq.take (hq.append_fresh_subset hclosed hmet) ?_
        rw [List.length_append, List.length_singleton]
        omega

/-- Fuel for more than all points makes no difference. -/
theorem shortest?_eq_of_le {space starts : List α} {fuel fuel' : Nat}
    (hclosed : ∀ a ∈ space, ∀ b ∈ next a, b ∈ space) (hstarts : starts ⊆ space)
    (hfuel : space.length < fuel) (hle : fuel ≤ fuel') :
    shortest? next goal fuel' starts = shortest? next goal fuel starts := by
  induction hle with
  | refl => rfl
  | step hle ih =>
    refine (shortestFrom_succ _ hclosed (.start starts) ?_ ?_).trans ih
    · exact fun a ha => hstarts (mem_fresh.1 ha).1
    · exact Nat.lt_of_lt_of_le hfuel hle

/-! ## Nothing to find -/

/-- Nothing is found if no path that waits can be continued to the goal. -/
theorem shortestFrom_eq_none {fuel : Nat}
    (hqueue : ∀ p ∈ queue, ∀ a, p.head? = some a → ¬ Reachable next a goal) :
    shortestFrom next goal fuel queue met = none := by
  fun_induction shortestFrom next goal fuel queue met with
  | case1 queue met => rfl
  | case2 fuel met => rfl
  | case3 fuel queue met ih => exact ih fun p hp => hqueue p (List.mem_cons_of_mem _ hp)
  | case4 fuel path queue met => exact absurd (.refl goal) (hqueue _ List.mem_cons_self goal rfl)
  | case5 fuel a path queue met hgoal new ih =>
    refine ih fun p hp b hb => ?_
    rcases List.mem_append.1 hp with hp | hp
    · exact hqueue p (List.mem_cons_of_mem _ hp) b hb
    · obtain ⟨c, hc, rfl⟩ := List.mem_map.1 hp
      obtain rfl : c = b := Option.some.inj hb
      intro hreach
      exact hqueue _ List.mem_cons_self a rfl (.step (mem_fresh.1 hc).1 hreach)

theorem shortest?_eq_none {starts : List α} {fuel : Nat}
    (hstarts : ∀ a ∈ starts, ¬ Reachable next a goal) : shortest? next goal fuel starts = none := by
  refine shortestFrom_eq_none fun p hp a ha => ?_
  obtain ⟨b, hb, rfl⟩ := List.mem_map.1 hp
  obtain rfl : b = a := Option.some.inj ha
  exact hstarts b (mem_fresh.1 hb).1

/-! ## Searches in step -/

section InStep

variable {β : Type} [DecidableEq β] {R : α → β → Prop} {next' : β → List β} {goal' : β}

/-- New points correspond. -/
theorem rel_fresh (hR : Relator.BiUnique R) {met : List α} {met' : List β} {l : List α} {l' : List β}
    (hmet : List.Forall₂ R met met') (hl : List.Forall₂ R l l') :
    List.Forall₂ R (fresh met l) (fresh met' l') := by
  induction hl generalizing met met' with
  | nil => exact .nil
  | cons hab _ ih =>
    have hmem : _ ∈ met ↔ _ ∈ met' := List.rel_mem hR hab hmet
    simp only [fresh, hmem]
    split
    · exact ih hmet
    · exact .cons hab (ih (.cons hab hmet))

/-- Searches in step come to their goals together, and the paths that they find correspond. -/
theorem rel_shortestFrom (hR : Relator.BiUnique R)
    (hnext : ∀ {a b}, R a b → List.Forall₂ R (next a) (next' b)) (hgoal : R goal goal') (fuel : Nat)
    {queue : List (List α)} {queue' : List (List β)} {met : List α} {met' : List β}
    (hqueue : List.Forall₂ (List.Forall₂ R) queue queue') (hmet : List.Forall₂ R met met') :
    Option.Rel (List.Forall₂ R) (shortestFrom next goal fuel queue met)
      (shortestFrom next' goal' fuel queue' met') := by
  -- Corresponding paths lead both searches to their goals at the same time, since `R` relates every
  -- point to one only.
  induction fuel generalizing queue queue' met met' with
  | zero => exact .none
  | succ fuel ih =>
    cases hqueue with
    | nil => exact .none
    | cons hpath hrest =>
      cases hpath with
      | nil => exact ih hrest hmet
      | @cons a b path path' hab hpath =>
        have hsame : a = goal ↔ b = goal' := Relator.rel_eq hR hab hgoal
        by_cases ha : a = goal
        · have hb : b = goal' := hsame.1 ha
          subst ha hb
          rw [shortestFrom_goal, shortestFrom_goal]
          exact .some (List.rel_reverse (.cons hab hpath))
        · rw [shortestFrom_ne ha, shortestFrom_ne (fun hb => ha (hsame.2 hb))]
          have hnew := rel_fresh hR hmet (hnext hab)
          refine ih (List.rel_append hrest ?_) (List.rel_append hmet hnew)
          exact List.rel_map (fun _ _ hcd => .cons hcd (.cons hab hpath)) hnew

/-- Searches with corresponding successors and goals find corresponding paths. -/
theorem rel_shortest? (hR : Relator.BiUnique R)
    (hnext : ∀ {a b}, R a b → List.Forall₂ R (next a) (next' b)) (hgoal : R goal goal') (fuel : Nat)
    {starts : List α} {starts' : List β} (hstarts : List.Forall₂ R starts starts') :
    Option.Rel (List.Forall₂ R) (shortest? next goal fuel starts)
      (shortest? next' goal' fuel starts') := by
  have hnew := rel_fresh hR .nil hstarts
  exact rel_shortestFrom hR hnext hgoal fuel
    (List.rel_map (fun _ _ hab => .cons hab .nil) hnew) hnew

end InStep

end Search
end Bridgework
