import Bridgework.Proofs.Search.Shortest
import Bridgework.Search.Shortest
import Bridgework.Search.Simple
import Mathlib.Data.List.Nodup

/-!
# Paths read back from a table of parents

A sweep keeps one number for each path that waits, and the rest of the path in its table. The table never
changes at a number that was met, so that what it tells of a waiting path stays as it is until the path is
taken. Hence the sweep does in step what the search with whole paths does.

- `Search.Traced` : the table tells a path
- `Search.Sweep.Shadows` : a sweep and a search with whole paths are at the same place
- `Search.Sweep.Shadows.foldl_meet` : taking a number keeps them there
- `Search.shortestPath?_eq` : both find the same path
-/

namespace Bridgework
namespace Search

/-! ## New points -/

section Fresh

variable {α : Type} [DecidableEq α] {met met' l : List α}

/-- What is new depends on what was met, and not on the order in which it was. -/
theorem fresh_congr (h : ∀ x, x ∈ met ↔ x ∈ met') : fresh met l = fresh met' l := by
  induction l generalizing met met' with
  | nil => rfl
  | cons a l ih =>
    have hcons : ∀ x, x ∈ a :: met ↔ x ∈ a :: met' := fun x => by rw [List.mem_cons, List.mem_cons, h x]
    simp only [fresh, h a, ih h, ih hcons]

/-- Points that were not met, and none of them twice, are all new. -/
theorem fresh_eq_self (hl : l.Nodup) (hmet : ∀ a ∈ l, a ∉ met) : fresh met l = l := by
  induction l generalizing met with
  | nil => rfl
  | cons a l ih =>
    obtain ⟨ha, hl⟩ := List.nodup_cons.1 hl
    rw [fresh, if_neg (hmet a List.mem_cons_self), ih hl]
    intro b hb hmem
    rcases List.mem_cons.1 hmem with rfl | hmem
    · exact ha hb
    · exact hmet b (List.mem_cons_of_mem a hb) hmem

end Fresh

/-! ## Reading back -/

/-- The table tells the path, last point first: each point was met from the next, and the last one nowhere. -/
def Traced (parent : Array (Option Nat)) : List Nat → Prop
  | [] => False
  | [a] => parent.getD a none = none
  | a :: b :: path => parent.getD a none = some b ∧ Traced parent (b :: path)

variable {parent : Array (Option Nat)} {a b goal size fuel : Nat} {p path : List Nat}

/-- Reading back a path that the table tells gives the path. -/
theorem Traced.trace_eq (h : Traced parent (a :: path)) (hlength : path.length ≤ fuel) :
    Sweep.trace parent fuel a = a :: path := by
  induction path generalizing a fuel with
  | nil =>
    have hnone : parent.getD a none = none := h
    cases fuel with
    | zero => rfl
    | succ fuel => rw [Sweep.trace, hnone]
  | cons b path ih =>
    obtain ⟨hparent, htail⟩ := h
    cases fuel with
    | zero => cases hlength
    | succ fuel =>
      rw [Sweep.trace, hparent]
      exact congrArg (a :: ·) (ih htail (Nat.le_of_succ_le_succ hlength))

/-- A path does not notice a change at a point that it does not meet. -/
theorem Traced.set (h : Traced parent p) (hb : b ∉ p) (x : Option Nat) :
    Traced (parent.setIfInBounds b x) p := by
  have hsame : ∀ a ∈ p, (parent.setIfInBounds b x).getD a none = parent.getD a none := by
    intro a ha
    rw [getD_setIfInBounds, if_neg]
    rintro ⟨rfl, -⟩
    exact hb ha
  induction p with
  | nil => exact h
  | cons a path ih =>
    cases path with
    | nil => exact (hsame a List.mem_cons_self).trans h
    | cons c path =>
      refine ⟨(hsame a List.mem_cons_self).trans h.1, ih h.2 ?_ ?_⟩
      · exact fun hmem => hb (List.mem_cons_of_mem a hmem)
      · exact fun d hd => hsame d (List.mem_cons_of_mem a hd)

/-! ## Sweeps -/

namespace Sweep

variable {s : Sweep} {next : Nat → List Nat} {queue : List (List Nat)} {met l : List Nat}

/-- The table tells the path, which meets only points that were met, and none twice. -/
structure Knows (s : Sweep) (met p : List Nat) : Prop where
  traced : Traced s.parent p
  met : p ⊆ met
  nodup : p.Nodup

/-- The numbers in the queue are the last points of the waiting paths, and the rest of them is in the table. -/
structure Shadows (size : Nat) (s : Sweep) (queue : List (List Nat)) (met : List Nat) : Prop where
  heads : s.queue = queue.filterMap List.head?
  visited : ∀ n, s.visited.getD n false = true ↔ n ∈ met
  visited_size : s.visited.size = size
  parent_size : s.parent.size = size
  bound : ∀ n ∈ met, n < size
  known : ∀ p ∈ queue, s.Knows met p

theorem meet_of_mem (h : Shadows size s queue met) (hb : b ∈ met) : s.meet a b = s :=
  if_pos ((h.visited b).2 hb)

theorem meet_of_not_mem (h : Shadows size s queue met) (hb : b ∉ met) :
    s.meet a b = ⟨s.queue ++ [b], s.visited.setIfInBounds b true, s.parent.setIfInBounds b (some a)⟩ :=
  if_neg fun hvisited => hb ((h.visited b).1 hvisited)

/-- Meeting a new number changes nothing of the paths that are known. -/
theorem Knows.meet (hp : s.Knows met p) (h : Shadows size s queue met) (hb : b ∉ met) :
    (s.meet a b).Knows (met ++ [b]) p where
  traced := by
    rw [meet_of_not_mem h hb]
    exact hp.traced.set (fun hmem => hb (hp.met hmem)) _
  met := List.subset_append_of_subset_left _ hp.met
  nodup := hp.nodup

/-- The path to a new number is the path to where it was met, and the number. -/
theorem Knows.cons (hp : s.Knows met (a :: path)) (h : Shadows size s queue met) (hlt : b < size) (hb : b ∉ met) :
    (s.meet a b).Knows (met ++ [b]) (b :: a :: path) where
  traced := by
    refine ⟨?_, (hp.meet h hb).traced⟩
    rw [meet_of_not_mem h hb, getD_setIfInBounds, if_pos ⟨rfl, h.parent_size.symm ▸ hlt⟩]
  met := by
    refine List.cons_subset.2 ⟨List.mem_append_right _ (List.mem_singleton_self b), ?_⟩
    exact (hp.meet (a := a) h hb).met
  nodup := List.nodup_cons.2 ⟨fun hmem => hb (hp.met hmem), hp.nodup⟩

namespace Shadows

/-- Meeting a new number puts it into the queue, with its path in the table. -/
theorem meet (h : Shadows size s queue met) (hp : s.Knows met (a :: path)) (hlt : b < size) (hb : b ∉ met) :
    Shadows size (s.meet a b) (queue ++ [b :: a :: path]) (met ++ [b]) where
  heads := by
    -- The number is new, so that meeting it writes its mark and its parent, and puts it last in the
    -- queue.
    rw [meet_of_not_mem h hb, List.filterMap_append, ← h.heads]
    rfl
  visited := by
    intro n
    rw [meet_of_not_mem h hb, getD_setIfInBounds, List.mem_append, List.mem_singleton, ← h.visited n,
      h.visited_size]
    by_cases hn : n = b
    · simp [hn, hlt]
    · simp [hn]
  visited_size := by
    rw [meet_of_not_mem h hb, Array.size_setIfInBounds, h.visited_size]
  parent_size := by
    rw [meet_of_not_mem h hb, Array.size_setIfInBounds, h.parent_size]
  bound := by
    intro n hn
    rcases List.mem_append.1 hn with hn | hn
    · exact h.bound n hn
    · exact List.mem_singleton.1 hn ▸ hlt
  known := by
    -- Paths that were known stay; the new one goes on from the path whose turn it is.
    intro q hq
    rcases List.mem_append.1 hq with hq | hq
    · exact (h.known q hq).meet h hb
    · exact List.mem_singleton.1 hq ▸ hp.cons h hlt hb

/-- Meeting the successors of a number puts the same paths into the queue. -/
theorem foldl_meet (h : Shadows size s queue met) (hp : s.Knows met (a :: path)) (hl : ∀ b ∈ l, b < size) :
    Shadows size (l.foldl (Sweep.meet a) s) (queue ++ (fresh met l).map fun b => b :: a :: path)
      (met ++ fresh met l) := by
  induction l generalizing s queue met with
  | nil => simpa [fresh] using h
  | cons b l ih =>
    have hrest : ∀ c ∈ l, c < size := fun c hc => hl c (List.mem_cons_of_mem b hc)
    rw [List.foldl_cons, fresh]
    by_cases hb : b ∈ met
    · rw [if_pos hb, meet_of_mem h hb]
      exact ih h hp hrest
    · have hstep := ih (h.meet hp (hl b List.mem_cons_self) hb) (hp.meet h hb) hrest
      -- The order in which points were met does not matter for what is new.
      have hfresh : fresh (met ++ [b]) l = fresh (b :: met) l :=
        fresh_congr fun x => by rw [List.mem_append, List.mem_singleton, List.mem_cons, or_comm]
      rw [hfresh] at hstep
      rw [if_neg hb, List.map_cons, List.append_cons queue, List.append_cons met]
      exact hstep

theorem tail (h : Shadows size s (p :: queue) met) :
    Shadows size { s with queue := queue.filterMap List.head? } queue met where
  heads := rfl
  visited := h.visited
  visited_size := h.visited_size
  parent_size := h.parent_size
  bound := h.bound
  known q hq :=
    have hknown := h.known q (List.mem_cons_of_mem p hq)
    ⟨hknown.traced, hknown.met, hknown.nodup⟩

/-- A waiting path meets no number twice, so that it is no longer than the table. -/
theorem trace_eq (h : Shadows size s ((a :: path) :: queue) met) :
    trace s.parent s.parent.size a = a :: path := by
  have hknown := h.known _ List.mem_cons_self
  have hrange : a :: path ⊆ List.range size := fun n hn => List.mem_range.2 (h.bound n (hknown.met hn))
  have hlength := hknown.nodup.length_le_of_subset hrange
  rw [List.length_range, List.length_cons] at hlength
  rw [h.parent_size]
  exact hknown.traced.trace_eq (Nat.le_of_succ_le hlength)

/-- From the same place the sweep and the search with whole paths find the same. -/
theorem run_eq (h : Shadows size s queue met) (hnext : ∀ a b, b ∈ next a → b < size) (fuel : Nat) :
    s.run next goal fuel = shortestFrom next goal fuel queue met := by
  -- Both searches take the same point, and the table tells the path that the other one carries.
  induction fuel generalizing s queue met with
  | zero => rfl
  | succ fuel ih =>
    match queue with
    | [] =>
      have hempty : s.queue = [] := h.heads
      rw [run, hempty, shortestFrom]
    | [] :: queue => exact (h.known [] List.mem_cons_self).traced.elim
    | (a :: path) :: queue =>
      have hqueue : s.queue = a :: queue.filterMap List.head? := h.heads
      rw [run, hqueue]
      simp only
      by_cases hgoal : a = goal
      · subst hgoal
        rw [if_pos rfl, h.trace_eq, shortestFrom_goal]
      · have hknown := h.known _ List.mem_cons_self
        rw [if_neg hgoal, shortestFrom_ne hgoal]
        exact ih (h.tail.foldl_meet ⟨hknown.traced, hknown.met, hknown.nodup⟩ (hnext a))

end Shadows

/-- At the beginning each starting point is a path of its own. -/
theorem shadows_start {starts : List Nat} (hstarts : ∀ a ∈ starts, a < size) :
    Shadows size (start size starts) (starts.map fun a => [a]) starts where
  heads := by simp [start, List.filterMap_map, Function.comp_def]
  visited := by
    intro n
    rw [start, getD_setMarks, getD_noMarks, Array.size_replicate]
    simpa using hstarts n
  visited_size := by
    have hsize : ∀ (l : List Nat) (marks : Array Bool),
        (l.foldl (fun marks n => marks.setIfInBounds n true) marks).size = marks.size := by
      intro l
      induction l with
      | nil => exact fun _ => rfl
      | cons n l ih => exact fun marks => (ih _).trans Array.size_setIfInBounds
    rw [start, hsize, Array.size_replicate]
  parent_size := Array.size_replicate
  bound := hstarts
  -- Nothing stands in the table yet, which is what tells that a path starts there.
  known := by
    intro p hp
    obtain ⟨a, ha, rfl⟩ := List.mem_map.1 hp
    refine ⟨?_, by simpa using ha, List.nodup_singleton a⟩
    rw [Traced, start, Array.getD_eq_getD_getElem?, Array.getElem?_replicate]
    split
    next => rfl
    next => rfl

end Sweep

/-- The path that is read back from the table is the one that the search with whole paths finds. -/
theorem shortestPath?_eq {next : Nat → List Nat} {starts : List Nat} (hnext : ∀ a b, b ∈ next a → b < size)
    (hstarts : ∀ a ∈ starts, a < size) (hnodup : starts.Nodup) :
    shortestPath? next goal size starts = shortest? next goal (size + 1) starts := by
  have hfresh : fresh [] starts = starts := fresh_eq_self hnodup fun _ _ => List.not_mem_nil
  rw [shortestPath?, shortest?, hfresh]
  exact (Sweep.shadows_start hstarts).run_eq hnext (size + 1)

end Search
end Bridgework
