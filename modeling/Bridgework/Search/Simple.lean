import Bridgework.Search.Trail

/-!
# Bounded enumeration of simple paths

The steps of the search are repeated until nothing is left to try. They come to an end because the path
never meets a point twice: a point that is entered has less before it than the point it is entered from.

- `Search.Trail.Sound` : the path, its cursors and its marks are in step
- `Search.Trail.Move` : everything that one step can do
- `Search.Trail.effort` : what bounds the number of steps
- `Search.Hunt.search` : the whole search
-/

namespace Bridgework
namespace Search

variable {h : Hunt} {t u : Trail} {a b : Nat}

/-! ## Marks -/

theorem lt_size_of_isUseful (ha : h.isUseful a = true) : a < h.useful.size := by
  rcases Nat.lt_or_ge a h.useful.size with hlt | hge
  · exact hlt
  · rw [Hunt.isUseful, Array.getD_eq_getD_getElem?, Array.getElem?_eq_none hge] at ha
    cases ha

theorem getD_noMarks {n : Nat} : (Array.replicate n false).getD a false = false := by
  rw [Array.getD_eq_getD_getElem?, Array.getElem?_replicate]
  split
  · rfl
  · rfl

theorem getD_setIfInBounds {α : Type} {xs : Array α} {x fallback : α} :
    (xs.setIfInBounds a x).getD b fallback = if b = a ∧ a < xs.size then x else xs.getD b fallback := by
  rw [Array.getD_eq_getD_getElem?, Array.getD_eq_getD_getElem?, Array.getElem?_setIfInBounds]
  by_cases hab : a = b
  · subst hab
    by_cases ha : a < xs.size
    · simp [ha]
    · simp [ha]
  · have hba : ¬ b = a := fun hba => hab hba.symm
    simp [hab, hba]

/-- Marking some points changes the marks of those points. -/
theorem getD_setMarks {points : List Nat} {marks : Array Bool} {mark : Bool} :
    (points.foldl (fun marks a => marks.setIfInBounds a mark) marks).getD b false =
      if b ∈ points ∧ b < marks.size then mark else marks.getD b false := by
  induction points generalizing marks with
  | nil => simp
  | cons a points ih =>
    rw [List.foldl_cons, ih, getD_setIfInBounds, Array.size_setIfInBounds]
    by_cases hba : b = a
    · subst hba
      by_cases hb : b < marks.size
      · simp [hb]
      · simp [hb]
    · simp [hba]

namespace Trail

/-! ## The invariant -/

/-- There is a cursor for each point of the path, the points of the path are useful, none of them
comes twice, and exactly they are marked. -/
structure Sound (h : Hunt) (t : Trail) : Prop where
  inStep : t.cursors.length = t.path.length
  nodup : t.path.Nodup
  useful : ∀ a ∈ t.path, h.isUseful a = true
  size : t.onPath.size = h.useful.size
  marked : ∀ a, t.onPath.getD a false = true ↔ a ∈ t.path

namespace Sound

theorem start (h : Hunt) (starts : List Nat) : Sound h (Trail.start h starts) where
  inStep := rfl
  nodup := List.nodup_nil
  useful _ ha := absurd ha List.not_mem_nil
  size := by simp [Trail.start]
  marked a := by
    have hnone : (Trail.start h starts).onPath.getD a false = false := getD_noMarks
    rw [hnone]
    exact iff_of_false Bool.false_ne_true List.not_mem_nil

/-- A useful point that is not on the path may be entered. -/
theorem enter (ht : Sound h t) (ha : h.isUseful a = true) (hfresh : a ∉ t.path) :
    Sound h (t.enter a) where
  inStep := by simpa [Trail.enter] using ht.inStep
  nodup := List.nodup_cons.2 ⟨hfresh, ht.nodup⟩
  useful := by
    intro b hb
    rcases List.mem_cons.1 hb with rfl | hb
    · exact ha
    · exact ht.useful b hb
  size := by simpa [Trail.enter] using ht.size
  -- The mark is written inside of the array, since the point is useful.
  marked := by
    intro b
    have hlt : a < t.onPath.size := by
      rw [ht.size]
      exact lt_size_of_isUseful ha
    have hmark : (t.enter a).onPath.getD b false = _ := getD_setIfInBounds
    rw [hmark]
    by_cases hba : b = a
    · simp [hba, hlt, Trail.enter]
    · rw [if_neg fun hb => hba hb.1, ht.marked]
      simp [hba, Trail.enter]

/-- Leaving a point takes its mark away. -/
theorem leave (ht : Sound h t) : Sound h t.leave := by
  rcases t with ⟨pending, path, cursors, onPath, found, truncated⟩
  cases path with
  | nil => exact ht
  | cons a path =>
    obtain ⟨hfresh, hnodup⟩ := List.nodup_cons.1 ht.nodup
    refine ⟨?_, hnodup, fun b hb => ht.useful b (List.mem_cons_of_mem a hb), ?_, fun b => ?_⟩
    · have hlen : cursors.length = path.length + 1 := ht.inStep
      simp [Trail.leave, hlen]
    · simpa [Trail.leave] using ht.size
    · have hlt : a < onPath.size := by
        rw [ht.size]
        exact lt_size_of_isUseful (ht.useful a List.mem_cons_self)
      have hmarked : onPath.getD b false = true ↔ b ∈ a :: path := ht.marked b
      simp only [Trail.leave, getD_setIfInBounds]
      -- The point is on the path once only, so that no mark is missed.
      by_cases hba : b = a
      · simp [hba, hfresh, hlt]
      · rw [if_neg fun hb => hba hb.1, hmarked]
        simp [hba]

theorem advance (ht : Sound h t) : Sound h t.advance := by
  rcases t with ⟨pending, path, cursors, onPath, found, truncated⟩
  cases cursors with
  | nil => exact ht
  | cons c cursors => exact ⟨ht.inStep, ht.nodup, ht.useful, ht.size, ht.marked⟩

theorem record (ht : Sound h t) : Sound h t.record :=
  ⟨ht.inStep, ht.nodup, ht.useful, ht.size, ht.marked⟩

theorem cut (ht : Sound h t) : Sound h t.cut :=
  ⟨ht.inStep, ht.nodup, ht.useful, ht.size, ht.marked⟩

theorem drop {pending : List Nat} (ht : Sound h t) : Sound h { t with pending } :=
  ⟨ht.inStep, ht.nodup, ht.useful, ht.size, ht.marked⟩

theorem halt (ht : Sound h t) : Sound h t.halt where
  inStep := rfl
  nodup := List.nodup_nil
  useful _ ha := absurd ha List.not_mem_nil
  size := by
    have hsize (path : List Nat) (marks : Array Bool) :
        (path.foldl (fun marks a => marks.setIfInBounds a false) marks).size = marks.size := by
      induction path generalizing marks with
      | nil => rfl
      | cons a path ih => rw [List.foldl_cons, ih, Array.size_setIfInBounds]
    exact (hsize t.path t.onPath).trans ht.size
  marked a := by
    have hclear : t.halt.onPath.getD a false = _ := getD_setMarks
    rw [hclear]
    refine iff_of_false ?_ List.not_mem_nil
    split
    next => exact Bool.false_ne_true
    next hout =>
      -- A mark that was not cleared would stand for a point of the path.
      intro hmark
      have ha : a ∈ t.path := (ht.marked a).1 hmark
      exact hout ⟨ha, ht.size ▸ lt_size_of_isUseful (ht.useful a ha)⟩

/-- Every point on the path has a cursor. -/
theorem exists_cursor (ht : Sound h t) {path : List Nat} (hpath : t.path = a :: path) :
    ∃ c cursors, t.cursors = c :: cursors := by
  cases hcursors : t.cursors with
  | nil =>
    have hlen := ht.inStep
    rw [hcursors, hpath] at hlen
    cases hlen
  | cons c cursors => exact ⟨c, cursors, rfl⟩

end Sound

/-! ## What a step can do -/

/-- The outcomes of a step, each with what led to it. -/
inductive Move (h : Hunt) (t : Trail) : Trail → Prop where
  -- Without a path: the next starting point is passed over, or entered.
  | skip {a : Nat} {pending : List Nat} (hpath : t.path = []) (hpending : t.pending = a :: pending)
      (ha : h.isUseful a = false) : Move h t { t with pending }
  | depart {a : Nat} {pending : List Nat} (hpath : t.path = []) (hpending : t.pending = a :: pending)
      (ha : h.isUseful a = true) : Move h t ({ t with pending }.enter a)
  -- At the goal: there is no more room, or the path is written down.
  | halt {path : List Nat} (hpath : t.path = h.goal :: path) (hfull : h.limits.paths ≤ t.found.size) :
      Move h t t.halt
  | record {path : List Nat} (hpath : t.path = h.goal :: path)
      (hroom : t.found.size < h.limits.paths) : Move h t t.record.leave
  -- Elsewhere: the successors are tried one after another.
  | leave {a c : Nat} {path cursors : List Nat} (hpath : t.path = a :: path)
      (hcursors : t.cursors = c :: cursors) (hgoal : a ≠ h.goal) (hnone : (h.next a)[c]? = none) :
      Move h t t.leave
  | pass {a b c : Nat} {path cursors : List Nat} (hpath : t.path = a :: path)
      (hcursors : t.cursors = c :: cursors) (hgoal : a ≠ h.goal) (hb : (h.next a)[c]? = some b)
      (hno : b ∈ t.path ∨ h.isUseful b = false) : Move h t t.advance
  -- The search is cut only for a point that would have been entered.
  | cut {a b c : Nat} {path cursors : List Nat} (hpath : t.path = a :: path)
      (hcursors : t.cursors = c :: cursors) (hgoal : a ≠ h.goal) (hb : (h.next a)[c]? = some b)
      (hfresh : b ∉ t.path) (huseful : h.isUseful b = true)
      (hlong : h.limits.steps < t.path.length) : Move h t t.advance.cut
  | enter {a b c : Nat} {path cursors : List Nat} (hpath : t.path = a :: path)
      (hcursors : t.cursors = c :: cursors) (hgoal : a ≠ h.goal) (hb : (h.next a)[c]? = some b)
      (hfresh : b ∉ t.path) (huseful : h.isUseful b = true)
      (hshort : t.path.length ≤ h.limits.steps) : Move h t (t.advance.enter b)

theorem move_attempt (ht : Sound h t) {c : Nat} {path cursors : List Nat} (hpath : t.path = a :: path)
    (hcursors : t.cursors = c :: cursors) (hgoal : a ≠ h.goal) (hb : (h.next a)[c]? = some b) :
    Move h t (t.attempt h b) := by
  rw [attempt]
  by_cases hno : (t.onPath.getD b false || !h.isUseful b) = true
  · rw [if_pos hno]
    rw [Bool.or_eq_true, ht.marked, Bool.not_eq_true'] at hno
    exact .pass hpath hcursors hgoal hb hno
  · rw [if_neg hno]
    rw [Bool.or_eq_true, ht.marked, Bool.not_eq_true', not_or, Bool.not_eq_false] at hno
    by_cases hlong : h.limits.steps < t.path.length
    · rw [if_pos hlong]
      exact .cut hpath hcursors hgoal hb hno.1 hno.2 hlong
    · rw [if_neg hlong]
      exact .enter hpath hcursors hgoal hb hno.1 hno.2 (Nat.le_of_not_lt hlong)

theorem move_depart {pending : List Nat} (hpath : t.path = []) (hpending : t.pending = a :: pending) :
    Move h t (t.depart h) := by
  simp only [depart, hpending]
  cases ha : h.isUseful a with
  | true => exact .depart hpath hpending ha
  | false => exact .skip hpath hpending ha

theorem move_arrive {path : List Nat} (hpath : t.path = h.goal :: path) : Move h t (t.arrive h) := by
  rw [arrive]
  by_cases hfull : h.limits.paths ≤ t.found.size
  · rw [if_pos hfull]
    exact .halt hpath hfull
  · rw [if_neg hfull]
    exact .record hpath (Nat.lt_of_not_le hfull)

theorem move_proceed (ht : Sound h t) {path : List Nat} (hpath : t.path = a :: path)
    (hgoal : a ≠ h.goal) : Move h t (t.proceed h a) := by
  obtain ⟨c, cursors, hcursors⟩ := ht.exists_cursor hpath
  simp only [proceed, hcursors]
  cases hb : (h.next a)[c]? with
  | none => exact .leave hpath hcursors hgoal hb
  | some b => exact move_attempt ht hpath hcursors hgoal hb

/-- A step of the search is a move. -/
theorem move_step (ht : Sound h t) (hdone : t.isDone = false) : Move h t (t.step h) := by
  cases hpath : t.path with
  | nil =>
    simp only [step, hpath]
    cases hpending : t.pending with
    | nil => simp [isDone, hpath, hpending] at hdone
    | cons a pending => exact move_depart hpath hpending
  | cons a path =>
    simp only [step, hpath]
    by_cases hgoal : a = h.goal
    · rw [if_pos hgoal]
      exact move_arrive (hgoal ▸ hpath)
    · rw [if_neg hgoal]
      exact move_proceed ht hpath hgoal

/-- A step keeps the path, its cursors and its marks in step. -/
theorem Sound.of_move (ht : Sound h t) (hm : Move h t u) : Sound h u := by
  cases hm with
  | skip hpath hpending ha => exact ht.drop
  | depart hpath hpending ha => exact ht.drop.enter ha (by simp [hpath])
  | halt hpath hfull => exact ht.halt
  | record hpath hroom => exact ht.record.leave
  | leave hpath hcursors hgoal hnone => exact ht.leave
  | pass hpath hcursors hgoal hb hno => exact ht.advance
  | cut hpath hcursors hgoal hb hfresh huseful hlong => exact ht.advance.cut
  | enter hpath hcursors hgoal hb hfresh huseful hshort =>
    have hkeep : t.advance.path = t.path := by rw [advance_eq hcursors]
    exact ht.advance.enter huseful (by rwa [hkeep])

/-! ## Termination -/

/-- More than the number of successors of any point. -/
def width (h : Hunt) : Nat := ((List.range h.useful.size).flatMap h.next).length + 2

theorem succ_length_next_lt_width (ha : h.isUseful a = true) :
    (h.next a).length + 1 < width h := by
  have hmem : h.next a ∈ (List.range h.useful.size).map h.next :=
    List.mem_map.2 ⟨a, List.mem_range.2 (lt_size_of_isUseful ha), rfl⟩
  have hle : (h.next a).length ≤ ((List.range h.useful.size).flatMap h.next).length := by
    rw [List.flatMap_def]
    exact (List.sublist_flatten_of_mem hmem).length_le
  rw [width]
  omega

/-- What trying one successor is worth if this many points can still be entered. -/
def worth (h : Hunt) : Nat → Nat
  | 0 => 1
  | n + 1 => width h * worth h n

theorem worth_pos (h : Hunt) (n : Nat) : 0 < worth h n := by
  induction n with
  | zero => exact Nat.one_pos
  | succ n ih => exact Nat.mul_pos (Nat.succ_pos _) ih

/-- What is left to do below a path. A point counts as much as all points that can be entered after it
together, so the weights grow towards the beginning of the path. -/
def load (h : Hunt) : List Nat → List Nat → Nat
  | a :: path, c :: cursors =>
    ((h.next a).length - c + 1) * worth h (h.useful.size - path.length) + load h path cursors
  | _, _ => 0

/-- A bound on the number of steps that are left. -/
def effort (h : Hunt) (t : Trail) : Nat :=
  t.pending.length * (worth h (h.useful.size + 1) + 1) + load h t.path t.cursors

/-- Leaving a point makes the load lighter. -/
theorem load_leave {path cursors : List Nat} {c : Nat} :
    load h path cursors < load h (a :: path) (c :: cursors) := by
  have hpos : 0 < ((h.next a).length - c + 1) * worth h (h.useful.size - path.length) :=
    Nat.mul_pos (Nat.succ_pos _) (worth_pos h _)
  rw [load]
  omega

/-- Trying a successor takes its worth from the load. -/
theorem load_advance {path cursors : List Nat} {c : Nat} (hc : c < (h.next a).length) :
    load h (a :: path) ((c + 1) :: cursors) + worth h (h.useful.size - path.length) =
      load h (a :: path) (c :: cursors) := by
  have hless : (h.next a).length - c = (h.next a).length - (c + 1) + 1 := by omega
  rw [load, load, hless, Nat.succ_mul (_ + 1)]
  omega

/-- A point that is entered weighs less than what trying it was worth. -/
theorem load_enter {path cursors : List Nat} (hb : h.isUseful b = true) :
    load h (b :: path) (0 :: cursors) <
      worth h (h.useful.size - path.length + 1) + load h path cursors := by
  have hwidth := succ_length_next_lt_width hb
  have hmul : ((h.next b).length + 1) * worth h (h.useful.size - path.length) <
      width h * worth h (h.useful.size - path.length) :=
    Nat.mul_lt_mul_of_pos_right hwidth (worth_pos h _)
  rw [load, worth, Nat.sub_zero]
  omega

theorem Sound.length_path_le (ht : Sound h t) : t.path.length ≤ h.useful.size := by
  have hsub : t.path ⊆ List.range h.useful.size := fun a ha =>
    List.mem_range.2 (lt_size_of_isUseful (ht.useful a ha))
  have hle := ht.nodup.length_le_of_subset hsub
  rwa [List.length_range] at hle

/-- Every move takes from the effort that is left. -/
theorem effort_lt_of_move (ht : Sound h t) (hm : Move h t u) : effort h u < effort h t := by
  have hu : Sound h u := ht.of_move hm
  cases hm with
  | skip hpath hpending ha =>
    simp only [effort, hpending, List.length_cons, Nat.succ_mul]
    omega
  | @depart a pending hpath hpending ha =>
    have hload : load h [a] [0] < worth h (h.useful.size + 1) + load h [] [] := load_enter ha
    have hcursors : t.cursors = [] := List.eq_nil_of_length_eq_zero (by rw [ht.inStep, hpath]; rfl)
    simp only [effort, Trail.enter, hpending, hpath, hcursors, List.length_cons, Nat.succ_mul]
    omega
  | @halt path hpath hfull =>
    obtain ⟨c, cursors, hcursors⟩ := ht.exists_cursor hpath
    have hload : load h path cursors < load h (h.goal :: path) (c :: cursors) := load_leave
    have hempty : effort h t.halt = 0 := by simp [effort, Trail.halt, load]
    rw [hempty, effort, hpath, hcursors]
    omega
  | @record path hpath hroom =>
    obtain ⟨c, cursors, hcursors⟩ := ht.exists_cursor hpath
    have hrecord : t.record.path = h.goal :: path := hpath
    rw [leave_eq hrecord]
    simp only [effort, Trail.record, hpath, hcursors, List.tail_cons]
    exact Nat.add_lt_add_left load_leave _
  | leave hpath hcursors hgoal hnone =>
    rw [leave_eq hpath]
    simp only [effort, hpath, hcursors, List.tail_cons]
    exact Nat.add_lt_add_left load_leave _
  | @pass a b c path cursors hpath hcursors hgoal hb hno =>
    have hload : load h (a :: path) ((c + 1) :: cursors) + _ = load h (a :: path) (c :: cursors) :=
      load_advance (List.getElem?_eq_some_iff.1 hb).1
    have hpos := worth_pos h (h.useful.size - path.length)
    rw [advance_eq hcursors]
    simp only [effort, hpath, hcursors]
    omega
  | @cut a b c path cursors hpath hcursors hgoal hb hfresh huseful hlong =>
    have hload : load h (a :: path) ((c + 1) :: cursors) + _ = load h (a :: path) (c :: cursors) :=
      load_advance (List.getElem?_eq_some_iff.1 hb).1
    have hpos := worth_pos h (h.useful.size - path.length)
    rw [advance_eq hcursors]
    simp only [effort, Trail.cut, hpath, hcursors]
    omega
  | @enter a b c path cursors hpath hcursors hgoal hb hfresh huseful hshort =>
    -- One unit of the weight of `a` pays for everything below `b`.
    have hload : load h (a :: path) ((c + 1) :: cursors) + _ = load h (a :: path) (c :: cursors) :=
      load_advance (List.getElem?_eq_some_iff.1 hb).1
    have henter : load h (b :: a :: path) (0 :: (c + 1) :: cursors) < _ := load_enter huseful
    have hlen : path.length + 2 ≤ h.useful.size := by
      have hle := hu.length_path_le
      rw [advance_eq hcursors] at hle
      simp only [Trail.enter, hpath, List.length_cons] at hle
      exact hle
    have hexp : h.useful.size - (a :: path).length + 1 = h.useful.size - path.length := by
      rw [List.length_cons]
      omega
    rw [hexp] at henter
    rw [advance_eq hcursors]
    simp only [effort, Trail.enter, hpath, hcursors]
    omega

/-! ## The search -/

def run (h : Hunt) (t : Trail) (ht : Sound h t) : Trail :=
  if hdone : t.isDone then t
  else run h (t.step h) (ht.of_move (move_step ht (Bool.not_eq_true _ ▸ hdone)))
termination_by effort h t
decreasing_by exact effort_lt_of_move ht (move_step ht (Bool.not_eq_true _ ▸ hdone))

end Trail

def Hunt.search (h : Hunt) (starts : List Nat) : Trail :=
  (Trail.start h starts).run h (.start h starts)

end Search
end Bridgework
