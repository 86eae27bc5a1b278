import Bridgework.Proofs.Search.Closure
import Bridgework.Proofs.Search.Trail
import Mathlib.Data.List.Forall2

/-!
# Searches that run in step

Two searches over numbered points are alike if some points of the one stand for some points of the other,
each for one, and successors, usefulness and goals agree along this relation. Whatever the numbers are,
the two then do the same in every step: the points that they enter, the paths that they find and the cuts
that they note correspond.

- `Search.Hunt.Alike`, `Search.Trail.Alike` : searches and states that correspond
- `Search.Trail.Alike.step`, `Search.Trail.Alike.run` : steps and runs keep states alike
- `Search.Hunt.search_of_useless` : a search from which the goal is out of reach
-/

namespace Bridgework
namespace Search

variable {R : Nat → Nat → Prop} {a b : Nat}

/-- Corresponding lists correspond place by place. -/
theorem getElem?_of_forall₂ {l m : List Nat} (hlm : List.Forall₂ R l m) (c : Nat) :
    Option.Rel R l[c]? m[c]? := by
  induction hlm generalizing c with
  | nil => exact .none
  | cons hab _ ih =>
    cases c with
    | zero => exact .some hab
    | succ c => exact ih c

/-- The points of two searches correspond: successors, use and goals do, and the bounds are the same. -/
structure Hunt.Alike (R : Nat → Nat → Prop) (h k : Hunt) : Prop where
  -- A mark is met in the one search exactly if it is met in the other.
  unique : Relator.BiUnique R
  next : ∀ {a b}, R a b → List.Forall₂ R (h.next a) (k.next b)
  useful : ∀ {a b}, R a b → h.isUseful a = k.isUseful b
  goal : R h.goal k.goal
  limits : h.limits = k.limits

namespace Trail

variable {h k : Hunt} {t u : Trail}

/-- What two states hold corresponds. Marks are left out: they follow from the paths. -/
structure Alike (R : Nat → Nat → Prop) (t u : Trail) : Prop where
  pending : List.Forall₂ R t.pending u.pending
  path : List.Forall₂ R t.path u.path
  cursors : t.cursors = u.cursors
  found : List.Forall₂ (List.Forall₂ R) t.found.toList u.found.toList
  truncated : t.truncated = u.truncated

namespace Alike

theorem start (h k : Hunt) {starts starts' : List Nat} (hstarts : List.Forall₂ R starts starts') :
    Alike R (Trail.start h starts) (Trail.start k starts') :=
  ⟨hstarts, .nil, rfl, .nil, rfl⟩

/-! ### Changes of the state -/

theorem enter (htu : Alike R t u) (hab : R a b) : Alike R (t.enter a) (u.enter b) :=
  ⟨htu.pending, .cons hab htu.path, congrArg (List.cons 0) htu.cursors, htu.found, htu.truncated⟩

theorem leave (htu : Alike R t u) : Alike R t.leave u.leave := by
  have hpath := htu.path
  cases htpath : t.path with
  | nil =>
    rw [htpath, List.forall₂_nil_left_iff] at hpath
    rw [Trail.leave, Trail.leave, htpath, hpath]
    exact htu
  | cons a path =>
    rw [htpath, List.forall₂_cons_left_iff] at hpath
    obtain ⟨b, path', _, hpaths, hupath⟩ := hpath
    rw [leave_eq htpath, leave_eq hupath]
    exact ⟨htu.pending, hpaths, congrArg List.tail htu.cursors, htu.found, htu.truncated⟩

theorem advance (htu : Alike R t u) : Alike R t.advance u.advance := by
  rw [Trail.advance, Trail.advance, htu.cursors]
  cases u.cursors with
  | nil => exact htu
  | cons c cursors => exact ⟨htu.pending, htu.path, rfl, htu.found, htu.truncated⟩

theorem cut (htu : Alike R t u) : Alike R t.cut u.cut :=
  ⟨htu.pending, htu.path, htu.cursors, htu.found, rfl⟩

theorem drop {pending pending' : List Nat} (htu : Alike R t u)
    (hpending : List.Forall₂ R pending pending') :
    Alike R { t with pending } { u with pending := pending' } :=
  ⟨hpending, htu.path, htu.cursors, htu.found, htu.truncated⟩

theorem record (htu : Alike R t u) : Alike R t.record u.record := by
  refine ⟨htu.pending, htu.path, htu.cursors, ?_, htu.truncated⟩
  have hlast : List.Forall₂ (List.Forall₂ R) [t.path.reverse] [u.path.reverse] :=
    .cons (List.rel_reverse htu.path) .nil
  simpa [Trail.record] using List.rel_append htu.found hlast

theorem halt (htu : Alike R t u) : Alike R t.halt u.halt :=
  ⟨.nil, .nil, rfl, htu.found, rfl⟩

/-! ### Steps -/

theorem isDone_eq (htu : Alike R t u) : t.isDone = u.isDone := by
  have hempty {l m : List Nat} (hlm : List.Forall₂ R l m) : l.isEmpty = m.isEmpty := by
    cases hlm with
    | nil => rfl
    | cons _ _ => rfl
  rw [isDone, isDone, hempty htu.path, hempty htu.pending]

theorem depart (hhk : h.Alike R k) (htu : Alike R t u) : Alike R (t.depart h) (u.depart k) := by
  have hpending := htu.pending
  rw [Trail.depart, Trail.depart]
  cases htpending : t.pending with
  | nil =>
    rw [htpending, List.forall₂_nil_left_iff] at hpending
    rw [hpending]
    exact htu
  | cons a pending =>
    rw [htpending, List.forall₂_cons_left_iff] at hpending
    obtain ⟨b, pending', hab, hrest, hupending⟩ := hpending
    simp only [hupending, hhk.useful hab]
    split
    · exact (htu.drop hrest).enter hab
    · exact htu.drop hrest

theorem arrive (hhk : h.Alike R k) (htu : Alike R t u) : Alike R (t.arrive h) (u.arrive k) := by
  have hsize : t.found.size = u.found.size := htu.found.length_eq
  rw [Trail.arrive, Trail.arrive, hhk.limits, hsize]
  split
  · exact htu.halt
  · exact htu.record.leave

/-- An attempt goes the same way in both searches: use and length agree, and so do the points on the path. -/
theorem attempt (hhk : h.Alike R k) (ht : Sound h t) (hu : Sound k u) (htu : Alike R t u) (hab : R a b) :
    Alike R (t.attempt h a) (u.attempt k b) := by
  -- Sound states mark just what is on their paths, and the paths correspond.
  have hmark : t.onPath.getD a false = u.onPath.getD b false := by
    rw [Bool.eq_iff_iff, ht.marked, hu.marked]
    exact List.rel_mem hhk.unique hab htu.path
  have hlength : t.path.length = u.path.length := htu.path.length_eq
  rw [Trail.attempt, Trail.attempt, hmark, hhk.useful hab, hhk.limits, hlength]
  split
  · exact htu.advance
  · split
    · exact htu.advance.cut
    · exact htu.advance.enter hab

/-- Both searches go on with corresponding successors, or both leave the point. -/
theorem proceed (hhk : h.Alike R k) (ht : Sound h t) (hu : Sound k u) (htu : Alike R t u) (hab : R a b) :
    Alike R (t.proceed h a) (u.proceed k b) := by
  rw [Trail.proceed, Trail.proceed, htu.cursors]
  cases u.cursors with
  | nil => exact ⟨htu.pending, .nil, rfl, htu.found, htu.truncated⟩
  | cons c cursors =>
    have hnext := getElem?_of_forall₂ (hhk.next hab) c
    simp only
    -- Successors correspond one by one, so that both lists end at the same place.
    cases ha : (h.next a)[c]? with
    | none =>
      rw [ha] at hnext
      cases hb : (k.next b)[c]? with
      | none => exact htu.leave
      | some b' =>
        rw [hb] at hnext
        cases hnext
    | some a' =>
      rw [ha] at hnext
      cases hb : (k.next b)[c]? with
      | none =>
        rw [hb] at hnext
        cases hnext
      | some b' =>
        rw [hb] at hnext
        cases hnext with
        | some hab' => exact htu.attempt hhk ht hu hab'

/-- A step keeps the states in correspondence. -/
theorem step (hhk : h.Alike R k) (ht : Sound h t) (hu : Sound k u) (htu : Alike R t u) :
    Alike R (t.step h) (u.step k) := by
  have hpath := htu.path
  rw [Trail.step, Trail.step]
  cases htpath : t.path with
  | nil =>
    rw [htpath, List.forall₂_nil_left_iff] at hpath
    rw [hpath]
    exact htu.depart hhk
  | cons a path =>
    rw [htpath, List.forall₂_cons_left_iff] at hpath
    obtain ⟨b, path', hab, _, hupath⟩ := hpath
    have hgoal : a = h.goal ↔ b = k.goal := Relator.rel_eq hhk.unique hab hhk.goal
    simp only [hupath, hgoal]
    split
    · exact htu.arrive hhk
    · exact htu.proceed hhk ht hu hab

/-! ### Runs -/

/-- Both searches come to their ends in correspondence. -/
theorem run (hhk : h.Alike R k) (ht : Sound h t) (hu : Sound k u) (htu : Alike R t u) :
    Alike R (t.run h ht) (u.run k hu) := by
  -- Along the first run: states that are alike are done together, so the second takes as many steps.
  fun_induction Trail.run h t ht generalizing u with
  | case1 t ht hdone =>
    have hdone' : u.isDone = true := htu.isDone_eq ▸ hdone
    rw [Trail.run, dif_pos hdone']
    exact htu
  | case2 t ht hdone ih =>
    have hdone' : ¬ u.isDone = true := htu.isDone_eq ▸ hdone
    rw [Trail.run.eq_def k u, dif_neg hdone']
    exact ih _ (htu.step hhk ht hu)

end Alike
end Trail

theorem Hunt.Alike.search {h k : Hunt} (hhk : h.Alike R k) {starts starts' : List Nat}
    (hstarts : List.Forall₂ R starts starts') :
    Trail.Alike R (h.search starts) (k.search starts') :=
  (Trail.Alike.start h k hstarts).run hhk _ _

/-- If no start is of use, nothing is found and nothing is cut off. -/
theorem Hunt.search_of_useless {h : Hunt} {starts : List Nat}
    (hstarts : ∀ a ∈ starts, h.isUseful a = false) :
    (h.search starts).found = #[] ∧ (h.search starts).truncated = false := by
  have hrun := Trail.run_invariant (h := h)
    (P := fun t => (∀ a ∈ t.pending, h.isUseful a = false) ∧ t.path = [] ∧ t.found = #[] ∧
      t.truncated = false) ?_ (.start h starts) ⟨hstarts, rfl, rfl, rfl⟩
  · exact hrun.1.2.2
  · rintro t _ ht hdone hm - ⟨hpending, hpath, hfound⟩
    cases hm with
    | skip hpath' hcons ha =>
      exact ⟨fun a ha => hpending a (hcons ▸ List.mem_cons_of_mem _ ha), hpath, hfound⟩
    | @depart a pending hpath' hcons ha =>
      rw [hpending a (hcons ▸ List.mem_cons_self)] at ha
      cases ha
    -- No other move is made while the path is empty.
    | halt hcons hfull => simp [hpath] at hcons
    | record hcons hroom => simp [hpath] at hcons
    | leave hcons hcursors hgoal hnone => simp [hpath] at hcons
    | pass hcons hcursors hgoal hb hno => simp [hpath] at hcons
    | cut hcons hcursors hgoal hb hfresh huseful hlong => simp [hpath] at hcons
    | enter hcons hcursors hgoal hb hfresh huseful hshort => simp [hpath] at hcons

end Search
end Bridgework
