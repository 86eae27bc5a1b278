import Bridgework.Proofs.Search.Simple

/-!
# What a bounded search cuts off

A search is cut short in two ways: it comes to a path for which there is no room, or it stands at a useful
point that would make its path too long. It notes both in one flag. Whether the flag will be up in the end
can be read off every state on the way: it is up already, or there are more paths than there is room for, or
a path that is too long lies ahead. No step changes the answer.

- `Search.Hunt.IsOverrun` : a path at whose end the search has to turn back
- `Search.Trail.CutsOff` : the flag is up or will be
- `Search.Trail.cutsOff_of_move` : a step does not change this
- `Search.Hunt.truncated_search_iff` : when the flag is up in the end
-/

namespace Bridgework
namespace Search

variable {h : Hunt} {t u : Trail} {a b : Nat} {path : List Nat}

/-! ## Paths that are too long -/

namespace Hunt

/-- A path of useful points with one step more than allowed, which meets no point twice and does not come
to the goal before its end. -/
structure IsOverrun (h : Hunt) (p : List Nat) : Prop where
  steps : IsPath h.next p
  nodup : p.Nodup
  avoids : h.goal ∉ p.dropLast
  useful : ∀ a ∈ p, h.isUseful a = true
  length : p.length = h.limits.steps + 2

/-- A path, given with its last point first, goes on to one that is too long. -/
def Overruns (h : Hunt) (path : List Nat) : Prop := ∃ p, path.reverse <+: p ∧ h.IsOverrun p

/-- The next point of a path that is too long is useful and new. -/
theorem IsOverrun.mem_of_prefix {p : List Nat} (hp : h.IsOverrun p) (hpre : (a :: path).reverse <+: p) :
    h.isUseful a = true ∧ a ∉ path := by
  refine ⟨hp.useful a (hpre.mem (by simp)), ?_⟩
  have hnodup : (a :: path).reverse.Nodup := hp.nodup.sublist hpre.sublist
  exact (List.nodup_cons.1 (List.nodup_reverse.1 hnodup)).1

/-- The goal is not passed on the way to the end. -/
theorem IsOverrun.ne_goal {p : List Nat} (hp : h.IsOverrun p) (hpre : (b :: a :: path).reverse <+: p) :
    a ≠ h.goal := by
  rintro rfl
  obtain ⟨tail, rfl⟩ := hpre
  apply hp.avoids
  -- The point after the goal is one more, so the goal is not at the end.
  have hsplit : (b :: h.goal :: path).reverse ++ tail = (h.goal :: path).reverse ++ (b :: tail) := by simp
  rw [hsplit, List.dropLast_append_of_ne_nil (List.cons_ne_nil b tail)]
  exact List.mem_append_left _ (by simp)

/-- A simple path to the goal that is too long begins with one at whose end the search turns back. -/
theorem IsOverrun.of_long {p : List Nat} (hsteps : IsPath h.next p) (hgoal : p.getLast? = some h.goal)
    (hnodup : p.Nodup) (huseful : ∀ a ∈ p, h.isUseful a = true) (hlong : h.limits.steps + 1 < p.length) :
    h.IsOverrun (p.take (h.limits.steps + 2)) where
  steps := hsteps.of_prefix (List.take_prefix _ _)
  nodup := hnodup.sublist (List.take_sublist _ _)
  avoids := by
    -- The goal stands at the end of the path, and what is taken without its last point stops before.
    obtain ⟨q, rfl⟩ := List.getLast?_eq_some_iff.1 hgoal
    have hfresh : h.goal ∉ q := fun hmem =>
      (List.nodup_append.1 hnodup).2.2 h.goal hmem h.goal List.mem_cons_self rfl
    rw [List.dropLast_eq_take, List.length_take_of_le hlong, List.take_take]
    rw [List.length_append, List.length_singleton] at hlong
    rw [List.take_append_of_le_length (by omega)]
    exact fun hmem => hfresh (List.mem_of_mem_take hmem)
  useful a ha := huseful a (List.mem_of_mem_take ha)
  length := List.length_take_of_le hlong

/-- As long as a path is not too long itself, it has to go on by a successor of its last point. -/
theorem overruns_iff (hshort : (a :: path).length ≤ h.limits.steps + 1) :
    h.Overruns (a :: path) ↔ ∃ b ∈ h.next a, h.Overruns (b :: a :: path) := by
  constructor
  · rintro ⟨p, ⟨tail, rfl⟩, hp⟩
    cases tail with
    | nil =>
      have hlength := hp.length
      rw [List.append_nil, List.length_reverse] at hlength
      omega
    | cons b tail =>
      have hsteps := hp.steps
      rw [List.reverse_cons, List.append_assoc, List.singleton_append, isPath_append_pair] at hsteps
      exact ⟨b, hsteps.2.1, _, ⟨tail, by simp⟩, hp⟩
  · rintro ⟨b, _, p, hpre, hp⟩
    refine ⟨p, List.IsPrefix.trans ?_ hpre, hp⟩
    rw [List.reverse_cons (a := b)]
    exact List.prefix_append _ _

theorem IsStem.nil : h.IsStem [] where
  steps := trivial
  nodup := List.nodup_nil
  short := Nat.zero_le _
  useful _ ha := absurd ha List.not_mem_nil

theorem IsStem.tail (hs : h.IsStem (a :: path)) : h.IsStem path where
  steps := by
    have hsteps := hs.steps
    rw [List.reverse_cons] at hsteps
    exact hsteps.of_prefix (List.prefix_append _ _)
  nodup := (List.nodup_cons.1 hs.nodup).2
  short := (Nat.le_succ _).trans hs.short
  useful b hb := hs.useful b (List.mem_cons_of_mem a hb)

/-- A path of the greatest length with a further successor that is useful is one step too long. -/
theorem IsStem.isOverrun (hs : h.IsStem (a :: path)) (hgoal : h.goal ∉ a :: path) (hb : b ∈ h.next a)
    (hfresh : b ∉ a :: path) (huseful : h.isUseful b = true)
    (hlong : h.limits.steps < (a :: path).length) : h.IsOverrun (b :: a :: path).reverse where
  steps := by
    have hlast := (isPath_append_pair (p := path.reverse) (q := [])).2
      ⟨by simpa using hs.steps, hb, trivial⟩
    simpa using hlast
  nodup := List.nodup_reverse.2 (List.nodup_cons.2 ⟨hfresh, hs.nodup⟩)
  avoids := by
    rw [List.reverse_cons, List.dropLast_concat, List.mem_reverse]
    exact hgoal
  useful := by
    intro c hc
    rcases List.mem_cons.1 (List.mem_reverse.1 hc) with rfl | hc
    · exact huseful
    · exact hs.useful c hc
  length := by
    have hshort := hs.short
    rw [List.length_reverse, List.length_cons]
    omega

end Hunt

namespace Trail

/-! ## The path of a search -/

/-- The path of a search takes steps only, is not too long, and stops at the goal. -/
structure Straight (h : Hunt) (t : Trail) : Prop where
  stem : h.IsStem t.path
  avoids : h.goal ∉ t.path.tail

theorem Straight.start (h : Hunt) (starts : List Nat) : Straight h (Trail.start h starts) :=
  ⟨.nil, List.not_mem_nil⟩

/-- A move keeps the path of the search straight. -/
theorem Straight.of_move (ht : Straight h t) (hm : Move h t u) : Straight h u := by
  -- What is left of a straight path without its last point is straight.
  have hback (a : Nat) (path : List Nat) (hpath : t.path = a :: path) :
      h.IsStem path ∧ h.goal ∉ path.tail := by
    have hstem := ht.stem
    have havoids := ht.avoids
    rw [hpath] at hstem havoids
    exact ⟨hstem.tail, fun hgoal => havoids (List.mem_of_mem_tail hgoal)⟩
  cases hm with
  | skip hpath hpending ha => exact ⟨ht.stem, ht.avoids⟩
  | depart hpath hpending ha =>
    rw [Trail.enter]
    simp only [hpath]
    exact ⟨.singleton ha, List.not_mem_nil⟩
  | halt hpath hfull => exact ⟨.nil, List.not_mem_nil⟩
  | @record path hpath hroom =>
    have hrecord : t.record.path = h.goal :: path := hpath
    rw [leave_eq hrecord]
    exact ⟨(hback h.goal path hpath).1, (hback h.goal path hpath).2⟩
  | @leave a c path cursors hpath hcursors hgoal hnone =>
    rw [leave_eq hpath]
    exact ⟨(hback a path hpath).1, (hback a path hpath).2⟩
  | pass hpath hcursors hgoal hb hno =>
    rw [advance_eq hcursors]
    exact ⟨ht.stem, ht.avoids⟩
  | cut hpath hcursors hgoal hb hfresh huseful hlong =>
    rw [advance_eq hcursors]
    exact ⟨ht.stem, ht.avoids⟩
  | @enter a b c path cursors hpath hcursors hgoal hb hfresh huseful hshort =>
    have hstem := ht.stem
    have havoids := ht.avoids
    rw [hpath] at hstem havoids hfresh hshort
    rw [advance_eq hcursors, Trail.enter]
    simp only [hpath]
    -- The point is new and useful, and the path has room for it; the goal was not passed, as the
    -- search would have turned back there.
    refine ⟨hstem.cons (List.mem_of_getElem? hb) ⟨hfresh, huseful, hshort⟩, ?_⟩
    intro hmem
    rcases List.mem_cons.1 hmem with hsame | hmem
    · exact hgoal hsame.symm
    · exact havoids hmem

/-! ## Overruns ahead -/

/-- From some point of a path, by a successor that was not tried yet, there is a path that is too long. -/
def OverrunsAhead (h : Hunt) : List Nat → List Nat → Prop
  | a :: path, c :: cursors =>
    (∃ b ∈ (h.next a).drop c, h.Overruns (b :: a :: path)) ∨ OverrunsAhead h path cursors
  | _, _ => False

/-- Something was cut off or will be: a path that is too long, or one for which there is no room. -/
def CutsOff (h : Hunt) (t : Trail) : Prop :=
  t.truncated = true ∨ OverrunsAhead h t.path t.cursors ∨ (∃ a ∈ t.pending, h.Overruns [a]) ∨
    h.limits.paths < (t.total h).length

/-- From the goal no path goes on. -/
theorem overrunsAhead_goal {cursors : List Nat} {c : Nat} :
    OverrunsAhead h (h.goal :: path) (c :: cursors) ↔ OverrunsAhead h path cursors := by
  rw [OverrunsAhead]
  refine or_iff_right ?_
  rintro ⟨b, _, p, hpre, hp⟩
  exact hp.ne_goal hpre rfl

/-- Without a further successor nothing lies ahead at a point. -/
theorem overrunsAhead_tried {cursors : List Nat} {c : Nat} (hnone : (h.next a)[c]? = none) :
    OverrunsAhead h (a :: path) (c :: cursors) ↔ OverrunsAhead h path cursors := by
  have hdrop : (h.next a).drop c = [] := List.drop_eq_nil_iff.2 (List.getElem?_eq_none_iff.1 hnone)
  rw [OverrunsAhead, hdrop]
  simp

/-- What lies ahead of a point goes through its next successor, or through one after it. -/
theorem overrunsAhead_next {cursors : List Nat} {c : Nat} (hb : (h.next a)[c]? = some b) :
    OverrunsAhead h (a :: path) (c :: cursors) ↔
      h.Overruns (b :: a :: path) ∨ OverrunsAhead h (a :: path) ((c + 1) :: cursors) := by
  obtain ⟨hc, rfl⟩ := List.getElem?_eq_some_iff.1 hb
  have hdrop : (h.next a).drop c = (h.next a)[c] :: (h.next a).drop (c + 1) :=
    List.drop_eq_getElem_cons hc
  simp only [OverrunsAhead, hdrop, List.exists_mem_cons_iff, or_assoc]

theorem overrunsAhead_enter {cursors : List Nat} (hshort : (b :: path).length ≤ h.limits.steps + 1) :
    OverrunsAhead h (b :: path) (0 :: cursors) ↔ h.Overruns (b :: path) ∨ OverrunsAhead h path cursors := by
  rw [OverrunsAhead, List.drop_zero, Hunt.overruns_iff hshort]

/-! ## Steps -/

/-- A move does not change whether something is cut off in the end. -/
theorem cutsOff_of_move (ht : Sound h t) (hs : Straight h t) (hm : Move h t u) :
    CutsOff h u ↔ CutsOff h t := by
  -- A step that gives up raises the flag, because there was no room for the path it had come to.
  rcases total_of_move ht hm with htotal | ⟨_, hmore, rfl⟩
  case inr => exact iff_of_true (.inl rfl) (.inr (.inr (.inr hmore)))
  rw [CutsOff, CutsOff, htotal]
  cases hm with
  | @skip a pending hpath hpending ha =>
    have hnone : ¬ h.Overruns [a] := by
      rintro ⟨p, hpre, hp⟩
      rw [(hp.mem_of_prefix hpre).1] at ha
      cases ha
    simp [hpending, hnone]
  | @depart a pending hpath hpending ha =>
    have hcursors : t.cursors = [] := List.eq_nil_of_length_eq_zero (by rw [ht.inStep, hpath]; rfl)
    have henter : OverrunsAhead h [a] [0] ↔ h.Overruns [a] ∨ OverrunsAhead h [] [] :=
      overrunsAhead_enter (Nat.le_add_left 1 _)
    simp [Trail.enter, hpath, hcursors, hpending, henter, OverrunsAhead, or_assoc]
  | halt hpath hfull =>
    exact iff_of_true (.inl rfl) (.inr (.inr (.inr (lt_length_total ht hpath hfull))))
  | @record path hpath hroom =>
    obtain ⟨c, cursors, hcursors⟩ := ht.exists_cursor hpath
    have hrecord : t.record.path = h.goal :: path := hpath
    rw [leave_eq hrecord]
    simp [Trail.record, hpath, hcursors, overrunsAhead_goal]
  | leave hpath hcursors hgoal hnone =>
    rw [leave_eq hpath]
    simp [hpath, hcursors, overrunsAhead_tried hnone]
  | @pass a b c path cursors hpath hcursors hgoal hb hno =>
    have hnone : ¬ h.Overruns (b :: a :: path) := by
      rintro ⟨p, hpre, hp⟩
      obtain ⟨huseful, hfresh⟩ := hp.mem_of_prefix hpre
      rcases hno with hmem | huseless
      · exact hfresh (hpath ▸ hmem)
      · rw [huseful] at huseless
        cases huseless
    rw [advance_eq hcursors]
    simp [hpath, hcursors, overrunsAhead_next hb, hnone]
  | @cut a b c path cursors hpath hcursors hgoal hb hfresh huseful hlong =>
    have hstem := hs.stem
    have havoids := hs.avoids
    rw [hpath] at hstem havoids hfresh hlong
    have hover : h.Overruns (b :: a :: path) := by
      refine ⟨_, List.prefix_rfl, hstem.isOverrun ?_ (List.mem_of_getElem? hb) hfresh huseful hlong⟩
      intro hmem
      rcases List.mem_cons.1 hmem with hsame | hmem
      · exact hgoal hsame.symm
      · exact havoids hmem
    refine iff_of_true (.inl rfl) (.inr (.inl ?_))
    rw [hpath, hcursors, overrunsAhead_next hb]
    exact .inl hover
  | @enter a b c path cursors hpath hcursors hgoal hb hfresh huseful hshort =>
    have hlen : (b :: a :: path).length ≤ h.limits.steps + 1 := by
      rw [hpath] at hshort
      exact Nat.succ_le_succ hshort
    rw [advance_eq hcursors]
    simp only [Trail.enter, hpath, hcursors, overrunsAhead_enter hlen, overrunsAhead_next hb]

/-- In the end nothing lies ahead, and what was found had room. -/
theorem cutsOff_iff_of_isDone (hdone : t.isDone = true) (hle : t.found.size ≤ h.limits.paths) :
    CutsOff h t ↔ t.truncated = true := by
  have hempty : t.path = [] ∧ t.pending = [] := by simpa [isDone] using hdone
  have hroom : ¬ h.limits.paths < t.found.size := Nat.not_lt.2 hle
  simp [CutsOff, OverrunsAhead, total, rest, ahead, Hunt.paths, hempty, hroom]

end Trail

/-! ## The search -/

/-- The flag is up in the end exactly if there are more paths to the goal than there is room for, or there
is a path from a start that is too long. -/
theorem Hunt.truncated_search_iff (h : Hunt) (starts : List Nat) :
    (h.search starts).truncated = true ↔
      (∃ a ∈ starts, h.Overruns [a]) ∨ h.limits.paths < (h.paths starts).length := by
  have hstart : (Trail.start h starts).CutsOff h ↔
      (∃ a ∈ starts, h.Overruns [a]) ∨ h.limits.paths < (h.paths starts).length := by
    simp [Trail.CutsOff, Trail.start, Trail.OverrunsAhead, Trail.total, Trail.rest, Trail.ahead]
  -- What the flag will be is the same all along the run, and the path stays straight.
  obtain ⟨⟨_, hsame, hle⟩, hdone⟩ := Trail.run_invariant
    (P := fun u => Trail.Straight h u ∧ (u.CutsOff h ↔ (Trail.start h starts).CutsOff h) ∧
      u.found.size ≤ h.limits.paths)
    (fun ht _ hm _ hP => ⟨hP.1.of_move hm, (Trail.cutsOff_of_move ht hP.1 hm).trans hP.2.1,
      Trail.size_found_le_of_move hm hP.2.2⟩)
    (Trail.Sound.start h starts) ⟨.start h starts, Iff.rfl, Nat.zero_le _⟩
  rw [← hstart, ← hsame]
  exact (Trail.cutsOff_iff_of_isDone hdone hle).symm

end Search
end Bridgework
