import Bridgework.Proofs.Search.Shortest
import Bridgework.Proofs.Search.Trail
import Mathlib.Data.List.Infix
import Mathlib.Data.List.Nodup

/-!
# The simple paths to a goal, in their order

The recursion over successors lists each simple path within the bounds once, and lists them in
lexicographic order if successors and starting points come in increasing order.

- `Search.Hunt.IsRoute` : a simple path to the goal, within the bound on its length
- `Search.Hunt.mem_completions_iff`, `Search.Hunt.mem_paths_iff` : which paths are listed
- `Search.Hunt.pairwise_paths` : in which order
-/

namespace Bridgework
namespace Search

/-! ## Paths -/

/-- A path through two points is a path up to the first, a step, and a path from the second. -/
theorem isPath_append_pair {α : Type} {next : α → List α} {p q : List α} {a b : α} :
    IsPath next (p ++ a :: b :: q) ↔ IsPath next (p ++ [a]) ∧ b ∈ next a ∧ IsPath next (b :: q) := by
  induction p with
  | nil => simp [IsPath]
  | cons c p ih =>
    cases p with
    | nil => simp [IsPath]
    | cons d p =>
      have hleft : IsPath next (c :: d :: p ++ a :: b :: q) ↔
          d ∈ next c ∧ IsPath next (d :: p ++ a :: b :: q) := Iff.rfl
      have hright : IsPath next (c :: d :: p ++ [a]) ↔
          d ∈ next c ∧ IsPath next (d :: p ++ [a]) := Iff.rfl
      rw [hleft, hright, ih, and_assoc]

theorem IsPath.of_prefix {α : Type} {next : α → List α} {p q : List α} (hp : IsPath next p) (hq : q <+: p) :
    IsPath next q := by
  obtain ⟨tail, rfl⟩ := hq
  induction q with
  | nil => trivial
  | cons a q ih =>
    cases q with
    | nil => trivial
    | cons b q => exact ⟨hp.1, ih hp.2⟩

/-- Each point of a path reaches the last one. -/
theorem reachable_getLast {next : Nat → List Nat} {p : List Nat} {t : Nat}
    (hp : IsPath next p) (hlast : p.getLast? = some t) : ∀ n ∈ p, Reachable next n t := by
  induction p with
  | nil =>
    intro n hn
    cases hn
  | cons a p ih =>
    cases p with
    | nil =>
      intro n hn
      obtain rfl : a = t := Option.some.inj hlast
      rw [List.mem_singleton.1 hn]
      exact .refl a
    | cons b p =>
      have htail := ih hp.2 (by rwa [List.getLast?_cons_cons] at hlast)
      intro n hn
      rcases List.mem_cons.1 hn with rfl | hn
      · exact .step hp.1 (htail b List.mem_cons_self)
      · exact htail n hn

/-- Two lists that part after a common beginning are ordered as the points where they part. -/
theorem lex_of_prefix {q p p' : List Nat} {a b : Nat} (hab : a < b) (hp : q ++ [a] <+: p)
    (hp' : q ++ [b] <+: p') : List.Lex (· < ·) p p' := by
  obtain ⟨s, rfl⟩ := hp
  obtain ⟨s', rfl⟩ := hp'
  induction q with
  | nil => exact .rel hab
  | cons c q ih => exact .cons ih

namespace Hunt

variable {h : Hunt} {a b fuel : Nat} {p path : List Nat}

/-! ## Which paths are listed -/

/-- A path of useful points that ends in the goal, meets no point twice and is not too long. -/
structure IsRoute (h : Hunt) (p : List Nat) : Prop where
  steps : IsPath h.next p
  goal : p.getLast? = some h.goal
  nodup : p.Nodup
  short : p.length ≤ h.limits.steps + 1
  useful : ∀ a ∈ p, h.isUseful a = true

/-- What has to hold of a path, given with its last point first, for its continuations to be routes. -/
structure IsStem (h : Hunt) (path : List Nat) : Prop where
  steps : IsPath h.next path.reverse
  nodup : path.Nodup
  short : path.length ≤ h.limits.steps + 1
  useful : ∀ a ∈ path, h.isUseful a = true

theorem IsStem.singleton (ha : h.isUseful a = true) : h.IsStem [a] where
  steps := trivial
  nodup := List.nodup_singleton a
  short := Nat.le_add_left 1 h.limits.steps
  useful := by simpa using ha

/-- A path that is admitted goes on to be a stem. -/
theorem IsStem.cons (hs : h.IsStem (a :: path)) (hb : b ∈ h.next a) (hadmits : h.Admits (a :: path) b) :
    h.IsStem (b :: a :: path) where
  steps := by
    have hlast := (isPath_append_pair (p := path.reverse) (q := [])).2
      ⟨by simpa using hs.steps, hb, trivial⟩
    simpa using hlast
  nodup := List.nodup_cons.2 ⟨hadmits.1, hs.nodup⟩
  short := Nat.succ_le_succ hadmits.2.2
  useful := by
    intro c hc
    rcases List.mem_cons.1 hc with rfl | hc
    · exact hadmits.2.1
    · exact hs.useful c hc

/-- A stem that has come to the goal is a route. -/
theorem IsStem.isRoute (hs : h.IsStem (h.goal :: path)) : h.IsRoute (h.goal :: path).reverse where
  steps := hs.steps
  goal := by simp
  nodup := List.nodup_reverse.2 hs.nodup
  short := by simpa using hs.short
  useful a ha := hs.useful a (List.mem_reverse.1 ha)

/-- A route has no more points than there are useful ones. -/
theorem IsRoute.length_le (hp : h.IsRoute p) : p.length ≤ h.useful.size := by
  have hsub : p ⊆ List.range h.useful.size := fun a ha =>
    List.mem_range.2 (lt_size_of_isUseful (hp.useful a ha))
  have hle := hp.nodup.length_le_of_subset hsub
  rwa [List.length_range] at hle

/-- The goal comes only at the end of a route. -/
theorem IsRoute.eq_of_prefix (hp : h.IsRoute p) (hpre : (h.goal :: path).reverse <+: p) :
    p = (h.goal :: path).reverse := by
  obtain ⟨tail, rfl⟩ := hpre
  cases tail with
  | nil => exact List.append_nil _
  | cons b tail =>
    have hlast : h.goal ∈ b :: tail := by
      refine List.mem_of_getLast? ?_
      have hgoal := hp.goal
      rwa [List.getLast?_append_of_ne_nil _ (List.cons_ne_nil b tail)] at hgoal
    have hdisjoint := (List.nodup_append.1 hp.nodup).2.2
    exact absurd rfl (hdisjoint h.goal (by simp) h.goal hlast)

/-- A route that continues a path goes on to a successor that the path admits. -/
theorem IsRoute.exists_next (hp : h.IsRoute p) (hgoal : a ≠ h.goal) (hpre : (a :: path).reverse <+: p) :
    ∃ b ∈ h.next a, h.Admits (a :: path) b ∧ (b :: a :: path).reverse <+: p := by
  obtain ⟨tail, rfl⟩ := hpre
  -- The goal is not reached, so that the route goes on by some point.
  cases tail with
  | nil =>
    have hlast := hp.goal
    rw [List.append_nil, List.getLast?_reverse] at hlast
    exact absurd (Option.some.inj hlast) hgoal
  | cons b tail =>
    have hsteps := hp.steps
    rw [List.reverse_cons, List.append_assoc, List.singleton_append, isPath_append_pair] at hsteps
    have hdisjoint := (List.nodup_append.1 hp.nodup).2.2
    refine ⟨b, hsteps.2.1, ⟨?_, hp.useful b (by simp), ?_⟩, ⟨tail, by simp⟩⟩
    · intro hb
      exact hdisjoint b (List.mem_reverse.2 hb) b List.mem_cons_self rfl
    · have hshort := hp.short
      simp only [List.length_append, List.length_reverse, List.length_cons] at hshort ⊢
      omega

/-- The completions of a stem are the routes that begin with it. -/
theorem mem_completions_iff (hs : h.IsStem (a :: path)) (hfuel : h.useful.size ≤ fuel + path.length) :
    p ∈ h.completions fuel (a :: path) ↔ (a :: path).reverse <+: p ∧ h.IsRoute p := by
  induction fuel generalizing a path with
  | zero =>
    -- Without fuel the path already has more points than there are useful ones.
    constructor
    · intro hp
      cases hp
    · rintro ⟨hpre, hp⟩
      have hlen := hpre.length_le
      have hle := hp.length_le
      rw [List.length_reverse, List.length_cons] at hlen
      omega
  | succ fuel ih =>
    rw [completions]
    by_cases hgoal : a = h.goal
    · subst hgoal
      rw [if_pos rfl, List.mem_singleton]
      constructor
      · rintro rfl
        exact ⟨List.prefix_rfl, hs.isRoute⟩
      · rintro ⟨hpre, hp⟩
        exact hp.eq_of_prefix hpre
    · rw [if_neg hgoal, List.mem_flatMap]
      have hfuel' : h.useful.size ≤ fuel + (a :: path).length := by
        rw [List.length_cons]
        omega
      constructor
      · rintro ⟨b, hb, hp⟩
        by_cases hadmits : h.Admits (a :: path) b
        · rw [if_pos hadmits, ih (hs.cons hb hadmits) hfuel'] at hp
          have hpre : (a :: path).reverse <+: (b :: a :: path).reverse := by
            rw [List.reverse_cons (a := b)]
            exact List.prefix_append _ _
          exact ⟨hpre.trans hp.1, hp.2⟩
        · rw [if_neg hadmits] at hp
          cases hp
      · rintro ⟨hpre, hp⟩
        obtain ⟨b, hb, hadmits, hpre'⟩ := hp.exists_next hgoal hpre
        refine ⟨b, hb, ?_⟩
        rw [if_pos hadmits, ih (hs.cons hb hadmits) hfuel']
        exact ⟨hpre', hp⟩

/-- The paths from some starting points are the routes that begin there. -/
theorem mem_paths_iff {starts : List Nat} :
    p ∈ h.paths starts ↔ (∃ a ∈ starts, p.head? = some a) ∧ h.IsRoute p := by
  -- A path that goes on from a single point is one with that point at its head.
  have hhead (a : Nat) : [a].reverse <+: p ↔ p.head? = some a := by
    cases p with
    | nil => simp
    | cons b p => simp [List.cons_prefix_cons, eq_comm]
  rw [paths, List.mem_flatMap]
  constructor
  · rintro ⟨a, ha, hp⟩
    by_cases huseful : h.isUseful a = true
    · rw [if_pos huseful, mem_completions_iff (.singleton huseful) (Nat.le_add_right _ _), hhead] at hp
      exact ⟨⟨a, ha, hp.1⟩, hp.2⟩
    · rw [if_neg huseful] at hp
      cases hp
  · rintro ⟨⟨a, ha, hpa⟩, hp⟩
    have huseful : h.isUseful a = true := hp.useful a (List.mem_of_head? hpa)
    refine ⟨a, ha, ?_⟩
    rw [if_pos huseful, mem_completions_iff (.singleton huseful) (Nat.le_add_right _ _), hhead]
    exact ⟨hpa, hp⟩

/-! ## In which order -/

/-- Completions go on from the path. -/
theorem prefix_of_mem_completions (hp : p ∈ h.completions fuel path) : path.reverse <+: p := by
  induction fuel generalizing path with
  | zero => cases hp
  | succ fuel ih =>
    cases path with
    | nil => cases hp
    | cons a path =>
      rw [completions] at hp
      by_cases hgoal : a = h.goal
      · rw [if_pos hgoal, List.mem_singleton] at hp
        exact hp ▸ List.prefix_rfl
      · rw [if_neg hgoal, List.mem_flatMap] at hp
        obtain ⟨b, _, hp⟩ := hp
        -- Only a successor that is admitted is followed.
        split at hp
        · have hpre := ih hp
          rw [List.reverse_cons] at hpre
          exact (List.prefix_append _ _).trans hpre
        · cases hp

/-- Completions come in the order of words. -/
theorem pairwise_completions (hnext : ∀ a, (h.next a).Pairwise (· < ·)) (fuel : Nat) (path : List Nat) :
    (h.completions fuel path).Pairwise (List.Lex (· < ·)) := by
  -- Successors increase, and what follows one successor goes on from it.
  induction fuel generalizing path with
  | zero => exact .nil
  | succ fuel ih =>
    cases path with
    | nil => exact .nil
    | cons a path =>
      rw [completions]
      split
      · exact List.pairwise_singleton _ _
      · rw [List.pairwise_flatMap]
        refine ⟨fun b _ => ?_, (hnext a).imp ?_⟩
        · split
          · exact ih _
          · exact .nil
        -- Different successors decide the order, whatever comes after them.
        · intro b c hbc p hp p' hp'
          split at hp
          · split at hp'
            · have hpre := prefix_of_mem_completions hp
              have hpre' := prefix_of_mem_completions hp'
              rw [List.reverse_cons] at hpre hpre'
              exact lex_of_prefix hbc hpre hpre'
            · cases hp'
          · cases hp

/-- Paths come in the order of words. -/
theorem pairwise_paths (hnext : ∀ a, (h.next a).Pairwise (· < ·)) {starts : List Nat}
    (hstarts : starts.Pairwise (· < ·)) : (h.paths starts).Pairwise (List.Lex (· < ·)) := by
  rw [paths, List.pairwise_flatMap]
  refine ⟨fun a _ => ?_, hstarts.imp ?_⟩
  · split
    · exact pairwise_completions hnext _ _
    · exact .nil
  · intro a b hab p hp p' hp'
    split at hp
    · split at hp'
      · exact lex_of_prefix (q := []) hab (prefix_of_mem_completions hp) (prefix_of_mem_completions hp')
      · cases hp'
    · cases hp

end Hunt
end Search
end Bridgework
