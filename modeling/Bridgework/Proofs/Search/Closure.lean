import Bridgework.Search.Closure

/-!
# Closures hold exactly what can be reached

The traversal keeps what it has met in two parts: the points that were taken from the queue, and the
queue itself. Every successor of a point taken is met, so the traversal is complete once the queue is
empty, and it is empty once as many points were taken as there are.

- `Search.Frontier` : the invariant of the traversal
- `Search.mem_closure_iff` : the closure holds the points that can be reached, and no others
-/

namespace Bridgework
namespace Search

variable {α : Type} {next : α → List α}

/-! ## Reachability -/

namespace Reachable

theorem trans {a b c : α} (hab : Reachable next a b) (hbc : Reachable next b c) :
    Reachable next a c := by
  induction hab with
  | refl _ => exact hbc
  | step h _ ih => exact .step h (ih hbc)

theorem tail {a b c : α} (hab : Reachable next a b) (hc : c ∈ next b) : Reachable next a c :=
  hab.trans (.step hc (.refl c))

/-- A closed set is not left. -/
theorem mem_of_closed {s : List α} (hs : ∀ a ∈ s, ∀ b ∈ next a, b ∈ s) {a b : α}
    (h : Reachable next a b) (ha : a ∈ s) : b ∈ s := by
  induction h with
  | refl _ => exact ha
  | step hb _ ih => exact ih (hs _ ha _ hb)

end Reachable

variable [DecidableEq α]

/-! ## New points -/

/-- New points are those that were not met. -/
theorem mem_fresh {met l : List α} {x : α} : x ∈ fresh met l ↔ x ∈ l ∧ x ∉ met := by
  induction l generalizing met with
  | nil => simp [fresh]
  | cons a l ih =>
    rw [fresh]
    -- A point that was met is passed over; a new one counts as met for those behind it.
    by_cases ha : a ∈ met
    · rw [if_pos ha, ih]
      constructor
      · rintro ⟨hx, hmet⟩
        exact ⟨List.mem_cons_of_mem a hx, hmet⟩
      · rintro ⟨hx, hmet⟩
        rcases List.mem_cons.1 hx with rfl | hx
        · exact absurd ha hmet
        · exact ⟨hx, hmet⟩
    · rw [if_neg ha, List.mem_cons, List.mem_cons, ih, List.mem_cons]
      by_cases hxa : x = a
      · subst hxa
        simp [ha]
      · simp [hxa]

theorem nodup_fresh (met l : List α) : (fresh met l).Nodup := by
  induction l generalizing met with
  | nil => exact List.nodup_nil
  | cons a l ih =>
    rw [fresh]
    split
    · exact ih met
    · refine List.nodup_cons.2 ⟨?_, ih (a :: met)⟩
      intro ha
      exact (mem_fresh.1 ha).2 List.mem_cons_self

/-! ## The traversal -/

/-- What was met consists of the points taken and the queue, no point is met twice, and the successors
of the points taken are met. -/
structure Frontier (next : α → List α) (taken queue met : List α) : Prop where
  split : met = taken ++ queue
  nodup : met.Nodup
  closed : ∀ a ∈ taken, ∀ b ∈ next a, b ∈ met

namespace Frontier

omit [DecidableEq α] in
theorem queue_subset {taken queue met : List α} (h : Frontier next taken queue met) :
    queue ⊆ met := by
  intro x hx
  rw [h.split]
  exact List.mem_append_right taken hx

theorem start (starts : List α) : Frontier next [] (fresh [] starts) (fresh [] starts) where
  split := rfl
  nodup := nodup_fresh [] starts
  closed _ ha := absurd ha List.not_mem_nil

/-- Taking a point from the queue puts its new successors into it. -/
theorem take {taken queue met : List α} {a : α} (h : Frontier next taken (a :: queue) met) :
    Frontier next (taken ++ [a]) (queue ++ fresh met (next a)) (met ++ fresh met (next a)) where
  split := by
    rw [h.split]
    simp
  nodup := by
    refine List.nodup_append.2 ⟨h.nodup, nodup_fresh met (next a), ?_⟩
    rintro x hx _ hy rfl
    exact (mem_fresh.1 hy).2 hx
  closed := by
    intro b hb c hc
    rcases List.mem_append.1 hb with hb | hb
    · exact List.mem_append_left _ (h.closed b hb c hc)
    · have hba : b = a := List.mem_singleton.1 hb
      subst hba
      -- A successor of the point just taken was met before, or it is new.
      by_cases hmet : c ∈ met
      · exact List.mem_append_left _ hmet
      · exact List.mem_append_right _ (mem_fresh.2 ⟨hc, hmet⟩)

end Frontier

/-- Nothing that was met is forgotten. -/
theorem subset_explore (fuel : Nat) (queue met : List α) : met ⊆ explore next fuel queue met := by
  induction fuel generalizing queue met with
  | zero =>
    intro x hx
    simpa only [explore] using hx
  | succ fuel ih =>
    cases queue with
    | nil =>
      intro x hx
      simpa only [explore] using hx
    | cons a queue =>
      intro x hx
      exact ih _ _ (List.mem_append_left _ hx)

/-- Whatever is met can be reached. -/
theorem explore_sound {fuel : Nat} {queue met : List α} (hq : queue ⊆ met) {x : α}
    (hx : x ∈ explore next fuel queue met) : ∃ a ∈ met, Reachable next a x := by
  induction fuel generalizing queue met with
  | zero => exact ⟨x, by simpa only [explore] using hx, .refl x⟩
  | succ fuel ih =>
    cases queue with
    | nil => exact ⟨x, by simpa only [explore] using hx, .refl x⟩
    | cons a queue =>
      have hq' : queue ++ fresh met (next a) ⊆ met ++ fresh met (next a) := by
        intro y hy
        rcases List.mem_append.1 hy with hy | hy
        · exact List.mem_append_left _ (hq (List.mem_cons_of_mem a hy))
        · exact List.mem_append_right _ hy
      obtain ⟨b, hb, hbx⟩ := ih hq' hx
      rcases List.mem_append.1 hb with hb | hb
      · exact ⟨b, hb, hbx⟩
      · exact ⟨a, hq List.mem_cons_self, .step (mem_fresh.1 hb).1 hbx⟩

/-- With fuel for every point of a closed space the traversal ends with an empty queue. -/
theorem explore_closed {space taken queue met : List α} (fuel : Nat)
    (hu : ∀ a ∈ space, ∀ b ∈ next a, b ∈ space) (h : Frontier next taken queue met)
    (hmet : met ⊆ space) (hfuel : space.length ≤ fuel + taken.length) :
    ∀ a ∈ explore next fuel queue met, ∀ b ∈ next a, b ∈ explore next fuel queue met := by
  -- The fuel counts the points that were not taken yet. Whatever was taken has all of its
  -- successors among what was met, so that an empty queue is all that is needed.
  induction fuel generalizing taken queue met with
  | zero =>
    have hlen : met.length ≤ space.length := h.nodup.length_le_of_subset hmet
    have hempty : queue = [] := by
      have hsplit : met.length = taken.length + queue.length := by
        rw [h.split, List.length_append]
      exact List.eq_nil_of_length_eq_zero (by omega)
    have hall : met = taken := by rw [h.split, hempty, List.append_nil]
    intro a ha b hb
    simp only [explore] at ha ⊢
    exact h.closed a (hall ▸ ha) b hb
  | succ fuel ih =>
    cases queue with
    | nil =>
      have hall : met = taken := by rw [h.split, List.append_nil]
      intro a ha b hb
      simp only [explore] at ha ⊢
      exact h.closed a (hall ▸ ha) b hb
    | cons a queue =>
      have hnew : fresh met (next a) ⊆ space := by
        intro b hb
        exact hu a (hmet (h.queue_subset List.mem_cons_self)) b (mem_fresh.1 hb).1
      have hmet' : met ++ fresh met (next a) ⊆ space := List.append_subset.2 ⟨hmet, hnew⟩
      have hfuel' : space.length ≤ fuel + (taken ++ [a]).length := by
        rw [List.length_append, List.length_singleton]
        omega
      exact ih h.take hmet' hfuel'

/-! ## The closure -/

theorem mem_closure_iff {space starts : List α} {fuel : Nat} {x : α}
    (hu : ∀ a ∈ space, ∀ b ∈ next a, b ∈ space) (hs : starts ⊆ space)
    (hfuel : space.length ≤ fuel) :
    x ∈ closure next fuel starts ↔ ∃ a ∈ starts, Reachable next a x := by
  constructor
  · intro hx
    obtain ⟨a, ha, hax⟩ := explore_sound (fun _ h => h) hx
    exact ⟨a, (mem_fresh.1 ha).1, hax⟩
  · rintro ⟨a, ha, hax⟩
    have hstart : fresh [] starts ⊆ space := fun b hb => hs (mem_fresh.1 hb).1
    have hclosed := explore_closed fuel hu (Frontier.start starts) hstart (by simpa using hfuel)
    have hmem : a ∈ fresh [] starts := mem_fresh.2 ⟨ha, List.not_mem_nil⟩
    exact hax.mem_of_closed hclosed (subset_explore fuel _ _ hmem)

end Search
end Bridgework
