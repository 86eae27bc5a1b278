import Bridgework.Collection.SortedSet

/-!
# Sorting by a comparison

Sorting puts the members of a list in the order of a comparison and keeps those that compare equal in the
order in which they stand. So what a search from the front finds in the sorted list is the first of the
least in the list as it was.

- `FirstLeast` : the first of the least members with a property
- `pairwise_mergeSort_cmp`, `filter_mergeSort` : what sorting puts in order, and what it leaves in order
- `mergeSort_eq_of_cmp` : members that do not compare equal have one order
- `increasing_mergeSort` : members that are all different come strictly one after another
- `FirstLeast.find?_mergeSort` : what a search in the sorted list finds
-/

namespace Bridgework

variable {α : Type} {cmp : α → α → Ordering} {l l' : List α} {a : α}

/-- Has a property, comes strictly before the members with the property that stand in front of it, and not
after those that stand behind it. -/
def FirstLeast (cmp : α → α → Ordering) (P : α → Prop) (l : List α) (a : α) : Prop :=
  ∃ front back, l = front ++ a :: back ∧ P a ∧ (∀ b ∈ front, P b → cmp a b = .lt) ∧
    ∀ b ∈ back, P b → (cmp a b).isLE

theorem FirstLeast.mem {P : α → Prop} (h : FirstLeast cmp P l a) : a ∈ l ∧ P a := by
  obtain ⟨front, back, rfl, ha, _, _⟩ := h
  exact ⟨List.mem_append_right front List.mem_cons_self, ha⟩

/-- The first of the least is not after any other with the property. -/
theorem FirstLeast.isLE [Std.ReflCmp cmp] {P : α → Prop} (h : FirstLeast cmp P l a) {b : α} (hb : b ∈ l)
    (hP : P b) : (cmp a b).isLE := by
  obtain ⟨front, back, rfl, _, hfront, hback⟩ := h
  rcases List.mem_append.1 hb with hb | hb
  · rw [hfront b hb hP]
    rfl
  · rcases List.mem_cons.1 hb with rfl | hb
    · exact Std.ReflCmp.isLE_rfl
    · exact hback b hb hP

variable [Std.TransCmp cmp]

/-- Some member with the property is the first of the least. -/
theorem exists_firstLeast {P : α → Prop} (h : ∃ a ∈ l, P a) : ∃ a, FirstLeast cmp P l a := by
  induction l with
  | nil =>
    obtain ⟨a, ha, _⟩ := h
    cases ha
  | cons c l ih =>
    by_cases hl : ∃ a ∈ l, P a
    · obtain ⟨a, ha⟩ := ih hl
      by_cases hc : P c ∧ (cmp c a).isLE
      · -- The new member is at least as good, and it stands in front.
        refine ⟨c, [], l, rfl, hc.1, ?_, fun b hb hP => ?_⟩
        · intro b hb
          cases hb
        · exact Std.TransCmp.isLE_trans hc.2 (ha.isLE hb hP)
      · -- The new member lacks the property or is greater, so it only joins those in front.
        obtain ⟨front, back, rfl, hPa, hfront, hback⟩ := ha
        refine ⟨a, c :: front, back, rfl, hPa, fun b hb hP => ?_, hback⟩
        rcases List.mem_cons.1 hb with rfl | hb
        · have hgt : cmp b a = .gt := by
            simpa using fun hle => hc ⟨hP, hle⟩
          exact Std.OrientedCmp.gt_iff_lt.1 hgt
        · exact hfront b hb hP
    · obtain ⟨a, ha, hP⟩ := h
      rcases List.mem_cons.1 ha with rfl | ha
      · refine ⟨a, [], l, rfl, hP, ?_, fun b hb hPb => absurd ⟨b, hb, hPb⟩ hl⟩
        intro b hb
        cases hb
      · exact absurd ⟨a, ha, hP⟩ hl

/-! ## Sorting -/

theorem isLE_or_isLE (a b : α) : ((cmp a b).isLE || (cmp b a).isLE) = true := by
  match hab : cmp a b with
  | .lt | .eq => rfl
  | .gt =>
    rw [Std.OrientedCmp.gt_iff_lt.1 hab]
    rfl

/-- Sorting brings a list into order. -/
theorem pairwise_mergeSort_cmp (l : List α) :
    (l.mergeSort fun a b => (cmp a b).isLE).Pairwise fun a b => (cmp a b).isLE = true :=
  List.pairwise_mergeSort (fun _ _ _ => Std.TransCmp.isLE_trans) isLE_or_isLE l

/-- Members that compare equal stay in their order. -/
theorem filter_mergeSort {p : α → Bool} (hp : ∀ a b, p a = true → p b = true → (cmp a b).isLE) (l : List α) :
    (l.mergeSort fun a b => (cmp a b).isLE).filter p = l.filter p := by
  have hsorted : (l.filter p).Pairwise fun a b => (cmp a b).isLE = true := by
    rw [List.pairwise_filter]
    exact List.pairwise_of_forall fun {a b} => hp a b
  have hsub : List.Sublist (l.filter p) (l.mergeSort fun a b => (cmp a b).isLE) :=
    List.sublist_mergeSort (fun _ _ _ => Std.TransCmp.isLE_trans) isLE_or_isLE hsorted List.filter_sublist
  have hkept : List.Sublist (l.filter p) ((l.mergeSort fun a b => (cmp a b).isLE).filter p) := by
    simpa using hsub.filter p
  -- The sorted list has no more of them, so they are all in this order.
  exact (hkept.eq_of_length ((List.mergeSort_perm l _).filter p).length_eq.symm).symm

/-- Members that do not compare equal have one order. -/
theorem mergeSort_eq_of_cmp (hkeys : ∀ a ∈ l, ∀ b ∈ l, cmp a b = .eq → a = b) (hperm : l'.Perm l) :
    (l'.mergeSort fun a b => (cmp a b).isLE) = l.mergeSort fun a b => (cmp a b).isLE := by
  refine List.Perm.eq_of_pairwise ?_ (pairwise_mergeSort_cmp l') (pairwise_mergeSort_cmp l) ?_
  · intro a b ha hb hab hba
    exact hkeys a (hperm.mem_iff.1 (List.mem_mergeSort.1 ha)) b (List.mem_mergeSort.1 hb)
      (Std.OrientedCmp.isLE_antisymm hab hba)
  · exact (List.mergeSort_perm l' _).trans (hperm.trans (List.mergeSort_perm l _).symm)

/-- A list without repetitions becomes strictly increasing when it is sorted. -/
theorem increasing_mergeSort [Ord α] [Std.TransOrd α] [Std.LawfulEqOrd α] (hl : l.Nodup) :
    Increasing (l.mergeSort fun a b => (compare a b).isLE) := by
  have hnodup : (l.mergeSort fun a b => (compare a b).isLE).Nodup := (List.mergeSort_perm l _).nodup_iff.2 hl
  refine ((pairwise_mergeSort_cmp l).and hnodup).imp fun {a b} hab => ?_
  cases hcmp : compare a b with
  | lt => rfl
  | eq => exact absurd (Std.LawfulEqOrd.eq_of_compare hcmp) hab.2
  | gt => simp [hcmp] at hab

/-! ## Searching -/

theorem find?_mergeSort_of_isLE {p : α → Bool} (hp : ∀ a b, p a = true → p b = true → (cmp a b).isLE)
    (l : List α) : (l.mergeSort fun a b => (cmp a b).isLE).find? p = l.find? p := by
  rw [← List.head?_filter, filter_mergeSort hp, List.head?_filter]

/-- What is found first in a sorted list is not after anything else with the property. -/
theorem isLE_of_find?_mergeSort {p : α → Bool} {b : α}
    (hfind : (l.mergeSort fun a b => (cmp a b).isLE).find? p = some b) (ha : a ∈ l) (hp : p a = true) :
    (cmp b a).isLE := by
  obtain ⟨_, pre, post, hsort, hpre⟩ := List.find?_eq_some_iff_append.1 hfind
  have hsorted : (pre ++ b :: post).Pairwise fun a b => (cmp a b).isLE = true :=
    hsort ▸ pairwise_mergeSort_cmp l
  have hmem : a ∈ pre ++ b :: post := hsort ▸ List.mem_mergeSort.2 ha
  rcases List.mem_append.1 hmem with hmem | hmem
  · exact absurd hp (by simpa using hpre a hmem)
  · rcases List.mem_cons.1 hmem with rfl | hmem
    · exact Std.ReflCmp.isLE_rfl
    · exact (List.pairwise_cons.1 (List.pairwise_append.1 hsorted).2.1).1 a hmem

/-- A search in the sorted list finds the first of the least. -/
theorem FirstLeast.find?_mergeSort {p : α → Bool} (h : FirstLeast cmp (p · = true) l a) :
    (l.mergeSort fun a b => (cmp a b).isLE).find? p = some a := by
  have hleast : ∀ b ∈ l, p b = true → (cmp a b).isLE := fun b => h.isLE
  obtain ⟨front, back, hl, ha, hfront, _⟩ := h
  have hmem : a ∈ l := by
    simp [hl]
  have hsome : ((l.mergeSort fun a b => (cmp a b).isLE).find? p).isSome :=
    List.find?_isSome.2 ⟨a, List.mem_mergeSort.2 hmem, ha⟩
  obtain ⟨b, hfind⟩ := Option.isSome_iff_exists.1 hsome
  obtain ⟨hb, pre, post, hsort, hpre⟩ := List.find?_eq_some_iff_append.1 hfind
  have hab : (cmp a b).isLE := hleast b (List.mem_mergeSort.1 (List.mem_of_find?_eq_some hfind)) hb
  have heq : cmp a b = .eq := Std.OrientedCmp.isLE_antisymm hab (isLE_of_find?_mergeSort hfind hmem ha)
  have hself : cmp a a = .eq := Std.ReflCmp.compare_self
  -- What is found compares equal, and what does so stands in the sorted list as it stood before.
  have hties : ∀ c d, (p c && cmp a c == .eq) = true → (p d && cmp a d == .eq) = true → (cmp c d).isLE := by
    intro c d hc hd
    simp only [Bool.and_eq_true, beq_iff_eq] at hc hd
    rw [Std.TransCmp.congr_left (Std.OrientedCmp.eq_symm hc.2), hd.2]
    rfl
  calc (l.mergeSort fun a b => (cmp a b).isLE).find? p
    _ = some b := hfind
    _ = (l.mergeSort fun a b => (cmp a b).isLE).find? fun c => p c && cmp a c == .eq := by
      symm
      refine List.find?_eq_some_iff_append.2 ⟨by simp [hb, heq], pre, post, hsort, fun c hc => ?_⟩
      have hc : p c = false := by
        simpa using hpre c hc
      simp [hc]
    _ = l.find? fun c => p c && cmp a c == .eq := find?_mergeSort_of_isLE hties l
    _ = some a := by
      refine List.find?_eq_some_iff_append.2 ⟨by simp [ha, hself], front, back, hl, fun c hc => ?_⟩
      cases hpc : p c with
      | false => rfl
      | true => simp [hfront c hc hpc]

end Bridgework
