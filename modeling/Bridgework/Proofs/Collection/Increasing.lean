import Bridgework.Collection.SortedMap
import Bridgework.Proofs.Collection.Sorting

/-!
# Increasing lists

What follows for a list from strictly increasing: its places are ordered as its members are, and the
first member with a property is the least one.

- `Least`, `LeastIfAny` : the least one with a property
- `Increasing.lt_iff` : places and members have the same order
- `Increasing.find?_eq_some_iff` : searching from the front finds the least member
- `Increasing.exists_eq_filter_append` : what stands before a member is what is less
- `mergeSort_eq_of_perm` : entries with distinct keys have one order by key
- `SortedMap.ofList_toList` : a map is given by its entries
-/

namespace Bridgework

variable {α : Type} [Ord α]

/-! ## Least members -/

/-- Has a property and comes before everything else that has it. -/
def Least (P : α → Prop) (a : α) : Prop := P a ∧ ∀ b, P b → (compare a b).isLE

theorem least_congr {P Q : α → Prop} (h : ∀ b, P b ↔ Q b) {a : α} : Least P a ↔ Least Q a := by
  rw [show P = Q from funext fun b => propext (h b)]

/-- With one more to choose from, the lesser of the two is the least. -/
theorem Least.or_eq [Std.TransOrd α] {P : α → Prop} {a : α} (h : Least P a) (c : α) :
    Least (fun b => P b ∨ b = c) (if (compare a c).isLE then a else c) := by
  by_cases hac : (compare a c).isLE
  · rw [if_pos hac]
    refine ⟨.inl h.1, ?_⟩
    rintro b (hb | rfl)
    · exact h.2 b hb
    · exact hac
  · rw [if_neg hac]
    have hca : (compare c a).isLE := by
      have hgt : compare a c = .gt := by
        simpa using hac
      rw [Std.OrientedCmp.gt_iff_lt.1 hgt]
      rfl
    refine ⟨.inr rfl, ?_⟩
    rintro b (hb | rfl)
    · exact Std.TransCmp.isLE_trans hca (h.2 b hb)
    · exact Std.ReflCmp.isLE_rfl

/-- The least one with a property, and nothing if none has it. -/
def LeastIfAny (P : α → Prop) : Option α → Prop
  | none => ∀ a, ¬ P a
  | some a => Least P a

theorem leastIfAny_congr {P Q : α → Prop} (h : ∀ b, P b ↔ Q b) {o : Option α} :
    LeastIfAny P o ↔ LeastIfAny Q o := by
  rw [show P = Q from funext fun b => propext (h b)]

theorem LeastIfAny.eq_none_iff {P : α → Prop} {o : Option α} (h : LeastIfAny P o) :
    o = none ↔ ∀ a, ¬ P a := by
  cases o with
  | none => exact iff_of_true rfl h
  | some a => exact iff_of_false (Option.some_ne_none a) fun hnone => hnone a h.1

/-- There is only one least value. -/
theorem LeastIfAny.eq_some_iff [Std.TransOrd α] [Std.LawfulEqOrd α] {P : α → Prop} {o : Option α}
    (h : LeastIfAny P o) {a : α} : o = some a ↔ Least P a := by
  cases o with
  | none => exact iff_of_false (Option.some_ne_none a).symm fun ha => h a ha.1
  | some b =>
    rw [Option.some.injEq]
    constructor
    · rintro rfl
      exact h
    · intro ha
      exact Std.LawfulEqOrd.eq_of_compare (Std.OrientedCmp.isLE_antisymm (h.2 a ha.1) (ha.2 b h.1))

/-- Two descriptions of the same least value agree. -/
theorem LeastIfAny.eq [Std.TransOrd α] [Std.LawfulEqOrd α] {P : α → Prop} {o o' : Option α}
    (h : LeastIfAny P o) (h' : LeastIfAny P o') : o = o' :=
  Option.ext fun _ => h.eq_some_iff.trans h'.eq_some_iff.symm

/-! ## Increasing lists -/

/-- In an increasing list what comes earlier is less. -/
theorem Increasing.lt_of_lt {l : List α} (h : Increasing l) {i j : Nat} {a b : α} (hi : l[i]? = some a)
    (hj : l[j]? = some b) (hij : i < j) : compare a b = .lt := by
  obtain ⟨hil, rfl⟩ := List.getElem?_eq_some_iff.1 hi
  obtain ⟨hjl, rfl⟩ := List.getElem?_eq_some_iff.1 hj
  exact List.pairwise_iff_getElem.1 h i j hil hjl hij

variable [Std.TransOrd α]

namespace Increasing

theorem nodup {l : List α} (h : Increasing l) : l.Nodup :=
  List.Pairwise.imp SortedSet.ne_of_lt h

/-- In an increasing list, positions and values have the same order. -/
theorem lt_iff {l : List α} (h : Increasing l) {i j : Nat} {a b : α} (hi : l[i]? = some a)
    (hj : l[j]? = some b) : compare a b = .lt ↔ i < j := by
  refine ⟨?_, h.lt_of_lt hi hj⟩
  intro hab
  rcases Nat.lt_trichotomy i j with hij | hij | hij
  · exact hij
  · subst hij
    have hsame : a = b := Option.some.inj (hi.symm.trans hj)
    exact absurd hsame (SortedSet.ne_of_lt hab)
  · have hba : compare b a = .lt := h.lt_of_lt hj hi hij
    have haa : compare a a = .lt := Std.TransCmp.lt_trans hab hba
    exact absurd rfl (SortedSet.ne_of_lt haa)

/-- The head of an increasing list is not above any member. -/
theorem isLE_head {a b : α} {l : List α} (h : Increasing (a :: l)) (hb : b ∈ a :: l) :
    (compare a b).isLE := by
  rcases List.mem_cons.1 hb with rfl | hb
  · simp
  · rw [(List.pairwise_cons.1 h).1 b hb]
    rfl

/-- In an increasing list the first member with a property is the least. -/
theorem find?_eq_some_iff [Std.LawfulEqOrd α] {l : List α} (h : Increasing l) {p : α → Bool} {a : α} :
    l.find? p = some a ↔ Least (fun b => b ∈ l ∧ p b = true) a := by
  induction l with
  | nil => simp [Least]
  | cons c l ih =>
    have hl : Increasing l := (List.pairwise_cons.1 h).2
    -- If the head has the property, it comes before all others that have it; else it does not
    -- matter.
    by_cases hc : p c = true
    · rw [List.find?_cons_of_pos hc, Option.some.injEq]
      constructor
      · rintro rfl
        exact ⟨⟨List.mem_cons_self, hc⟩, fun b hb => h.isLE_head hb.1⟩
      · rintro ⟨⟨ha, _⟩, hleast⟩
        have hca : (compare c a).isLE := h.isLE_head ha
        have hac : (compare a c).isLE := hleast c ⟨List.mem_cons_self, hc⟩
        exact Std.LawfulEqOrd.eq_of_compare (Std.OrientedCmp.isLE_antisymm hca hac)
    · have hmem : ∀ b, b ∈ c :: l ∧ p b = true ↔ b ∈ l ∧ p b = true := by
        intro b
        refine and_congr_left fun hb => ?_
        rw [List.mem_cons]
        exact or_iff_right fun hbc => hc (hbc ▸ hb)
      rw [List.find?_cons_of_neg hc, ih hl]
      exact least_congr fun b => (hmem b).symm

theorem head?_eq_some_iff [Std.LawfulEqOrd α] {l : List α} (h : Increasing l) {a : α} :
    l.head? = some a ↔ Least (· ∈ l) a := by
  have hhead : l.head? = l.find? fun _ => true := by
    cases l with
    | nil => rfl
    | cons c l => rfl
  rw [hhead, h.find?_eq_some_iff]
  exact least_congr fun b => and_iff_left rfl

/-- What stands before a member is what is less. -/
theorem exists_eq_filter_append {l : List α} (h : Increasing l) {a : α} (ha : a ∈ l) :
    ∃ post, l = l.filter (fun b => compare b a == .lt) ++ a :: post := by
  obtain ⟨pre, post, rfl⟩ := List.append_of_mem ha
  obtain ⟨_, hpost, hlt⟩ := List.pairwise_append.1 h
  have hpre : pre.filter (fun b => compare b a == .lt) = pre := by
    rw [List.filter_eq_self]
    intro b hb
    simp [hlt b hb a List.mem_cons_self]
  have hnone : (a :: post).filter (fun b => compare b a == .lt) = [] := by
    rw [List.filter_eq_nil_iff]
    intro b hb hba
    have hab : (compare a b).isLE := isLE_head hpost hb
    have hba : compare b a = .lt := by simpa using hba
    rw [Std.OrientedCmp.gt_iff_lt.2 hba] at hab
    cases hab
  refine ⟨post, ?_⟩
  rw [List.filter_append, hpre, hnone, List.append_nil]

end Increasing

theorem SortedSet.toList_ofList_filter [Std.LawfulEqOrd α] (l : List α) (p : α → Bool) :
    (SortedSet.ofList (l.filter p)).toList = (SortedSet.ofList l).toList.filter p := by
  have hsets : SortedSet.ofList (l.filter p) = (SortedSet.ofList l).filter p := by
    ext x
    simp
  exact congrArg SortedSet.toList hsets

/-- The first of a set is its least member. -/
theorem SortedSet.leastIfAny_min? [Std.LawfulEqOrd α] (s : SortedSet α) : LeastIfAny (· ∈ s) s.min? := by
  cases hmin : s.min? with
  | none =>
    have hnil : s.toList = [] := List.head?_eq_none_iff.1 hmin
    intro a ha
    rw [SortedSet.mem_def, hnil] at ha
    cases ha
  | some a => exact s.increasing.head?_eq_some_iff.1 hmin

/-- A set is made from its own list. -/
theorem SortedSet.ofList_toList [Std.LawfulEqOrd α] (s : SortedSet α) : SortedSet.ofList s.toList = s := by
  ext x
  rw [SortedSet.mem_ofList, SortedSet.mem_def]

theorem SortedSet.nodup_toList (s : SortedSet α) : s.toList.Nodup := s.increasing.nodup

/-! ## Entries by their keys -/

section Entries

variable {κ ν : Type} [Ord κ] [Std.TransOrd κ] [Std.LawfulEqOrd κ] {l l' : List (κ × ν)}

omit [Ord κ] [Std.TransOrd κ] [Std.LawfulEqOrd κ] in
/-- In a list without repeated keys there is one entry for each. -/
theorem eq_of_fst_eq (hkeys : (l.map Prod.fst).Nodup) {a b : κ × ν} (ha : a ∈ l) (hb : b ∈ l)
    (hab : a.1 = b.1) : a = b := by
  induction l with
  | nil => cases ha
  | cons c l ih =>
    obtain ⟨hc, hkeys⟩ := List.nodup_cons.1 hkeys
    rcases List.mem_cons.1 ha with rfl | ha'
    · rcases List.mem_cons.1 hb with rfl | hb'
      · rfl
      · exact absurd (List.mem_map.2 ⟨b, hb', hab.symm⟩) hc
    · rcases List.mem_cons.1 hb with rfl | hb'
      · exact absurd (List.mem_map.2 ⟨a, ha', hab⟩) hc
      · exact ih hkeys ha' hb'

omit [Std.LawfulEqOrd κ] in
instance instTransCmpFst : Std.TransCmp fun a b : κ × ν => compare a.1 b.1 :=
  inferInstanceAs (Std.TransCmp (compareOn Prod.fst))

/-- Entries with distinct keys have one order by key. -/
theorem mergeSort_eq_of_perm (hkeys : (l.map Prod.fst).Nodup) (hperm : l'.Perm l) :
    (l'.mergeSort fun a b => (compare a.1 b.1).isLE) = l.mergeSort fun a b => (compare a.1 b.1).isLE :=
  mergeSort_eq_of_cmp (fun _ ha _ hb hab => eq_of_fst_eq hkeys ha hb (Std.LawfulEqOrd.eq_of_compare hab)) hperm

/-- A map built from its own entries is the map itself. -/
theorem SortedMap.ofList_toList (m : SortedMap κ ν) : SortedMap.ofList m.toList = m := by
  have hkeys : (m.toList.map Prod.fst).Nodup := m.increasing_keys.nodup
  apply SortedMap.ext_get?
  intro k
  cases hv : m.get? k with
  | some v => exact get?_insertMany_of_mem hkeys (get?_eq_some_iff.1 hv)
  | none =>
    have hk : k ∉ m.toList.map Prod.fst := by
      intro hk
      rcases List.mem_map.1 hk with ⟨⟨_, v⟩, hmem, rfl⟩
      rw [get?_eq_some_iff.2 hmem] at hv
      cases hv
    exact get?_insertMany_of_not_mem hk

end Entries

end Bridgework
