import Bridgework.Collection.SortedSet

/-!
# Sorted maps

Finite maps kept as lists of entries whose keys strictly increase. As with sorted sets, two maps with
the same look-ups are the same value.

- `SortedMap κ ν` : entries in strictly increasing order of their keys
- `SortedMap.insert`, `SortedMap.erase`, `SortedMap.ofList` : the operations
- `SortedMap.get?_insert`, `SortedMap.get?_erase` : what each does to look-ups
- `SortedMap.ext_get?` : maps with the same look-ups are equal
-/

namespace Bridgework

/-- A finite map, listed in increasing order of keys. -/
structure SortedMap (κ ν : Type) [Ord κ] where
  /-- The entries in increasing order of keys. -/
  toList : List (κ × ν)
  /-- No key is repeated and the order is that of `compare`. -/
  increasing : toList.Pairwise fun a b => compare a.1 b.1 = .lt

namespace SortedMap

variable {κ ν : Type} [Ord κ]

/-! ## Views -/

/-- The first value stored under a key in a list of entries. -/
def find? (k : κ) : List (κ × ν) → Option ν
  | [] => none
  | e :: l => if compare k e.1 == .eq then some e.2 else find? k l

def get? (m : SortedMap κ ν) (k : κ) : Option ν := find? k m.toList

def contains (m : SortedMap κ ν) (k : κ) : Bool := (m.get? k).isSome

def keys (m : SortedMap κ ν) : List κ := m.toList.map Prod.fst

def values (m : SortedMap κ ν) : List ν := m.toList.map Prod.snd

def size (m : SortedMap κ ν) : Nat := m.toList.length

def isEmpty (m : SortedMap κ ν) : Bool := m.toList.isEmpty

theorem increasing_keys (m : SortedMap κ ν) : Increasing m.keys :=
  List.pairwise_map.2 m.increasing

def keySet (m : SortedMap κ ν) : SortedSet κ := ⟨m.keys, m.increasing_keys⟩

/-! ## Construction -/

def empty : SortedMap κ ν := ⟨[], .nil⟩

instance : EmptyCollection (SortedMap κ ν) := ⟨empty⟩

instance : Inhabited (SortedMap κ ν) := ⟨empty⟩

@[simp] theorem get?_empty {k : κ} : (empty : SortedMap κ ν).get? k = none := rfl

/-- Puts an entry at its place, in exchange for one of the same key. -/
def insertInto (k : κ) (v : ν) : List (κ × ν) → List (κ × ν)
  | [] => [(k, v)]
  | e :: l =>
    match compare k e.1 with
    | .lt => (k, v) :: e :: l
    | .eq => (k, v) :: l
    | .gt => e :: insertInto k v l

/-- Whatever the list has after an insertion is the new entry, or was there before. -/
theorem mem_of_mem_insertInto {k : κ} {v : ν} {e : κ × ν} {l : List (κ × ν)}
    (h : e ∈ insertInto k v l) : e = (k, v) ∨ e ∈ l := by
  induction l with
  | nil => exact .inl (by simpa [insertInto] using h)
  | cons b l ih =>
    rw [insertInto] at h
    split at h
    · simpa using h
    · rcases List.mem_cons.1 h with h | h
      · exact .inl h
      · exact .inr (List.mem_cons_of_mem _ h)
    · rcases List.mem_cons.1 h with h | h
      · exact .inr (by simp [h])
      · rcases ih h with h | h
        · exact .inl h
        · exact .inr (List.mem_cons_of_mem _ h)

/-- An entry goes to its place in the order of keys. -/
theorem increasing_insertInto [Std.TransOrd κ] [Std.LawfulEqOrd κ] {k : κ} {v : ν}
    {l : List (κ × ν)} (h : l.Pairwise fun a b => compare a.1 b.1 = .lt) :
    (insertInto k v l).Pairwise fun a b => compare a.1 b.1 = .lt := by
  induction l with
  | nil => exact List.pairwise_singleton _ _
  | cons e l ih =>
    obtain ⟨he, hl⟩ := List.pairwise_cons.1 h
    rw [insertInto]
    split
    -- The new key comes before all others.
    · rename_i hk
      refine List.pairwise_cons.2 ⟨fun x hx => ?_, h⟩
      rcases List.mem_cons.1 hx with rfl | hx
      · exact hk
      · exact Std.TransCmp.lt_trans hk (he x hx)
    · rename_i hk
      have hk : k = e.1 := Std.LawfulEqOrd.eq_of_compare hk
      subst hk
      exact List.pairwise_cons.2 ⟨he, hl⟩
    -- The new key goes into the rest, where `e` is still before all.
    · rename_i hk
      refine List.pairwise_cons.2 ⟨fun x hx => ?_, ih hl⟩
      rcases mem_of_mem_insertInto hx with rfl | hx
      · exact Std.OrientedCmp.gt_iff_lt.1 hk
      · exact he x hx

/-- Looking up after an insertion finds the new value under its key, and what was there under the others. -/
theorem find?_insertInto [Std.TransOrd κ] [Std.LawfulEqOrd κ] {k k' : κ} {v : ν}
    {l : List (κ × ν)} :
    find? k' (insertInto k v l) = if compare k' k == .eq then some v else find? k' l := by
  induction l with
  | nil => rfl
  | cons e l ih =>
    rw [insertInto]
    split
    · rfl
    -- The key is there already: its value is replaced.
    · rename_i hk
      have hk : k = e.1 := Std.LawfulEqOrd.eq_of_compare hk
      subst hk
      by_cases h : compare k' e.1 == .eq <;> simp [find?, h]
    -- The new key comes later: it is looked for in the rest, unless it is the key of `e` itself.
    · rename_i hk
      by_cases h : compare k' e.1 == .eq
      · have hk' : k' = e.1 := Std.LawfulEqOrd.eq_of_compare (by simpa using h)
        subst hk'
        have : compare e.1 k ≠ .eq := by
          intro h'
          rw [Std.OrientedCmp.eq_comm] at h'
          simp [h'] at hk
        simp [find?, this]
      · simp only [find?, h, ih]
        rfl

variable [Std.TransOrd κ] [Std.LawfulEqOrd κ]

def insert (m : SortedMap κ ν) (k : κ) (v : ν) : SortedMap κ ν :=
  ⟨insertInto k v m.toList, increasing_insertInto m.increasing⟩

theorem get?_insert {m : SortedMap κ ν} {k k' : κ} {v : ν} :
    (m.insert k v).get? k' = if compare k' k == .eq then some v else m.get? k' :=
  find?_insertInto

@[simp] theorem get?_insert_self {m : SortedMap κ ν} {k : κ} {v : ν} : (m.insert k v).get? k = some v := by
  simp [get?_insert]

theorem get?_insert_of_ne {m : SortedMap κ ν} {k k' : κ} {v : ν} (h : k' ≠ k) :
    (m.insert k v).get? k' = m.get? k' := by
  simp [get?_insert, h]

/-- Stores entries one after another, so that of two with the same key the last one stays. -/
def insertMany (m : SortedMap κ ν) (l : List (κ × ν)) : SortedMap κ ν :=
  l.foldl (fun m e => m.insert e.1 e.2) m

def ofList (l : List (κ × ν)) : SortedMap κ ν := empty.insertMany l

/-- Keys that are not among the new entries keep what is stored under them. -/
theorem get?_insertMany_of_not_mem {m : SortedMap κ ν} {k : κ} {l : List (κ × ν)}
    (h : k ∉ l.map Prod.fst) : (m.insertMany l).get? k = m.get? k := by
  induction l generalizing m with
  | nil => rfl
  | cons e l ih =>
    rw [List.map_cons, List.mem_cons, not_or] at h
    calc
      (m.insertMany (e :: l)).get? k = (m.insert e.1 e.2).get? k := ih h.2
      _ = m.get? k := get?_insert_of_ne h.1

/-- With distinct keys no later entry replaces an earlier one. -/
theorem get?_insertMany_of_mem {m : SortedMap κ ν} {k : κ} {v : ν} {l : List (κ × ν)}
    (hl : (l.map Prod.fst).Nodup) (h : (k, v) ∈ l) : (m.insertMany l).get? k = some v := by
  induction l generalizing m with
  | nil => cases h
  | cons e l ih =>
    obtain ⟨he, hl⟩ := List.nodup_cons.1 hl
    rcases List.mem_cons.1 h with rfl | h
    · calc
        (m.insertMany ((k, v) :: l)).get? k = (m.insert k v).get? k := get?_insertMany_of_not_mem he
        _ = some v := get?_insert_self
    · exact ih hl h

/-- A value after several insertions is one of the new ones, or was there before. -/
theorem get?_insertMany_cases {m : SortedMap κ ν} {k : κ} {v : ν} {l : List (κ × ν)}
    (h : (m.insertMany l).get? k = some v) : (k, v) ∈ l ∨ m.get? k = some v := by
  induction l generalizing m with
  | nil => exact .inr h
  | cons e l ih =>
    rcases ih h with hl | hm
    · exact .inl (List.mem_cons_of_mem e hl)
    · by_cases hk : k = e.1
      · subst hk
        rw [get?_insert_self] at hm
        obtain rfl : e.2 = v := Option.some.inj hm
        exact .inl List.mem_cons_self
      · exact .inr (get?_insert_of_ne hk ▸ hm)

/-- No insertion takes a key away. -/
theorem isSome_get?_insertMany {m : SortedMap κ ν} {k : κ} {l : List (κ × ν)}
    (h : k ∈ l.map Prod.fst ∨ (m.get? k).isSome) : ((m.insertMany l).get? k).isSome := by
  induction l generalizing m with
  | nil =>
    rcases h with h | h
    · cases h
    · exact h
  | cons e l ih =>
    apply ih
    by_cases hk : k = e.1
    · subst hk
      exact .inr (by rw [get?_insert_self]; rfl)
    · rw [get?_insert_of_ne hk]
      simpa [hk] using h

/-- Changes what is stored under one key; `none` stands for no entry. -/
def alter (m : SortedMap κ ν) (k : κ) (f : Option ν → ν) : SortedMap κ ν :=
  m.insert k (f (m.get? k))

omit [Std.TransOrd κ] [Std.LawfulEqOrd κ] in
def filter (m : SortedMap κ ν) (p : κ → ν → Bool) : SortedMap κ ν :=
  ⟨m.toList.filter fun e => p e.1 e.2, m.increasing.filter _⟩

def erase (m : SortedMap κ ν) (k : κ) : SortedMap κ ν :=
  m.filter fun k' _ => !(compare k k' == .eq)

omit [Std.LawfulEqOrd κ] in
theorem find?_filter_ne {k k' : κ} {l : List (κ × ν)} (h : ¬ compare k k' = .eq) :
    find? k' (l.filter fun e => !(compare k e.1 == .eq)) = find? k' l := by
  induction l with
  | nil => rfl
  | cons e l ih =>
    by_cases he : compare k' e.1 = .eq
    · have hk : ¬ compare k e.1 = .eq := fun hk =>
        h (Std.TransCmp.eq_trans hk (Std.OrientedCmp.eq_comm.1 he))
      simp [hk, find?, he]
    · by_cases hk : compare k e.1 = .eq
      · simp [hk, find?, he, ← ih]
      · simp [hk, find?, he, ← ih]

omit [Std.TransOrd κ] [Std.LawfulEqOrd κ] in
theorem find?_filter_self {k : κ} {l : List (κ × ν)} :
    find? k (l.filter fun e => !(compare k e.1 == .eq)) = none := by
  induction l with
  | nil => rfl
  | cons e l ih =>
    by_cases hk : compare k e.1 = .eq
    · simp [hk, ← ih]
    · simp [hk, find?, ← ih]

/-- The key that is removed has nothing stored under it any more; the others are not touched. -/
theorem get?_erase {m : SortedMap κ ν} {k k' : κ} :
    (m.erase k).get? k' = if compare k k' = .eq then none else m.get? k' := by
  by_cases h : compare k k' = .eq
  · have : k = k' := Std.LawfulEqOrd.eq_of_compare h
    subst this
    rw [if_pos h]
    exact find?_filter_self
  · rw [if_neg h]
    exact find?_filter_ne h

theorem get?_erase_of_ne {m : SortedMap κ ν} {k k' : κ} (h : k' ≠ k) :
    (m.erase k).get? k' = m.get? k' := by
  simp [get?_erase, h.symm]

def mapValues {μ : Type} (m : SortedMap κ ν) (f : κ → ν → μ) : SortedMap κ μ :=
  ⟨m.toList.map fun e => (e.1, f e.1 e.2), List.pairwise_map.2 m.increasing⟩

omit [Std.TransOrd κ] in
theorem find?_map {μ : Type} (f : κ → ν → μ) {k : κ} {l : List (κ × ν)} :
    find? k (l.map fun e => (e.1, f e.1 e.2)) = (find? k l).map (f k) := by
  induction l with
  | nil => rfl
  | cons e l ih =>
    by_cases hk : compare k e.1 = .eq
    · obtain rfl : k = e.1 := Std.LawfulEqOrd.eq_of_compare hk
      simp [find?]
    · simp [find?, hk, ih]

omit [Std.TransOrd κ] in
theorem get?_mapValues {μ : Type} {m : SortedMap κ ν} {f : κ → ν → μ} {k : κ} :
    (m.mapValues f).get? k = (m.get? k).map (f k) :=
  find?_map f

/-! ## Extensionality -/

omit [Std.TransOrd κ] [Std.LawfulEqOrd κ] in
/-- Two maps with the same list are the same: the rest of a map is a proof. -/
theorem toList_injective {m m' : SortedMap κ ν} (h : m.toList = m'.toList) : m = m' := by
  cases m
  cases m'
  cases h
  rfl

instance [DecidableEq κ] [DecidableEq ν] : DecidableEq (SortedMap κ ν) := fun m m' =>
  if h : m.toList = m'.toList then isTrue (toList_injective h)
  else isFalse fun hm => h (hm ▸ rfl)

omit [Std.TransOrd κ] in
theorem mem_of_find? {k : κ} {v : ν} {l : List (κ × ν)} (h : find? k l = some v) :
    (k, v) ∈ l := by
  induction l with
  | nil => exact absurd h (by simp [find?])
  | cons e l ih =>
    rw [find?] at h
    split at h
    · rename_i hk
      have hk : k = e.1 := Std.LawfulEqOrd.eq_of_compare (by simpa using hk)
      obtain rfl := Option.some.inj h
      simp [hk]
    · exact List.mem_cons_of_mem _ (ih h)

/-- In a list with increasing keys the first entry of a key is the only one. -/
theorem find?_eq_some_iff {k : κ} {v : ν} {l : List (κ × ν)}
    (hl : l.Pairwise fun a b => compare a.1 b.1 = .lt) : find? k l = some v ↔ (k, v) ∈ l := by
  refine ⟨mem_of_find?, fun h => ?_⟩
  induction l with
  | nil => exact absurd h (by simp)
  | cons e l ih =>
    obtain ⟨he, hl⟩ := List.pairwise_cons.1 hl
    rcases List.mem_cons.1 h with rfl | h
    · simp [find?]
    · have : compare k e.1 ≠ .eq := by
        intro hk
        have := he _ h
        rw [Std.OrientedCmp.eq_comm] at hk
        simp [hk] at this
      simp [find?, this, ih hl h]

theorem get?_eq_some_iff {m : SortedMap κ ν} {k : κ} {v : ν} :
    m.get? k = some v ↔ (k, v) ∈ m.toList :=
  find?_eq_some_iff m.increasing

/-- Maps with the same look-ups are equal. -/
theorem ext_get? {m m' : SortedMap κ ν} (h : ∀ k, m.get? k = m'.get? k) : m = m' := by
  -- Both lists increase, so that members in common fix their order. Induction goes over the first
  -- one, and the values ride along with the keys.
  apply toList_injective
  have hmem : ∀ e, e ∈ m.toList ↔ e ∈ m'.toList := fun e => by
    rw [← get?_eq_some_iff (m := m), ← get?_eq_some_iff (m := m'), h]
  have hinc := m.increasing
  have hinc' := m'.increasing
  revert hmem hinc hinc'
  generalize m.toList = l
  generalize m'.toList = l'
  intro hmem hl hl'
  induction l generalizing l' with
  | nil =>
    cases l' with
    | nil => rfl
    | cons b l' => exact absurd ((hmem b).2 (by simp)) (by simp)
  | cons a l ih =>
    cases l' with
    | nil => exact absurd ((hmem a).1 (by simp)) (by simp)
    | cons b l' =>
      obtain ⟨ha, hl⟩ := List.pairwise_cons.1 hl
      obtain ⟨hb, htl⟩ := List.pairwise_cons.1 hl'
      have irrefl : ∀ x : κ × ν, compare x.1 x.1 ≠ .lt := fun x => by simp
      -- Each head lies in the other list; were both in a tail, each would come before the other.
      have hab : a = b := by
        rcases List.mem_cons.1 ((hmem a).1 (by simp)) with hab | hab
        · exact hab
        · rcases List.mem_cons.1 ((hmem b).2 (by simp)) with hba | hba
          · exact hba.symm
          · exact absurd (Std.TransCmp.lt_trans (hb a hab) (ha b hba)) (irrefl b)
      subst hab
      congr 1
      refine ih l' (fun x => ⟨fun hx => ?_, fun hx => ?_⟩) hl htl
      · rcases List.mem_cons.1 ((hmem x).1 (List.mem_cons_of_mem _ hx)) with rfl | hx'
        · exact absurd (ha _ hx) (irrefl _)
        · exact hx'
      · rcases List.mem_cons.1 ((hmem x).2 (List.mem_cons_of_mem _ hx)) with rfl | hx'
        · exact absurd (hb _ hx) (irrefl _)
        · exact hx'

end SortedMap
end Bridgework
