/-!
# Sorted sets

Finite sets kept as strictly increasing lists. Two sets with the same members are the same list, so
equality of sets is equality of values and the order in which members are reported is part of the type.

- `SortedSet α` : a strictly increasing list of `α`
- `SortedSet.insert`, `SortedSet.ofList`, `SortedSet.union`, `SortedSet.filter` : the operations
- `SortedSet.mem_insert`, `SortedSet.mem_ofList`, … : what each does to membership
- `SortedSet.ext` : sets with the same members are equal
-/

namespace Bridgework

/-- A list whose members strictly increase. -/
def Increasing {α : Type} [Ord α] (l : List α) : Prop :=
  l.Pairwise fun a b => compare a b = .lt

instance {α : Type} [Ord α] (l : List α) : Decidable (Increasing l) :=
  inferInstanceAs (Decidable (l.Pairwise _))

/-- A finite set, listed in increasing order. -/
structure SortedSet (α : Type) [Ord α] where
  /-- The members in increasing order. -/
  toList : List α
  /-- No member is repeated and the order is that of `compare`. -/
  increasing : Increasing toList

namespace SortedSet

variable {α : Type} [Ord α]

/-! ## Views -/

instance : Membership α (SortedSet α) where
  mem s a := a ∈ s.toList

theorem mem_def {s : SortedSet α} {a : α} : a ∈ s ↔ a ∈ s.toList := Iff.rfl

def size (s : SortedSet α) : Nat := s.toList.length

def isEmpty (s : SortedSet α) : Bool := s.toList.isEmpty

/-- Whether `a` is a member, by comparison alone. -/
def contains (s : SortedSet α) (a : α) : Bool :=
  s.toList.any fun b => compare a b == .eq

theorem contains_iff [Std.LawfulEqOrd α] {s : SortedSet α} {a : α} :
    s.contains a = true ↔ a ∈ s := by
  simp [contains, mem_def]

instance [Std.LawfulEqOrd α] (a : α) (s : SortedSet α) : Decidable (a ∈ s) :=
  decidable_of_iff _ contains_iff

def min? (s : SortedSet α) : Option α := s.toList.head?

/-! ## Construction -/

def empty : SortedSet α := ⟨[], .nil⟩

instance : EmptyCollection (SortedSet α) := ⟨empty⟩

instance : Inhabited (SortedSet α) := ⟨empty⟩

@[simp] theorem not_mem_empty {a : α} : ¬ a ∈ (empty : SortedSet α) := by
  simp [mem_def, empty]

/-- Puts `a` at its place in an increasing list, unless it is there already. -/
def insertInto (a : α) : List α → List α
  | [] => [a]
  | b :: l =>
    match compare a b with
    | .lt => a :: b :: l
    | .eq => b :: l
    | .gt => b :: insertInto a l

/-- Insertion adds the one member and keeps the others. -/
theorem mem_insertInto [Std.LawfulEqOrd α] {a x : α} {l : List α} :
    x ∈ insertInto a l ↔ x = a ∨ x ∈ l := by
  induction l with
  | nil => simp [insertInto]
  | cons b l ih =>
    rw [insertInto]
    split
    · simp
    · rename_i h
      have hab : a = b := Std.LawfulEqOrd.eq_of_compare h
      subst hab
      simp
    · simp only [List.mem_cons, ih]
      exact or_left_comm

/-- A member goes to its place in the order. -/
theorem increasing_insertInto [Std.TransOrd α] [Std.LawfulEqOrd α] {a : α} {l : List α}
    (h : Increasing l) : Increasing (insertInto a l) := by
  induction l with
  | nil => exact List.pairwise_singleton _ _
  | cons b l ih =>
    obtain ⟨hb, hl⟩ := List.pairwise_cons.1 h
    rw [insertInto]
    split
    -- The new element comes before all others.
    · rename_i hab
      refine List.pairwise_cons.2 ⟨fun x hx => ?_, h⟩
      rcases List.mem_cons.1 hx with rfl | hx
      · exact hab
      · exact Std.TransCmp.lt_trans hab (hb x hx)
    · exact h
    -- The new element goes into the rest, where `b` is still before all.
    · rename_i hab
      refine List.pairwise_cons.2 ⟨fun x hx => ?_, ih hl⟩
      rcases mem_insertInto.1 hx with rfl | hx
      · exact Std.OrientedCmp.gt_iff_lt.1 hab
      · exact hb x hx

variable [Std.TransOrd α] [Std.LawfulEqOrd α]

def insert (s : SortedSet α) (a : α) : SortedSet α :=
  ⟨insertInto a s.toList, increasing_insertInto s.increasing⟩

@[simp] theorem mem_insert {s : SortedSet α} {a x : α} : x ∈ s.insert a ↔ x = a ∨ x ∈ s :=
  mem_insertInto

def insertMany (s : SortedSet α) (l : List α) : SortedSet α :=
  l.foldl insert s

@[simp] theorem mem_insertMany {s : SortedSet α} {l : List α} {x : α} :
    x ∈ s.insertMany l ↔ x ∈ s ∨ x ∈ l := by
  induction l generalizing s with
  | nil => simp [insertMany]
  | cons a l ih =>
    have := ih (s := s.insert a)
    simp only [insertMany, List.foldl_cons] at this ⊢
    rw [this]
    simp only [mem_insert, List.mem_cons]
    constructor
    · rintro ((h | h) | h)
      · exact .inr (.inl h)
      · exact .inl h
      · exact .inr (.inr h)
    · rintro (h | h | h)
      · exact .inl (.inr h)
      · exact .inl (.inl h)
      · exact .inr h

/-- The members of a list, in any order and with repetitions. -/
def ofList (l : List α) : SortedSet α := empty.insertMany l

@[simp] theorem mem_ofList {l : List α} {x : α} : x ∈ ofList l ↔ x ∈ l := by
  simp [ofList]

def union (s t : SortedSet α) : SortedSet α := s.insertMany t.toList

instance : Union (SortedSet α) := ⟨union⟩

@[simp] theorem mem_union {s t : SortedSet α} {x : α} : x ∈ s.union t ↔ x ∈ s ∨ x ∈ t :=
  mem_insertMany

omit [Std.TransOrd α] [Std.LawfulEqOrd α] in
theorem increasing_filter {p : α → Bool} {l : List α} (h : Increasing l) :
    Increasing (l.filter p) :=
  List.Pairwise.filter p h

omit [Std.TransOrd α] [Std.LawfulEqOrd α] in
def filter (s : SortedSet α) (p : α → Bool) : SortedSet α :=
  ⟨s.toList.filter p, increasing_filter s.increasing⟩

omit [Std.TransOrd α] [Std.LawfulEqOrd α] in
@[simp] theorem mem_filter {s : SortedSet α} {p : α → Bool} {x : α} :
    x ∈ s.filter p ↔ x ∈ s ∧ p x = true :=
  List.mem_filter

omit [Std.TransOrd α] in
def erase (s : SortedSet α) (a : α) : SortedSet α :=
  s.filter fun b => !(compare a b == .eq)

omit [Std.TransOrd α] in
@[simp] theorem mem_erase {s : SortedSet α} {a x : α} : x ∈ s.erase a ↔ x ∈ s ∧ x ≠ a := by
  simp [erase, ne_comm]

/-- The members of the first set that the second lacks. -/
def diff (s t : SortedSet α) : SortedSet α := s.filter fun a => !t.contains a

omit [Std.TransOrd α] in
@[simp] theorem mem_diff {s t : SortedSet α} {x : α} : x ∈ s.diff t ↔ x ∈ s ∧ ¬ x ∈ t := by
  rw [diff, mem_filter, ← @contains_iff α _ _ t x]
  simp

/-! ## Extensionality -/

omit [Std.LawfulEqOrd α] in
theorem ne_of_lt {a b : α} (h : compare a b = .lt) : a ≠ b := by
  rintro rfl
  simp at h

omit [Std.LawfulEqOrd α] in
/-- Increasing lists with the same members are the same list. -/
theorem eq_of_mem_iff {l l' : List α} (hl : Increasing l) (hl' : Increasing l')
    (h : ∀ x, x ∈ l ↔ x ∈ l') : l = l' := by
  -- Both lists increase, so that members in common fix their order.
  induction l generalizing l' with
  | nil =>
    cases l' with
    | nil => rfl
    | cons b l' => exact absurd ((h b).2 (by simp)) (by simp)
  | cons a l ih =>
    cases l' with
    | nil => exact absurd ((h a).1 (by simp)) (by simp)
    | cons b l' =>
      obtain ⟨ha, hl⟩ := List.pairwise_cons.1 hl
      obtain ⟨hb, htl⟩ := List.pairwise_cons.1 hl'
      -- Each head lies in the other list; were both in a tail, each would come before the other.
      have hab : a = b := by
        rcases List.mem_cons.1 ((h a).1 (by simp)) with hab | hab
        · exact hab
        · rcases List.mem_cons.1 ((h b).2 (by simp)) with hba | hba
          · exact hba.symm
          · have h₁ := hb a hab
            have h₂ := ha b hba
            exact absurd (Std.TransCmp.lt_trans h₁ h₂) (by simp)
      subst hab
      congr 1
      -- No tail holds the head once more, so that the tails have the same members too.
      refine ih hl htl fun x => ⟨fun hx => ?_, fun hx => ?_⟩
      · rcases List.mem_cons.1 ((h x).1 (List.mem_cons_of_mem _ hx)) with rfl | hx'
        · exact absurd rfl (ne_of_lt (ha _ hx))
        · exact hx'
      · rcases List.mem_cons.1 ((h x).2 (List.mem_cons_of_mem _ hx)) with rfl | hx'
        · exact absurd rfl (ne_of_lt (hb _ hx))
        · exact hx'

omit [Std.LawfulEqOrd α] in
/-- A set is known by its members, since only one list has them in increasing order. -/
@[ext] theorem ext {s t : SortedSet α} (h : ∀ x, x ∈ s ↔ x ∈ t) : s = t := by
  cases s
  cases t
  congr 1
  exact eq_of_mem_iff (by assumption) (by assumption) h

omit [Std.TransOrd α] [Std.LawfulEqOrd α] in
theorem toList_injective {s t : SortedSet α} (h : s.toList = t.toList) : s = t := by
  cases s
  cases t
  cases h
  rfl

instance [DecidableEq α] : DecidableEq (SortedSet α) := fun s t =>
  if h : s.toList = t.toList then isTrue (toList_injective h)
  else isFalse fun hst => h (hst ▸ rfl)

/-- The image of a set, in the order of the image. -/
def map {β : Type} [Ord β] [Std.TransOrd β] [Std.LawfulEqOrd β] (s : SortedSet α) (f : α → β) :
    SortedSet β :=
  ofList (s.toList.map f)

omit [Std.TransOrd α] [Std.LawfulEqOrd α] in
/-- The image has what the members are mapped to, each once. -/
@[simp] theorem mem_map {β : Type} [Ord β] [Std.TransOrd β] [Std.LawfulEqOrd β] {s : SortedSet α}
    {f : α → β} {y : β} : y ∈ s.map f ↔ ∃ x, x ∈ s ∧ f x = y := by
  rw [map, mem_ofList, List.mem_map]
  exact Iff.rfl

end SortedSet
end Bridgework
