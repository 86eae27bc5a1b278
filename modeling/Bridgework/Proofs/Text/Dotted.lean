import Bridgework.Text.Dotted

/-!
# Parts of dotted names

The first part of a dotted name without a search: what stands before a dot, with no dot in it, or the
whole name if it has no dot. And what can stand between dots: identifiers, by the ranges of their characters.

- `Text.IsFirstPart` : the first part of a name
- `Text.firstPart_eq_iff` : it is what the search finds
- `Text.IsIdentifier`, `Text.isIdentifier_iff` : identifiers
-/

namespace Bridgework
namespace Text

/-- A part without a dot with which a dotted name begins. -/
def IsFirstPart (part name : String) : Prop :=
  ¬ '.' ∈ part.toList ∧ (name = part ∨ ∃ rest : String, name = part ++ "." ++ rest)

/-- What stands before the first `c` is the part without it that a `c`, or nothing, follows. -/
theorem takeWhile_ne_eq_iff {c : Char} {s p : List Char} :
    s.takeWhile (· != c) = p ↔ ¬ c ∈ p ∧ (s = p ∨ ∃ rest, s = p ++ c :: rest) := by
  induction s generalizing p with
  | nil =>
    constructor
    · rintro rfl
      exact ⟨List.not_mem_nil, .inl rfl⟩
    · rintro ⟨_, rfl | ⟨rest, hrest⟩⟩
      · rfl
      · simp at hrest
  | cons d s ih =>
    -- At the first `c` the part ends; every other character belongs to it.
    by_cases hd : d = c
    · subst hd
      rw [List.takeWhile_cons_of_neg (by simp)]
      constructor
      · rintro rfl
        exact ⟨List.not_mem_nil, .inr ⟨s, rfl⟩⟩
      · rintro ⟨hp, hs⟩
        cases p with
        | nil => rfl
        | cons e p =>
          have hde : d = e := by
            rcases hs with hs | ⟨rest, hs⟩
            · exact (List.cons.inj hs).1
            · exact (List.cons.inj hs).1
          exact absurd (hde ▸ List.mem_cons_self) hp
    · rw [List.takeWhile_cons_of_pos (by simp [hd])]
      cases p with
      | nil =>
        refine iff_of_false (List.cons_ne_nil _ _) ?_
        rintro ⟨_, hs | ⟨rest, hs⟩⟩
        · cases hs
        · exact hd (List.cons.inj hs).1
      | cons e p =>
        have hce : d = e → c ≠ e := fun hde hce => hd (hde.trans hce.symm)
        simp only [List.cons.injEq, ih, List.mem_cons, List.cons_append, not_or, exists_and_left]
        constructor
        · rintro ⟨hde, hp, hs⟩
          exact ⟨⟨hce hde, hp⟩, hs.imp (And.intro hde) (And.intro hde)⟩
        · rintro ⟨⟨_, hp⟩, ⟨hde, hs⟩ | ⟨hde, hs⟩⟩
          · exact ⟨hde, hp, .inl hs⟩
          · exact ⟨hde, hp, .inr hs⟩

/-- The first part of a dotted name is told from the others by its own definition. -/
theorem firstPart_eq_iff {name part : String} : firstPart name = part ↔ IsFirstPart part name := by
  have hlist : firstPart name = part ↔ name.toList.takeWhile (· != '.') = part.toList := by
    rw [firstPart, ← String.toList_inj, String.toList_ofList]
  have hrest : (∃ rest : List Char, name.toList = part.toList ++ '.' :: rest) ↔
      ∃ rest : String, name = part ++ "." ++ rest := by
    constructor
    · rintro ⟨rest, hname⟩
      refine ⟨String.ofList rest, ?_⟩
      rw [← String.toList_inj, hname]
      simp
    · rintro ⟨rest, rfl⟩
      exact ⟨rest.toList, by simp⟩
  rw [hlist, takeWhile_ne_eq_iff, hrest, String.toList_inj]
  rfl

/-! ## Identifiers -/

/-- A letter from A to Z, in upper or lower case, or an underscore. -/
def IsWordStart (c : Char) : Prop := ('A' ≤ c ∧ c ≤ 'Z') ∨ ('a' ≤ c ∧ c ≤ 'z') ∨ c = '_'

/-- Such a character, or a digit from 0 to 9. -/
def IsWordChar (c : Char) : Prop := IsWordStart c ∨ ('0' ≤ c ∧ c ≤ '9')

/-- One or more of these characters, of which the first is no digit. -/
def IsIdentifier (s : String) : Prop :=
  ∃ c t, s.toList = c :: t ∧ IsWordStart c ∧ ∀ d ∈ t, IsWordChar d

theorem isAlpha_iff {c : Char} : c.isAlpha = true ↔ ('A' ≤ c ∧ c ≤ 'Z') ∨ ('a' ≤ c ∧ c ≤ 'z') := by
  have hranges : c.isAlpha = (decide ('A' ≤ c ∧ c ≤ 'Z') || (decide ('a' ≤ c) && decide (c ≤ 'z'))) := rfl
  simp [hranges]

theorem isIdentifierStart_iff {c : Char} : isIdentifierStart c = true ↔ IsWordStart c := by
  rw [isIdentifierStart, Bool.or_eq_true, isAlpha_iff, beq_iff_eq, or_assoc]
  rfl

theorem isDigit_iff {c : Char} : c.isDigit = true ↔ '0' ≤ c ∧ c ≤ '9' := by
  simp [Char.isDigit, Char.le_def]

/-- The check of identifiers decides the definition of them. -/
theorem isIdentifier_iff {s : String} : isIdentifier s = true ↔ IsIdentifier s := by
  unfold isIdentifier IsIdentifier
  cases s.toList with
  | nil => simp [isIdentifierChars]
  | cons c t =>
    simp only [isIdentifierChars, Bool.and_eq_true, List.all_eq_true, Bool.or_eq_true, isIdentifierStart_iff,
      isDigit_iff, List.cons.injEq]
    constructor
    · intro h
      exact ⟨c, t, ⟨rfl, rfl⟩, h⟩
    · rintro ⟨_, _, ⟨rfl, rfl⟩, h⟩
      exact h

/-- A character that is in no range of an identifier is in no identifier. -/
theorem IsIdentifier.not_mem {s : String} (hs : IsIdentifier s) {c : Char} (hc : ¬ IsWordChar c) :
    ¬ c ∈ s.toList := by
  obtain ⟨d, t, hchars, hd, ht⟩ := hs
  rw [hchars, List.mem_cons]
  rintro (rfl | hmem)
  · exact hc (.inl hd)
  · exact hc (ht c hmem)

instance decidableIsWordStart (c : Char) : Decidable (IsWordStart c) := inferInstanceAs (Decidable (_ ∨ _))

instance decidableIsWordChar (c : Char) : Decidable (IsWordChar c) := inferInstanceAs (Decidable (_ ∨ _))

end Text
end Bridgework
