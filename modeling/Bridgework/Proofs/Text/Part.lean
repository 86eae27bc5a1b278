import Bridgework.Text.Part

/-!
# Texts within texts

- `Text.endsIn_iff`, `Text.hasPart_toList_iff` : one text at the end of another, or somewhere in it
- `Text.eq_of_append_cons`, `Text.eq_of_append_cons_of_not_mem` : a text cut at a character
-/

namespace Bridgework
namespace Text

/-- A text ends in another exactly if there is something that stands before it. -/
theorem endsIn_iff {s tail : String} : endsIn s tail = true ↔ ∃ front, s = front ++ tail := by
  rw [endsIn, List.isSuffixOf_iff_suffix]
  constructor
  · rintro ⟨front, hfront⟩
    refine ⟨String.ofList front, ?_⟩
    rw [← String.toList_inj, String.toList_append, String.toList_ofList, hfront]
  · rintro ⟨front, rfl⟩
    rw [String.toList_append]
    exact List.suffix_append _ _

theorem hasPart_iff {part s : List Char} : hasPart part s = true ↔ part <:+: s := by
  induction s with
  | nil => rw [hasPart, List.isEmpty_iff, List.infix_nil]
  | cons c s ih => rw [hasPart, Bool.or_eq_true, List.isPrefixOf_iff_prefix, ih, List.infix_cons_iff]

/-- A text has another as a part exactly if something, maybe nothing, stands on both sides of it. -/
theorem hasPart_toList_iff {part s : String} :
    hasPart part.toList s.toList = true ↔ ∃ front back, s = front ++ part ++ back := by
  rw [hasPart_iff]
  constructor
  · rintro ⟨front, back, h⟩
    refine ⟨String.ofList front, String.ofList back, ?_⟩
    rw [← String.toList_inj, ← h]
    simp
  · rintro ⟨front, back, rfl⟩
    exact ⟨front.toList, back.toList, by simp⟩

/-- A list is cut in one way at the first occurrence of a member. -/
theorem eq_of_append_cons {α : Type} {x : α} {a b r s : List α} (ha : ¬ x ∈ a) (hb : ¬ x ∈ b)
    (h : a ++ x :: r = b ++ x :: s) : a = b ∧ r = s := by
  rcases List.append_eq_append_iff.1 h with ⟨c, rfl, hc⟩ | ⟨c, rfl, hc⟩
  · cases c with
    | nil => exact ⟨(List.append_nil a).symm, (List.cons.inj hc).2⟩
    | cons y c =>
      obtain ⟨rfl, _⟩ := List.cons.inj hc
      exact absurd (List.mem_append_right a List.mem_cons_self) hb
  · cases c with
    | nil => exact ⟨List.append_nil b, (List.cons.inj hc).2.symm⟩
    | cons y c =>
      obtain ⟨rfl, _⟩ := List.cons.inj hc
      exact absurd (List.mem_append_right b List.mem_cons_self) ha

/-- A list is cut in one way at the last occurrence of a member. -/
theorem eq_of_append_cons_of_not_mem {α : Type} {x : α} {a b r s : List α} (hr : ¬ x ∈ r) (hs : ¬ x ∈ s)
    (h : a ++ x :: r = b ++ x :: s) : a = b ∧ r = s := by
  have hreverse : r.reverse ++ x :: a.reverse = s.reverse ++ x :: b.reverse := by
    simpa using congrArg List.reverse h
  obtain ⟨hrs, hab⟩ := eq_of_append_cons (by simpa using hr) (by simpa using hs) hreverse
  exact ⟨List.reverse_inj.1 hab, List.reverse_inj.1 hrs⟩

end Text
end Bridgework
