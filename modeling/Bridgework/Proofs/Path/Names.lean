import Bridgework.Proofs.Path
import Bridgework.Proofs.Text.Split

/-!
# Paths made of names

The names on the way to a file, with slashes between them, are a path that is stored as it is, and the names
can be read off it.

- `Path.IsEntryName` : what can be the name of a file or directory
- `Path.normalize_intercalate` : names with slashes between them are stored as they are
- `Path.fileName_intercalate`, `Path.intercalate_injective` : the names behind a path
-/

namespace Bridgework
namespace Path

/-- A name that an entry of a directory can have, without a backslash. -/
structure IsEntryName (name : String) : Prop where
  ne_empty : name ≠ ""
  ne_dot : name ≠ "."
  ne_dots : name ≠ ".."
  no_slash : ¬ '/' ∈ name.toList
  no_backslash : ¬ '\\' ∈ name.toList

theorem isEntryName_iff {name : String} :
    IsEntryName name ↔ name ≠ "" ∧ name ≠ "." ∧ name ≠ ".." ∧ ¬ '/' ∈ name.toList ∧ ¬ '\\' ∈ name.toList :=
  ⟨fun ⟨h₁, h₂, h₃, h₄, h₅⟩ => ⟨h₁, h₂, h₃, h₄, h₅⟩, fun ⟨h₁, h₂, h₃, h₄, h₅⟩ => ⟨h₁, h₂, h₃, h₄, h₅⟩⟩

instance decidableIsEntryName (name : String) : Decidable (IsEntryName name) :=
  decidable_of_iff _ isEntryName_iff.symm

variable {names : List String}

/-- The first name is followed by a slash or by nothing. -/
theorem exists_intercalate_cons (n : String) (names : List String) :
    ∃ rest, ("/".intercalate (n :: names)).toList = n.toList ++ rest ∧ (rest = [] ∨ ∃ r, rest = '/' :: r) := by
  cases names with
  | nil => exact ⟨[], by simp, .inl rfl⟩
  | cons m names =>
    refine ⟨'/' :: ("/".intercalate (m :: names)).toList, ?_, .inr ⟨_, rfl⟩⟩
    rw [String.intercalate_cons_of_ne_nil (List.cons_ne_nil m names)]
    simp

/-- Names of entries with slashes between them are in stored form. -/
theorem normalize_intercalate (h : ∀ n ∈ names, IsEntryName n) :
    normalize ("/".intercalate names) = "/".intercalate names := by
  have hback : ¬ '\\' ∈ ("/".intercalate names).toList :=
    Text.not_mem_intercalate (by decide) fun n hn => (h n hn).no_backslash
  -- The first name is neither empty nor a dot and has no slash, so what is trimmed in front does not occur.
  have hstart : ¬ ['/'] <+: ("/".intercalate names).toList ∧
      ¬ ['.', '/'] <+: ("/".intercalate names).toList := by
    cases names with
    | nil => simp
    | cons n names =>
      have hn := h n List.mem_cons_self
      obtain ⟨rest, hpath, hrest⟩ := exists_intercalate_cons n names
      rw [hpath]
      cases hchars : n.toList with
      | nil => exact absurd (String.toList_eq_nil_iff.1 hchars) hn.ne_empty
      | cons c t =>
        have hslash : ¬ '/' ∈ c :: t := hchars ▸ hn.no_slash
        refine ⟨fun hpre => ?_, fun hpre => ?_⟩
        · rw [List.cons_append, List.cons_prefix_cons] at hpre
          exact hslash (hpre.1 ▸ List.mem_cons_self)
        · rw [List.cons_append, List.cons_prefix_cons] at hpre
          obtain ⟨rfl, hpre⟩ := hpre
          cases t with
          | nil => exact hn.ne_dot (String.toList_inj.1 hchars)
          | cons d t =>
            rw [List.cons_append, List.cons_prefix_cons] at hpre
            exact hslash (hpre.1 ▸ List.mem_cons_of_mem _ List.mem_cons_self)
  rw [← String.toList_inj, toList_normalize]
  exact normalizeChars_eq_self hstart.1 hstart.2 hback

/-! ## The names behind a path -/

/-- Such a path is cut into its names again. -/
theorem split_intercalate (hnames : names ≠ []) (h : ∀ n ∈ names, ¬ '/' ∈ n.toList) :
    Text.split ("/".intercalate names) '/' = names :=
  Text.split_intercalate (by rfl) hnames h

theorem fileName_eq (path : String) : fileName path = (Text.split path '/').getLast?.getD "" := by
  rw [fileName, Text.split, List.getLast?_map]
  cases (Text.splitOnChar '/' path.toList).getLast? with
  | none => rfl
  | some _ => rfl

theorem fileName_intercalate {dirs : List String} {file : String}
    (h : ∀ n ∈ dirs ++ [file], ¬ '/' ∈ n.toList) : fileName ("/".intercalate (dirs ++ [file])) = file := by
  rw [fileName_eq, split_intercalate (by simp) h]
  simp

/-- Different names make different paths. -/
theorem intercalate_injective {names' : List String} (hnames : names ≠ []) (hnames' : names' ≠ [])
    (h : ∀ n ∈ names, ¬ '/' ∈ n.toList) (h' : ∀ n ∈ names', ¬ '/' ∈ n.toList)
    (heq : "/".intercalate names = "/".intercalate names') : names = names' := by
  rw [← split_intercalate hnames h, heq, split_intercalate hnames' h']

end Path
end Bridgework
