import Bridgework.Bridge

/-!
# Stored forms of paths

The stored form of a path has slashes only and does not begin with one. It is not always stored as itself:
each `./` in front is dropped first and the slashes after that, so a `./` that stands behind slashes comes
to the front and stays. Exactly for these paths a second pass changes the result, and a bridge ends in
another library than the one at its path.

- `Path.HidesDot` : the paths with a `./` behind slashes
- `Path.dotSlash_prefix_normalizeChars_iff` : when the result begins with `./`
- `Path.normalizeChars_normalizeChars_iff` : when a second pass changes nothing
- `Path.library_identity_iff` : both, and the library in which a bridge ends
-/

namespace Bridgework
namespace Path

variable {s r : List Char}

/-! ## What is dropped -/

def dotSlashes (n : Nat) : List Char := (List.replicate n ['.', '/']).flatten

theorem dotSlashes_succ_append (n : Nat) (r : List Char) :
    dotSlashes (n + 1) ++ r = '.' :: '/' :: (dotSlashes n ++ r) := by
  rw [dotSlashes, List.replicate_succ, List.flatten_cons, List.append_assoc]
  rfl

/-- What is dropped in front are copies of `./`. -/
theorem exists_dotSlashes (s : List Char) : ∃ n, s = dotSlashes n ++ dropDotSlashes s := by
  fun_induction dropDotSlashes s with
  | case1 r ih =>
    obtain ⟨n, hn⟩ := ih
    refine ⟨n + 1, ?_⟩
    rw [dotSlashes_succ_append, ← hn]
  | case2 r _ => exact ⟨0, rfl⟩

/-- None is left in front. -/
theorem not_dotSlash_prefix_dropDotSlashes (s : List Char) : ¬ ['.', '/'] <+: dropDotSlashes s := by
  fun_induction dropDotSlashes s with
  | case1 r ih => exact ih
  | case2 r hr =>
    rintro ⟨rest, rfl⟩
    exact hr rest rfl

theorem dropDotSlashes_eq_self (h : ¬ ['.', '/'] <+: s) : dropDotSlashes s = s := by
  fun_cases dropDotSlashes s with
  | case1 r => exact absurd ⟨r, rfl⟩ h
  | case2 => rfl

theorem dropDotSlashes_append (n : Nat) (r : List Char) :
    dropDotSlashes (dotSlashes n ++ r) = dropDotSlashes r := by
  induction n with
  | zero => rfl
  | succ n ih => rw [dotSlashes_succ_append, dropDotSlashes, ih]

theorem dropSlashes_cons_of_ne {c : Char} (h : c ≠ '/') : dropSlashes (c :: r) = c :: r :=
  List.dropWhile_cons_of_neg fun hc => h (eq_of_beq hc)

/-- What is dropped in front are slashes. -/
theorem exists_slashes (s : List Char) : ∃ n, s = List.replicate n '/' ++ dropSlashes s := by
  induction s with
  | nil => exact ⟨0, rfl⟩
  | cons c s ih =>
    by_cases hc : c = '/'
    · subst hc
      obtain ⟨n, hn⟩ := ih
      exact ⟨n + 1, congrArg ('/' :: ·) hn⟩
    · exact ⟨0, (dropSlashes_cons_of_ne hc).symm⟩

theorem not_slash_prefix_dropSlashes (s : List Char) : ¬ ['/'] <+: dropSlashes s := by
  induction s with
  | nil => nofun
  | cons c s ih =>
    by_cases hc : c = '/'
    · subst hc
      exact ih
    · rw [dropSlashes_cons_of_ne hc, List.cons_prefix_cons]
      exact fun h => hc h.1.symm

theorem dropSlashes_eq_self (h : ¬ ['/'] <+: s) : dropSlashes s = s := by
  cases s with
  | nil => rfl
  | cons c s =>
    refine dropSlashes_cons_of_ne ?_
    rintro rfl
    exact h ⟨s, rfl⟩

theorem dropSlashes_append (n : Nat) (r : List Char) :
    dropSlashes (List.replicate n '/' ++ r) = dropSlashes r := by
  induction n with
  | zero => rfl
  | succ n ih => exact ih

/-! ## Slashes only -/

theorem not_mem_unify (s : List Char) : '\\' ∉ unify s := by
  intro h
  obtain ⟨c, _, hc⟩ := List.mem_map.1 h
  split at hc
  next => cases hc
  next hne => exact hne hc

theorem unify_eq_self (h : '\\' ∉ s) : unify s = s := by
  have hid : unify s = s.map id := by
    refine List.map_congr_left fun c hc => if_neg ?_
    rintro rfl
    exact h hc
  rw [hid, List.map_id]

/-- The stored form is the end of the path with its backslashes changed. -/
theorem normalizeChars_suffix (s : List Char) : normalizeChars s <:+ unify s := by
  obtain ⟨n, hn⟩ := exists_dotSlashes (unify s)
  exact (List.dropWhile_suffix _).trans ⟨dotSlashes n, hn.symm⟩

theorem not_mem_normalizeChars (s : List Char) : '\\' ∉ normalizeChars s :=
  fun h => not_mem_unify s ((normalizeChars_suffix s).mem h)

/-! ## The second pass -/

/-- Some copies of `./`, then slashes, and then a `./` that comes to the front when they are dropped. -/
def HidesDot (s : List Char) : Prop :=
  ∃ dots slashes rest,
    unify s = dotSlashes dots ++ (List.replicate (slashes + 1) '/' ++ '.' :: '/' :: rest)

/-- A stored form begins with `./` exactly if slashes stood between the dots. -/
theorem dotSlash_prefix_normalizeChars_iff : ['.', '/'] <+: normalizeChars s ↔ HidesDot s := by
  constructor
  · rintro ⟨rest, hrest⟩
    obtain ⟨dots, hdots⟩ := exists_dotSlashes (unify s)
    obtain ⟨slashes, hslashes⟩ := exists_slashes (dropDotSlashes (unify s))
    have hdropped : dropSlashes (dropDotSlashes (unify s)) = '.' :: '/' :: rest := hrest.symm
    rw [hdropped] at hslashes
    cases slashes with
    | zero =>
      -- Without slashes in between, the `./` would have been dropped with the others.
      exact absurd ⟨rest, hslashes.symm⟩ (not_dotSlash_prefix_dropDotSlashes (unify s))
    | succ slashes =>
      refine ⟨dots, slashes, rest, ?_⟩
      rw [← hslashes]
      exact hdots
  · rintro ⟨dots, slashes, rest, hs⟩
    have hslash : ¬ ['.', '/'] <+: List.replicate (slashes + 1) '/' ++ '.' :: '/' :: rest := by
      rw [List.replicate_succ, List.cons_append, List.cons_prefix_cons]
      exact fun h => absurd h.1 (by decide)
    have hdot : dropSlashes ('.' :: '/' :: rest) = '.' :: '/' :: rest :=
      dropSlashes_cons_of_ne (by decide)
    rw [normalizeChars, hs, dropDotSlashes_append, dropDotSlashes_eq_self hslash, dropSlashes_append, hdot]
    exact ⟨rest, rfl⟩

theorem normalizeChars_eq_self (hslash : ¬ ['/'] <+: s) (hdot : ¬ ['.', '/'] <+: s) (hs : '\\' ∉ s) :
    normalizeChars s = s := by
  rw [normalizeChars, unify_eq_self hs, dropDotSlashes_eq_self hdot, dropSlashes_eq_self hslash]

theorem not_dotSlash_prefix_of_eq_self (h : normalizeChars s = s) : ¬ ['.', '/'] <+: s := by
  rintro ⟨rest, rfl⟩
  -- What is left of the path is shorter by at least these two characters.
  have hunify : unify (['.', '/'] ++ rest) = ['.', '/'] ++ unify rest := List.map_append
  have hchars : normalizeChars (['.', '/'] ++ rest) = normalizeChars rest := by
    rw [normalizeChars, hunify]
    rfl
  have hlength := (normalizeChars_suffix rest).length_le
  rw [← hchars, h, unify, List.length_map, List.length_append] at hlength
  exact absurd hlength (by simp)

/-- Bringing a path to its stored form twice changes it where a `./` was hidden behind slashes. -/
theorem normalizeChars_normalizeChars_iff :
    normalizeChars (normalizeChars s) = normalizeChars s ↔ ¬ HidesDot s := by
  rw [← dotSlash_prefix_normalizeChars_iff]
  constructor
  · exact not_dotSlash_prefix_of_eq_self
  · intro hdot
    exact normalizeChars_eq_self (not_slash_prefix_dropSlashes _) hdot (not_mem_normalizeChars s)

theorem toList_normalize (path : String) : (normalize path).toList = normalizeChars path.toList :=
  String.toList_ofList

theorem normalize_normalize_iff {path : String} :
    normalize (normalize path) = normalize path ↔ ¬ HidesDot path.toList := by
  rw [← normalizeChars_normalizeChars_iff, ← String.toList_inj, toList_normalize, toList_normalize]

/-- The stored form of a path has no backslash and no slash in front. It has no `./` in front, it is its
own stored form, and every bridge with the path ends in the library at the path, exactly if the path hides
no `./` behind slashes. -/
theorem library_identity_iff (path : String) :
    '\\' ∉ (normalize path).toList ∧ ¬ ['/'] <+: (normalize path).toList ∧
    (¬ ['.', '/'] <+: (normalize path).toList ↔ ¬ HidesDot path.toList) ∧
    (normalize (normalize path) = normalize path ↔ ¬ HidesDot path.toList) ∧
    ∀ package callable symbol,
      (Bridge.of callable symbol path).target package = Library.ofPath package path ↔
        ¬ HidesDot path.toList := by
  rw [toList_normalize, dotSlash_prefix_normalizeChars_iff]
  refine ⟨not_mem_normalizeChars _, not_slash_prefix_dropSlashes _, Iff.rfl, normalize_normalize_iff, ?_⟩
  intro package callable symbol
  rw [← normalize_normalize_iff, Bridge.target, Bridge.of, Library.ofPath, Library.ofPath, Library.mk.injEq]
  exact and_iff_right rfl

/-- The path `.//./a.so` is stored as `./a.so`, which would be stored as `a.so`. -/
theorem library_identity_split :
    normalize ".//./a.so" = "./a.so" ∧ normalize (normalize ".//./a.so") = "a.so" ∧
      (Bridge.of "p.f" "f" ".//./a.so").target ⟨"p", "1"⟩ ≠ Library.ofPath ⟨"p", "1"⟩ ".//./a.so" := by
  decide

end Path
end Bridgework
