import Bridgework.Analysis.Job

/-!
# The packages of jobs

An analysis looks at the client and at each dependency once, in the order of identities. Where a package is
installed in one way only, nothing else about the list of dependencies matters.

- `Job.mem_of_mem_packages` : only the client and its dependencies are looked at
- `Job.SameWork` : dependencies that differ in order, repetitions and the client at most
- `Job.SameWork.packages_eq` : then the same packages are looked at in the same order
-/

namespace Bridgework
namespace Job

variable {j j' : Job} {p d : InstalledPackage} {k : Package}

theorem mem_of_get?_installed (h : j.installed.get? k = some d) :
    d ∈ j.dependencies ∧ d.package = k := by
  rcases SortedMap.get?_insertMany_cases h with hmem | hempty
  · rcases List.mem_map.1 hmem with ⟨e, he, heq⟩
    cases heq
    exact ⟨List.mem_reverse.1 he, rfl⟩
  · cases hempty

/-- A dependency is found by its package if there is one installation of it. -/
theorem get?_installed_eq_some_iff
    (hone : ∀ p ∈ j.dependencies, ∀ q ∈ j.dependencies, p.package = k → q.package = k → p = q) :
    j.installed.get? k = some d ↔ d ∈ j.dependencies ∧ d.package = k := by
  refine ⟨mem_of_get?_installed, ?_⟩
  rintro ⟨hd, rfl⟩
  have hsome : (j.installed.get? d.package).isSome := by
    apply SortedMap.isSome_get?_insertMany
    refine .inl (List.mem_map.2 ⟨(d.package, d), ?_, rfl⟩)
    exact List.mem_map.2 ⟨d, List.mem_reverse.2 hd, rfl⟩
  rcases Option.isSome_iff_exists.1 hsome with ⟨e, he⟩
  have hsame := mem_of_get?_installed he
  rw [he, hone e hsame.1 d hd hsame.2 rfl]

theorem mem_of_mem_packages (h : p ∈ j.packages) : p ∈ j.client :: j.dependencies := by
  rcases List.mem_cons.1 h with rfl | hp
  · exact List.mem_cons_self
  · rcases List.mem_map.1 hp with ⟨e, he, rfl⟩
    have hget := SortedMap.get?_eq_some_iff.2 he
    rw [SortedMap.get?_erase] at hget
    split at hget
    · cases hget
    · exact List.mem_cons_of_mem _ (mem_of_get?_installed hget).1

/-- Jobs with the same packages, in the same order, have the same installations. -/
theorem packages_eq_of_ids_eq
    (hone : ∀ p ∈ j.packages, ∀ q ∈ j'.packages, p.package = q.package → p = q)
    (hids : j.packages.map (·.package) = j'.packages.map (·.package)) : j.packages = j'.packages := by
  generalize j.packages = ps at hone hids
  generalize j'.packages = qs at hone hids
  induction ps generalizing qs with
  | nil => exact (List.map_eq_nil_iff.1 hids.symm).symm
  | cons p ps ih =>
    cases qs with
    | nil => cases hids
    | cons q qs =>
      obtain ⟨hid, hrest⟩ := List.cons.inj hids
      have hhead := hone p List.mem_cons_self q List.mem_cons_self hid
      have htail := ih qs (fun p' hp' q' hq' =>
        hone p' (List.mem_cons_of_mem p hp') q' (List.mem_cons_of_mem q hq')) hrest
      rw [hhead, htail]

/-- The same client, and the same dependencies but for their order, repetitions and the client. -/
def SameWork (j j' : Job) : Prop :=
  j.client = j'.client ∧
    ∀ d : InstalledPackage, d.package ≠ j.client.package → (d ∈ j.dependencies ↔ d ∈ j'.dependencies)

/-- The order and the repetitions of dependencies do not matter for the packages of a job. -/
theorem SameWork.packages_eq (h : SameWork j j')
    (hone : ∀ p ∈ j.dependencies, ∀ q ∈ j.dependencies, p.package = q.package → p = q) :
    j.packages = j'.packages := by
  have hmaps : j.installed.erase j.client.package = j'.installed.erase j.client.package := by
    apply SortedMap.ext_get?
    intro k
    by_cases hk : k = j.client.package
    · subst hk
      simp [SortedMap.get?_erase]
    · rw [SortedMap.get?_erase_of_ne hk, SortedMap.get?_erase_of_ne hk]
      apply Option.ext
      intro d
      -- Away from the client both jobs have the same installations of the package `k`.
      have hmem (d : InstalledPackage) (hd : d.package = k) : d ∈ j.dependencies ↔ d ∈ j'.dependencies :=
        h.2 d (hd ▸ hk)
      rw [get?_installed_eq_some_iff fun p hp q hq hpk hqk => hone p hp q hq (hpk.trans hqk.symm),
        get?_installed_eq_some_iff fun p hp q hq hpk hqk =>
          hone p ((hmem p hpk).2 hp) q ((hmem q hqk).2 hq) (hpk.trans hqk.symm)]
      constructor
      · rintro ⟨hd, hdk⟩
        exact ⟨(hmem d hdk).1 hd, hdk⟩
      · rintro ⟨hd, hdk⟩
        exact ⟨(hmem d hdk).2 hd, hdk⟩
  rw [packages, packages, ← h.1, hmaps]

end Job
end Bridgework
