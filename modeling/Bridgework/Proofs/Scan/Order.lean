import Bridgework.Proofs.Collection.Increasing
import Bridgework.Scan.Recovery

/-!
# The order of what was found

The table of a walk lists the objects that were found in an order of its own, which may depend on their
identities. A report sorts them by their names, and objects of one name stay in the order of the table. That
order is lost further on: bridges, modules and libraries are collected in sets, and the rest is counted.

- `Scan.collect_eq_of_perm` : the report on objects that come in another order
- `Scan.reportOn_eq_collect` : sorting makes no difference
- `Scan.reportOn_eq_of_perm` : nor does the order of the table
-/

namespace Bridgework

/-- Sorting forgets the order of a list. -/
theorem SortedSet.ofList_eq_of_perm {α : Type} [Ord α] [Std.TransOrd α] [Std.LawfulEqOrd α] {l l' : List α}
    (h : l.Perm l') : SortedSet.ofList l = SortedSet.ofList l' := by
  ext a
  rw [SortedSet.mem_ofList, SortedSet.mem_ofList]
  exact h.mem_iff

namespace Scan

variable {g : Ground} {r : Resolver} {package : Package} {e : Entries} {found found' : List Found}

/-- Sets and counts are all that a report makes of the objects. -/
theorem collect_eq_of_perm (h : found.Perm found') :
    collect g r package e found = collect g r package e found' := by
  have hlanded : (found.filter fun f => !(bridgesOf r f).isEmpty).Perm
      (found'.filter fun f => !(bridgesOf r f).isEmpty) := h.filter _
  have hlandings : (found.flatMap (bridgesOf r) ++ importLandings g e.paths).Perm
      (found'.flatMap (bridgesOf r) ++ importLandings g e.paths) := (h.flatMap_right _).append_right _
  have hbridges := SortedSet.ofList_eq_of_perm (hlandings.map (·.bridge))
  have hlibraries := SortedSet.ofList_eq_of_perm (hlandings.map (·.path))
  have hmodules := SortedSet.ofList_eq_of_perm (hlanded.map (·.origin))
  unfold collect
  dsimp only
  rw [hbridges, hlibraries, hmodules, hlanded.length_eq, h.length_eq]

/-- Nothing in a report depends on the order in which objects are taken. -/
theorem reportOn_eq_collect (listed : List Found) :
    reportOn g r package e listed = collect g r package e listed :=
  collect_eq_of_perm (List.mergeSort_perm listed _)

/-- The order in which the table lists objects does not matter. -/
theorem reportOn_eq_of_perm {listed listed' : List Found} (h : listed.Perm listed') :
    reportOn g r package e listed = reportOn g r package e listed' := by
  rw [reportOn_eq_collect, reportOn_eq_collect, collect_eq_of_perm h]

/-- The report of a scan, with the objects as they were found one after another. -/
theorem recover_eq_collect (g : Ground) (r : Resolver) (package : Package) (entries : List String) :
    recover g r package entries =
      collect g r package (enterAll g entries) ((enterAll g entries).walk.found.map Prod.snd) :=
  reportOn_eq_collect _

end Scan
end Bridgework
