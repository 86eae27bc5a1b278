import Bridgework.Install.ModuleName
import Bridgework.Proofs.Path.Names
import Bridgework.Proofs.Text.Dotted
import Bridgework.Proofs.Text.Part

/-!
# The names of module files

A file can be imported if the directories on the way to it and its stem are identifiers. The dotted name of
the module is made of these, and each of its parts is an identifier again. A module in one file, a module in
a shared object and a package in a directory have the same name if they stand in the same place.

- `Install.IsStem` : the stem of a file name
- `Install.IsModuleFile` : the files that can be imported, with their names
- `Install.moduleName?_eq_some_iff` : these are the files with a name
- `Install.moduleName?_exact` : the same, with what follows for the parts of names and for the three layouts
-/

namespace Bridgework
namespace Install

open Text (IsIdentifier)

/-! ## Stems -/

/-- What stands before `.py` at the end of a file name, or before the first dot of a file name in `.so`. -/
def IsStem (file stem : String) : Prop :=
  file = stem ++ ".py" ∨ (∃ front, file = front ++ ".so") ∧ Text.IsFirstPart stem file

theorem append_py_ne_append_so (s t : String) : s ++ ".py" ≠ t ++ ".so" := by
  intro h
  have hlast := congrArg (fun u : String => u.toList.getLast?) h
  simp at hlast

/-- Leaving out three characters leaves the stem. -/
theorem take_append_py (s : String) :
    String.ofList ((s ++ ".py").toList.take ((s ++ ".py").length - 3)) = s := by
  have hlength : (s ++ ".py").length - 3 = s.toList.length := by
    rw [String.length_append, String.length_toList]
    rfl
  rw [← String.toList_inj, String.toList_ofList, hlength, String.toList_append, List.take_left]

/-- The stem of a file name, by what stands before its end. -/
theorem stem?_eq_some_iff {file stem : String} : stem? file = some stem ↔ IsStem file stem := by
  unfold stem? IsStem
  by_cases hpy : Text.endsIn file ".py" = true
  · obtain ⟨front, rfl⟩ := Text.endsIn_iff.1 hpy
    -- No name has both endings, so it does not matter which is tried first.
    have hso : ¬ ∃ t, front ++ ".py" = t ++ ".so" := fun ⟨t, ht⟩ => append_py_ne_append_so front t ht
    rw [if_pos hpy, take_append_py, Option.some.injEq, or_iff_left fun h => hso h.1]
    simp
  · have hnot : ¬ file = stem ++ ".py" := fun h => hpy (Text.endsIn_iff.2 ⟨stem, h⟩)
    rw [if_neg hpy, or_iff_right hnot, ← Text.endsIn_iff, ← Text.firstPart_eq_iff]
    by_cases hso : Text.endsIn file ".so" = true
    · simp [hso]
    · simp [hso]

/-! ## Files with a name -/

/-- The file can be imported under the name. The stem `__init__` stands for the directory that the file is
in. -/
structure IsModuleFile (dirs : List String) (file stem name : String) : Prop where
  directories : ∀ d ∈ dirs, IsIdentifier d
  no_slash : ¬ '/' ∈ file.toList
  isStem : IsStem file stem
  isName : (stem ≠ "__init__" ∧ IsIdentifier stem ∧ name = ".".intercalate (dirs ++ [stem])) ∨
    (stem = "__init__" ∧ dirs ≠ [] ∧ name = ".".intercalate dirs)

theorem not_isWordChar_slash : ¬ Text.IsWordChar '/' := by decide

theorem not_isWordChar_dot : ¬ Text.IsWordChar '.' := by decide

variable {path name file stem : String} {dirs : List String}

/-- The name of a module by the directories and the file in its path. -/
theorem moduleName?_of_split (h : Text.split (Path.normalize path) '/' = dirs ++ [file]) :
    moduleName? path = some name ↔
      ∃ stem, stem? file = some stem ∧ (∀ d ∈ dirs, IsIdentifier d) ∧
        ((stem ≠ "__init__" ∧ IsIdentifier stem ∧ name = ".".intercalate (dirs ++ [stem])) ∨
          (stem = "__init__" ∧ dirs ≠ [] ∧ name = ".".intercalate dirs)) := by
  have hall : dirs.all Text.isIdentifier = true ↔ ∀ d ∈ dirs, IsIdentifier d := by
    simp only [List.all_eq_true, Text.isIdentifier_iff]
  have hname : moduleName? path = (stem? file).bind fun stem =>
      if !dirs.all Text.isIdentifier then none
      else if stem == "__init__" then if dirs.isEmpty then none else some (".".intercalate dirs)
      else if Text.isIdentifier stem then some (".".intercalate (dirs ++ [stem])) else none := by
    simp [moduleName?, h]
  -- The conditions are taken in the order in which they are checked.
  rw [hname, Option.bind_eq_some_iff]
  refine exists_congr fun stem => and_congr_right fun _ => ?_
  rw [← hall]
  by_cases hdirs : dirs.all Text.isIdentifier = true
  · by_cases hstem : stem = "__init__"
    · by_cases hempty : dirs = []
      · simp [hstem, hempty]
      · simp [hdirs, hstem, hempty, @eq_comm _ name]
    · by_cases hident : Text.isIdentifier stem = true
      · simp [hdirs, hstem, hident, ← Text.isIdentifier_iff, @eq_comm _ name]
      · simp [hdirs, hstem, hident, ← Text.isIdentifier_iff]
  · simp [hdirs]

/-- Exactly the files whose directories and stem are identifiers have a name. -/
theorem moduleName?_eq_some_iff :
    moduleName? path = some name ↔
      ∃ dirs file stem, Path.normalize path = "/".intercalate (dirs ++ [file]) ∧
        IsModuleFile dirs file stem name := by
  constructor
  · intro h
    -- A path has at least one part, the last of which is the file.
    rcases List.eq_nil_or_concat (Text.split (Path.normalize path) '/') with hnil | ⟨dirs, file, hsplit⟩
    · exact absurd hnil (Text.split_ne_nil _)
    · rw [List.concat_eq_append] at hsplit
      obtain ⟨stem, hstem, hdirs, hname⟩ := (moduleName?_of_split hsplit).1 h
      have hfile : file ∈ Text.split (Path.normalize path) '/' := by simp [hsplit]
      refine ⟨dirs, file, stem, ?_, hdirs, Text.not_mem_of_mem_split hfile, stem?_eq_some_iff.1 hstem, hname⟩
      rw [← hsplit, Text.intercalate_split (by rfl)]
  · rintro ⟨dirs, file, stem, hpath, h⟩
    -- Neither names of packages nor the file hold a slash, so that the path is split where it was
    -- joined.
    have hslash : ∀ n ∈ dirs ++ [file], ¬ '/' ∈ n.toList := by
      intro n hn
      rcases List.mem_append.1 hn with hn | hn
      · exact (h.directories n hn).not_mem not_isWordChar_slash
      · exact List.mem_singleton.1 hn ▸ h.no_slash
    have hsplit : Text.split (Path.normalize path) '/' = dirs ++ [file] := by
      rw [hpath, Path.split_intercalate (by simp) hslash]
    exact (moduleName?_of_split hsplit).2 ⟨stem, stem?_eq_some_iff.2 h.isStem, h.directories, h.isName⟩

/-- The parts of a dotted name are the identifiers that it is made of. -/
theorem IsModuleFile.isIdentifier_of_mem (h : IsModuleFile dirs file stem name) {part : String}
    (hpart : part ∈ Text.dottedParts name) : IsIdentifier part := by
  have hparts {ids : List String} (hne : ids ≠ []) (hids : ∀ d ∈ ids, IsIdentifier d)
      (hname : name = ".".intercalate ids) : IsIdentifier part := by
    have hsplit : Text.dottedParts name = ids := by
      rw [hname]
      exact Text.split_intercalate (by rfl) hne fun d hd => (hids d hd).not_mem not_isWordChar_dot
    exact hids part (hsplit ▸ hpart)
  rcases h.isName with ⟨_, hstem, hname⟩ | ⟨_, hne, hname⟩
  · refine hparts (by simp) (fun d hd => ?_) hname
    rcases List.mem_append.1 hd with hd | hd
    · exact h.directories d hd
    · exact List.mem_singleton.1 hd ▸ hstem
  · exact hparts hne h.directories hname

/-! ## Layouts -/

/-- An identifier, alone or with more behind it, is the name of an entry. -/
theorem isEntryName_append {d tail : String} (hd : IsIdentifier d) (hslash : ¬ '/' ∈ tail.toList)
    (hback : ¬ '\\' ∈ tail.toList) : Path.IsEntryName (d ++ tail) := by
  -- A word does not start with a dot, which is what the two special entries do.
  have hdot : (d ++ tail).toList.head? ≠ some '.' := by
    obtain ⟨c, t, hchars, hc, _⟩ := hd
    rw [String.toList_append, hchars, List.cons_append, List.head?_cons, ne_eq, Option.some.injEq]
    rintro rfl
    exact not_isWordChar_dot (.inl hc)
  constructor
  case ne_empty =>
    obtain ⟨c, t, hchars, _⟩ := hd
    intro hempty
    have hlist := String.toList_eq_nil_iff.2 hempty
    simp [hchars] at hlist
  case ne_dot =>
    intro h
    exact hdot (h ▸ rfl)
  case ne_dots =>
    intro h
    exact hdot (h ▸ rfl)
  case no_slash =>
    rw [String.toList_append, List.mem_append, not_or]
    exact ⟨hd.not_mem not_isWordChar_slash, hslash⟩
  case no_backslash =>
    rw [String.toList_append, List.mem_append, not_or]
    exact ⟨hd.not_mem (by decide), hback⟩

/-- A file that can be imported under a name has that name. -/
theorem IsModuleFile.moduleName?_eq (h : IsModuleFile dirs file stem name) (hfile : Path.IsEntryName file) :
    moduleName? ("/".intercalate (dirs ++ [file])) = some name := by
  refine moduleName?_eq_some_iff.2 ⟨dirs, file, stem, Path.normalize_intercalate fun n hn => ?_, h⟩
  rcases List.mem_append.1 hn with hn | hn
  · have hname : Path.IsEntryName (n ++ "") := isEntryName_append (h.directories n hn) (by simp) (by simp)
    rwa [String.append_empty] at hname
  · exact List.mem_singleton.1 hn ▸ hfile

section Layouts

variable {c tag : String} (hdirs : ∀ d ∈ dirs, IsIdentifier d) (hc : IsIdentifier c)
include hdirs hc

theorem moduleName?_source (hinit : c ≠ "__init__") :
    moduleName? ("/".intercalate (dirs ++ [c]) ++ ".py") = some (".".intercalate (dirs ++ [c])) := by
  have hfile : Path.IsEntryName (c ++ ".py") := isEntryName_append hc (by decide) (by decide)
  rw [← Text.intercalate_concat_append]
  exact IsModuleFile.moduleName?_eq ⟨hdirs, hfile.no_slash, .inl rfl, .inl ⟨hinit, hc, rfl⟩⟩ hfile

theorem moduleName?_native (hinit : c ≠ "__init__") (hslash : ¬ '/' ∈ tag.toList)
    (hback : ¬ '\\' ∈ tag.toList) :
    moduleName? ("/".intercalate (dirs ++ [c]) ++ "." ++ tag ++ ".so") =
      some (".".intercalate (dirs ++ [c])) := by
  have htail : ("." ++ tag ++ ".so").toList = '.' :: tag.toList ++ ['.', 's', 'o'] := by simp
  have hfile : Path.IsEntryName (c ++ ("." ++ tag ++ ".so")) :=
    isEntryName_append hc (by simp [htail, hslash]) (by simp [htail, hback])
  have hstem : IsStem (c ++ ("." ++ tag ++ ".so")) c := by
    refine .inr ⟨⟨c ++ "." ++ tag, ?_⟩, hc.not_mem not_isWordChar_dot, .inr ⟨tag ++ ".so", ?_⟩⟩
    · simp only [String.append_assoc]
    · simp only [String.append_assoc]
  have hpath : "/".intercalate (dirs ++ [c]) ++ "." ++ tag ++ ".so" =
      "/".intercalate (dirs ++ [c ++ ("." ++ tag ++ ".so")]) := by
    rw [Text.intercalate_concat_append]
    simp only [String.append_assoc]
  rw [hpath]
  exact IsModuleFile.moduleName?_eq ⟨hdirs, hfile.no_slash, hstem, .inl ⟨hinit, hc, rfl⟩⟩ hfile

theorem moduleName?_package :
    moduleName? ("/".intercalate (dirs ++ [c]) ++ "/__init__.py") = some (".".intercalate (dirs ++ [c])) := by
  have hall : ∀ d ∈ dirs ++ [c], IsIdentifier d := by
    intro d hd
    rcases List.mem_append.1 hd with hd | hd
    · exact hdirs d hd
    · exact List.mem_singleton.1 hd ▸ hc
  have hpath : "/".intercalate (dirs ++ [c] ++ ["__init__.py"]) =
      "/".intercalate (dirs ++ [c]) ++ "/" ++ "/".intercalate ["__init__.py"] :=
    String.intercalate_append_of_ne_nil (by simp) (by simp)
  have hslash : "/" ++ "__init__.py" = "/__init__.py" := rfl
  rw [String.intercalate_singleton, String.append_assoc, hslash] at hpath
  rw [← hpath]
  exact IsModuleFile.moduleName?_eq ⟨hall, by decide, .inl rfl, .inr ⟨rfl, by simp, rfl⟩⟩ (by decide)

end Layouts

/-- A path has a name exactly if its stored form is a way through directories to a file and these and the
stem of the file are identifiers, and then the name is put together from them. Every part of a name is an
identifier. For identifiers of which the last is not `__init__`, the module of their name can be a file in
`.py`, a file in `.so` with any tag before that, or a directory with a file `__init__.py`. -/
theorem moduleName?_exact (path name : String) :
    (moduleName? path = some name ↔
      ∃ dirs file stem, Path.normalize path = "/".intercalate (dirs ++ [file]) ∧
        IsModuleFile dirs file stem name) ∧
    (moduleName? path = some name → ∀ part ∈ Text.dottedParts name, IsIdentifier part) ∧
    ∀ ids : List String, ids ≠ [] → (∀ d ∈ ids, IsIdentifier d) → ids.getLast? ≠ some "__init__" →
      ∀ tag : String, ¬ '/' ∈ tag.toList → ¬ '\\' ∈ tag.toList →
        moduleName? ("/".intercalate ids ++ ".py") = some (".".intercalate ids) ∧
        moduleName? ("/".intercalate ids ++ "." ++ tag ++ ".so") = some (".".intercalate ids) ∧
        moduleName? ("/".intercalate ids ++ "/__init__.py") = some (".".intercalate ids) := by
  refine ⟨moduleName?_eq_some_iff, fun h part hpart => ?_, fun ids hne hids hlast tag hslash hback => ?_⟩
  · obtain ⟨dirs, file, stem, _, hfile⟩ := moduleName?_eq_some_iff.1 h
    exact hfile.isIdentifier_of_mem hpart
  -- The last name is the file or the innermost package.
  · rcases List.eq_nil_or_concat ids with rfl | ⟨dirs, c, rfl⟩
    · exact absurd rfl hne
    · rw [List.concat_eq_append] at hids hlast ⊢
      have hdirs : ∀ d ∈ dirs, IsIdentifier d := fun d hd => hids d (List.mem_append_left _ hd)
      have hc : IsIdentifier c := hids c (by simp)
      have hinit : c ≠ "__init__" := fun h => hlast (by simp [h])
      exact ⟨moduleName?_source hdirs hc hinit, moduleName?_native hdirs hc hinit hslash hback,
        moduleName?_package hdirs hc⟩

/-- The module `pkg._native` in its three layouts. -/
theorem moduleName?_exact_native :
    (∀ d ∈ ["pkg", "_native"], IsIdentifier d) ∧
    moduleName? ("/".intercalate ["pkg", "_native"] ++ ".py") = some (".".intercalate ["pkg", "_native"]) ∧
    moduleName? ("/".intercalate ["pkg", "_native"] ++ "." ++ "cpython-311-x86_64-linux-gnu" ++ ".so") =
      some (".".intercalate ["pkg", "_native"]) ∧
    moduleName? ("/".intercalate ["pkg", "_native"] ++ "/__init__.py") =
      some (".".intercalate ["pkg", "_native"]) := by
  have hids : ∀ d ∈ ["pkg", "_native"], IsIdentifier d := by
    simp only [← Text.isIdentifier_iff]
    decide
  exact ⟨hids, (moduleName?_exact "pkg/_native.py" "pkg._native").2.2 ["pkg", "_native"] (by decide) hids
    (by decide) "cpython-311-x86_64-linux-gnu" (by decide) (by decide)⟩

end Install
end Bridgework
